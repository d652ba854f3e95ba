/-!
# The component of the form page

What stands before and after the name of the component. Once generated it belongs to the editor of
the file.
-/

namespace FormScaffold.View

/-- The component up to its name. -/
def formHead : String :=
  r#"
function selectOptions(options#{: string | null}#)#{: string[]}# {
  return (options || '').split('\n').filter((o) => o !== '');
}

function Control({ field, value, state, onChange }#{: any}#) {
  const common = {
    id: field.fieldName,
    disabled: state.readOnly,
    required: state.required,
  };
  switch (field.control) {
    case 'checkbox':
      return h('input', { ...common, type: 'checkbox', checked: Boolean(value), onChange: (e#{: any}#) => onChange(e.target.checked ? 1 : 0) });
    case 'select':
      return h(
        'select',
        { ...common, value: value || '', onChange: (e#{: any}#) => onChange(e.target.value) },
        selectOptions(field.options).map((o) => h('option', { key: o, value: o }, o)),
      );
    case 'textarea':
    case 'code':
      return h('textarea', { ...common, value: value || '', onChange: (e#{: any}#) => onChange(e.target.value) });
    case 'number':
      return h('input', { ...common, type: 'number', value: value ?? '', onChange: (e#{: any}#) => onChange(e.target.valueAsNumber) });
    case 'date':
    case 'datetime':
    case 'time':
    case 'color':
    case 'password':
      return h('input', {
        ...common,
        type: field.control === 'datetime' ? 'datetime-local' : field.control,
        value: value || '',
        onChange: (e#{: any}#) => onChange(e.target.value),
      });
    case 'table':
      return h(ChildTable, { field, rows: value || [], readOnly: state.readOnly, onChange });
    case 'heading':
      return h('h4', null, field.label);
    case 'html':
    case 'button':
    case 'image':
      return null;
    case 'readonly':
      return h('span', null, value ?? '');
    default:
      return h('input', { ...common, type: 'text', value: value ?? '', onChange: (e#{: any}#) => onChange(e.target.value) });
  }
}

function ChildTable({ field, rows, readOnly, onChange }#{: any}#) {
  const table = CHILD_TABLES[field.fieldName];
  if (!table || !table.resolved) {
    return h('p', { className: 'doctype-error' }, `${field.label}: child table unavailable`);
  }
  const update = (index#{: number}#, fieldname#{: string}#, value#{: any}#) =>
    onChange(rows.map((row#{: any}#, i#{: number}#) => (i === index ? { ...row, [fieldname]: value } : row)));
  return h(
    'table',
    { className: 'doctype-child-table' },
    h('thead', null, h('tr', null, table.fields.map((f#{: any}#) => h('th', { key: f.fieldName }, f.label)))),
    h(
      'tbody',
      null,
      rows.map((row#{: any}#, index#{: number}#) =>
        h(
          'tr',
          { key: row.name || index },
          table.fields.map((f#{: any}#) => {
            const state = getChildFieldState(field.fieldName, f.fieldName, row);
            return h(
              'td',
              { key: f.fieldName },
              state.visible
                ? h(Control, {
                    field: f,
                    value: row[f.fieldName],
                    state: { ...state, readOnly: readOnly || state.readOnly },
                    onChange: (v#{: any}#) => update(index, f.fieldName, v),
                  })
                : null,
            );
          }),
        ),
      ),
    ),
    readOnly ? null : h('button', { type: 'button', onClick: () => onChange([...rows, {}]) }, 'Add Row'),
  );
}

function applyOverrides(state#{: any}#, override#{: any}#) {
  if (!override) {
    return state;
  }
  return {
    visible: override.hidden === undefined ? state.visible : !override.hidden,
    required: override.required === undefined ? state.required : Boolean(override.required),
    readOnly: override.readOnly === undefined ? state.readOnly : Boolean(override.readOnly),
  };
}

export default function "#

/-- The component after its name. -/
def formTail : String :=
  r#"Form({ name, roles = [] }#{: { name?: string; roles?: string[] }}#) {
  const [doc, setDoc] = useState#{<Record<string, any>>}#({ ...FORM_CONFIG.defaults });
  const [overrides, setOverrides] = useState#{<Record<string, any>>}#({});
  const [error, setError] = useState#{<string | null>}#(null);
  const docRef = useRef(doc);

  const frm = useMemo(
    () =>
      createForm({
        getDoc: () => docRef.current,
        setDoc: (next#{: Record<string, any>}#) => {
          docRef.current = next;
          setDoc(next);
        },
        setFieldProperty: (fieldname#{: string}#, property#{: string}#, value#{: any}#) =>
          setOverrides((prev#{: any}#) => ({ ...prev, [fieldname]: { ...prev[fieldname], [property]: value } })),
      }),
    [],
  );

  const load = useCallback(async () => {
    try {
      if (name) {
        const record = await getRecord(name);
        docRef.current = record;
        setDoc(record);
      }
      await runFormEvent('onload', frm);
      await runFormEvent('refresh', frm);
    } catch (e) {
      setError(String(e));
    }
  }, [name, frm]);

  useEffect(() => {
    load();
  }, [load]);
  useRealtime(load);

  const save = async () => {
    try {
      await runFormEvent('validate', frm);
      await runFormEvent('before_save', frm);
      const saved = name ? await updateRecord(name, docRef.current) : await createRecord(docRef.current);
      docRef.current = saved;
      setDoc(saved);
      await runFormEvent('after_save', frm);
      setError(null);
    } catch (e) {
      setError(String(e));
    }
  };

  const onChange = (fieldname#{: string}#, value#{: any}#) => {
    docRef.current = { ...docRef.current, [fieldname]: value };
    setDoc(docRef.current);
    runFieldChange(fieldname, frm);
  };

  const state = WORKFLOW.stateField ? doc[WORKFLOW.stateField] : null;
  const canWrite = can(name ? 'write' : 'create', roles);

  return h(
    'form',
    {
      className: `doctype-form columns-${FORM_CONFIG.columns} spacing-${FORM_CONFIG.spacing}`,
      onSubmit: (e#{: any}#) => {
        e.preventDefault();
        save();
      },
    },
    error ? h('p', { className: 'doctype-error' }, error) : null,
    SECTIONS.map((section#{: any}#, index#{: number}#) =>
      h(
        'section',
        { key: index, className: 'doctype-form-section' },
        section.label ? h('h3', null, section.label) : null,
        section.fields.map((field#{: any}#) => {
          const fieldState = applyOverrides(getFieldState(field.fieldName, doc), overrides[field.fieldName]);
          if (!fieldState.visible) {
            return null;
          }
          return h(
            'div',
            { key: field.fieldName, className: `doctype-field column-${field.column}` },
            h('label', { htmlFor: field.fieldName }, field.label),
            h(Control, {
              field,
              value: doc[field.fieldName],
              state: { ...fieldState, readOnly: fieldState.readOnly || !canWrite },
              onChange: (v#{: any}#) => onChange(field.fieldName, v),
            }),
          );
        }),
      ),
    ),
    h(
      'div',
      { className: 'doctype-form-actions' },
      canWrite ? h('button', { type: 'submit' }, 'Save') : null,
      name && state
        ? availableActions(state, roles).map((t#{: any}#) =>
            h('button', { key: t.action, type: 'button', onClick: () => runWorkflowAction(name, t.action).then(load) }, t.action),
          )
        : null,
    ),
  );
}
"#

end FormScaffold.View
