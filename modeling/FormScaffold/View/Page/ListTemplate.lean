/-!
# The component of the list page

What stands before and after the name of the component. Once generated it belongs to the editor of
the file.
-/

namespace FormScaffold.View

/-- The component up to its name. -/
def listHead : String :=
  r#"
function formatValue(value#{: any}#, column#{: any}#) {
  if (value === null || value === undefined) {
    return '';
  }
  if (column.control === 'checkbox') {
    return value ? 'Yes' : 'No';
  }
  return String(value);
}

export default function "#

/-- The component after its name. -/
def listTail : String :=
  r#"List({ onOpen }#{: { onOpen?: (name: string) => void }}#) {
  const [rows, setRows] = useState#{<any[]>}#([]);
  const [filters, setFilters] = useState#{<Record<string, any>>}#(FILTER_DEFAULTS);
  const [error, setError] = useState#{<string | null>}#(null);

  const load = useCallback(async () => {
    try {
      setRows(await resource.list({ fields: LIST_FIELDS, filters, limit: LIST_CONFIG.pageSize }));
      setError(null);
    } catch (e) {
      setError(String(e));
    }
  }, [filters]);

  useEffect(() => {
    load();
  }, [load]);
  useRealtime(load);

  return h(
    'div',
    { className: `doctype-list spacing-${LIST_CONFIG.spacing}` },
    FILTER_FIELDS.length
      ? h(
          'div',
          { className: 'doctype-list-filters' },
          FILTER_FIELDS.map((f) =>
            h('input', {
              key: f.fieldName,
              placeholder: f.label,
              value: filters[f.fieldName] || '',
              onChange: (e#{: any}#) => setFilters({ ...filters, [f.fieldName]: e.target.value }),
            }),
          ),
        )
      : null,
    error ? h('p', { className: 'doctype-error' }, error) : null,
    h(
      'table',
      null,
      h('thead', null, h('tr', null, h('th', null, 'ID'), ...COLUMNS.map((c) => h('th', { key: c.fieldName }, c.label)))),
      h(
        'tbody',
        null,
        rows.map((row) =>
          h(
            'tr',
            { key: row.name, onClick: () => onOpen && onOpen(row.name) },
            h('td', null, row.name),
            ...COLUMNS.map((c) => h('td', { key: c.fieldName }, formatValue(row[c.fieldName], c))),
          ),
        ),
      ),
    ),
  );
}
"#

end FormScaffold.View
