/-!
# Shared files: form object and hooks

The shared file that gives client scripts a form object and runs their handlers.
-/

namespace FormScaffold.View

/-- The registry of handlers and the form object. -/
def formObjectTemplate : String :=
  r#"const registry#{: Record<string, Array<Record<string, Function>>>}# = {};

export function registerHandlers(doctype#{: string}#, handlers#{: Record<string, Function>}#)#{: () => void}# {
  const list = registry[doctype] || (registry[doctype] = []);
  list.push(handlers);
  return () => {
    const index = list.indexOf(handlers);
    if (index >= 0) {
      list.splice(index, 1);
    }
  };
}

export async function trigger(doctype#{: string}#, event#{: string}#, frm#{: any}#, ...args#{: any[]}#)#{: Promise<void>}# {
  for (const handlers of registry[doctype] || []) {
    const handler = handlers[event];
    if (typeof handler === 'function') {
      await handler(frm, ...args);
    }
  }
}

export function triggerFieldChange(doctype#{: string}#, fieldname#{: string}#, frm#{: any}#)#{: Promise<void>}# {
  return trigger(doctype, fieldname, frm);
}

export function createFormShim({ doctype, getDoc, setDoc, setFieldProperty }#{: any}#) {
  const frm#{: any}# = {
    doctype,
    get doc() {
      return getDoc();
    },
    set_value(fieldname#{: any}#, value#{?: any}#) {
      const values = typeof fieldname === 'object' ? fieldname : { [fieldname]: value };
      setDoc({ ...getDoc(), ...values });
      return Promise.all(Object.keys(values).map((key) => triggerFieldChange(doctype, key, frm)));
    },
    toggle_display(fieldname#{: string}#, show#{: boolean}#) {
      setFieldProperty(fieldname, 'hidden', !show);
    },
    toggle_reqd(fieldname#{: string}#, required#{: boolean}#) {
      setFieldProperty(fieldname, 'required', required);
    },
    toggle_enable(fieldname#{: string}#, enable#{: boolean}#) {
      setFieldProperty(fieldname, 'readOnly', !enable);
    },
    set_df_property(fieldname#{: string}#, property#{: string}#, value#{: any}#) {
      const aliases#{: Record<string, string>}# = { reqd: 'required', read_only: 'readOnly' };
      setFieldProperty(fieldname, aliases[property] || property, value);
    },
    refresh_field() {},
    is_new() {
      const doc = getDoc();
      return !doc || !doc.name || Boolean(doc.__islocal);
    },
  };
  return frm;
}
"#

end FormScaffold.View
