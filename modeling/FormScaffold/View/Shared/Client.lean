/-!
# Shared files: access to records

The shared file that reads and writes records of the site.
-/

namespace FormScaffold.View

/-- Requests to the site, the client of one kind of records, and workflow actions. -/
def clientTemplate : String :=
  r#"const API_BASE_URL =
  (typeof import.meta !== 'undefined' && (import.meta#{ as any}#).env && (import.meta#{ as any}#).env.VITE_API_BASE_URL) || '';

function csrfToken()#{: string | undefined}# {
  const w#{: any}# = typeof window !== 'undefined' ? window : null;
  if (w && w.csrf_token && w.csrf_token !== '{{ csrf_token }}') {
    return w.csrf_token;
  }
  return undefined;
}

export async function httpRequest(method#{: string}#, url#{: string}#, data#{?: any}#)#{: Promise<any>}# {
  const headers#{: Record<string, string>}# = {
    'Content-Type': 'application/json',
    Accept: 'application/json',
  };
  const token = csrfToken();
  if (token) {
    headers['X-Frappe-CSRF-Token'] = token;
  }
  const config#{: RequestInit}# = { method, headers, credentials: 'include' };
  if (data !== undefined && method !== 'GET' && method !== 'DELETE') {
    config.body = JSON.stringify(data);
  }

  const response = await fetch(`${API_BASE_URL}${url}`, config);
  if (!response.ok) {
    const errorText = await response.text();
    let errorMessage = `HTTP ${response.status}: ${errorText}`;
    try {
      const errorJson = JSON.parse(errorText);
      errorMessage = errorJson.exception || errorJson.message || errorMessage;
    } catch (e) {
      // Keep the raw text when the body is not JSON
    }
    throw new Error(errorMessage);
  }
  if (response.status === 202 || response.status === 204) {
    return null;
  }
  const payload = await response.json();
  return payload.data !== undefined ? payload.data : payload.message;
}

function query(params#{: Record<string, any>}#)#{: string}# {
  const parts = Object.keys(params)
    .filter((key) => params[key] !== undefined && params[key] !== null)
    .map((key) => {
      const value = typeof params[key] === 'string' ? params[key] : JSON.stringify(params[key]);
      return `${encodeURIComponent(key)}=${encodeURIComponent(value)}`;
    });
  return parts.length ? `?${parts.join('&')}` : '';
}

function toFilterList(filters#{: Record<string, any>}#)#{: any[]}# {
  return Object.keys(filters || {})
    .filter((key) => filters[key] !== undefined && filters[key] !== null && filters[key] !== '')
    .map((key) => (Array.isArray(filters[key]) ? [key, ...filters[key]] : [key, '=', filters[key]]));
}

export function createResourceClient(doctype#{: string}#) {
  const base = `/api/resource/${encodeURIComponent(doctype)}`;
  return {
    doctype,
    list({ fields = ['name'], filters = {}, orderBy = 'modified desc', limit = 20, start = 0 }#{: any}# = {}) {
      return httpRequest(
        'GET',
        base +
          query({
            fields,
            filters: toFilterList(filters),
            order_by: orderBy,
            limit_page_length: limit,
            limit_start: start,
          }),
      );
    },
    get(name#{: string}#) {
      return httpRequest('GET', `${base}/${encodeURIComponent(name)}`);
    },
    insert(doc#{: Record<string, any>}#) {
      return httpRequest('POST', base, doc);
    },
    update(name#{: string}#, doc#{: Record<string, any>}#) {
      return httpRequest('PUT', `${base}/${encodeURIComponent(name)}`, doc);
    },
    remove(name#{: string}#) {
      return httpRequest('DELETE', `${base}/${encodeURIComponent(name)}`);
    },
  };
}

export function callMethod(method#{: string}#, args#{: Record<string, any>}# = {}) {
  return httpRequest('POST', `/api/method/${method}`, args);
}

export function applyWorkflowAction(doctype#{: string}#, name#{: string}#, action#{: string}#) {
  return callMethod('frappe.model.workflow.apply_workflow', {
    doc: JSON.stringify({ doctype, name }),
    action,
  });
}
"#

end FormScaffold.View
