/-!
# Shared files: change notices

The shared file that announces changes of records.
-/

namespace FormScaffold.View

/-- Subscriptions to a topic, and the transport that feeds them. -/
def noticesTemplate : String :=
  r#"let transport#{: any}# = null;
const listeners#{: Record<string, Set<Function>>}# = {};

function defaultTransport()#{: any}# {
  const w#{: any}# = typeof window !== 'undefined' ? window : null;
  if (w && w.frappe && w.frappe.realtime) {
    return w.frappe.realtime;
  }
  return null;
}

export function setRealtimeTransport(next#{: any}#)#{: void}# {
  transport = next;
}

export function publish(topic#{: string}#, payload#{?: any}#)#{: void}# {
  for (const listener of Array.from(listeners[topic] || [])) {
    listener(payload);
  }
}

export function subscribe(topic#{: string}#, listener#{: Function}#)#{: () => void}# {
  const set = listeners[topic] || (listeners[topic] = new Set());
  set.add(listener);
  const active = transport || defaultTransport();
  const forward = (payload#{: any}#) => listener(payload);
  if (active) {
    active.on(topic, forward);
  }
  return () => {
    set.delete(listener);
    if (active && typeof active.off === 'function') {
      active.off(topic, forward);
    }
  };
}
"#

end FormScaffold.View
