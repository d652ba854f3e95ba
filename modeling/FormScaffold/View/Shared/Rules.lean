/-!
# Shared files: dependency rules

The shared file that judges dependency expressions, which it gets as data.
-/

namespace FormScaffold.View

/-- The judge of an expression, and the state of a field under its rules. -/
def rulesTemplate : String :=
  r#"const EMPTY = Symbol('empty');

function isNumber(value#{: any}#)#{: boolean}# {
  return typeof value === 'number' && Number.isFinite(value);
}

function equal(left#{: any}#, right#{: any}#)#{: boolean}# {
  if (left === EMPTY || right === EMPTY) {
    return false;
  }
  if (typeof left === 'boolean' && isNumber(right)) {
    return Number(left) === right;
  }
  if (isNumber(left) && typeof right === 'boolean') {
    return left === Number(right);
  }
  return left === right;
}

function order(op#{: string}#, left#{: any}#, right#{: any}#)#{: boolean}# {
  const comparable =
    (isNumber(left) && isNumber(right)) || (typeof left === 'string' && typeof right === 'string');
  if (!comparable) {
    return false;
  }
  switch (op) {
    case 'lt':
      return left < right;
    case 'lte':
      return left <= right;
    case 'gt':
      return left > right;
    default:
      return left >= right;
  }
}

function value(node#{: any}#, doc#{: Record<string, any>}#)#{: any}# {
  if ('field' in node) {
    return Object.prototype.hasOwnProperty.call(doc, node.field) ? doc[node.field] : EMPTY;
  }
  if ('literal' in node) {
    return node.literal;
  }
  return truth(node, doc);
}

function truthy(v#{: any}#)#{: boolean}# {
  if (v === EMPTY || v === null || v === undefined) {
    return false;
  }
  if (Array.isArray(v)) {
    return v.length > 0;
  }
  return Boolean(v);
}

function truth(node#{: any}#, doc#{: Record<string, any>}#)#{: boolean}# {
  if ('field' in node || 'literal' in node) {
    return truthy(value(node, doc));
  }
  switch (node.op) {
    case 'eq':
      return equal(value(node.left, doc), value(node.right, doc));
    case 'neq':
      return !equal(value(node.left, doc), value(node.right, doc));
    case 'lt':
    case 'lte':
    case 'gt':
    case 'gte':
      return order(node.op, value(node.left, doc), value(node.right, doc));
    case 'in':
    case 'not_in': {
      const left = value(node.left, doc);
      const found = node.items.some((item#{: any}#) => equal(left, item));
      return node.op === 'in' ? found : !found;
    }
    case 'and':
      return node.children.every((child#{: any}#) => truth(child, doc));
    case 'or':
      return node.children.some((child#{: any}#) => truth(child, doc));
    case 'not':
      return !truth(node.child, doc);
    default:
      return false;
  }
}

export function evaluateRule(node#{: any}#, doc#{: Record<string, any>}#)#{: boolean}# {
  return truth(node, doc || {});
}

export function fieldState(base#{: any}#, rules#{: any}#, doc#{: Record<string, any>}#) {
  const state = {
    visible: !(base && base.hidden),
    required: Boolean(base && base.required),
    readOnly: Boolean(base && base.readOnly),
  };
  if (!rules) {
    return state;
  }
  if (rules.dependsOn) {
    state.visible = state.visible && evaluateRule(rules.dependsOn, doc);
  }
  if (rules.mandatoryDependsOn) {
    state.required = state.required || evaluateRule(rules.mandatoryDependsOn, doc);
  }
  if (rules.readOnlyDependsOn) {
    state.readOnly = state.readOnly || evaluateRule(rules.readOnlyDependsOn, doc);
  }
  return state;
}
"#

end FormScaffold.View
