import FormScaffold.Json.Reader
import FormScaffold.Metadata.Customization
import FormScaffold.Metadata.Percent
import FormScaffold.Metadata.Source

/-!
# Metadata of a site

A site answers requests for records and listings of records. The fields of an entity are those of
its own record with the custom fields inserted; overrides are the property setters of its fields;
custom permission rows take the place of those in its record.

Main definitions: `Site`, `Request`, `Transport`, and `Source.ofSite`.
-/

namespace FormScaffold

/-- A site and how to log in to it. -/
structure Site where
  baseUrl : String
  apiKey : Option String
  apiSecret : Option String
  deriving DecidableEq, Repr

/-- A request to a site. -/
structure Request where
  host : String
  /-- The path as it is sent. -/
  path : String
  params : List (String × String)
  /-- How the request logs in. -/
  authorization : Option String
  deriving DecidableEq, Repr

/-- What comes back from a site. -/
inductive Reply where
  /-- The site was not reached. -/
  | unreachable (reason : String)
  /-- A status and a body. -/
  | answer (status : Nat) (body : String)
  deriving DecidableEq, Repr

/-- What carries requests to a site. -/
abbrev Transport := Request → Reply

/-- Whether the status means success. -/
def isSuccess (status : Nat) : Bool := 200 ≤ status && status < 300

/-- The kind of a value in words. -/
def Value.kindName : Value → String
  | .null => "NoneType"
  | .bool _ => "bool"
  | .int _ => "int"
  | .real _ => "float"
  | .text _ => "str"
  | .list _ => "list"
  | .record _ => "dict"

/-- A text that is there and not empty. -/
def given? (s : Option String) : Option String := s.filter (· != "")

namespace Site

/-- How requests log in: with a key and its secret, when both are given. -/
def authorization (site : Site) : Option String := do
  let key ← given? site.apiKey
  let secret ← given? site.apiSecret
  return "token " ++ key ++ ":" ++ secret

/-- The host and the path of an address. -/
def splitAddress (address : List Char) : List Char × List Char :=
  match address.dropWhile (· != ':') with
  | ':' :: '/' :: '/' :: rest =>
    let (authority, path) := rest.span (· != '/')
    let host := (authority.reverse.takeWhile (· != '@')).reverse
    (host.takeWhile (· != ':'), path)
  | _ => ([], '/' :: address.dropWhile (· == '/'))

/-- A request for a path of the site. -/
def request (site : Site) (path : String) (params : List (String × String)) : Request :=
  let base := (site.baseUrl.toList.reverse.dropWhile (· == '/')).reverse
  let (host, full) := splitAddress (base ++ path.toList)
  ⟨String.ofList (host.map Char.toLower), Percent.dropDots (String.ofList full), params,
    site.authorization⟩

/-- What a reply to the request for a path holds. -/
def readReply (entity path : String) : Reply → Except FetchError Value
  | .unreachable reason => .error (.unreachable reason entity)
  | .answer status body =>
    if status == 404 then .error (.unknownEntity entity)
    else if !isSuccess status then .error (.status path status entity)
    else
      let cs := body.toList
      match Json.read? (if cs.head? == some (Char.ofNat 0xFEFF) then cs.drop 1 else cs) with
      | none => .error (.invalidJson path entity)
      | some (.record es) => .ok (Entries.get es "data")
      | some v => .error (.unexpectedResponse path v.kindName entity)

/-- A computation that sends requests. -/
abbrev Exchange (α : Type) := Traced Request FetchFailure α

/-- The answer to the request for a path. -/
def get (site : Site) (send : Transport) (entity path : String)
    (params : List (String × String)) : Exchange Value :=
  let r := site.request path params
  .ask r ((readReply entity path (send r)).mapError .error)

/-- A use of a raw value between requests. -/
def use {α : Type} (r : Except Fault α) : Exchange α := .ofExcept (r.mapError .fault)

/-- The path of a resource by its name, which has to have bytes. -/
def pathOf (front name : String) : Except Fault String :=
  match Percent.encode? name with
  | some coded => .ok ("/api/resource/" ++ front ++ coded)
  | none => .error .unencodable

/-- The rows of a listing that satisfy conditions, each a field, a relation and a value. -/
def list (site : Site) (send : Transport) (entity docType : String)
    (filters : List (String × String × Value)) (fields : List String) : Exchange (List Value) := do
  let conditions := Value.list (filters.map fun f => .list [.text f.1, .text f.2.1, f.2.2])
  let rows ← site.get send entity (← use (pathOf "" docType))
    [("filters", Json.ascii conditions), ("fields", Json.ascii (.ofTexts fields)),
      ("limit_page_length", "0")]
  match rows.orElse (.list []) with
  | .list rows => return rows
  | _ => .fail (.error (.unexpectedListing docType entity))

/-- The record of an entity. -/
def entityRecord (site : Site) (send : Transport) (entity : String) : Exchange Entries := do
  match ← site.get send entity (← use (pathOf "DocType/" entity)) [] with
  | .record es => return es
  | _ => .fail (.error (.unknownEntity entity))

/-- The fields of an entity with its custom fields. -/
def fieldList (site : Site) (send : Transport) (entity : String) : Exchange Value := do
  let record ← site.entityRecord send entity
  let customs ← site.list send entity "Custom Field" [("dt", "=", .text entity)] ["*"]
  let fields ← use (record.get "fields").elementsOrNone
  return .list (← use (insertCustomFields fields customs))

/-- The overrides of the fields of an entity. -/
def overrides (site : Site) (send : Transport) (entity : String) : Exchange Value := do
  let rows ← site.list send entity "Property Setter"
    [("doc_type", "=", .text entity), ("doctype_or_field", "=", .text "DocField")]
    ["field_name", "property", "value", "property_type"]
  return .list ((← use (patchesOfSetters rows)).map .record)

/-- The client scripts of an entity that are switched on. -/
def clientBehavior (site : Site) (send : Transport) (entity : String) : Exchange Value := do
  return .list (← site.list send entity "Client Script"
    [("dt", "=", .text entity), ("enabled", "=", .int 1)] ["name", "view", "script", "enabled"])

/-- The name of a listed record. -/
def listedName (row : Value) : Except Fault String :=
  match row with
  | .record es =>
    match Entries.get? es "name" with
    | none => .error .absentKey
    | some (.text s) => .ok s
    | some _ => .error .notIterable
  | _ => .error .notIterable

/-- The active workflow of an entity, when there is one. -/
def workflow (site : Site) (send : Transport) (entity : String) : Exchange Value := do
  match ← site.list send entity "Workflow"
      [("document_type", "=", .text entity), ("is_active", "=", .int 1)] ["name"] with
  | [] => return .null
  | row :: _ =>
    let name ← use (listedName row)
    site.get send entity (← use (pathOf "Workflow/" name)) []

/-- The permission rows of an entity: the custom ones, or those of its record. -/
def permissionRows (site : Site) (send : Transport) (entity : String) :
    Exchange (List Value) := do
  match ← site.list send entity "Custom DocPerm" [("parent", "=", .text entity)] ["*"] with
  | [] => use ((← site.entityRecord send entity).get "permissions").elementsOrNone
  | rows => return rows

/-- The permission rules of an entity by role. -/
def permissions (site : Site) (send : Transport) (entity : String) :
    Exchange (Keyed (List Entries)) := do
  let rules ← use ((← site.permissionRows send entity).mapM ruleOfPermissionRow)
  use (groupRules (rules.map .record))

/-- The answer to one question about an entity. -/
def fetch (site : Site) (send : Transport) (part : Part) (entity : String) : Exchange Value :=
  match part with
  | .fieldList => site.fieldList send entity
  | .overrides => site.overrides send entity
  | .clientBehavior => site.clientBehavior send entity
  | .workflow => site.workflow send entity
  | .permissions => do return .list (← site.permissionRows send entity)

/-- The requests that answering a question takes. -/
def requests (site : Site) (send : Transport) (call : Call) : List Request :=
  match call.part with
  | .permissions => (site.permissions send call.entity).log
  | part => (site.fetch send part call.entity).log

end Site

/-- A source that asks a site. -/
def Source.ofSite (site : Site) (send : Transport) : Source where
  fetch part entity := (site.fetch send part entity).outcome
  permissions entity := (site.permissions send entity).outcome

end FormScaffold
