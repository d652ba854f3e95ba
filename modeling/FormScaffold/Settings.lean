import FormScaffold.Metadata.Dumps
import FormScaffold.Metadata.Site

/-!
# Settings

Main definitions: `Settings`, its defaults, and the source of metadata that settings name.
-/

namespace FormScaffold

/-- What a run may be told from outside. -/
structure Settings where
  appName : String := "doctype-ui-compiler"
  environment : String := "dev"
  /-- The address of the site. -/
  siteUrl : Option String := none
  apiKey : Option String := none
  apiSecret : Option String := none
  /-- How long a request may take, in seconds. -/
  timeout : Real64 := Real64.ofInt 30
  /-- The directory of dumps, which counts more than the site. -/
  metadataDirectory : Option String := none
  preset : String := "plain"
  strategy : String := "respect-manual"
  language : String := "js"
  deriving Repr

/-- A source of metadata that settings name. -/
inductive Origin where
  | dumps (directory : Path)
  | site (s : Site) (timeout : Real64)
  deriving DecidableEq, Repr

/-- The source of metadata that the settings name. -/
def Settings.origin (s : Settings) : Except FetchError Origin :=
  match given? s.metadataDirectory, given? s.siteUrl with
  | some directory, _ => .ok (.dumps (Path.ofText directory))
  | none, some url => .ok (.site ⟨url, s.apiKey, s.apiSecret⟩ s.timeout)
  | none, none => .error .unconfigured

end FormScaffold
