import FormScaffold.Contract.Build
import FormScaffold.Region.Merge

/-!
# Error reports

Errors that the compiler foresees are reported with a code, a text and what they are about. A report
in full names the code first and the subject last. Faults in raw values and arguments outside their
choices are failures without such a report.

Main definitions: `Report`, `Failure`, and how the errors of the parts become failures.
-/

namespace FormScaffold

/-- The kinds of errors that are reported. -/
inductive ErrorKind where
  /-- An error of no other kind. -/
  | compiler
  /-- Metadata cannot be fetched. -/
  | fetch
  /-- No contract can be built. -/
  | validation
  /-- An expression cannot be read. -/
  | expression
  /-- Two texts cannot be merged. -/
  | conflict
  /-- A file cannot be used. -/
  | file
  deriving DecidableEq, Repr

/-- The code of a kind. -/
def ErrorKind.code : ErrorKind → String
  | .compiler => "UI_COMPILER_ERROR"
  | .fetch => "METADATA_FETCH_ERROR"
  | .validation => "CONTRACT_VALIDATION_ERROR"
  | .expression => Expression.errorCode
  | .conflict => "MERGE_CONFLICT"
  | .file => "FILE_SYSTEM_ERROR"

/-- What an error is about. -/
inductive Subject where
  /-- An entity, or nothing in particular. -/
  | entity (name : Option String)
  /-- A file. -/
  | file (path : String)
  /-- A region of a file, or the file as a whole. -/
  | region (path : String) (name : Option String)
  /-- A place in an expression. -/
  | expression (position : Nat) (text : String)
  deriving DecidableEq, Repr

/-- The subject behind the text of an error. -/
def Subject.suffix : Subject → String
  | .entity none => ""
  | .entity (some name) => if name == "" then "" else " (entity=" ++ name ++ ")"
  | .file path => " (" ++ path ++ ")"
  | .region path none => " (" ++ path ++ ")"
  | .region path (some name) => " (" ++ (if name == "" then path else path ++ "#" ++ name) ++ ")"
  | .expression position text =>
    " at position " ++ toString position ++ " in " ++ Text.quoted text

/-- The entity that the subject is. -/
def Subject.entity? : Subject → Option String
  | .entity name => name
  | _ => none

/-- A reported error. -/
structure Report where
  kind : ErrorKind
  message : String
  subject : Subject
  /-- Whether the message says all; else a reader outside would add its own words, and the text
  ends where these would begin. -/
  complete : Bool
  deriving DecidableEq, Repr

/-- The error in full. -/
def Report.text (r : Report) : String :=
  r.kind.code ++ ": " ++ r.message ++ (if r.complete then r.subject.suffix else "")

/-- How a run fails. -/
inductive Failure where
  /-- A reported error. -/
  | report (r : Report)
  /-- A raw value that cannot be used. -/
  | fault (f : Fault)
  /-- An argument outside its choices, in words. -/
  | refused (message : String)
  deriving DecidableEq, Repr

/-- An unreadable expression as a report. -/
def Expression.ParseError.report (e : Expression.ParseError) : Report :=
  ⟨.expression, e.message, .expression e.position e.expression, true⟩

/-- Metadata that cannot be fetched as a report. -/
def FetchError.report (e : FetchError) : Report :=
  ⟨.fetch, e.message, .entity e.entity?, !e.isOpaque⟩

/-- A conflict in a file as a report. -/
def Region.Conflict.report (c : Region.Conflict) (path : String) : Report :=
  ⟨.conflict, c.message, .region path (some c.region), true⟩

/-- How fetching fails. -/
def FetchFailure.failure : FetchFailure → Failure
  | .error e => .report e.report
  | .fault f => .fault f

/-- How building a contract fails. -/
def BuildError.failure : BuildError → Failure
  | .emptyName => .report ⟨.validation, "Entity name must not be empty", .entity none, true⟩
  | .unknownPreset given =>
    .report ⟨.validation, "Unknown style preset '" ++ given ++ "' (expected one of: " ++
      ", ".intercalate (Preset.all.map Preset.name) ++ ")", .entity none, true⟩
  | .noFields entity =>
    .report ⟨.validation, "Entity '" ++ entity ++ "' has no fields", .entity (some entity), true⟩
  | .fetch e => .report e.report
  | .fault f => .fault f

/-- The report of an unreadable expression reads as the error itself. -/
@[simp] theorem Expression.ParseError.text_report (e : Expression.ParseError) :
    e.report.text = e.text := by
  simp [report, Report.text, ErrorKind.code, Subject.suffix, ParseError.text, String.append_assoc]

end FormScaffold
