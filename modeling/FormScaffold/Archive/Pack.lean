import FormScaffold.Archive.Base64
import FormScaffold.Archive.EntryName
import FormScaffold.Archive.Zip
import FormScaffold.Report
import FormScaffold.View.Artifact

/-!
# Archives of artifacts

Artifacts are packed into one zip file, which is written to the base 64. Each artifact becomes an
entry, in order; artifacts of one entry must have one text. Unpacking gives the texts back by the
names of their entries.

Main definitions: `Archive.entries`, `Archive.pack` and `Archive.unpack`.
-/

namespace FormScaffold

/-- A packed archive. -/
structure Archive where
  filename : String
  /-- The zip file, to the base 64. -/
  data : String
  deriving DecidableEq, Repr

namespace Archive

/-- The format of archives. -/
def formatWord : String := "zip"

/-- The encoding of archives. -/
def encodingWord : String := "base64"

/-- The name of an archive that is given none. -/
def defaultFilename : String := "doctype-ui.zip"

/-- The archive as data. -/
def toEntries (a : Archive) : Entries :=
  [("format", .text formatWord), ("encoding", .text encodingWord), ("filename", .text a.filename),
    ("data", .text a.data)]

/-! ## Packing -/

/-- Why artifacts cannot be packed. -/
inductive PackError where
  /-- The path leads out of the archive. -/
  | notRelative (path : String)
  /-- An entry of this name has another text. -/
  | duplicate (path : String)
  /-- A text or a name has no bytes. -/
  | unencodable
  deriving DecidableEq, Repr

/-- How packing fails: texts without bytes are not foreseen. -/
def PackError.failure : PackError → Failure
  | .notRelative path =>
    .report ⟨.file, "Artifact path is not relative to the archive root", .file path, true⟩
  | .duplicate path =>
    .report ⟨.conflict, "Duplicate artifact path with different content", .region path none, true⟩
  | .unencodable => .fault .unencodable

/-- Whether an entry has bytes: its text, and its name as far as that is written. -/
def hasBytes (name content : String) : Bool :=
  Text.isPaired content && Text.isPaired (Zip.shortName name)

/-- The entries of artifacts after those before them, each a name with a text. -/
def entriesFrom (seen : List (String × String)) :
    List Artifact → Except PackError (List (String × String))
  | [] => .ok []
  | a :: rest =>
    match entryName? a.path with
    | none => .error (.notRelative a.path)
    | some name =>
      match seen.lookup name with
      | some content =>
        if content == a.content then entriesFrom seen rest else .error (.duplicate a.path)
      | none =>
        if hasBytes name a.content then do
          return (name, a.content) :: (← entriesFrom ((name, a.content) :: seen) rest)
        else .error .unencodable

/-- The first artifact is collected, and then the others. -/
theorem entriesFrom_cons (seen : List (String × String)) (a : Artifact) (rest : List Artifact) :
    entriesFrom seen (a :: rest) =
      match entryName? a.path with
      | none => .error (.notRelative a.path)
      | some name =>
        match seen.lookup name with
        | some content =>
          if content == a.content then entriesFrom seen rest else .error (.duplicate a.path)
        | none =>
          if hasBytes name a.content then do
            return (name, a.content) :: (← entriesFrom ((name, a.content) :: seen) rest)
          else .error .unencodable := by rfl

/-- The entries of artifacts, each once, in order of first mention. -/
def entries (artifacts : List Artifact) : Except PackError (List (String × String)) :=
  entriesFrom [] artifacts

/-- The zip file of entries. -/
def zipBytes (entries : List (String × String)) : List UInt8 :=
  Zip.write (entries.map fun e => ⟨e.1, (Text.bytes e.2).toList⟩)

/-- The archive of artifacts. -/
def pack (artifacts : List Artifact) (filename : Option String) : Except PackError Archive := do
  let es ← entries artifacts
  let name := (filename.filter (· != "")).getD defaultFilename
  return ⟨name, String.ofList (Base64.encode (zipBytes es))⟩

/-! ## Unpacking -/

/-- Why an archive cannot be unpacked. -/
inductive UnpackError where
  /-- Its format or encoding is another one. -/
  | unknownFormat (format encoding : Value)
  /-- Its data is no text. -/
  | notText
  /-- Its data has characters beyond ASCII. -/
  | notAscii
  /-- Its zip file cannot be read. -/
  | zip (e : Zip.ZipError)

/-- The error in words, where it is worded. -/
def UnpackError.message? : UnpackError → Option String
  | .unknownFormat format encoding =>
    some ("Unsupported archive format " ++ format.quoted ++ "/" ++ encoding.quoted)
  | .notAscii => some "string argument should contain only ASCII characters"
  | .zip .corrupt => some "Archive is corrupt"
  | .zip (.negativeOffset n) => some ("negative seek value " ++ toString n)
  | _ => none

/-- The error as a report, where it is reported. -/
def UnpackError.report? (e : UnpackError) : Option Report :=
  match e with
  | .unknownFormat .. => e.message?.map fun m => ⟨.compiler, m, .entity none, true⟩
  | .zip .corrupt => e.message?.map fun m => ⟨.compiler, m, .entity none, false⟩
  | _ => none

/-- Whether a raw value is a word. -/
def isWord (v : Value) (word : String) : Bool :=
  match v with
  | .text s => s == word
  | _ => false

/-- The bytes of the zip file of an archive, given as raw data. -/
def rawBytes (es : Entries) : Except UnpackError (List UInt8) :=
  match es.get? "data" with
  | none => .error (.zip .corrupt)
  | some (.text data) =>
    if data.toList.any (·.toNat ≥ 128) then .error .notAscii
    else match Base64.decode? data.toList with
      | some bytes => .ok bytes
      | none => .error (.zip .corrupt)
  | some _ => .error .notText

/-- The texts with one under a name: in place when the name is there, else at the end. -/
def putText (files : List (String × String)) (name text : String) : List (String × String) :=
  match files with
  | [] => [(name, text)]
  | f :: rest => if f.1 == name then (name, text) :: rest else f :: putText rest name text

/-- The texts with that of an entry of the zip file, whose data ends before a limit; directories
have none. -/
def unpackEntry (bytes : List UInt8) (files : List (String × String)) (e : Zip.Entry)
    (limit : Int) : Except UnpackError (List (String × String)) := do
  if e.isDirectory then return files
  else
    let out ← (Zip.contents bytes e limit).mapError .zip
    match Text.ofUtf8? (ByteArray.mk out.toArray) with
    | some text => return putText files e.name text
    | none => .error (.zip .corrupt)

/-- The texts with those of entries of the zip file, which come after others. -/
def unpackEntries (bytes : List UInt8) (before : List Zip.Entry) (files : List (String × String)) :
    List Zip.Entry → Except UnpackError (List (String × String))
  | [] => .ok files
  | e :: rest => do
    let files ← unpackEntry bytes files e (Zip.limit bytes before rest e)
    unpackEntries bytes (before ++ [e]) files rest

/-- The texts in an archive that is given as raw data, by the names of their entries. -/
def unpack (es : Entries) : Except UnpackError (List (String × String)) := do
  let format := es.get "format"
  let encoding := es.get "encoding"
  if isWord format formatWord && isWord encoding encodingWord then
    let bytes ← rawBytes es
    unpackEntries bytes [] [] (← (Zip.directory bytes).mapError .zip)
  else .error (.unknownFormat format encoding)

end Archive

end FormScaffold
