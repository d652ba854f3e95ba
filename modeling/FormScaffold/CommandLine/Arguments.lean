/-!
# Command line arguments

An option is a word that starts with a dash; a long one may be cut as long as it stays
unambiguous, and its argument is the next word or follows an equals sign. Other words are plain,
and so are all words after two dashes alone, words that write a negative number, and words with a
space that name no option.

Main definitions: `Switch`, `Word`, `classify?`, `readLeading` and `readMixed`.
-/

namespace FormScaffold.CommandLine

/-- An option of a command. -/
structure Switch where
  /-- The name, with its dashes. -/
  name : String
  /-- Whether it takes an argument. -/
  takesArgument : Bool
  /-- The arguments that it takes, if only a few. -/
  choices : Option (List String)
  deriving DecidableEq, Repr

/-- An option without an argument. -/
def Switch.flag (name : String) : Switch := ⟨name, false, none⟩

/-- An option with any argument. -/
def Switch.argument (name : String) : Switch := ⟨name, true, none⟩

/-- An option with one of a few arguments. -/
def Switch.choice (name : String) (choices : List String) : Switch := ⟨name, true, some choices⟩

/-- The options that ask for help. -/
def helpSwitches : List Switch := [.flag "-h", .flag "--help"]

/-- What a word is. -/
inductive Word where
  | plain
  /-- An option, perhaps with its argument. -/
  | switch (s : Switch) (argument : Option String)
  | unknown
  deriving DecidableEq, Repr

/-- Whether a text is a negative number. -/
def isNegativeNumber (cs : List Char) : Bool :=
  match cs with
  | '-' :: rest =>
    let (whole, more) := rest.span Char.isDigit
    match more with
    | [] => !whole.isEmpty
    | '.' :: ds => !ds.isEmpty && ds.all Char.isDigit
    | _ => false
  | _ => false

/-- A word before and after its first equals sign. -/
def splitEquals (word : String) : String × Option String :=
  let (name, rest) := word.toList.span (· != '=')
  (String.ofList name, if rest.isEmpty then none else some (String.ofList (rest.drop 1)))

/-- The options that a word may mean, each with its argument. What follows the letter of a short
option are further letters, unless it starts with a dash. -/
def meanings (switches : List Switch) (word : String) : List (Switch × Option String) :=
  let (name, argument) := splitEquals word
  if word.toList.take 2 == ['-', '-'] then
    (switches.filter fun s => name.toList.isPrefixOf s.name.toList).map fun s => (s, argument)
  else
    switches.filterMap fun s =>
      let more := word.toList.drop 2
      if s.name.toList == word.toList.take 2 then
        some (s, if more.head? == some '-' then some (String.ofList more) else none)
      else if word.toList.isPrefixOf s.name.toList then some (s, none)
      else none

/-- What a word is; none when it may mean several options. -/
def classify? (switches : List Switch) (word : String) : Option Word :=
  let (name, argument) := splitEquals word
  if word.toList.head? != some '-' then some .plain
  else match switches.find? (·.name == word) with
    | some s => some (.switch s none)
    | none =>
      if word == "-" then some .plain
      else match argument, switches.find? (·.name == name) with
        | some a, some s => some (.switch s (some a))
        | _, _ =>
          match meanings switches word with
          | [(s, a)] => some (.switch s a)
          | _ :: _ => none
          | [] =>
            if isNegativeNumber word.toList || word.toList.contains ' ' then some .plain
            else some .unknown

/-- Whether an option takes an argument. -/
def Switch.accepts (s : Switch) (argument : String) : Bool :=
  match s.choices with
  | some words => words.contains argument
  | none => true

/-- What a command line gives: the arguments of options, by name, and plain words. -/
structure Arguments where
  given : List (String × String)
  plain : List String
  /-- Whether there was an option that the command does not have. -/
  hasUnknown : Bool
  deriving DecidableEq, Repr

/-- The last argument of an option. -/
def Arguments.argument? (a : Arguments) (name : String) : Option String :=
  (a.given.reverse.lookup name)

/-- Whether an option was given. -/
def Arguments.has (a : Arguments) (name : String) : Bool := (a.argument? name).isSome

/-- What reading a command line comes to. -/
inductive Reading (α : Type) where
  | read (a : α)
  /-- Help is asked for. -/
  | help
  /-- The command line cannot be used. -/
  | wrong
  deriving Repr

/-- What an option at the start of the words gives: its argument and the other words. -/
def takeSwitch (switches : List Switch) (s : Switch) (argument : Option String)
    (rest : List String) : Reading (String × List String) :=
  if s.takesArgument then
    let found : Option (String × List String) := match argument, rest with
      | some a, _ => some (a, rest)
      | none, a :: rest =>
        if a != "--" && classify? switches a == some .plain then some (a, rest) else none
      | none, [] => none
    match found with
    | some (a, rest) => if s.accepts a then .read (a, rest) else .wrong
    | none => .wrong
  else if argument.isSome then .wrong
  else if helpSwitches.contains s then .help
  else .read ("", rest)

/-- The options before the first plain word, and the words from there. -/
def leading (switches : List Switch) : Nat → Arguments → List String →
    Reading (Arguments × List String)
  | 0, _, _ => .wrong
  | _ + 1, a, [] => .read (a, [])
  | fuel + 1, a, word :: rest =>
    if word == "--" then .read (a, word :: rest)
    else match classify? switches word with
      | some .plain => .read (a, word :: rest)
      | some (.switch s argument) =>
        match takeSwitch switches s argument rest with
        | .read (value, rest) =>
          leading switches fuel { a with given := a.given ++ [(s.name, value)] } rest
        | .help => .help
        | .wrong => .wrong
      | some .unknown => leading switches fuel { a with hasUnknown := true } rest
      | none => .wrong

/-- The plain words after two dashes alone; `joined` says whether a plain word stands right before
the dashes. -/
def afterDashes (plain : List String) (joined : Bool) (rest : List String) :
    Reading (List String) :=
  if rest.isEmpty && !joined then .wrong else .read (plain ++ rest)

/-- Options and plain words in any order. -/
def mixed (switches : List Switch) : Nat → Bool → Arguments → List String → Reading Arguments
  | 0, _, _, _ => .wrong
  | _ + 1, _, a, [] => .read a
  | fuel + 1, joined, a, word :: rest =>
    if word == "--" then
      match afterDashes a.plain joined rest with
      | .read plain => .read { a with plain }
      | .help => .help
      | .wrong => .wrong
    else match classify? switches word with
      | some .plain => mixed switches fuel true { a with plain := a.plain ++ [word] } rest
      | some (.switch s argument) =>
        match takeSwitch switches s argument rest with
        | .read (value, rest) =>
          mixed switches fuel false { a with given := a.given ++ [(s.name, value)] } rest
        | .help => .help
        | .wrong => .wrong
      | some .unknown => mixed switches fuel false { a with hasUnknown := true } rest
      | none => .wrong

/-- Whether all words before two dashes alone are clear. -/
def areClear (switches : List Switch) (words : List String) : Bool :=
  (words.takeWhile (· != "--")).all fun w => (classify? switches w).isSome

/-- No arguments yet. -/
def Arguments.none : Arguments := ⟨[], [], false⟩

/-- The options before the first plain word, and the words from there. -/
def readLeading (switches : List Switch) (words : List String) :
    Reading (Arguments × List String) :=
  if areClear switches words then leading switches (words.length + 1) .none words else .wrong

/-- Options and plain words in any order. -/
def readMixed (switches : List Switch) (words : List String) : Reading Arguments :=
  if areClear switches words then mixed switches (words.length + 1) false .none words else .wrong

end FormScaffold.CommandLine
