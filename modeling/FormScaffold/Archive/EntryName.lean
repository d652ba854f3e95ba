/-!
# Names of archive entries

An entry is named by a path below the start of the archive: steps between slashes, without empty
steps, without steps to the same place, and with each step upward taken back together with the step
before it. A backslash in a path counts as a slash. A path that is absolute, climbs above the
start, or ends at the start names no entry.

Main definitions: `Archive.plainSteps` and `Archive.entryName?`.
-/

namespace FormScaffold.Archive

/-- The steps of a path, between slashes or backslashes. -/
def pathSteps (cs : List Char) : List (List Char) :=
  (cs.map fun c => if c == '\\' then '/' else c).splitOn '/'

/-- The step upward. -/
def upStep : List Char := ['.', '.']

/-- One step more: nothing for an empty step or a step to the same place, the last step less for a
step upward. A step upward that has nothing to take back is kept. The steps are held last first. -/
def addStep (out : List (List Char)) (step : List Char) : List (List Char) :=
  if step.isEmpty || step == ['.'] then out
  else if step != upStep then step :: out
  else match out with
    | [] => [step]
    | last :: rest => if last == upStep then step :: out else rest

/-- The steps without detours. -/
def plainSteps (steps : List (List Char)) : List (List Char) := (steps.foldl addStep []).reverse

/-- Whether a path starts at the root. -/
def isAbsolute (cs : List Char) : Bool := cs.head?.any fun c => c == '/' || c == '\\'

/-- The name of the entry of a path. -/
def entryName? (path : String) : Option String :=
  let cs := path.toList
  let steps := plainSteps (pathSteps cs)
  if isAbsolute cs || steps.isEmpty || steps.head? == some upStep then none
  else some (String.ofList (['/'].intercalate steps))

example : entryName? "a\\.//b/../c" = some "a/c" := by decide +kernel

example : entryName? "a/../../b" = none := by decide +kernel

end FormScaffold.Archive
