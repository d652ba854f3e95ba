import FormScaffold.View.Artifact
import FormScaffold.View.Shared.Client
import FormScaffold.View.Shared.FormObject
import FormScaffold.View.Shared.Notices
import FormScaffold.View.Shared.Rules

/-!
# Files shared by all entities

Four files are the same for every entity of a tree. Each is one region, so a merge replaces all of
it.

Main definition: `View.sharedArtifacts`.
-/

namespace FormScaffold.View

/-- The region that is the whole of a shared file. -/
def sharedRegion : String := "runtime"

/-- The comment at the top of a shared file. -/
def sharedHeader (title : String) : String :=
  "/**\n * " ++ title ++
    "\n * Generated by doctype-ui. This file is fully regenerated; do not edit.\n */\n"

/-- A shared file before its annotations are settled. -/
structure SharedFile where
  stem : String
  title : String
  template : String
  deriving DecidableEq, Repr

/-- The shared files. -/
def sharedFiles : List SharedFile :=
  [⟨"lib/resource-client", "REST access to desk resources.", clientTemplate⟩,
    ⟨"lib/behavior-shim", "Desk-compatible form object and event hooks.", formObjectTemplate⟩,
    ⟨"lib/depends-eval", "Evaluation of field dependency rules.", rulesTemplate⟩,
    ⟨"lib/realtime", "Change-notification subscriptions.", noticesTemplate⟩]

/-- The text of a shared file in a language. -/
def SharedFile.content (f : SharedFile) (language : Language) : String :=
  Region.wrap sharedRegion (sharedHeader f.title ++ typed language f.template)

/-- A shared file in a language. -/
def SharedFile.artifact (language : Language) (f : SharedFile) : Artifact :=
  ⟨filePath language f.stem, f.content language, [sharedRegion], []⟩

/-- All shared files in a language. -/
def sharedArtifacts (language : Language) : List Artifact :=
  sharedFiles.map (SharedFile.artifact language)

end FormScaffold.View
