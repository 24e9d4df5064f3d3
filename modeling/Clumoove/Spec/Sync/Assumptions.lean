import Clumoove.Spec.Sync.History

/-! What the results about a sync job take for granted about its providers and paths. -/

namespace Clumoove.Sync

open PathTree

/-- A transfer that finds nothing under the names it takes for a while, and no directory in its
place. -/
def Unhindered (job : Job) (trees : Sided Tree) (t : TaskToCreate) (id : String) : Prop :=
  let tree := trees.on t.dest
  let path := absPath (job.base t.dest) t.filePath
  (t.action = .upload ∨ t.action = .download) →
    (job.providers.on t.dest).supportsAtomicRename = true →
    tree.get (uploadPath path) = none ∧ tree.get (backupPath path id) = none ∧
      tree.isDir path = false

def Outcome.Smooth (job : Job) (trees : Sided Tree) (t : TaskToCreate) : Outcome → Prop
  | .completes _ clock => Unhindered job trees t clock
  | .fails leaves => leaves.isNone = true

/-- Every task of a run completes unhindered or leaves nothing behind. -/
def Smooth (job : Job) (sanitize : Sanitizer) : Execution → List (TaskToCreate × Outcome) → Prop
  | _, [] => True
  | x, run :: runs =>
    run.2.Smooth job x.trees run.1 ∧ Smooth job sanitize (runTask job sanitize x run) runs

/-- Besides, the providers have directories of their own. -/
structure Undisturbed (job : Job) (sanitize : Sanitizer) (x : Execution)
    (runs : List (TaskToCreate × Outcome)) : Prop where
  keeps : ∀ s, (job.providers.on s).createsDirectories = true
  smooth : Smooth job sanitize x runs

def State.KnowsFile (job : Job) (st : State) (s : Side) (p : Path) : Prop :=
  (fileAt job st.trees s p).isSome ∨ ∃ r, (st.rows.on s).get p = some r ∧ r.isDir = false

def State.KnowsDir (job : Job) (st : State) (s : Side) (p : Path) : Prop :=
  dirAt job st.trees s p = true ∨ ∃ r, (st.rows.on s).get p = some r ∧ r.isDir = true

/-- No path is a file in one of the trees or baselines and a directory in another. -/
def NoClash (job : Job) (st : State) : Prop :=
  ∀ p s s', ¬ (st.KnowsFile job s p ∧ st.KnowsDir job s' p)

/-- What a provider reports of the resource at a path. -/
def reported (tree : Tree) (p : Path) : Option (Node FileState String) :=
  match tree.get p with
  | some (.file f) => some (.file f.state)
  | some (.dir etag) => some (.dir etag)
  | none => none

def stored (s : Side) (rows : GoMap Path Row) (p : Path) : Option (Node FileState String) :=
  (rows.get p).map fun r => if r.isDir then .dir r.etag else .file (r.state s)

/-- What is below a directory when it has an ETag: for the directory, the ETag and a path from
there. -/
abbrev Versions := Path → String → Path → Option (Node FileState String)

/-- A provider whose non-empty ETags tell the version of everything below a directory. Two trees
that honor the same versions have the same below directories with the same ETag. -/
def Honors (versions : Versions) (tree : Tree) : Prop :=
  ∀ d e, e ≠ "" → tree.dir d = some e → ∀ q, q ≠ [] → reported tree (d ++ q) = versions d e q

/-- A file whose hash is there and, without its algorithm, the one its content determines. -/
def File.Hashed (digest : List UInt8 → String) (f : File) : Prop :=
  f.hash ≠ "" ∧ cleanHash f.hash ≠ "" ∧ cleanHash f.hash = digest f.content

def Hashed (digest : List UInt8 → String) (job : Job) (trees : Sided Tree) : Prop :=
  ∀ s p f, fileAt job trees s p = some f → f.Hashed digest

end Clumoove.Sync
