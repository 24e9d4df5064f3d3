import Clumoove.Spec.Sync.Pass

/-! Runs of a sync job: passes, with outside edits of the two providers between them, and what an
observer of such a run remembers about the files and directories of the job. -/

namespace Clumoove.Sync

/-- A file or a directory at a relative path. -/
inductive Item
  | file (p : Path)
  | dir (p : Path)
  deriving DecidableEq

variable (job : Job) (st : State)

def State.content (s : Side) (p : Path) : Option (List UInt8) :=
  (fileAt job st.trees s p).map File.content

def State.holds (s : Side) : Item → Bool
  | .file p => (fileAt job st.trees s p).isSome
  | .dir p => dirAt job st.trees s p

def State.both (i : Item) : Bool :=
  st.holds job .source i && st.holds job .target i

/-- The content both sides have at a path, if it is the same. -/
def State.agreed (p : Path) : Option (List UInt8) :=
  match st.content job .source p, st.content job .target p with
  | some a, some b => if a = b then some a else none
  | _, _ => none

/-- A run so far: its state, and what an observer remembers who looks at the two providers
whenever a pass begins or ends. -/
structure History where
  st : State
  /-- A pass had the item on both sides. -/
  shared : Item → Bool := fun _ => false
  /-- An outside party removed the item from the side since the last such pass. -/
  dropped : Side → Item → Bool := fun _ _ => false
  /-- The content both sides had at the path when a pass last had them the same. -/
  common : Path → Option (List UInt8) := fun _ => none
  /-- Since then a pass had something else at the path on this side. -/
  diverged : Side → Path → Bool := fun _ _ => false

section

variable (job : Job) (sanitize : Sanitizer) (h : History)

def History.observe : History where
  st := h.st
  shared i := h.shared i || h.st.both job i
  dropped s i := h.dropped s i && !h.st.both job i
  common p := (h.st.agreed job p).or (h.common p)
  diverged s p :=
    (h.st.agreed job p).isNone && (h.diverged s p || h.st.content job s p ≠ h.common p)

def History.edit (trees : Sided Tree) : History :=
  let st := { h.st with trees := trees }
  { h with
    st := st
    dropped := fun s i =>
      h.dropped s i || (h.shared i && h.st.holds job s i && !st.holds job s i) }

def History.pass (course : Course) : History :=
  { h.observe job with st := runSyncPass job sanitize course h.st }.observe job

/-- A course fits a state if it runs the tasks of the pass it belongs to. -/
def Course.FitsState (course : Course) (st : State) : Prop :=
  ∀ pl ∈ plan job course st, course.Fits pl

/-- The histories that runs reach whose passes all meet a condition. A run starts with two
providers in any state and without a baseline. -/
inductive Reaches (ok : Course → State → Prop) : History → Prop
  | start (trees : Sided Tree) : Reaches ok { st := { trees := trees, rows := ⟨[], []⟩ } }
  | edit {h : History} (trees : Sided Tree) : Reaches ok h → Reaches ok (h.edit job trees)
  | pass {h : History} {course : Course} : Reaches ok h → course.FitsState job h.st →
      ok course h.st → Reaches ok (h.pass job sanitize course)

end

end Clumoove.Sync
