import Clumoove.Lib.Crew
import Clumoove.Lib.GoMap
import Clumoove.Lib.Table
import Clumoove.Spec.Transfer.Names

/-! The table of tasks as the workers use it as a queue: the rows of one migration or sync job, the
statements of `DequeueSQL` with the row locks its transaction takes, and the statements that the
two kinds of jobs have in common. A job's rows stand for themselves, since no statement reads the
rows of another job. -/

namespace Clumoove.Queue

open Prog Table
open Transfer (Text ResourceType)

inductive TaskStatus
  | pending
  | running
  | completed
  | failed
  | skipped
  | cancelled
  deriving DecidableEq

/-- A row of `tasks`. -/
structure Task where
  id : ℕ
  prerequisiteTaskID : Option ℕ := none
  passGeneration : ℕ := 0
  resourceType : ResourceType := .files
  filePath : Text := []
  resolvedTargetPath : Text := []
  fileSize : ℕ := 0
  metadata : Text := []
  status : TaskStatus := .pending
  attempts : ℕ := 0
  errorMessage : Option String := none
  nextRetryAt : Option ℕ := none
  workerHash : Option String := none
  claimEpoch : ℕ := 0
  sourceHash : Option String := none
  targetHash : Option String := none
  checksumVerified : Bool := false
  updatedAt : ℕ := 0
  deriving DecidableEq

namespace Task

/-- `status IN ('PENDING', 'RUNNING') OR (status = 'FAILED' AND next_retry_at IS NOT NULL)`. -/
def isOpen (t : Task) : Bool :=
  t.status = .pending ∨ t.status = .running ∨ (t.status = .failed ∧ t.nextRetryAt.isSome)

def isUnverified (t : Task) : Bool := t.status = .completed ∧ ¬ t.checksumVerified

def claimedAs (id claimEpoch : ℕ) (t : Task) : Bool :=
  t.id = id ∧ t.status = .running ∧ t.claimEpoch = claimEpoch

def writeBack (copy : Task) (now : ℕ) (t : Task) : Task :=
  { t with
    status := copy.status, attempts := copy.attempts, errorMessage := copy.errorMessage
    nextRetryAt := copy.nextRetryAt, workerHash := copy.workerHash, sourceHash := copy.sourceHash
    targetHash := copy.targetHash, checksumVerified := copy.checksumVerified, updatedAt := now }

def cancel (now : ℕ) (t : Task) : Task := { t with status := .cancelled, updatedAt := now }

def requeue (now : ℕ) (t : Task) : Task :=
  { t with status := .pending, workerHash := none, updatedAt := now }

end Task

/-- Why a database call fails: it affected no row, the indexer has lost its claim, or the call did
not get through. -/
inductive DbError
  | noRows
  | claimLost
  | unavailable
  deriving DecidableEq

/-- A transaction of `DequeueSQL` under way. Nobody else sees what it has written, and nobody can
write the rows it has locked. -/
structure Tx where
  skipped : List ℕ := []
  candidate : Option ℕ := none
  parent : Bool := false
  deriving DecidableEq

structure Payload where
  taskID : ℕ
  claimEpoch : ℕ
  passGeneration : ℕ
  deriving DecidableEq

/-- The rows of one job with the transactions on them. `ι` names the processes. -/
structure Rows (ι P : Type) where
  parent : Option P
  tasks : List Task := []
  txs : GoMap ι Tx := []
  now : ℕ := 0
  /-- An observer's record of the claims, with the processes that made them. -/
  claims : List (ι × Payload) := []
  /-- An observer's record of the verification leases, with the processes that got them. -/
  leases : List (ι × ℕ) := []

/-- What `DequeueSQL` reads of a job: its status, its limit, and which generation's tasks it
lets run. -/
structure Parent (P : Type) where
  runnable : P → Bool
  threads : P → ℕ
  current : P → ℕ → Bool

namespace Rows

variable {ι P : Type} [DecidableEq ι] (w : Rows ι P)

def find (id : ℕ) : Option Task := w.tasks.find? (·.id = id)

def updateTasks (p : Task → Bool) (f : Task → Task) (w : Rows ι P) : ℕ × Rows ι P :=
  (w.tasks.countP p, { w with tasks := updateWhere p f w.tasks })

variable (i : ι)

def taskLocked (id : ℕ) : Bool :=
  w.txs.any fun e => e.1 ≠ i ∧ (e.2.candidate = some id ∨ id ∈ e.2.skipped)

def parentLocked : Bool := w.txs.any fun e => e.1 ≠ i ∧ e.2.parent

/-- A statement that would change a row waits for those who have the row locked. -/
def waits [DecidableEq P] (w w' : Rows ι P) (i : ι) : Bool :=
  (w.parentLocked i ∧ w'.parent ≠ w.parent) ∨
    w.tasks.any fun t => w.taskLocked i t.id ∧ t ∉ w'.tasks

def tx : Tx := (w.txs.get i).getD {}

def setTx (t : Tx) : Rows ι P := { w with txs := w.txs.set i t }

def endTx : Rows ι P := { w with txs := w.txs.erase i }

def failedDependents : List ℕ :=
  (w.tasks.filter fun t => t.status = .pending ∧ t.prerequisiteTaskID.any fun id =>
    w.tasks.any fun q => q.id = id ∧
      (q.status = .cancelled ∨ q.status = .skipped ∨ (q.status = .failed ∧ q.nextRetryAt = none))).map
    (·.id)

def countRunning (par : Parent P) (p : P) (w : Rows ι P) : ℕ :=
  w.tasks.countP fun t => par.current p t.passGeneration ∧ t.status = .running

/-- The candidate query. Tasks that were inserted together have one `created_at`, so the order
leaves open which of them comes first. -/
def eligible (par : Parent P) (w : Rows ι P) (t : Task) : Bool :=
  t.status = .pending ∧
  (t.prerequisiteTaskID.all fun id => w.tasks.any fun q => q.id = id ∧ q.status = .completed) ∧
  w.parent.any fun p => par.runnable p ∧ par.current p t.passGeneration ∧
    w.countRunning par p < par.threads p

/-- What the transaction's first statement has written becomes visible. -/
def applySkips : Rows ι P :=
  { w with
    tasks := updateWhere (fun t => t.id ∈ (w.tx i).skipped) (fun t => { t with
        status := .skipped, workerHash := none, updatedAt := w.now
        errorMessage := some "conflict_copy prerequisite failed; upload skipped" }) w.tasks }

/-- The claim, with the commit that makes it visible. -/
def claim (id : ℕ) (workerID : String) (t : Task) (now : ℕ) : Task :=
  if t.id = id ∧ t.status = .pending then
    { t with
      status := .running, updatedAt := now, workerHash := some workerID
      claimEpoch := t.claimEpoch + 1 }
  else t

def recoverAbandonedTasks (workerID : String) (w : Rows ι P) : ℕ × Rows ι P :=
  w.updateTasks (fun t => t.status = .running ∧ t.workerHash = some workerID ∧
    t.updatedAt + 120 < w.now) (Task.requeue w.now)

end Rows

/-- The statements of `DequeueSQL`. -/
inductive DequeueStmt
  | skipFailedDependents
  | selectCandidate
  | lockParent
  | countRunning
  | claim (taskID : ℕ) (workerID : String)
  | commit
  | rollback
  deriving DecidableEq

abbrev DequeueStmt.Val (P : Type) : DequeueStmt → Type
  | .selectCandidate => Option (ℕ × ℕ)
  | .lockParent => P
  | .countRunning => ℕ
  | .claim _ _ => Option Payload
  | _ => Unit

section Dequeue

variable {ι P : Type} [DecidableEq ι] (par : Parent P) (i : ι)

/-- `pick` says which candidate the query comes upon; the tasks of other jobs may come first. A
statement that has to wait has no result yet. -/
def DequeueStmt.exec (pick : Option ℕ) :
    (d : DequeueStmt) → Rows ι P → Option (Except DbError (d.Val P) × Rows ι P)
  | .skipFailedDependents, w =>
    if w.failedDependents.any (w.taskLocked i) then none
    else some (.ok (), w.setTx i { skipped := w.failedDependents })
  | .selectCandidate, w =>
    match pick with
    | none => some (.ok none, w)
    | some id =>
      match w.find id with
      | none => none
      | some t =>
        if w.eligible par t ∧ ¬ w.taskLocked i id then
          some (.ok (some (id, t.passGeneration)), w.setTx i { w.tx i with candidate := some id })
        else none
  | .lockParent, w =>
    if w.parentLocked i then none
    else match w.parent with
      | none => some (.error .noRows, w)
      | some p => some (.ok p, w.setTx i { w.tx i with parent := true })
  | .countRunning, w =>
    match w.parent with
    | none => some (.ok 0, w)
    | some p => some (.ok (w.countRunning par p), w)
  | .claim id workerID, w =>
    match w.find id with
    | none => some (.ok none, w)
    | some t =>
      if t.status = .pending then
        let w' := w.applySkips i
        let payload : Payload := ⟨id, t.claimEpoch + 1, t.passGeneration⟩
        some (.ok (some payload), { w' with
            tasks := w'.tasks.map fun t => Rows.claim id workerID t w.now
            claims := (i, payload) :: w.claims }.endTx i)
      else some (.ok none, w)
  | .commit, w => some (.ok (), (w.applySkips i).endTx i)
  | .rollback, w => some (.ok (), w.endTx i)

variable {Op : Type} {Val : Op → Type} (sql : (d : DequeueStmt) → Fallible Op Val DbError (d.Val P))
  (workerID : String)

/-- The part of the transaction after the job's row is locked and found runnable. -/
def claimUnderLimit (taskID : ℕ) (p : P) : Fallible Op Val DbError (Option Payload) := do
  let capacity ← sql .countRunning
  if capacity ≥ par.threads p then
    sql .commit
    return none
  match ← sql (.claim taskID workerID) with
  | none =>
    sql .commit
    return none
  | some payload => return some payload

def claimCandidate (taskID taskGeneration : ℕ) : Fallible Op Val DbError (Option Payload) := do
  let p ← sql .lockParent
  if par.runnable p ∧ par.current p taskGeneration then claimUnderLimit par sql workerID taskID p
  else
    sql .commit
    return none

def dequeueSQL : Fallible Op Val DbError (Option Payload) := do
  let found ← attempt do
    sql .skipFailedDependents
    match ← sql .selectCandidate with
    | none =>
      sql .commit
      return none
    | some (taskID, taskGeneration) => claimCandidate par sql workerID taskID taskGeneration
  match found with
  | .ok payload => return payload
  | .error e =>
    -- the deferred rollback
    let _ ← attempt (sql .rollback)
    throw e

end Dequeue

end Clumoove.Queue
