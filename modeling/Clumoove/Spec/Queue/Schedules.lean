import Clumoove.Spec.Queue.Tasks
import Mathlib.Data.List.Sort

/-! The schedules of a job, and the scheduler as far as it is the same for all kinds of jobs. -/

namespace Clumoove.Queue

open Prog Table

/-- A row of `schedules`. It is kept with the job it belongs to. -/
structure Schedule where
  id : ℕ
  userID : ℕ
  cronExpression : Option String := none
  nextRunAt : Option ℕ := none
  isActive : Bool := true
  deriving DecidableEq

namespace Schedule

def isDue (now : ℕ) (s : Schedule) : Bool := s.isActive ∧ s.nextRunAt.any (· ≤ now)

def activate (s : Schedule) : Schedule := { s with isActive := true }

def deactivate (s : Schedule) : Schedule := { s with isActive := false }

end Schedule

/-- The schedules of one job, and the locks on them in Redis with the times at which they expire. -/
structure Timetable where
  schedules : List Schedule := []
  locks : GoMap ℕ ℕ := []
  deriving DecidableEq

namespace Timetable

def update (p : Schedule → Bool) (f : Schedule → Schedule) (t : Timetable) : Timetable :=
  { t with schedules := updateWhere p f t.schedules }

def locked (now id : ℕ) (t : Timetable) : Bool := (t.locks.get id).any (now < ·)

def due (now : ℕ) (t : Timetable) : List Schedule :=
  (t.schedules.filter (Schedule.isDue now)).insertionSort fun a b =>
    a.nextRunAt.getD 0 ≤ b.nextRunAt.getD 0

end Timetable

def scheduleLock : ℕ := 120

inductive ScheduleStmt
  | getDueSchedules
  | tryClaimScheduleLock (id : ℕ)
  | updateNextRunAtIfUnchanged (id : ℕ) (expected : Option ℕ) (nextRunAt : ℕ)
  | deactivateSchedule (id : ℕ)
  /-- Every schedule of the job is active again and due at once. -/
  | reactivateSchedules
  | verifyScheduleOwnership (id user : ℕ)
  | deleteSchedule (id : ℕ)
  | deleteSchedulesForTask
  deriving DecidableEq

abbrev ScheduleStmt.Val : ScheduleStmt → Type
  | .getDueSchedules => List Schedule
  | .tryClaimScheduleLock _ => Bool
  | .updateNextRunAtIfUnchanged _ _ _ => Bool
  | .verifyScheduleOwnership _ _ => Bool
  | _ => Unit

def ScheduleStmt.run (now : ℕ) : (s : ScheduleStmt) → Timetable → s.Val × Timetable
  | .getDueSchedules, t => (t.due now, t)
  | .tryClaimScheduleLock id, t =>
    if t.locked now id then (false, t)
    else (true, { t with locks := t.locks.set id (now + scheduleLock) })
  | .updateNextRunAtIfUnchanged id expected next, t =>
    let unchanged (s : Schedule) : Bool := s.id = id ∧ s.nextRunAt = expected
    (t.schedules.any unchanged, t.update unchanged fun s => { s with nextRunAt := some next })
  | .deactivateSchedule id, t => ((), t.update (·.id = id) Schedule.deactivate)
  | .reactivateSchedules, t =>
    ((), t.update (fun _ => true) fun s => { s.activate with nextRunAt := some now })
  | .verifyScheduleOwnership id user, t => (t.schedules.any fun s => s.id = id ∧ s.userID = user, t)
  | .deleteSchedule id, t => ((), { t with schedules := t.schedules.filter (·.id ≠ id) })
  | .deleteSchedulesForTask, t => ((), { t with schedules := [] })

/-- How `triggerJob` comes out. -/
inductive Triggered
  /-- The job is started, or somebody else was faster. -/
  | ok
  | noRows
  | notRunnable
  | failed
  deriving DecidableEq

def shouldDeactivateScheduleForTriggerError : Triggered → Bool
  | .noRows | .notRunnable => true
  | _ => false

section Scheduler

variable {Op : Type} {Val : Op → Type}

/-- What the scheduler needs to know of a kind of jobs. -/
structure JobKind (Op : Type) (Val : Op → Type) where
  sql : (s : ScheduleStmt) → Fallible Op Val DbError s.Val
  /-- Schedules of this kind recur without a cron expression as well. -/
  recurs : Bool
  isJobActive : Fallible Op Val DbError Bool
  triggerJob : Schedule → Fallible Op Val DbError Triggered
  nextRunForSchedule : Schedule → Fallible Op Val DbError ℕ

variable (K : JobKind Op Val)

def JobKind.trySql (s : ScheduleStmt) : Fallible Op Val DbError Unit := do
  let _ ← attempt (K.sql s)

def completeSchedule (s : Schedule) : Fallible Op Val DbError Unit := do
  if s.cronExpression.isSome ∨ K.recurs then
    match ← attempt (K.nextRunForSchedule s) with
    | .ok next => K.trySql (.updateNextRunAtIfUnchanged s.id s.nextRunAt next)
    | .error _ => return
  else K.trySql (.deactivateSchedule s.id)

def triggerSchedule (s : Schedule) : Fallible Op Val DbError Unit := do
  match ← attempt (K.triggerJob s) with
  | .error _ => return
  | .ok .ok => completeSchedule K s
  | .ok t => if shouldDeactivateScheduleForTriggerError t then K.trySql (.deactivateSchedule s.id)

def processSchedule (s : Schedule) : Fallible Op Val DbError Unit := do
  match ← attempt K.isJobActive with
  | .error _ => return
  | .ok true => completeSchedule K s
  | .ok false => triggerSchedule K s

def processSchedules : List Schedule → Fallible Op Val DbError Unit
  | [] => return
  | s :: ss => do
    match ← attempt (K.sql (.tryClaimScheduleLock s.id)) with
    | .ok true =>
      processSchedule K s
      processSchedules ss
    | _ => processSchedules ss

def processDueSchedules : Fallible Op Val DbError Unit := do
  processSchedules K (← K.sql .getDueSchedules)

end Scheduler

end Clumoove.Queue
