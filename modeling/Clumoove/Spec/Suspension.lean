import Clumoove.Spec.Users

/-! Suspension and reactivation of an account, and what becomes of its schedules. `SuspendUser` is
one transaction; `UpdateUserActive` makes two statements that are committed one after the other. The
sessions, jobs and runs that a suspension ends have no part in the schedules and are left out. -/

namespace Clumoove.Users

open Table

/-- What is kept of a row of `schedules`. -/
structure Schedule where
  id : ℕ
  userID : ℕ
  isActive : Bool
  nextRunAt : Option ℕ
  deriving DecidableEq

structure Tables where
  users : List Account
  schedules : List Schedule
  deriving DecidableEq

/-- How far the database gets with the statements of a call. -/
inductive Reach
  | nothing
  | first
  | all
  deriving DecidableEq

namespace Tables

variable (id : ℕ)

/-- `UPDATE users SET active = $2 WHERE id = $1`. -/
def setActive (active : Bool) (t : Tables) : Tables :=
  { t with users := (Change.setActive id active).apply t.users }

/-- `UPDATE schedules SET is_active = $2 WHERE user_id = $1`. -/
def setSchedules (isActive : Bool) (t : Tables) : Tables :=
  { t with schedules := updateWhere (·.userID = id) ({ · with isActive }) t.schedules }

/-- A user who is not there is not the last administrator. -/
def ensureNotLastActiveAdmin (t : Tables) : Except UserError Unit :=
  match t.users.find? (·.id = id) with
  | none => .ok ()
  | some a =>
    if a.role ≠ .admin ∨ ¬ a.active then .ok ()
    else if t.users.countP Account.governs ≤ 1 then .error .lastActiveAdmin
    else .ok ()

/-- What does not get through to the commit is rolled back. -/
def suspendUser (reach : Reach) (t : Tables) : Except UserError Unit × Tables :=
  match t.ensureNotLastActiveAdmin id, reach with
  | .error e, _ => (.error e, t)
  | .ok (), .all => (.ok (), (t.setActive id false).setSchedules id false)
  | .ok (), _ => (.error .unavailable, t)

def updateUserActive (active : Bool) (reach : Reach) (t : Tables) : Except UserError Unit × Tables :=
  if ¬ active then (.error .useSuspendUser, t)
  else
    match reach with
    | .nothing => (.error .unavailable, t)
    | .first => (.error .unavailable, t.setActive id true)
    | .all => (.ok (), (t.setActive id true).setSchedules id true)

def schedulesOf (t : Tables) : List Schedule := t.schedules.filter (·.userID = id)

def isActive (t : Tables) : Bool := t.users.any fun a => a.id = id ∧ a.active

end Tables

inductive Switch
  | suspendUser (id : ℕ) (reach : Reach)
  | updateUserActive (id : ℕ) (active : Bool) (reach : Reach)
  deriving DecidableEq

def Switch.run : Switch → Tables → Tables
  | suspendUser id reach, t => (t.suspendUser id reach).2
  | updateUserActive id active reach, t => (t.updateUserActive id active reach).2

def Tables.runAll (calls : List Switch) (t : Tables) : Tables := calls.foldl (fun t c => c.run t) t

end Clumoove.Users
