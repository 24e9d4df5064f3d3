import Clumoove.Lib.Crew
import Clumoove.Lib.GoMap
import Clumoove.Lib.Table

/-! The table of users as the administration of an instance changes it: who is there, with which role,
and who may log in. The functions are programs of SQL statements that run side by side, each seeing
what is committed when it runs, with the row locks and the advisory locks that they take. -/

namespace Clumoove.Users

open Prog Table

inductive Role
  | user
  | admin
  deriving DecidableEq

/-- What is kept of a row of `users`. -/
structure Account where
  id : ℕ
  role : Role
  active : Bool := true
  deriving DecidableEq

def Account.governs (a : Account) : Bool := a.role = .admin && a.active

inductive AdvisoryLock
  | initialAdminSetup
  | activeAdminMutation
  deriving DecidableEq

inductive UserError
  | noRows
  | unavailable
  | lastActiveAdmin
  | setupAlreadyCompleted
  | invalidRole
  | activeRestore
  | useSuspendUser
  deriving DecidableEq

/-- A change of one row. The identifier is the key of the table. -/
inductive Change
  | insert (a : Account)
  | setRole (id : ℕ) (role : Role)
  | setActive (id : ℕ) (active : Bool)
  | delete (id : ℕ)
  deriving DecidableEq

namespace Change

def id : Change → ℕ
  | insert a => a.id
  | setRole id _ | setActive id _ | delete id => id

def apply (users : List Account) : Change → List Account
  | insert a => a :: users.filter (·.id ≠ a.id)
  | setRole id role => updateWhere (·.id = id) (fun a => { a with role }) users
  | setActive id active => updateWhere (·.id = id) (fun a => { a with active }) users
  | delete id => users.filter (·.id ≠ id)

end Change

/-- A transaction under way: its locks, and what it has written, the first change first. -/
structure Tx where
  advisory : List AdvisoryLock := []
  rows : List ℕ := []
  changes : List Change := []
  deriving DecidableEq

/-- `ι` names the calls that are under way. -/
structure UserDb (ι : Type) where
  users : List Account := []
  txs : GoMap ι Tx := []
  /-- Random identifiers never come twice. -/
  nextID : ℕ := 0

/-- A statement that has to wait for a lock has no result yet. -/
abbrev UserSql (ι α : Type) := UserDb ι → Option (Except UserError α × UserDb ι)

namespace UserDb

variable {ι : Type} [DecidableEq ι] (i : ι)

def tx (w : UserDb ι) : Option Tx := w.txs.get i

def setTx (t : Tx) (w : UserDb ι) : UserDb ι := { w with txs := w.txs.set i t }

def endTx (w : UserDb ι) : UserDb ι := { w with txs := w.txs.erase i }

def others (p : Tx → Bool) (w : UserDb ι) : Bool := w.txs.any fun e => e.1 ≠ i ∧ p e.2

def view (w : UserDb ι) : List Account :=
  match w.tx i with
  | some t => t.changes.foldl Change.apply w.users
  | none => w.users

def inTx (f : Tx → Tx) (w : UserDb ι) : UserDb ι :=
  match w.tx i with
  | some t => w.setTx i (f t)
  | none => w

def write (c : Change) (w : UserDb ι) : UserDb ι :=
  if (w.tx i).isSome then
    w.inTx i fun t => { t with rows := c.id :: t.rows, changes := t.changes ++ [c] }
  else { w with users := c.apply w.users }

/-! Statements. -/

/-- `SELECT pg_advisory_xact_lock($1)`. -/
def advisoryLock (l : AdvisoryLock) : UserSql ι Unit := fun w =>
  if w.others i fun t => l ∈ t.advisory then none
  else some (.ok (), w.inTx i fun t => { t with advisory := l :: t.advisory })

/-- `SELECT role, active FROM users WHERE id = $1 FOR UPDATE`. -/
def selectForUpdate (id : ℕ) : UserSql ι Account := fun w =>
  match (w.view i).find? (·.id = id) with
  | none => some (.error .noRows, w)
  | some a =>
    if w.others i fun t => id ∈ t.rows then none
    else some (.ok a, w.inTx i fun t => { t with rows := id :: t.rows })

def countActiveAdmins : UserSql ι ℕ := fun w => some (.ok ((w.view i).countP Account.governs), w)

/-- `SELECT NOT EXISTS (SELECT 1 FROM users)`. -/
def setupRequired : UserSql ι Bool := fun w => some (.ok (w.view i).isEmpty, w)

/-- A change of a row that is there, once nobody else has it locked. -/
def change (c : Change) : UserSql ι Unit := fun w =>
  if (w.view i).any (·.id = c.id) then
    if w.others i fun t => c.id ∈ t.rows then none else some (.ok (), w.write i c)
  else some (.ok (), w)

/-- `INSERT INTO users … RETURNING id`. -/
def insert (role : Role) : UserSql ι ℕ := fun w =>
  some (.ok w.nextID, { w with nextID := w.nextID + 1 }.write i (.insert { id := w.nextID, role }))

def begin : UserSql ι Unit := fun w => some (.ok (), w.setTx i {})

def commit : UserSql ι Unit := fun w => some (.ok (), { w with users := w.view i }.endTx i)

def rollback : UserSql ι Unit := fun w => some (.ok (), w.endTx i)

def pending (id : ℕ) (w : UserDb ι) : Bool :=
  w.txs.any fun e => e.2.changes.any fun | .insert a => a.id = id | _ => false

/-- The identifier in the path of a request. Nobody knows the one of a row that is not committed. -/
def target (n : ℕ) : UserSql ι ℕ := fun w =>
  if n < w.nextID ∧ ¬ w.pending n then some (.ok n, w) else none

end UserDb

/-! The calls. -/

inductive UserStmt
  | target
  | begin
  | advisoryLock (l : AdvisoryLock)
  | selectForUpdate (id : ℕ)
  | countActiveAdmins
  | setupRequired
  | insert (role : Role)
  | updateRole (id : ℕ) (role : Role)
  | updateActive (id : ℕ) (active : Bool)
  | delete (id : ℕ)
  | activeRestore
  | otherTables
  | commit
  | rollback
  deriving DecidableEq

abbrev UserStmt.Val : UserStmt → Type
  | .target | .countActiveAdmins | .insert _ => ℕ
  | .selectForUpdate _ => Account
  | .setupRequired | .activeRestore => Bool
  | _ => Unit

/-- What comes about at a call: it goes through or it does not, or the surroundings decide. -/
inductive Outcome
  | done
  | unavailable
  | number (n : ℕ)
  | choice (b : Bool)
  deriving DecidableEq

section Exec

variable {ι : Type} [DecidableEq ι] (i : ι)

/-- A statement goes through, or it fails: the database cannot be reached, or a constraint is
violated. -/
def Outcome.sql {α : Type} (o : Outcome) (x : UserSql ι α) : UserSql ι α := fun w =>
  match o with
  | .done => x w
  | .unavailable => some (.error .unavailable, w)
  | _ => none

open UserDb

def UserDb.run : (s : UserStmt) → Outcome → UserSql ι s.Val
  | .target, .number n => target n
  | .target, _ => fun _ => none
  | .activeRestore, .choice b => fun w => some (.ok b, w)
  | .activeRestore, .unavailable => fun w => some (.error .unavailable, w)
  | .activeRestore, _ => fun _ => none
  | .begin, o => o.sql (begin i)
  | .advisoryLock l, o => o.sql (advisoryLock i l)
  | .selectForUpdate id, o => o.sql (selectForUpdate i id)
  | .countActiveAdmins, o => o.sql (countActiveAdmins i)
  | .setupRequired, o => o.sql (setupRequired i)
  | .insert role, o => o.sql (insert i role)
  | .updateRole id role, o => o.sql (change i (.setRole id role))
  | .updateActive id active, o => o.sql (change i (.setActive id active))
  | .delete id, o => o.sql (change i (.delete id))
  | .otherTables, o => o.sql fun w => some (.ok (), w)
  | .commit, o => o.sql (commit i)
  | .rollback, o => o.sql (rollback i)

end Exec

/-! The functions. -/

abbrev UserWork := Fallible UserStmt UserStmt.Val UserError

def call (s : UserStmt) : UserWork s.Val := perform s

/-- The rollback that is deferred. -/
def rollingBack {α : Type} (body : UserWork α) : UserWork α := do
  let r ← attempt body
  let _ ← attempt (call .rollback)
  match r with
  | .ok a => return a
  | .error e => throw e

def beginActiveAdminMutation : UserWork Unit := do
  call .begin
  match ← attempt (call (.advisoryLock .activeAdminMutation)) with
  | .ok _ => return ()
  | .error e =>
    let _ ← attempt (call .rollback)
    throw e

variable (id : ℕ)

def ensureNotLastActiveAdmin : UserWork Unit := do
  match ← attempt (call (.selectForUpdate id)) with
  | .error .noRows => return ()
  | .error e => throw e
  | .ok a =>
    if a.role ≠ .admin ∨ ¬ a.active then return ()
    else
      let count ← call .countActiveAdmins
      if count ≤ 1 then throw .lastActiveAdmin else return ()

/-- `none` is a text that is no role. -/
def updateUserRole : Option Role → UserWork Unit
  | none => throw .invalidRole
  | some role => do
    beginActiveAdminMutation
    rollingBack do
      if role ≠ .admin then ensureNotLastActiveAdmin id
      call (.updateRole id role)
      call .commit

/-- The statements on the sessions, jobs and schedules of the user are one here. -/
def suspendUser : UserWork Unit := do
  beginActiveAdminMutation
  rollingBack do
    ensureNotLastActiveAdmin id
    call (.updateActive id false)
    call .otherTables
    call .commit

def updateUserActive (active : Bool) : UserWork Unit := do
  if ¬ active then throw .useSuspendUser
  else
    call (.updateActive id true)
    call .otherTables

def deleteUser : UserWork Unit := do
  beginActiveAdminMutation
  rollingBack do
    ensureNotLastActiveAdmin id
    if ← call .activeRestore then throw .activeRestore
    else
      call (.delete id)
      call .commit

def createUserWithRole (role : Option Role) : UserWork Unit := do
  let _ ← call (.insert (role.getD .user))

def createInitialAdmin : UserWork Unit := do
  call .begin
  rollingBack do
    call (.advisoryLock .initialAdminSetup)
    if ← call .setupRequired then
      let _ ← call (.insert .admin)
      call .commit
    else throw .setupAlreadyCompleted

inductive Operation
  | updateUserRole (role : Option Role)
  | suspendUser
  | updateUserActive (active : Bool)
  | deleteUser
  | createUserWithRole (role : Option Role)
  | createInitialAdmin
  deriving DecidableEq

def Operation.work : Operation → UserWork Unit
  | updateUserRole role => do Users.updateUserRole (← call .target) role
  | suspendUser => do Users.suspendUser (← call .target)
  | updateUserActive active => do Users.updateUserActive (← call .target) active
  | deleteUser => do Users.deleteUser (← call .target)
  | createUserWithRole role => Users.createUserWithRole role
  | createInitialAdmin => Users.createInitialAdmin

/-- Any number of calls by anybody. One that breaks off loses its transaction. -/
def userCrew {ι : Type} [DecidableEq ι] (operation : ι → Operation) :
    Crew.Parts ι UserStmt (fun s => Except UserError s.Val) (UserDb ι) Outcome where
  ready _ _ := true
  program i := (operation i).work.run >>= fun _ => .ret ()
  exec i := UserDb.run i
  leave i w := w.endTx i

end Clumoove.Users
