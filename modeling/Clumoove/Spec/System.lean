import Clumoove.Lib.Machine
import Clumoove.Spec.Lifecycle
import Clumoove.Spec.Upkeep

/-! The whole system around one backup job. Workers claim runs and maintenance requests and
execute them under the job's advisory lock; the API, the scheduler, heartbeats and restore workers
change the catalogue whenever they like. A worker may crash at any point. -/

namespace Clumoove

open Prog Machine

/-- Work a worker has claimed: a run, or a maintenance request. The fuel bounds the target loop
of a repository check. -/
inductive Ticket
  | run (job : Job) (claimed : Run)
  | maintenance (fuel : ℕ) (m : Maintenance)

/-- A change made without the lock. -/
inductive Move
  | sql (q : SqlOp)
  /-- A worker claims a request of another job; its transaction takes abandoned checks of all
  jobs over. -/
  | takeover
  | tick (seconds : ℕ)

/-- The transactions parties without the lock run: the API and the scheduler, the heartbeat of a
run, the recovery every worker starts a poll with, and everything restore workers do. -/
def outside : SqlOp → Bool
  | .run (.claimPass ..) | .run .recoverStale | .run (.touch ..) | .run .pause | .run .resume
  | .run .suspend | .run .requestDeletion => true
  | .upkeep (.createVerify ..) | .upkeep (.cancelVerify _) => true
  | .restore _ => true
  | _ => false

def Move.apply : Move → Db → Db
  | .sql q => q.tx.commit
  | .takeover => Db.recoverVerifies
  | .tick seconds => fun db => { db with now := db.now + seconds }

/-- `PollOnce` and `pollMaintenance` up to the lock. -/
def Ticket.claim : Ticket → Db → Db → Prop
  | .run job claimed, db, db' => claimNextQueuedBackupRun db = .ok (some (job, claimed), db')
  | .maintenance _ m, db, db' => ∃ pick, claimNextBackupMaintenance pick db = .ok (some m, db')

variable (sha256 : List UInt8 → Digest)

def Ticket.program : Ticket → Act Unit
  | .run job claimed => execute sha256 job claimed
  | .maintenance fuel m => runMaintenance sha256 fuel m

def Ticket.giveUp : Ticket → Op
  | .run _ claimed =>
    .sql (.run (.fail claimed.generation claimed.id claimed.state "BACKUP_LOCK_UNAVAILABLE"))
  | .maintenance _ m => .sql (.upkeep (.retry m.id "BACKUP_LOCK_UNAVAILABLE"))

def backupSystem : Parts Op Op.Res World Ticket Move Outcome where
  env move w w' := (∀ q, move = .sql q → outside q) ∧ w' = { w with db := move.apply w.db }
  poll t w w' := ∃ db, t.claim w.db db ∧ w' = { w with db := db }
  program t := (t.program sha256).run >>= fun _ => .ret ()
  giveUp := Ticket.giveUp
  exec := Exec

abbrev SystemState := Config Op Op.Res World Ticket

abbrev SystemLabel := Label Ticket Move Outcome

def started (w : World) : Prop := ∃ config, w = { db := newBackupJob config }

/-- The states every run of the system reaches whose steps all meet a condition. -/
abbrev Reachable (ok : SystemState → SystemLabel → Prop) : SystemState → Prop :=
  Reach (backupSystem sha256) ok started

/-- Some worker has claimed the request and still has something to do for it. -/
def SystemState.executes (c : SystemState) (maintenanceId : ℕ) : Prop :=
  (∃ fuel m, .maintenance fuel m ∈ c.waiting ∧ m.id = maintenanceId) ∨
    ∃ fuel m op k, c.holder = some (.maintenance fuel m, .call op k) ∧ m.id = maintenanceId

end Clumoove
