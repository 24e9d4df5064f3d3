import Clumoove.Lib.Table

/-! The slots for streams of one user and one kind: a sorted set of Redis whose members are the streams and
whose scores are the times in milliseconds at which their leases end. Each script runs at once. -/

namespace Clumoove.Files

open Table

inductive StreamKind
  | download
  | archive
  | upload
  | mutation
  | batchMutation
  deriving DecidableEq

def fileTicketTTL : ℕ := 60000

def fileStreamLease : ℕ := 120000

def fileMaxStreamsPerUser : ℕ := 4

/-- The slot is acquired for a ticket, and renewed when a later request redeems the ticket. -/
def StreamKind.ticketed : StreamKind → Bool
  | download | archive => true
  | _ => false

/-- The handler runs `renewFileStreamLease` beside the transfer. -/
def StreamKind.renewed : StreamKind → Bool
  | download | upload | mutation => true
  | archive | batchMutation => false

def StreamKind.ttl (kind : StreamKind) : ℕ := if kind.ticketed then fileTicketTTL else fileStreamLease

/-- The sorted set, and when its key expires. -/
structure SlotSet where
  members : List (ℕ × ℕ) := []
  expiresAt : ℕ := 0
  deriving DecidableEq

namespace SlotSet

/-- `ZREMRANGEBYSCORE key -inf now`. A key that has expired is an empty set. -/
def prune (now : ℕ) (s : SlotSet) : SlotSet :=
  { s with members := if now < s.expiresAt then s.members.filter (now < ·.2) else [] }

/-- `ZADD` and `PEXPIRE`. -/
def put (id till : ℕ) (s : SlotSet) : SlotSet :=
  { members := (id, till) :: s.members.filter (·.1 ≠ id), expiresAt := till }

def remove (id : ℕ) (s : SlotSet) : SlotSet := { s with members := s.members.filter (·.1 ≠ id) }

def acquireFileStreamScript (now ttl id : ℕ) (s : SlotSet) : Bool × SlotSet :=
  if fileMaxStreamsPerUser ≤ (s.prune now).members.length then (false, s.prune now)
  else (true, (s.prune now).put id (now + ttl))

def renewFileStreamScript (now ttl id : ℕ) (s : SlotSet) : Bool × SlotSet :=
  if (s.prune now).members.any (·.1 = id) then (true, (s.prune now).put id (now + ttl))
  else (false, s.prune now)

end SlotSet

/-- A stream between a successful acquire and its release. -/
structure Stream where
  id : ℕ
  /-- Its ticket is not redeemed yet. -/
  waiting : Bool
  /-- When it acquired its slot or last renewed it. -/
  renewedAt : ℕ
  deriving DecidableEq

structure Streams where
  now : ℕ := 0
  slots : SlotSet := {}
  running : List Stream := []
  deriving DecidableEq

/-- What happens next. A script that has run may go without an answer. A crash stands for everything that
ends a stream without its release reaching Redis: also a ticket that lapses. -/
inductive StreamEvent
  | pass (d : ℕ)
  | acquire (id : ℕ) (answered : Bool)
  | redeem (id : ℕ) (answered : Bool)
  | renew (id : ℕ) (answered : Bool)
  | release (id : ℕ)
  | crash (id : ℕ)
  deriving DecidableEq

namespace Streams

def crash (id : ℕ) (w : Streams) : Streams := { w with running := w.running.filter (·.id ≠ id) }

def releaseFileStream (id : ℕ) (w : Streams) : Streams := { w.crash id with slots := w.slots.remove id }

def acquireFileStream (kind : StreamKind) (id : ℕ) (answered : Bool) (w : Streams) : Streams :=
  let (acquired, slots) := w.slots.acquireFileStreamScript w.now kind.ttl id
  { w with
    slots
    running := if acquired && answered then ⟨id, kind.ticketed, w.now⟩ :: w.running else w.running }

def renewFileStream (id : ℕ) (answered : Bool) (w : Streams) : Bool × Streams :=
  let (renewed, slots) := w.slots.renewFileStreamScript w.now fileStreamLease id
  if renewed && answered then
    (true, { w with
      slots
      running := updateWhere (·.id = id) ({ · with waiting := false, renewedAt := w.now }) w.running })
  else (false, { w with slots })

/-- Identifiers of streams are random, so that a new one is not in use. A ticket is redeemed once; a stream
whose slot is gone by then is released. -/
def step (kind : StreamKind) (w : Streams) : StreamEvent → Option Streams
  | .pass d => some { w with now := w.now + d }
  | .acquire id answered =>
    if w.running.any (·.id = id) then none else some (w.acquireFileStream kind id answered)
  | .redeem id answered =>
    if w.running.any fun r => r.id = id ∧ r.waiting then
      match w.renewFileStream id answered with
      | (true, w) => some w
      | (false, w) => some (w.releaseFileStream id)
    else none
  | .renew id answered =>
    if kind.renewed ∧ w.running.any fun r => r.id = id ∧ ¬ r.waiting then
      some (w.renewFileStream id answered).2
    else none
  | .release id => some (w.releaseFileStream id)
  | .crash id => some (w.crash id)

/-- A run whose events all meet a condition on the state they meet. -/
def run (kind : StreamKind) (ok : Streams → StreamEvent → Bool) : List StreamEvent → Streams → Option Streams
  | [], w => some w
  | e :: events, w => if ok w e then (w.step kind e).bind (run kind ok events) else none

end Streams

end Clumoove.Files
