import Mathlib.Logic.Function.Basic
import Clumoove.Lib.GoMap

/-! `keyedMutexes` of `processor.go`. A call of `lock` finds its mutex in a guarded section and waits for it;
the function it returns unlocks the mutex and gives the reference back in a second guarded section. -/

namespace Clumoove.Processor

structure RefMutex where
  locked : Bool := false
  count : ℕ := 0

inductive LockPhase
  | waiting
  | holding
  | releasing
  deriving DecidableEq

/-- A call that has left the first guarded section and not yet the second. -/
structure LockCall where
  key : String
  mutex : ℕ
  phase : LockPhase

structure KeyedMutexes (ι : Type) where
  m : GoMap String ℕ := []
  /-- The mutexes behind the pointers. -/
  heap : ℕ → RefMutex := fun _ => {}
  next : ℕ := 0
  calls : GoMap ι LockCall := []

inductive LockEvent (ι : Type)
  | enter (i : ι) (key : String)
  | acquire (i : ι)
  | unlock (i : ι)
  | finish (i : ι)

namespace KeyedMutexes

variable {ι : Type} [DecidableEq ι]

def make (s : KeyedMutexes ι) (key : String) : KeyedMutexes ι :=
  { s with
    m := s.m.set key s.next
    heap := Function.update s.heap s.next {}
    next := s.next + 1 }

def find (s : KeyedMutexes ι) (key : String) : ℕ × KeyedMutexes ι :=
  match s.m.get key with
  | some mutex => (mutex, s)
  | none => (s.next, s.make key)

def put (s : KeyedMutexes ι) (i : ι) (c : LockCall) (r : RefMutex) : KeyedMutexes ι :=
  { s with heap := Function.update s.heap c.mutex r, calls := s.calls.set i c }

def enter (s : KeyedMutexes ι) (i : ι) (key : String) : KeyedMutexes ι :=
  let found := s.find key
  let r := found.2.heap found.1
  found.2.put i ⟨key, found.1, .waiting⟩ { r with count := r.count + 1 }

def acquire (s : KeyedMutexes ι) (i : ι) (c : LockCall) : Option (KeyedMutexes ι) :=
  let r := s.heap c.mutex
  if c.phase = .waiting ∧ r.locked = false then
    some (s.put i { c with phase := .holding } { r with locked := true })
  else none

def unlock (s : KeyedMutexes ι) (i : ι) (c : LockCall) : Option (KeyedMutexes ι) :=
  let r := s.heap c.mutex
  if c.phase = .holding ∧ r.locked = true then
    some (s.put i { c with phase := .releasing } { r with locked := false })
  else none

def finish (s : KeyedMutexes ι) (i : ι) (c : LockCall) : Option (KeyedMutexes ι) :=
  let r := s.heap c.mutex
  if c.phase = .releasing then
    some { s with
      heap := Function.update s.heap c.mutex { r with count := r.count - 1 }
      m := if r.count - 1 = 0 then s.m.erase c.key else s.m
      calls := s.calls.erase i }
  else none

def step (s : KeyedMutexes ι) : LockEvent ι → Option (KeyedMutexes ι)
  | .enter i key => if (s.calls.get i).isSome then none else some (s.enter i key)
  | .acquire i => (s.calls.get i).bind (s.acquire i)
  | .unlock i => (s.calls.get i).bind (s.unlock i)
  | .finish i => (s.calls.get i).bind (s.finish i)

end KeyedMutexes

end Clumoove.Processor
