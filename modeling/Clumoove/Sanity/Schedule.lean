import Clumoove.Spec.System

/-! Schedules: runs of the system that can be computed. An order names the party that moves next and
settles what the system leaves open. -/

namespace Clumoove

open Prog Machine

inductive Order
  | env (move : Move)
  | pollRun
  | pollMaintenance (fuel pick : ℕ)
  /-- The first worker in line goes away. -/
  | drop
  | acquire
  | exec (host : Host)
  /-- The next operation of the worker with the lock fails without an effect. -/
  | fault (e : Err)
  | finish
  | crash

def Op.halts : Op → Bool
  | .halt => true
  | _ => false

variable (sha256 : List UInt8 → Digest)

def Order.next : Order → SystemState → Option (SystemLabel × SystemState)
  | .env (.sql q), c =>
    if outside q then
      some (.env (.sql q), { c with world := { c.world with db := q.tx.commit c.world.db } })
    else none
  | .env .takeover, c =>
    some (.env .takeover, { c with world := { c.world with db := c.world.db.recoverVerifies } })
  | .env (.tick seconds), c =>
    some (.env (.tick seconds), { c with
      world := { c.world with db := { c.world.db with now := c.world.db.now + seconds } } })
  | .pollRun, c =>
    match claimNextQueuedBackupRun c.world.db with
    | .ok (some (job, claimed), db) =>
      some (.poll (.run job claimed), { c with
        world := { c.world with db := db }, waiting := c.waiting ++ [.run job claimed] })
    | _ => none
  | .pollMaintenance fuel pick, c =>
    match claimNextBackupMaintenance pick c.world.db with
    | .ok (some m, db) =>
      some (.poll (.maintenance fuel m), { c with
        world := { c.world with db := db }, waiting := c.waiting ++ [.maintenance fuel m] })
    | _ => none
  | .drop, c =>
    match c.waiting with
    | t :: waiting => some (.drop t, { c with waiting := waiting })
    | [] => none
  | .acquire, c =>
    match c.holder, c.waiting with
    | none, t :: waiting =>
      some (.acquire t, { c with
        holder := some (t, (backupSystem sha256).program t), waiting := waiting })
    | _, _ => none
  | .exec host, c =>
    match c.holder with
    | some (t, .call op k) =>
      if op.halts then none
      else some (.exec .done, { c with
        world := (carryOut host op c.world).2
        holder := some (t, k (carryOut host op c.world).1) })
    | _ => none
  | .fault e, c =>
    match c.holder with
    | some (t, .call op k) =>
      if op.halts then none
      else some (.exec .fault, { c with holder := some (t, k (.error e)) })
    | _ => none
  | .finish, c =>
    match c.holder with
    | some (_, .ret _) => some (.finish, { c with holder := none })
    | _ => none
  | .crash, c =>
    match c.holder with
    | some _ => some (.crash, { c with holder := none })
    | none => none

theorem ne_halt_of_halts {op : Op} (h : ¬ op.halts = true) : op ≠ .halt := by
  rintro rfl
  exact h rfl

theorem Order.next_step {o : Order}
    (h : o.next sha256 c = some (l, c')) : Step (backupSystem sha256) c l c' := by
  unfold Order.next at h
  split at h
  · split_ifs at h with hq
    cases h
    refine .env ⟨?_, rfl⟩
    rintro q' ⟨⟩
    exact hq
  · cases h
    exact .env ⟨fun _ h => (nomatch h), rfl⟩
  · cases h
    exact .env ⟨fun _ h => (nomatch h), rfl⟩
  · split at h
    · next hclaim =>
      cases h
      exact .poll ⟨_, hclaim, rfl⟩
    · cases h
  · next fuel pick =>
    split at h
    · next hclaim =>
      cases h
      exact .poll ⟨_, ⟨pick, hclaim⟩, rfl⟩
    · cases h
  · split at h
    · next t waiting hw =>
      cases h
      exact .drop (show _ = [] ++ t :: waiting from hw)
    · cases h
  · split at h
    · next t waiting hfree hw =>
      cases h
      exact .acquire hfree (show _ = [] ++ t :: waiting from hw)
    · cases h
  · split at h
    · next t op k hh =>
      split_ifs at h with hop
      cases h
      exact .exec hh (.done _ op _ (ne_halt_of_halts hop))
    · cases h
  · split at h
    · next t op k hh =>
      split_ifs at h with hop
      cases h
      exact .exec hh (.fault op _ _ (ne_halt_of_halts hop))
    · cases h
  · split at h
    · next hh =>
      cases h
      exact .finish hh
    · cases h
  · split at h
    · next hh =>
      cases h
      exact .crash hh
    · cases h

def follow (allowed : SystemState → SystemLabel → Bool) :
    List Order → SystemState → Option SystemState
  | [], c => some c
  | o :: orders, c =>
    match o.next sha256 c with
    | some (l, c') => if allowed c l then follow allowed orders c' else none
    | none => none

variable {sha256} {allowed : SystemState → SystemLabel → Bool}
  {ok : SystemState → SystemLabel → Prop}

theorem follow_reachable (hallowed : ∀ c l, allowed c l = true → ok c l) {orders : List Order}
    (h : follow sha256 allowed orders c = some c')
    (hc : Reachable sha256 ok c) : Reachable sha256 ok c' := by
  induction orders generalizing c with
  | nil =>
    cases h
    exact hc
  | cons o orders ih =>
    unfold follow at h
    split at h
    · next l c₁ hnext =>
      split_ifs at h with hl
      exact ih h (.step hc (hallowed c l hl) (o.next_step sha256 hnext))
    · cases h

/-- A property of the state a schedule leads to from a new job, as far as it can be computed. -/
theorem exists_reachable (allowed : SystemState → SystemLabel → Bool)
    (ok : SystemState → SystemLabel → Prop) (hallowed : ∀ c l, allowed c l = true → ok c l) (config : Job)
    (orders : List Order) (P : SystemState → Bool)
    (h : (follow sha256 allowed orders { world := { db := newBackupJob config } }).any P = true) :
    ∃ c, Reachable sha256 ok c ∧ P c = true := by
  cases hf : follow sha256 allowed orders { world := { db := newBackupJob config } } with
  | none =>
    rw [hf] at h
    cases h
  | some c =>
    rw [hf] at h
    exact ⟨c, follow_reachable hallowed hf (.start ⟨config, rfl⟩), h⟩

/-- A source and a target that nothing disturbs: the files of the source, each with its content. -/
def calmHost (files : List (ScannedFile × List UInt8)) : Host
  | .connectSource | .connectTarget => .ok true
  | .sameConnection | .pastDeadline => .ok false
  | .listing _ => .ok []
  | .scan .. => .ok { files := files.map (·.1), directories := [] }
  | .inspectSource path =>
    match files.find? (·.1.sourcePath = path) with
    | some (file, _) => .ok ⟨path, false, file.size, file.mtime⟩
    | none => .error (.text "no such file")
  | .downloadSource path =>
    match files.find? (·.1.sourcePath = path) with
    | some (_, content) => .ok { bytes := content }
    | none => .error (.text "no such file")
  | .sampleStart _ => .ok 0
  | .providers | .writerSlot | .readerSlot | .context | .createParents _ => .ok ()

def backupOrders (host : Host) (operations : ℕ) : List Order :=
  [.env (.sql (.run (.claimPass .manual none))), .pollRun, .acquire] ++
    List.replicate operations (.exec host) ++ [.finish]

end Clumoove
