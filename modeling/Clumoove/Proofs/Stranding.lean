import Clumoove.Sanity.Programs
import Clumoove.Sanity.Upkeep

/-! Maintenance requests are not stranded as long as nobody who works on one disappears. A request
that is `CANCELLING`, or `RUNNING` and not a check, has no way out but the worker in charge of it:
the takeover at the start of a claim recovers running checks only. -/

namespace Clumoove

open Prog Machine Table List

variable {f : Maintenance → MaintenanceState} {t : Ticket} {o : Outcome} {m : Maintenance}
  {l₁ l₂ : List Ticket} {w : World} {db : Db} {q : SqlOp} {op : Op} {id : ℕ}

def Maintenance.strandable (m : Maintenance) : Prop :=
  m.state = .cancelling ∨ (m.state = .running ∧ m.kind ≠ .verify)

def Maintenance.lapsed (now : ℕ) (m : Maintenance) : Prop :=
  m.claimDeadline.all (· < now) ∧ m.coordinatorLeaseUntil.all (· < now)

def Db.movable (db : Db) (id : ℕ) : Prop := ∀ m ∈ db.maintenance, m.id = id → ¬ m.strandable

def Db.uncancelled (db : Db) (id : ℕ) : Prop :=
  ∀ m ∈ db.maintenance, m.id = id → m.state ≠ .cancelling

/-- The steps that strand nothing: no worker disappears from a request only it can move on and no
last write to such a request fails; a check is not sent back to the queue while it is being
cancelled, nor cancelled while it runs without a worker; the owner of a repository that is being
deleted is not suspended, and its deletion is not claimed twice. -/
def Undisturbed (c : SystemState) : SystemLabel → Prop
  | .env (.sql (.run .suspend)) => c.world.db.deleting = false
  | .env (.sql (.upkeep (.cancelVerify id))) =>
    ∀ m ∈ c.world.db.maintenance, m.id = id → m.state = .running → c.executes id
  | .poll (.maintenance _ m) => m.kind = .deleteRepository → ¬ c.executes m.id
  | .drop (.maintenance _ m) => c.world.db.movable m.id
  | .giveUp (.maintenance _ m) o =>
    c.world.db.uncancelled m.id ∧ (o = .fault → c.world.db.movable m.id)
  | .exec o => ∀ fuel m op k, c.holder = some (.maintenance fuel m, .call op k) →
    (op = .sql (.upkeep (.complete m.id)) → o = .fault → c.world.db.movable m.id) ∧
    ∀ code, op = .sql (.upkeep (.retry m.id code)) →
      c.world.db.uncancelled m.id ∧ (o = .fault → c.world.db.movable m.id)
  | .crash => ∀ fuel m op k, c.holder = some (.maintenance fuel m, .call op k) →
    c.world.db.movable m.id
  | _ => True

/-- The program ends with a final write to the request, whatever happens before. -/
def Closes (id : ℕ) {α : Type} : Prog Op Op.Res α → Prop
  | .ret _ => False
  | .call op k => ∀ r, Closes id (k r) ∨ ((∃ a, k r = .ret a) ∧
      (op = .sql (.upkeep (.complete id)) ∨ ∃ code, op = .sql (.upkeep (.retry id code))))

section Closes

theorem closes_bind (p : Prog Op Op.Res α) {f : α → Prog Op Op.Res β} (hf : ∀ a, Closes id (f a)) :
    Closes id (p >>= f) := by
  induction p with
  | ret a => exact hf a
  | call op k ih => exact fun r => .inl (ih r)

theorem closes_map (f : α → β) (hp : Closes id p) : Closes id (p >>= fun a => .ret (f a)) := by
  induction p with
  | ret a => exact hp
  | call op k ih =>
    intro r
    rcases hp r with hk | ⟨⟨a, ha⟩, hop⟩
    · exact .inl (ih r hk)
    · refine .inr ⟨⟨f a, ?_⟩, hop⟩
      change (k r >>= fun a => Prog.ret (f a)) = Prog.ret (f a)
      rw [ha]
      rfl

theorem closes_program (sha256 : List UInt8 → Digest) (fuel : ℕ) (m : Maintenance) :
    Closes m.id ((backupSystem sha256).program (.maintenance fuel m)) := by
  refine closes_map _ ?_
  change Closes m.id (runMaintenance sha256 fuel m).run
  unfold runMaintenance
  rw [attempt_bind_run]
  refine closes_bind _ fun r => ?_
  split
  · exact fun r => .inr ⟨⟨r, rfl⟩, .inl rfl⟩
  · exact fun r => .inr ⟨⟨r, rfl⟩, .inr ⟨_, rfl⟩⟩
  · exact fun r => .inr ⟨⟨r, rfl⟩, .inr ⟨_, rfl⟩⟩

end Closes

/-- The operations the worker with this ticket may perform. -/
def Ticket.allows : Ticket → Op → Prop
  | .run _ _, op => op.ofRun = true
  | .maintenance _ m, op => op.ofMaintenance m

theorem uses_program (sha256 : List UInt8 → Digest) (t : Ticket) :
    ((backupSystem sha256).program t).Uses t.allows := by
  cases t with
  | run job claimed => exact Uses.bind (runOnly_execute sha256 job claimed) fun _ => trivial
  | maintenance fuel m => exact Uses.bind (within_runMaintenance sha256 fuel m) fun _ => trivial

/-- The repository's deletion is still to be carried out under this request. -/
def Db.awaitsDeletion (db : Db) (id : ℕ) : Prop :=
  ∃ m ∈ db.maintenance, m.id = id ∧ m.kind = .deleteRepository ∧ m.state.active = true

def Db.outOfHand (db : Db) (id : ℕ) : Prop := ∀ m ∈ db.maintenance, m.inHand id = false

theorem awaitsDeletion_upkept (hu : Upkept (Maintenance.moves f) db db')
    (hf : ∀ m ∈ db.maintenance, m.id = id → m.kind = .deleteRepository →
      m.state.active = true → (f m).active = true)
    (h : db.awaitsDeletion id) : db'.awaitsDeletion id := by
  obtain ⟨m, hm, hid, hk, ha⟩ := h
  obtain ⟨m', hm', hid', hk', hmove⟩ := hu.image hm
  exact ⟨m', hm', hid'.trans hid, hk'.trans hk, hmove.1 ▸ hf m hm hid hk ha⟩

/-- Around the worker that deletes the repository: nobody takes the request over once it is out of
hand, and the worker does not finish it before the job is gone. -/
def handover (id : ℕ) : Logic Op Op.Res World where
  inv w := Requests w.db ∧ KindOf w.db id .deleteRepository
  rely w w' := w.db.outOfHand id → w'.db.outOfHand id
  guar w w' := w.db.awaitsDeletion id → w'.db.awaitsDeletion id ∨ w'.db.job = none
  exec op w r w' := ∃ o, Exec op w o r w'
  rely_refl _ h := h
  rely_trans h₁ h₂ h := h₂ (h₁ h)

theorem deleteJob_gone (id : ℕ) (h : db.awaitsDeletion id) :
    (CatalogOp.deleteJob.tx.commit db).awaitsDeletion id ∨
      (CatalogOp.deleteJob.tx.commit db).job = none := by
  rcases deleteJob_commit db with heq | heq <;> rw [heq]
  · exact .inl h
  · exact .inr rfl

/-- A worker's transactions leave the states of requests alone, but for those that finish or
requeue its own request. -/
theorem allows_sql (h : t.allows (.sql q)) : q.quiet = true ∨ ∃ fuel m, t = .maintenance fuel m ∧
      (q = .upkeep (.complete m.id) ∨ (∃ code, q = .upkeep (.retry m.id code)) ∨
        (q = .upkeep (.completeVerify m.id) ∧ m.kind = .verify) ∨
        (q = .catalog .deleteJob ∧ m.kind = .deleteRepository)) := by
  cases t with
  | run job claimed =>
    cases q with
    | run q | catalog q => cases q <;> first | exact .inl rfl | cases h
    | upkeep q => cases h
    | restore q => cases h
  | maintenance fuel m =>
    rcases h with h | h | ⟨code, h⟩
    · cases q with
      | run | restore => exact absurd h id
      | catalog q =>
        cases q with
        | deleteJob => exact .inr ⟨fuel, m, rfl, .inr (.inr (.inr ⟨rfl, h⟩))⟩
        | _ => exact .inl rfl
      | upkeep q =>
        cases q with
        | retry id code =>
          exact .inr ⟨fuel, m, rfl, .inr (.inl ⟨code, by rw [show id = m.id from h.1]⟩)⟩
        | completeVerify id =>
          exact .inr ⟨fuel, m, rfl, .inr (.inr (.inl ⟨by rw [show id = m.id from h.1], h.2⟩))⟩
        | claim | cancelVerify | complete => exact absurd h id
        | _ => exact .inl rfl
    · cases h
      exact .inr ⟨fuel, m, rfl, .inl rfl⟩
    · cases h
      exact .inr ⟨fuel, m, rfl, .inr (.inl ⟨code, rfl⟩)⟩

def Maintenance.busy (m : Maintenance) : Prop := m.state = .running ∨ m.state = .cancelling

theorem Maintenance.strandable.busy (h : m.strandable) : m.busy :=
  h.elim .inr fun h => .inl h.1

theorem outOfHand_iff : db.outOfHand id ↔ ∀ m ∈ db.maintenance, m.id = id → ¬ m.busy := by
  simp [Db.outOfHand, Maintenance.inHand, Maintenance.busy]

theorem Upkept.origin_busy (hu : Upkept (Maintenance.moves f) db db')
    (hm' : m' ∈ db'.maintenance) (hb : m'.busy) :
    ∃ m ∈ db.maintenance, m'.id = m.id ∧ m'.kind = m.kind ∧ m'.state = f m := by
  rcases hu.origin hm' with ⟨m, hm, hid, hk, hmove⟩ | ⟨-, -, hp, -⟩
  · exact ⟨m, hm, hid, hk, hmove.1⟩
  · rcases hb with hb | hb <;> rw [hp] at hb <;> cases hb

theorem strandable_of_moved (hu : Upkept (Maintenance.moves f) db db')
    (hc : ∀ m, f m = .cancelling → m.state = .cancelling)
    (hr : ∀ m, f m = .running → m.state = .running) (hm' : m' ∈ db'.maintenance)
    (hs : m'.strandable) : ∃ m ∈ db.maintenance, m.id = m'.id ∧ m.strandable := by
  obtain ⟨m, hm, hid, hk, hstate⟩ := hu.origin_busy hm' hs.busy
  rw [Maintenance.strandable, hstate, hk] at hs
  exact ⟨m, hm, hid.symm, hs.imp (hc m) (And.imp_left (hr m))⟩

theorem strandable_of_exec (h : Requests w.db) (ha : t.allows op) (hx : Exec op w o r w')
    (hm' : m' ∈ w'.db.maintenance) (hs : m'.strandable) :
    ∃ m ∈ w.db.maintenance, m.id = m'.id ∧ m.strandable := by
  rcases exec_cases hx with ⟨q, rfl, rfl⟩ | hdb
  · rcases allows_sql ha with hq | ⟨fuel, m, -, rfl | ⟨code, rfl⟩ | ⟨rfl, -⟩ | ⟨rfl, -⟩⟩
    · exact strandable_of_moved (q.upkept hq w.db) (fun _ h => h) (fun _ h => h) hm' hs
    · exact strandable_of_moved (upkept_complete m.id w.db h.toRequestKeys).moves
        (fun m' => finished_cancelling m' m.id) (fun m' => finished_running m' m.id) hm' hs
    · exact strandable_of_moved (upkept_retry m.id w.db code).moves
        (fun m' => retried_cancelling m' m.id) (fun m' => retried_running m' m.id) hm' hs
    · exact strandable_of_moved (upkept_completeVerify m.id w.db).moves
        (fun m' => finished_cancelling m' m.id) (fun m' => finished_running m' m.id) hm' hs
    · rcases deleteJob_commit w.db with heq | heq
      · exact ⟨m', congrArg Db.maintenance heq ▸ hm', rfl, hs⟩
      · exact absurd (congrArg Db.maintenance heq ▸ hm') not_mem_nil
  · rw [hdb] at hm'
    exact ⟨m', hm', rfl, hs⟩

theorem finished_not_busy (hid : m.id = id) :
    ¬ (m.finished id = .running ∨ m.finished id = .cancelling) := by
  unfold Maintenance.finished
  split_ifs with hin
  · cases m.state <;> simp [MaintenanceState.finished]
  · exact fun hb => hin (decide_eq_true ⟨hid, hb⟩)

/-- After its final write no request is left to its worker: not after `COMPLETED` or `CANCELLED`,
and not after a retry, unless the request was being cancelled. -/
theorem movable_of_exec (h : Requests w.db) (hx : Exec op w o r w')
    (hop : (op = .sql (.upkeep (.complete id)) ∧ (o = .fault → w.db.movable id)) ∨
      ∃ code, op = .sql (.upkeep (.retry id code)) ∧ w.db.uncancelled id ∧
        (o = .fault → w.db.movable id)) : w'.db.movable id := by
  rcases hop with ⟨rfl, hf⟩ | ⟨code, rfl, hc, hf⟩
  · rcases exec_sql hx with rfl | ⟨ho, rfl⟩
    · intro m' hm' hid hs
      have hb := hs.busy
      obtain ⟨m, -, hid', -, hstate⟩ :=
        (upkept_complete id w.db h.toRequestKeys).moves.origin_busy hm' hb
      rw [Maintenance.busy, hstate] at hb
      exact finished_not_busy (hid' ▸ hid) hb
    · exact hf ho
  · rcases exec_sql hx with rfl | ⟨ho, rfl⟩
    · intro m' hm' hid hs
      obtain ⟨m, hm, hid', -, hstate⟩ := (upkept_retry id w.db code).moves.origin_busy hm' hs.busy
      rcases hs with hs | ⟨hs, -⟩ <;> rw [hstate] at hs
      · exact hc m hm (hid' ▸ hid) (retried_cancelling m id hs)
      · have hr := retried_running m id hs
        simp [Maintenance.retried, hr, ← hid', hid] at hs
    · exact hf ho

section Deletion

variable {m : Maintenance} {id : ℕ} {op : Op} {w w' : World} {o : Outcome}

theorem retried_active (id : ℕ) (h : m.state.active = true) : (m.retried id).active = true := by
  unfold Maintenance.retried
  split_ifs
  · rfl
  · exact h

theorem finished_of_outOfHand (h : db.outOfHand id) (hm : m ∈ db.maintenance) :
    m.finished id = m.state :=
  m.finished_of_not id (h m hm)

theorem handover_exec {r : op.Res} (hm : m.kind = .deleteRepository)
    (hi : Requests w.db) (ha : op.ofMaintenance m) (hx : Exec op w o r w')
    (hc : op = .sql (.upkeep (.complete m.id)) → w.db.outOfHand m.id) :
    (handover m.id).guar w w' := by
  intro haw
  rcases exec_cases hx with ⟨q, rfl, rfl⟩ | hdb
  · rcases allows_sql (t := .maintenance 0 m) ha with
      hq | ⟨fuel', m', ht, rfl | ⟨code, rfl⟩ | ⟨rfl, hk⟩ | ⟨rfl, -⟩⟩
    · exact .inl (awaitsDeletion_upkept (q.upkept hq w.db) (fun _ _ _ _ h => h) haw)
    · cases ht
      refine .inl (awaitsDeletion_upkept (upkept_complete m.id w.db hi.toRequestKeys).moves ?_ haw)
      intro row hrow _ _ h
      rw [finished_of_outOfHand (hc rfl) hrow]
      exact h
    · refine .inl (awaitsDeletion_upkept (upkept_retry _ w.db code).moves ?_ haw)
      exact fun row _ _ _ h => retried_active _ h
    · cases ht
      rw [hm] at hk
      cases hk
    · exact deleteJob_gone m.id haw
  · rw [hdb]
    exact .inl haw

theorem outOfHand_retry (h : Requests db) (id : ℕ) (code : String)
    (hk : KindOf db id .deleteRepository) :
    ((UpkeepOp.retry id code).tx.commit db).outOfHand id := by
  refine outOfHand_iff.2 fun m' hm' hid hb => ?_
  obtain ⟨m, hm, hid', -, hstate⟩ := (upkept_retry id db code).moves.origin_busy hm' hb
  rw [Maintenance.busy, hstate] at hb
  have hc : m.state ≠ .cancelling := fun hs => by
    have := h.checks m hm hs
    rw [hk.kind m hm (hid' ▸ hid)] at this
    cases this
  simp only [Maintenance.retried] at hb
  split_ifs at hb with hr
  · simp at hb
  · exact hr ⟨hid' ▸ hid, hb.resolve_right hc⟩

section

variable (hm : m.kind = .deleteRepository)
include hm

theorem handover_step (hi : (handover m.id).inv w) (ha : op.ofMaintenance m) (hx : Exec op w o r w')
    (hc : op = .sql (.upkeep (.complete m.id)) → w.db.outOfHand m.id) :
    (handover m.id).guar w w' ∧ (handover m.id).inv w' := by
  have he := evolves_exec hi.1.toRequestKeys hx
  exact ⟨handover_exec hm hi.1 ha hx hc, hi.1.evolves he, hi.2.evolves he⟩

theorem handover_sql (hP : (handover m.id).Stable P) (ha : (Op.sql q).ofMaintenance m)
    (hc : ∀ w, P w → q = .upkeep (.complete m.id) → w.db.outOfHand m.id)
    (hQ : ∀ w o a w', (handover m.id).inv w → Exec (.sql q) w o (.ok a) w' → Q a w') :
    Ensures (handover m.id) P (sql q) Q := by
  refine .perform hP fun w r w' hi hPw hx => ?_
  obtain ⟨o, hx⟩ := hx
  obtain ⟨hg, hi'⟩ := handover_step hm hi ha hx fun h => hc w hPw (by cases h; rfl)
  refine ⟨hg, hi', ?_⟩
  cases r with
  | error e => trivial
  | ok a => exact hQ w o a w' hi hx

theorem handover_execution {α : Type} {x : Act α}
    (hx : UpkeepOnly m x) :
    Runs (handover m.id) (fun _ => True) x := by
  refine hx.triple (fun _ _ _ => trivial) ?_
  intro op w r w' ha hi _ hx
  obtain ⟨o, hx⟩ := hx
  obtain ⟨hg, hi'⟩ := handover_step hm hi (.inl ha) hx fun h => by
    subst h
    exact absurd ha id
  exact ⟨hg, hi', trivial⟩

/-- The worker that deletes the repository gives the request back, or the job is gone. -/
theorem handover_deleteRepository (job : Job) :
    Ensures (handover m.id) (fun _ => True) (deleteRepository m.id job)
      (fun _ w => w.db.outOfHand m.id) := by
  refine .bind (handover_execution hm (within_sql trivial)) fun packs => ?_
  refine .bind (handover_execution hm (upkeepOnly_reclaimPacks packs)) fun _ => ?_
  split
  · -- the budget of one claim is used up: the request is requeued
    refine handover_sql hm (fun _ _ _ => trivial) (.inl ⟨rfl, hm⟩) (by simp) ?_
    intro w o a w' hi hx
    rcases exec_sql hx with rfl | ⟨rfl, -⟩
    · exact outOfHand_retry hi.1 m.id "" hi.2
    · cases hx
  · refine .bind (handover_execution hm (within_liftText _)) fun path => ?_
    refine .bind (handover_execution hm (upkeepOnly_deleteObject path)) fun _ => ?_
    refine .bind (Q := fun deleted w => deleted = true → w.db.outOfHand m.id) ?_ fun deleted => ?_
    · refine handover_sql hm (fun _ _ _ => trivial) (.inl hm) (by simp) ?_
      rintro w o _ w' - hx rfl
      obtain ⟨db, htx, rfl⟩ := exec_sql_ok hx
      rcases deleteJob_cases htx with ⟨hfalse, -⟩ | rfl
      · cases hfalse
      · exact fun m hm => absurd hm not_mem_nil
    · split
      · next hd => exact .pure fun w _ h => h hd
      · exact .throw fun _ _ _ => trivial

end

section

variable (sha256 : List UInt8 → Digest) (fuel : ℕ) (hm : m.kind = .deleteRepository)
include sha256 fuel hm

theorem handover_executeMaintenance :
    Ensures (handover m.id) (fun _ => True) (executeMaintenance sha256 fuel m)
      (fun _ w => w.db.outOfHand m.id) := by
  refine .bind (handover_execution hm (within_sql trivial)) fun job => ?_
  refine .bind (handover_execution hm (within_ask trivial)) fun _ => ?_
  refine .bind (handover_execution hm (.attempt (within_ask trivial))) fun r => ?_
  split
  · rw [hm]
    exact handover_deleteRepository hm job
  · exact .throw fun _ _ _ => trivial

theorem handover_runMaintenance :
    Runs (handover m.id) (fun _ => True) (runMaintenance sha256 fuel m) := by
  refine .bind (Q := fun r w => ∀ u, r = .ok u → w.db.outOfHand m.id) ?_ fun r => ?_
  · refine .attempt ((handover_executeMaintenance sha256 fuel hm).conseq (fun _ _ h => h) ?_ ?_)
    · exact fun _ w h _ _ => h
    · exact fun e w _ u hu => (nomatch hu)
  · split
    · next u =>
      exact handover_sql hm (fun h hr _ u hu => hr (h u hu)) (.inr (.inl rfl))
        (fun w h _ => h u rfl) fun _ _ _ _ _ _ => trivial
    all_goals
      exact handover_sql hm (fun h hr _ u hu => hr (h u hu)) (.inr (.inr ⟨_, rfl⟩)) (by simp)
        fun _ _ _ _ _ _ => trivial

theorem handover_program (hr : Requests w.db) (hk : KindOf w.db m.id .deleteRepository) :
    ((backupSystem sha256).program (.maintenance fuel m)).wp (handover m.id) (fun _ _ => True) w :=
  wp_bind (wp_mono (fun _ _ _ => trivial) (handover_runMaintenance sha256 fuel hm w ⟨hr, hk⟩ trivial))

end

end Deletion

def SystemState.holdsTicket (c : SystemState) (t : Ticket) : Prop :=
  t ∈ c.waiting ∨ ∃ p, c.holder = some (t, p)

theorem deleting_congr {db db' : Db} (hjob : db'.job = db.job) (h : db'.deleting = true) :
    db.deleting = true := by
  unfold Db.deleting at h ⊢
  rwa [hjob] at h

theorem deleting_upkeep (q : UpkeepOp) (db : Db) :
    (q.tx.commit db).deleting = true → db.deleting = true :=
  deleting_congr (congrArg Db.job (q.withoutUpkeep_eq db) :)

theorem deleting_deleteJob (db : Db) (h : (CatalogOp.deleteJob.tx.commit db).deleting = true) :
    db.deleting = true := by
  rcases deleteJob_commit db with heq | heq <;> rw [heq] at h
  · exact h
  · cases h

/-- What holds of the requests and their workers in every state of a run without disturbances. -/
structure Tended (c : SystemState) : Prop where
  requests : Requests c.world.db
  tickets : ∀ fuel m, c.holdsTicket (.maintenance fuel m) → KindOf c.world.db m.id m.kind
  tended : ∀ m ∈ c.world.db.maintenance, m.strandable → c.executes m.id
  uses : ∀ t p, c.holder = some (t, p) → p.Uses t.allows
  closes : ∀ fuel m p, c.holder = some (.maintenance fuel m, p) → p = .ret () ∨ Closes m.id p
  handsOver : ∀ fuel m p, c.holder = some (.maintenance fuel m, p) → m.kind = .deleteRepository →
    p.wp (handover m.id) (fun _ _ => True) c.world
  deletion : c.world.db.deleting = true → ∃ id, c.world.db.awaitsDeletion id

namespace Tended

variable {c : SystemState} {w : World}

theorem acquire (sha256 : List UInt8 → Digest) (h : Tended c)
    (hfree : c.holder = none) (hw : c.waiting = l₁ ++ t :: l₂) :
    Tended { c with holder := some (t, (backupSystem sha256).program t), waiting := l₁ ++ l₂ } where
  requests := h.requests
  deletion := h.deletion
  tickets fuel m hm := by
    refine h.tickets fuel m (.inl ?_)
    rw [hw]
    rcases hm with hm | ⟨p, hm⟩
    · rcases mem_append.1 hm with hm | hm <;> simp [hm]
    · cases hm
      simp
  tended m hm hs := by
    rcases h.tended m hm hs with ⟨fuel, m', hmem, hid⟩ | ⟨fuel, m', op, k, hheld, -⟩
    · rw [hw, mem_append, mem_cons] at hmem
      rcases hmem with hmem | rfl | hmem
      · exact .inl ⟨fuel, m', mem_append_left _ hmem, hid⟩
      · have hcloses := closes_program sha256 fuel m'
        cases hp : (backupSystem sha256).program (.maintenance fuel m') with
        | ret a =>
          rw [hp] at hcloses
          exact absurd hcloses id
        | call op k => exact .inr ⟨fuel, m', op, k, rfl, hid⟩
      · exact .inl ⟨fuel, m', mem_append_right _ hmem, hid⟩
    · rw [hfree] at hheld
      cases hheld
  uses t' p hp := by
    cases hp
    exact uses_program sha256 t
  closes fuel m p hp := by
    cases hp
    exact .inr (closes_program sha256 fuel m)
  handsOver fuel m p hp hm := by
    cases hp
    refine handover_program sha256 fuel hm h.requests ?_
    rw [← hm]
    exact h.tickets fuel m (.inl (by rw [hw]; simp))

section

variable (h : Tended c)
include h

theorem outside (he : Evolves c.world.db w.db)
    (htended : ∀ m ∈ w.db.maintenance, m.strandable → c.executes m.id)
    (hhand : ∀ fuel m op k, c.holder = some (.maintenance fuel m, .call op k) →
      m.kind = .deleteRepository → c.world.db.outOfHand m.id → w.db.outOfHand m.id)
    (hdel : w.db.deleting = true → ∃ id, w.db.awaitsDeletion id) :
    Tended { c with world := w } where
  requests := h.requests.evolves he
  tickets fuel m ht := (h.tickets fuel m ht).evolves he
  tended := htended
  uses := h.uses
  closes := h.closes
  handsOver fuel m p hp hm := by
    cases p with
    | ret a => trivial
    | call op k =>
      have hk := (h.tickets fuel m (.inr ⟨_, hp⟩)).evolves he
      rw [hm] at hk
      have hstable : ∀ _ : Unit, (handover m.id).Stable fun _ => True :=
        fun _ => @fun _ _ _ _ _ => trivial
      exact wp_rely hstable (h.handsOver fuel m _ hp hm) (hhand fuel m op k hp hm)
        ⟨h.requests.evolves he, hk⟩
  deletion := hdel

section

variable (hu : Upkept (Maintenance.moves f) c.world.db w.db)
  (hc : ∀ m ∈ c.world.db.maintenance, f m = .cancelling →
    m.state = .cancelling ∨ (m.kind = .verify ∧ m.state = .running ∧ c.executes m.id))
  (hr : ∀ m ∈ c.world.db.maintenance, f m = .running → m.state = .running)
include hu hc hr

theorem moved (hdel : w.db.deleting = true → ∃ id, w.db.awaitsDeletion id)
    (he : Evolves c.world.db w.db) : Tended { c with world := w } := by
  refine h.outside he (fun m' hm' hs => ?_) (fun fuel m _ _ _ _ hout => ?_) hdel
  · obtain ⟨m, hm, hid, hk, hstate⟩ := hu.origin_busy hm' hs.busy
    rw [Maintenance.strandable, hstate, hk] at hs
    rw [hid]
    rcases hs with hs | ⟨hs, hkind⟩
    · rcases hc m hm hs with hs | ⟨-, -, hx⟩
      · exact h.tended m hm (.inl hs)
      · exact hx
    · exact h.tended m hm (.inr ⟨hr m hm hs, hkind⟩)
  · refine outOfHand_iff.2 fun row' hrow' hid' hb => ?_
    obtain ⟨row, hrow, hid, -, hstate⟩ := hu.origin_busy hrow' hb
    rw [Maintenance.busy, hstate] at hb
    refine outOfHand_iff.1 hout row hrow (hid ▸ hid') ?_
    rcases hb with hb | hb
    · exact .inl (hr row hrow hb)
    · exact (hc row hrow hb).elim .inr fun hb => .inl hb.2.1

theorem kept (hjob : w.db.job = c.world.db.job)
    (ha : ∀ m, m.kind = .deleteRepository → m.state.active = true → (f m).active = true)
    (he : Evolves c.world.db w.db) : Tended { c with world := w } := by
  refine h.moved hu hc hr (fun hd => ?_) he
  obtain ⟨d, haw⟩ := h.deletion (deleting_congr hjob hd)
  exact ⟨d, awaitsDeletion_upkept hu (fun m _ _ => ha m) haw⟩

end

/-- Only a deletion request starts a deletion, and it comes with its maintenance request. -/
theorem deletion_quiet (hq : q.quiet = true) (hd : (q.tx.commit c.world.db).deleting = true) :
    ∃ id, (q.tx.commit c.world.db).awaitsDeletion id := by
  have hkeep : c.world.db.deleting = true → ∃ id, (q.tx.commit c.world.db).awaitsDeletion id :=
    fun hdb => by
      obtain ⟨id, haw⟩ := h.deletion hdb
      exact ⟨id, awaitsDeletion_upkept (q.upkept hq _) (fun _ _ _ _ h => h) haw⟩
  cases q with
  | run q =>
    by_cases hreq : q = .requestDeletion
    · subst hreq
      by_cases hactive : ∃ job, c.world.db.job = some job ∧ job.deletionState = .active
      · obtain ⟨job, hj, hs⟩ := hactive
        refine ⟨c.world.db.nextId, ?_⟩
        simp only [SqlOp.tx, RunOp.tx, Tx.commit, requestBackupRepositoryDeletion, hj, hs, if_true]
        exact ⟨{ id := c.world.db.nextId, kind := .deleteRepository, byteBudget := some 1000 }, by simp,
          rfl, rfl, rfl⟩
      · have hsame : RunOp.requestDeletion.tx.commit c.world.db = c.world.db := by
          simp only [RunOp.tx, Tx.commit, requestBackupRepositoryDeletion]
          cases hj : c.world.db.job with
          | none => rfl
          | some job =>
            have hs : job.deletionState ≠ .active := fun hs => hactive ⟨job, hj, hs⟩
            simp only [hs, if_false]
        refine hkeep ?_
        change (RunOp.requestDeletion.tx.commit c.world.db).deleting = true at hd
        rwa [hsame] at hd
    · exact hkeep (q.deleting_of hreq _ hd)
  | catalog q =>
    exact hkeep (deleting_congr (q.only (fun h => by rw [h] at hq; cases hq) c.world.db).job hd)
  | upkeep q =>
    exact hkeep (deleting_upkeep q c.world.db hd)
  | restore q =>
    exact hkeep (deleting_congr (q.job_eq c.world.db) hd)

theorem quiet (hq : q.quiet = true)
    (hw : w.db = q.tx.commit c.world.db) : Tended { c with world := w } := by
  refine h.moved (hw ▸ q.upkept hq c.world.db) (fun _ _ h => .inl h) (fun _ _ h => h) ?_
    (hw ▸ .quiet _ hq)
  rw [hw]
  exact h.deletion_quiet hq

theorem suspend (hd : c.world.db.deleting = false)
    (hw : w.db = RunOp.suspend.tx.commit c.world.db) : Tended { c with world := w } := by
  refine h.moved (hw ▸ (upkept_suspend c.world.db).moves) ?_ ?_ ?_ ?_
  · intro m _ hs
    split_ifs at hs
    exact .inl hs
  · intro m _ hs
    split_ifs at hs
    exact hs
  · intro hdel
    rw [hw] at hdel
    rw [RunOp.suspend.deleting_of (by simp) _ hdel] at hd
    cases hd
  · exact hw ▸ .sql h.requests.toRequestKeys (.run .suspend)

theorem cancelVerify
    (hx : ∀ m ∈ c.world.db.maintenance, m.id = id → m.state = .running → c.executes id)
    (hw : w.db = (UpkeepOp.cancelVerify id).tx.commit c.world.db) :
    Tended { c with world := w } := by
  have hcancel : ∀ m : Maintenance, m.cancelled id = .cancelling →
      m.state = .cancelling ∨ (m.id = id ∧ m.kind = .verify ∧ m.state = .running) := by
    intro m hs
    unfold Maintenance.cancelled at hs
    split_ifs at hs with h₁ h₂
    · exact .inr ⟨h₁.1, h₁.2.1, h₂⟩
    · exact .inl hs
  refine h.kept (hw ▸ (upkept_cancelVerify id c.world.db).moves) ?_ ?_ ?_ ?_
    (hw ▸ .sql h.requests.toRequestKeys (.upkeep (.cancelVerify id)))
  · intro m hm hs
    rcases hcancel m hs with hs | ⟨hid, hk, hr⟩
    · exact .inl hs
    · exact .inr ⟨hk, hr, hid ▸ hx m hm hid hr⟩
  · intro m _ hs
    simp only [Maintenance.cancelled] at hs
    split_ifs at hs
    exact hs
  · rw [hw]
    rfl
  · intro m hk ha
    simpa [Maintenance.cancelled, hk] using ha

theorem takeover (hw : w.db = c.world.db.recoverVerifies) : Tended { c with world := w } := by
  refine h.kept (hw ▸ (upkept_takeover c.world.db).moves) ?_ ?_ ?_ ?_ (hw ▸ .takeover _)
  · intro m _ hs
    split_ifs at hs
    exact .inl hs
  · intro m _ hs
    split_ifs at hs
    exact hs
  · rw [hw]
    rfl
  · intro m _ ha
    split_ifs
    · rfl
    · exact ha

theorem tick (seconds : ℕ) :
    Tended { c with world := { c.world with db := { c.world.db with now := c.world.db.now + seconds } } } := by
  have hu : Upkept (Maintenance.steady (·.state)) c.world.db
      { c.world.db with now := c.world.db.now + seconds } := .same le_rfl (fun h => h) rfl
  exact h.kept hu.moves (fun _ _ h => .inl h) (fun _ _ h => h) rfl (fun _ _ h => h) (.keeps hu.moves)

theorem env (hok : Undisturbed c (.env move))
    (hout : ∀ q, move = .sql q → Clumoove.outside q = true) :
    Tended { c with world := { c.world with db := move.apply c.world.db } } := by
  cases move with
  | takeover => exact h.takeover rfl
  | tick seconds => exact h.tick seconds
  | sql q =>
    by_cases hq : q.quiet = true
    · exact h.quiet hq rfl
    · have ho := hout q rfl
      cases q with
      | run q =>
        cases q with
        | suspend => exact h.suspend hok rfl
        | _ => exact absurd rfl hq
      | upkeep q =>
        cases q with
        | cancelVerify id => exact h.cancelVerify hok rfl
        | _ => first | exact absurd rfl hq | exact absurd ho Bool.false_ne_true
      | catalog q => cases ho
      | restore q => exact absurd rfl hq

theorem ticket (ht : ∀ fuel m, t = .maintenance fuel m → KindOf c.world.db m.id m.kind) :
    Tended { c with waiting := c.waiting ++ [t] } := by
  refine { h with tickets := fun fuel m hm => ?_, tended := fun m hm hs => ?_ }
  · rcases hm with hm | hm
    · rcases mem_append.1 hm with hm | hm
      · exact h.tickets fuel m (.inl hm)
      · exact ht fuel m (mem_singleton.1 hm).symm
    · exact h.tickets fuel m (.inr hm)
  · rcases h.tended m hm hs with ⟨fuel, m', hmem, hid⟩ | hheld
    · exact .inl ⟨fuel, m', mem_append_left _ hmem, hid⟩
    · exact .inr hheld

theorem poll (hok : Undisturbed c (.poll t)) (hclaim : t.claim c.world.db db) :
    Tended { c with world := { c.world with db := db }, waiting := c.waiting ++ [t] } := by
  cases t with
  | run job claimed =>
    have hcommit : db = (SqlOp.run .claimQueued).tx.commit c.world.db := by
      change db = claimNextQueuedBackupRun.commit c.world.db
      unfold Tx.commit
      rw [show claimNextQueuedBackupRun c.world.db = _ from hclaim]
    exact (h.quiet (w := { c.world with db := db }) rfl hcommit).ticket fun _ _ h => nomatch h
  | maintenance fuel m =>
    obtain ⟨pick, hclaim⟩ := hclaim
    obtain ⟨⟨row, hrow, hid, hkind, -⟩, hsteady⟩ := upkept_claim hclaim
    have hu := hsteady.moves
    have hcommit : (UpkeepOp.claim pick).tx.commit c.world.db = db := by
      change (claimNextBackupMaintenance pick).commit c.world.db = db
      unfold Tx.commit
      rw [hclaim]
    have hkindOf : KindOf c.world.db m.id m.kind :=
      ⟨hid ▸ h.requests.fresh row hrow, fun row' hrow' hid' => by
        rw [eq_of_key h.requests.nodup hrow' hrow (hid'.trans hid.symm)]
        exact hkind⟩
    have hc := h.ticket (t := .maintenance fuel m) fun fuel' m' hm' => by
      cases hm'
      exact hkindOf
    have hexec : SystemState.executes { c with waiting := c.waiting ++ [.maintenance fuel m] } m.id :=
      .inl ⟨fuel, m, by simp, rfl⟩
    have hother {row' row₀ : Maintenance} (hmine : row₀.id ≠ m.id) (hb : row'.busy)
        (hst : row'.state = if row₀.id = m.id then .running else
          if Maintenance.abandoned c.world.db.now row₀ then .pending else row₀.state) :
        row'.state = row₀.state := by
      rw [if_neg hmine] at hst
      split_ifs at hst
      · rw [Maintenance.busy, hst] at hb
        simp at hb
      · exact hst
    refine hc.outside (w := { c.world with db := db })
      (hcommit ▸ .sql h.requests.toRequestKeys (.upkeep (.claim pick))) ?_ ?_ ?_
    · intro row' hrow' hs
      obtain ⟨row₀, hrow₀, hid₀, hk₀, hstate⟩ := hu.origin_busy hrow' hs.busy
      rw [hid₀]
      by_cases hmine : row₀.id = m.id
      · rw [hmine]
        exact hexec
      · refine hc.tended row₀ hrow₀ ?_
        have hsame := hother hmine hs.busy hstate
        rwa [Maintenance.strandable, hk₀, hsame] at hs
    · intro fuel' m' op k hheld hm' hout
      refine outOfHand_iff.2 fun row' hrow' hid' hb => ?_
      obtain ⟨row₀, hrow₀, hid₀, -, hstate⟩ := hu.origin_busy hrow' hb
      have hmine : row₀.id ≠ m.id := fun hmine => by
        have hids : m'.id = m.id := by rw [← hid', hid₀, hmine]
        have hk' : m.kind = .deleteRepository := by
          have := (h.tickets fuel' m' (.inr ⟨_, hheld⟩)).kind row hrow (hid.trans hids.symm)
          rw [← hkind, this, hm']
        exact hok hk' (.inr ⟨fuel', m', op, k, hheld, hids⟩)
      rw [Maintenance.busy, hother hmine hb hstate] at hb
      exact outOfHand_iff.1 hout row₀ hrow₀ (hid₀ ▸ hid') hb
    · intro hdel
      have hjob : db.job = c.world.db.job := by
        rw [← hcommit]
        exact (congrArg Db.job ((UpkeepOp.claim pick).withoutUpkeep_eq c.world.db) :)
      obtain ⟨d, haw⟩ := h.deletion (deleting_congr hjob hdel)
      refine ⟨d, awaitsDeletion_upkept hu ?_ haw⟩
      intro row _ _ _ ha
      split_ifs
      · rfl
      · rfl
      · exact ha

/-- A worker that waits for the lock goes, and leaves no request behind that needs it. -/
theorem leave (hw : c.waiting = l₁ ++ t :: l₂)
    (ht : ∀ fuel m, t = .maintenance fuel m → c.world.db.movable m.id) :
    Tended { c with waiting := l₁ ++ l₂ } := by
  refine { h with tickets := fun fuel m hm => ?_, tended := fun m hm hs => ?_ }
  · refine h.tickets fuel m (hm.imp_left fun hm => ?_)
    rw [hw]
    rcases mem_append.1 hm with hm | hm <;> simp [hm]
  · rcases h.tended m hm hs with ⟨fuel, m', hmem, hid⟩ | hheld
    · rw [hw, mem_append, mem_cons] at hmem
      rcases hmem with hmem | rfl | hmem
      · exact .inl ⟨fuel, m', mem_append_left _ hmem, hid⟩
      · exact absurd hs (ht fuel m' rfl m hm hid.symm)
      · exact .inl ⟨fuel, m', mem_append_right _ hmem, hid⟩
    · exact .inr hheld

theorem giveUp (hok : Undisturbed c (.giveUp t o)) (hw : c.waiting = l₁ ++ t :: l₂)
    (hx : Exec t.giveUp c.world o r w) : Tended { c with world := w, waiting := l₁ ++ l₂ } := by
  cases t with
  | run job claimed =>
    have hc : Tended { c with world := w } := by
      rcases exec_sql hx with rfl | ⟨-, rfl⟩
      · exact h.quiet (q := .run (.fail claimed.generation claimed.id claimed.state _)) rfl rfl
      · exact h
    exact hc.leave hw fun _ _ h => nomatch h
  | maintenance fuel m =>
    have hc : Tended { c with world := w } := by
      rcases exec_sql hx with rfl | ⟨-, rfl⟩
      · exact h.kept (upkept_retry m.id c.world.db _).moves
          (fun m' _ hs => .inl (retried_cancelling m' m.id hs))
          (fun m' _ hs => retried_running m' m.id hs) rfl (fun _ _ => retried_active m.id)
          (.sql h.requests.toRequestKeys (.upkeep (.retry m.id _)))
      · exact h
    refine hc.leave hw fun fuel' m' hm' => ?_
    cases hm'
    exact movable_of_exec h.requests hx (.inr ⟨_, rfl, hok.1, hok.2⟩)

/-- The worker that has the lock keeps a request for the deletion of the repository. -/
theorem deletion_exec (hh : c.holder = some (t, .call op k)) (hx : Exec op c.world o r w)
    (hd : w.db.deleting = true) : ∃ id, w.db.awaitsDeletion id := by
  rcases exec_cases hx with ⟨q, rfl, rfl⟩ | hdb
  · rcases allows_sql (h.uses t _ hh).1 with hq | ⟨fuel, m, rfl, hq⟩
    · exact h.deletion_quiet hq hd
    · have hgone : ∀ db : Db, db.job = none → db.deleting = true → False := fun db hj hd => by
        unfold Db.deleting at hd
        rw [hj] at hd
        cases hd
      have hdel : c.world.db.deleting = true := by
        rcases hq with rfl | ⟨code, rfl⟩ | ⟨rfl, -⟩ | ⟨rfl, -⟩
        · exact deleting_upkeep (.complete m.id) _ hd
        · exact deleting_upkeep (.retry m.id code) _ hd
        · exact deleting_upkeep (.completeVerify m.id) _ hd
        · exact deleting_deleteJob _ hd
      obtain ⟨d, haw⟩ := h.deletion hdel
      by_cases hmine : m.id = d
      · have hkind : m.kind = .deleteRepository := by
          obtain ⟨row, hrow, hid, hk, -⟩ := haw
          rw [← (h.tickets fuel m (.inr ⟨_, hh⟩)).kind row hrow (hid.trans hmine.symm), hk]
        have hkindOf := h.tickets fuel m (.inr ⟨_, hh⟩)
        rw [hkind] at hkindOf
        subst hmine
        obtain ⟨hguar, -⟩ := h.handsOver fuel m _ hh hkind c.world (fun h => h)
          ⟨h.requests, hkindOf⟩ r _ ⟨o, hx⟩
        rcases hguar haw with haw | hj
        · exact ⟨m.id, haw⟩
        · exact (hgone _ hj hd).elim
      · have hother : ∀ row : Maintenance, row.id = d → row.finished m.id = row.state :=
          fun row hid => row.finished_of_not m.id (decide_eq_false fun hin => hmine (hin.1 ▸ hid))
        refine ⟨d, ?_⟩
        rcases hq with rfl | ⟨code, rfl⟩ | ⟨rfl, -⟩ | ⟨rfl, -⟩
        · refine awaitsDeletion_upkept (upkept_complete m.id _ h.requests.toRequestKeys).moves ?_ haw
          exact fun row _ hid _ ha => (hother row hid).symm ▸ ha
        · exact awaitsDeletion_upkept (upkept_retry m.id _ code).moves
            (fun _ _ _ _ => retried_active m.id) haw
        · refine awaitsDeletion_upkept (upkept_completeVerify m.id _).moves ?_ haw
          exact fun row _ hid _ ha => (hother row hid).symm ▸ ha
        · exact (deleteJob_gone d haw).resolve_right fun hj => hgone _ hj hd
  · rw [hdb] at hd
    obtain ⟨d, haw⟩ := h.deletion hd
    refine ⟨d, ?_⟩
    rwa [hdb]

theorem exec (hok : Undisturbed c (.exec o)) (hh : c.holder = some (t, .call op k))
    (hx : Exec op c.world o r w) : Tended { c with world := w, holder := some (t, k r) } := by
  have ha := (h.uses t _ hh).1
  have he := evolves_exec h.requests.toRequestKeys hx
  constructor
  · exact h.requests.evolves he
  · intro fuel m ht
    refine (h.tickets fuel m (ht.imp (fun h => h) fun ⟨p, hp⟩ => ?_)).evolves he
    cases hp
    exact ⟨_, hh⟩
  · intro m' hm' hs
    obtain ⟨m, hm, hid, hs₀⟩ := strandable_of_exec h.requests ha hx hm' hs
    rw [← hid]
    rcases h.tended m hm hs₀ with hwait | ⟨fuel, m₀, op₀, k₀, hheld, hid₀⟩
    · exact .inl hwait
    · rw [hh] at hheld
      cases hheld
      -- the worker goes on, unless this was its final write
      rcases h.closes fuel m₀ _ hh with hret | hcloses
      · cases hret
      · rcases hcloses r with hk | ⟨-, hop⟩
        · refine .inr ?_
          cases hkr : k r with
          | ret a =>
            rw [hkr] at hk
            exact absurd hk id
          | call op' k' => exact ⟨fuel, m₀, op', k', rfl, hid₀⟩
        · have hcond := hok fuel m₀ op k hh
          have hmov : w.db.movable m₀.id := movable_of_exec h.requests hx <|
            hop.imp (fun hop => ⟨hop, hcond.1 hop⟩) fun ⟨code, hop⟩ =>
              ⟨code, hop, hcond.2 code hop⟩
          exact absurd hs (hmov m' hm' (hid₀.trans hid).symm)
  · intro t' p hp
    cases hp
    exact (h.uses t _ hh).2 r
  · intro fuel m p hp
    cases hp
    rcases h.closes fuel m _ hh with hret | hcloses
    · cases hret
    · exact (hcloses r).elim .inr fun ⟨⟨a, ha⟩, _⟩ => .inl ha
  · intro fuel m p hp hm
    cases hp
    have hk := h.tickets fuel m (.inr ⟨_, hh⟩)
    rw [hm] at hk
    exact (h.handsOver fuel m _ hh hm c.world (fun h => h) ⟨h.requests, hk⟩ r w ⟨o, hx⟩).2.2
  · exact h.deletion_exec hh hx

theorem release (hfree : ∀ fuel m op k, c.holder = some (.maintenance fuel m, .call op k) →
      c.world.db.movable m.id) : Tended { c with holder := none } where
  requests := h.requests
  tickets fuel m hm := h.tickets fuel m (hm.imp (fun h => h) fun ⟨_, hp⟩ => (nomatch hp))
  tended m hm hs := by
    rcases h.tended m hm hs with hwait | ⟨fuel, m', op, k, hheld, hid⟩
    · exact .inl hwait
    · exact absurd hs (hfree fuel m' op k hheld m hm hid.symm)
  uses t p hp := (nomatch hp)
  closes fuel m p hp := (nomatch hp)
  handsOver fuel m p hp := (nomatch hp)
  deletion := h.deletion

end

theorem step (sha256 : List UInt8 → Digest) (h : Tended c)
    (hok : Undisturbed c l) (hs : Step (backupSystem sha256) c l c') : Tended c' := by
  cases hs with
  | env he =>
    obtain ⟨hout, rfl⟩ := he
    exact h.env hok hout
  | poll hp =>
    obtain ⟨db, hclaim, rfl⟩ := hp
    exact h.poll hok hclaim
  | @drop t l₁ l₂ hw =>
    refine h.leave hw fun fuel m ht => ?_
    subst ht
    exact hok
  | giveUp hw hx => exact h.giveUp hok hw hx
  | acquire hf hw => exact h.acquire sha256 hf hw
  | exec hh hx => exact h.exec hok hh hx
  | finish hh =>
    refine h.release fun fuel m op k hheld => ?_
    rw [hh] at hheld
    cases hheld
  | crash hh => exact h.release hok

theorem start (hw : started w) : Tended { world := w } := by
  obtain ⟨config, rfl⟩ := hw
  constructor
  · constructor
    · constructor <;> simp [newBackupJob]
    all_goals simp [newBackupJob]
  · rintro fuel m (hm | ⟨p, hm⟩) <;> cases hm
  · exact fun m hm => (nomatch hm)
  · exact fun t p hp => (nomatch hp)
  · exact fun fuel m p hp => (nomatch hp)
  · exact fun _ _ _ h => nomatch h
  · intro hd
    cases hd

/-- In every state of a run without disturbances, whoever can be stranded has a worker. -/
theorem of_reachable (h : Reachable sha256 Undisturbed c) : Tended c :=
  h.invariant (fun _ => start) fun _ _ _ hc hok hs => hc.step sha256 hok hs

end Tended

/-- A lapsed request without a worker is one the takeover recovers, unless only its worker can move
it on. -/
theorem recovered_of_lapsed (hl : m.leased) (hm : m ∈ db.maintenance)
    (hs : ¬ m.strandable) (hlapsed : m.lapsed db.now) (ha : m.state.active = true) :
    ∃ m' ∈ db.recoverVerifies.maintenance,
      m'.id = m.id ∧ (m'.state = .pending ∨ m'.state = .retryWait) := by
  obtain ⟨m', hm', hid, -, hmove⟩ := (upkept_takeover db).moves.image hm
  refine ⟨m', hm', hid, ?_⟩
  have hstate := hmove.1
  cases hst : m.state with
  | pending | retryWait =>
    have hab : Maintenance.abandoned db.now m = false := by simp [Maintenance.abandoned, hst]
    simp only [hab, hst] at hstate
    simp [hstate]
  | running =>
    have hk : m.kind = .verify := by
      by_contra hk
      exact hs (.inr ⟨hst, hk⟩)
    obtain ⟨lease, hlease⟩ := Option.isSome_iff_exists.1 (hl hst)
    have hpast := hlapsed.2
    rw [hlease] at hpast
    have hab : Maintenance.abandoned db.now m = true := by
      simp only [Maintenance.abandoned, hk, hst, hlease]
      simpa using hpast
    simp only [hab] at hstate
    exact .inl hstate
  | cancelling => exact absurd (.inl hst) hs
  | cancelled | completed | failed =>
    rw [hst] at ha
    cases ha

/-- No maintenance request is stranded in a run without disturbances. -/
theorem maintenance_not_stranded {sha256 : List UInt8 → Digest} {c : SystemState}
    (h : Reachable sha256 Undisturbed c) :
    (∀ m ∈ c.world.db.maintenance, ¬ c.executes m.id → m.lapsed c.world.db.now →
      m.state.active = true → ∃ m' ∈ c.world.db.recoverVerifies.maintenance,
        m'.id = m.id ∧ (m'.state = .pending ∨ m'.state = .retryWait)) ∧
    (c.world.db.deleting = true → ∃ m ∈ c.world.db.maintenance,
      m.kind = .deleteRepository ∧ m.state.active = true) := by
  have ht := Tended.of_reachable h
  constructor
  · intro m hm hx hlapsed ha
    refine recovered_of_lapsed (ht.requests.leased m hm) hm (fun hs => ?_) hlapsed ha
    exact hx (ht.tended m hm hs)
  · intro hd
    obtain ⟨id, m, hm, -, hk, ha⟩ := ht.deletion hd
    exact ⟨m, hm, hk, ha⟩

def emptyJob : Job where
  selectedPaths := []
  targetDir := []
  repositoryId := []
  repositoryRoot := []
  retentionCount := 1
  filesSupported := true

/-- A request is made for a new job, a worker claims it and disappears before it has the lock, and
time passes. -/
theorem reachable_abandoned (sha256 : List UInt8 → Digest) (ok : SystemState → SystemLabel → Prop)
    (config : Job) (q : SqlOp) (hq : outside q = true)
    (hclaim : (Ticket.maintenance 0 m).claim (q.tx.commit (newBackupJob config)) db)
    (hrequest : ok { world := { db := newBackupJob config } } (.env (.sql q)))
    (hpoll : ok { world := { db := q.tx.commit (newBackupJob config) } } (.poll (.maintenance 0 m)))
    (hdrop : ok { world := { db := db }, waiting := [.maintenance 0 m] } (.drop (.maintenance 0 m)))
    (htick : ok { world := { db := db } } (.env (.tick 1000))) :
    Reachable sha256 ok { world := { db := { db with now := db.now + 1000 } } } := by
  have h₀ : Reachable sha256 ok { world := { db := newBackupJob config } } := .start ⟨config, rfl⟩
  have h₁ : Reachable sha256 ok { world := { db := q.tx.commit (newBackupJob config) } } := by
    refine .step h₀ hrequest (.env ⟨?_, rfl⟩)
    rintro q' ⟨⟩
    exact hq
  have h₂ : Reachable sha256 ok { world := { db := db }, waiting := [.maintenance 0 m] } :=
    .step h₁ hpoll (.poll ⟨db, hclaim, rfl⟩)
  have h₃ : Reachable sha256 ok { world := { db := db } } :=
    .step h₂ hdrop (.drop (show _ = [] ++ Ticket.maintenance 0 m :: [] from rfl))
  exact .step h₃ htick (.env ⟨fun q hq => (nomatch hq), rfl⟩)

theorem not_executes_of_idle : ¬ SystemState.executes { world := w } id := by
  rintro (⟨fuel, m, hm, -⟩ | ⟨fuel, m, op, k, hm, -⟩) <;> cases hm

/-- The worker of a check disappears, and the check is recovered. -/
theorem maintenance_not_stranded_check : ∃ c : SystemState,
    Reachable (fun _ => zeroDigest) Undisturbed c ∧
    ∃ m ∈ c.world.db.maintenance, ¬ c.executes m.id ∧ m.lapsed c.world.db.now ∧
      m.state = .running ∧ ∃ m' ∈ c.world.db.recoverVerifies.maintenance,
        m'.id = m.id ∧ (m'.state = .pending ∨ m'.state = .retryWait) := by
  have hreach := reachable_abandoned (fun _ => zeroDigest) Undisturbed emptyJob
    (.upkeep (.createVerify .full none)) rfl ⟨0, rfl⟩ trivial nofun ?_ trivial
  · refine ⟨_, hreach, _, mem_cons_self .., not_executes_of_idle, ?_, rfl, ?_⟩
    · exact ⟨by decide, by decide⟩
    · exact (maintenance_not_stranded hreach).1 _ (mem_cons_self ..) not_executes_of_idle
        ⟨by decide, by decide⟩ rfl
  · intro m hm _ hs
    rcases mem_singleton.1 hm with rfl
    rcases hs with hs | ⟨-, hk⟩
    · cases hs
    · exact hk rfl

/-- The worker that was to delete the repository disappears, and its request stays `RUNNING`: the
takeover of a later claim does not recover it. -/
theorem deletion_stranded : ∃ c : SystemState, Reachable (fun _ => zeroDigest) (fun _ _ => True) c ∧
    c.world.db.deleting = true ∧
    ∃ m ∈ c.world.db.maintenance, m.kind = .deleteRepository ∧ ¬ c.executes m.id ∧
      m.lapsed c.world.db.now ∧ m.state = .running ∧
      ∀ m' ∈ c.world.db.recoverVerifies.maintenance, m'.id = m.id → m'.state = .running := by
  have hreach := reachable_abandoned (fun _ => zeroDigest) (fun _ _ => True) emptyJob
    (.run .requestDeletion) rfl ⟨0, rfl⟩ trivial trivial trivial trivial
  refine ⟨_, hreach, rfl, _, mem_cons_self .., rfl, not_executes_of_idle,
    ⟨by decide, by decide⟩, rfl, ?_⟩
  intro m' hm' hid
  rcases mem_singleton.1 hm' with rfl
  rfl

end Clumoove
