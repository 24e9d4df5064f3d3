import Clumoove.Sanity.Programs
import Clumoove.Sanity.Schedule
import Clumoove.Sanity.Targets

/-! A repository check that ends `COMPLETED` has a verdict on every object it lists, as long as no
worker takes the absence of waiting targets for the end of the check while another claim on a target
is still alive, and none lists packs for a check that was sent back to the queue meanwhile. -/

namespace Clumoove

open Prog Machine Table List

variable {P : Db → Prop} {q : SqlOp}

def Db.checkedAll (db : Db) (maintenanceId : ℕ) : Prop :=
  ∀ t ∈ db.verifyTargets, t.maintenanceId = maintenanceId → t.state.checked = true

def Db.exhausted (db : Db) (maintenanceId : ℕ) : Prop :=
  ∀ t ∈ db.verifyTargets, t.maintenanceId = maintenanceId →
    t.state ≠ .pending ∧ ¬ (t.state = .running ∧ t.claimDeadline.any (· < db.now))

/-- The states in which an operation of the worker does not spoil a check. -/
def Steady : Op → Db → Prop
  | .sql (.upkeep (.claimTarget id)), db => db.exhausted id →
    ∀ t ∈ db.verifyTargets, t.maintenanceId = id → t.state ≠ .running
  | .sql (.upkeep (.snapshotTargets id)), db => ∀ m ∈ db.maintenance, m.id = id →
    m.state = .pending ∨ m.state = .retryWait → db.unlistedPacks id = []
  | _, _ => True

variable (c : SystemState)

/-- The steps that spoil no check: a worker that finds no target to claim finds none in the hands of
another claim either, and packs are listed for a check that has not been taken over. -/
def Orderly : SystemLabel → Prop
  | .exec _ => ∀ t op k, c.holder = some (t, .call op k) → Steady op c.world.db
  | _ => True

/-- A check that becomes `COMPLETED` has checked all it lists. -/
def EndsChecked (db db' : Db) : Prop :=
  ∀ m' ∈ db'.maintenance, m'.kind = .verify → m'.state = .completed →
    (∃ m ∈ db.maintenance, m.id = m'.id ∧ m.state = .completed) ∨
    (db'.checkedAll m'.id ∧ m'.checkedPacks + m'.missingPacks + m'.damagedPacks = m'.totalPacks)

section Transactions

variable {db db' : Db}

theorem EndsChecked.refl (db : Db) : EndsChecked db db := fun m hm _ hs => .inl ⟨m, hm, rfl, hs⟩

theorem EndsChecked.of_moved (hu : Upkept (Maintenance.moves f) db db')
    (hf : ∀ m ∈ db.maintenance, f m = .completed → m.state = .completed ∨ m.kind ≠ .verify) :
    EndsChecked db db' := by
  intro m' hm' hk hs
  rcases hu.origin hm' with ⟨m, hm, hid, hkind, hmove⟩ | ⟨-, -, hp, -⟩
  · refine .inl ⟨m, hm, hid.symm, ?_⟩
    exact (hf m hm (hmove.1 ▸ hs)).resolve_right fun hne => hne (hkind ▸ hk)
  · rw [hp] at hs
    cases hs

theorem EndsChecked.sql (h : CheckBooks db) (hq : (Op.sql q).finishes = false) :
    EndsChecked db (q.tx.commit db) := by
  by_cases hquiet : q.quiet = true
  · exact .of_moved (q.upkept hquiet db) fun _ _ h => .inl h
  by_cases hdel : q = .catalog .deleteJob
  · subst hdel
    intro m' hm' _ hs
    rcases deleteJob_commit db with heq | hgone
    · exact .inl ⟨m', congrArg Db.maintenance heq ▸ hm', rfl, hs⟩
    · exact absurd (congrArg Db.maintenance hgone ▸ hm') not_mem_nil
  · obtain ⟨f, hu, hmoves⟩ := SqlOp.moved h.toRequestKeys q (fun id hid => hquiet (hid ▸ rfl)) hdel
    refine .of_moved hu.moves fun m hm hs => .inl ?_
    refine (hs ▸ hmoves m hm).of_completed.resolve_right ?_
    rintro ⟨id, rfl | rfl⟩ <;> cases hq

theorem EndsChecked.takeover (db : Db) : EndsChecked db db.recoverVerifies := by
  refine .of_moved (upkept_takeover db).moves fun m _ hs => .inl ?_
  exact (hs ▸ takeover_moves db m).of_completed.resolve_right id

theorem CheckBooks.sql (h : CheckBooks db) (hs : Steady (.sql q) db) :
    CheckBooks (q.tx.commit db) := by
  by_cases hsnap : ∃ id, q = .upkeep (.snapshotTargets id)
  · obtain ⟨id, rfl⟩ := hsnap
    exact h.snapshotTargets id hs
  · have hq : ∀ id, q ≠ .upkeep (.snapshotTargets id) := fun id hid => hsnap ⟨id, hid⟩
    by_cases hdel : q = .catalog .deleteJob
    · subst hdel
      exact h.deleteJob
    · obtain ⟨f, hu, hmoves⟩ := SqlOp.moved h.toRequestKeys q hq hdel
      exact h.carry hu (q.listed hq hdel db) fun m hm => (hmoves m hm).completable

end Transactions

/-- What the parties without the lock do to the requests and targets of checks. -/
structure Leaves (db db' : Db) : Prop where
  targets : db'.verifyTargets = db.verifyTargets
  kinds : ∀ id kind, KindOf db id kind → KindOf db' id kind
  settled : ∀ id, Settled db id → Settled db' id

theorem Leaves.of_evolves (he : Evolves db db')
    (ht : db'.verifyTargets = db.verifyTargets) : Leaves db db' :=
  ⟨ht, fun _ _ h => h.evolves he, fun _ h => h.evolves he⟩

def checking : Logic Op Op.Res World where
  inv w := CheckBooks w.db
  rely w w' := Leaves w.db w'.db
  guar w w' := EndsChecked w.db w'.db
  exec op w r w' := Steady op w.db ∧ ∃ o, Exec op w o r w'
  rely_refl _ := ⟨rfl, fun _ _ h => h, fun _ h => h⟩
  rely_trans h₁ h₂ := ⟨h₂.targets.trans h₁.targets, fun id kind h => h₂.kinds id kind (h₁.kinds id kind h),
    fun id h => h₂.settled id (h₁.settled id h)⟩

/-- The transactions that leave the targets alone and end no request. -/
def SqlOp.aside : SqlOp → Bool
  | .run _ | .restore _ => true
  | .upkeep (.createVerify ..) | .upkeep (.cancelVerify _) | .upkeep (.claim _)
  | .upkeep (.retry ..) => true
  | _ => false

theorem aside_sql (h : CheckBooks db) (hq : q.aside = true) :
    EndsChecked db (q.tx.commit db) ∧ CheckBooks (q.tx.commit db) ∧ Leaves db (q.tx.commit db) := by
  have he := Evolves.sql h.toRequestKeys q
  cases q with
  | run q | restore q => exact ⟨.sql h rfl, h.sql trivial, .of_evolves he (q.verifyTargets_eq db)⟩
  | catalog q => cases hq
  | upkeep q =>
    cases q with
    | claim | createVerify =>
      refine ⟨.sql h rfl, h.sql trivial, .of_evolves he ?_⟩
      refine Tx.commit_of (P := fun db' => db'.verifyTargets = db.verifyTargets) rfl fun a db' hok => ?_
      simp only [SqlOp.tx, UpkeepOp.tx, claimNextBackupMaintenance, createBackupVerify] at hok
      repeat' split at hok
      all_goals cases hok
      all_goals rfl
    | cancelVerify | retry => exact ⟨.sql h rfl, h.sql trivial, .of_evolves he rfl⟩
    | _ => cases hq

theorem checking_exec {w w' : World} (hf : op.finishes = false)
    (hi : checking.inv w) (hx : checking.exec op w r w') : checking.guar w w' ∧ checking.inv w' := by
  obtain ⟨hs, o, hx⟩ := hx
  rcases exec_cases hx with ⟨q, rfl, rfl⟩ | hdb
  · exact ⟨.sql hi hf, CheckBooks.sql hi hs⟩
  · unfold checking
    dsimp only
    rw [hdb]
    exact ⟨.refl _, hi⟩

/-- An assertion about the requests that no step of the system breaks. -/
structure Lasting (P : Db → Prop) : Prop where
  evolves : ∀ {db db'}, Evolves db db' → P db → P db'
  leaves : ∀ {db db'}, Leaves db db' → P db → P db'

theorem Lasting.kindOf (id : ℕ) (kind : MaintenanceKind) : Lasting fun db => KindOf db id kind :=
  ⟨fun he h => h.evolves he, fun hl h => hl.kinds id kind h⟩

theorem Lasting.stable (hP : Lasting P) : checking.Stable fun w => P w.db :=
  fun h hr _ => hP.leaves hr h

theorem Lasting.exec (hP : Lasting P) {w w' : World}
    (hi : checking.inv w) (h : P w.db) (hx : checking.exec op w r w') : P w'.db := by
  obtain ⟨-, o, hx⟩ := hx
  exact hP.evolves (evolves_exec hi.toRequestKeys hx) h

theorem Lasting.triple (hP : Lasting P)
    (hA : ∀ op, A op → op.finishes = false) {α : Type} {x : Act α} (hx : Within A x) :
    Triple checking (fun w => P w.db) x (fun _ w => P w.db) (fun _ w => P w.db) := by
  refine hx.triple hP.stable ?_
  intro op w r w' ha hi h hx
  obtain ⟨hg, hi'⟩ := checking_exec (hA op ha) hi hx
  exact ⟨hg, hi', hP.exec hi h hx⟩

section Check

variable {db db' : Db} {id : ℕ}

theorem checkedAll_of_none (h : CheckBooks db) (hs : Steady (.sql (.upkeep (.claimTarget id))) db)
    (hclaim : claimNextBackupVerifyTarget id db = .ok (none, db')) : db'.checkedAll id := by
  simp only [claimNextBackupVerifyTarget] at hclaim
  split at hclaim
  · next hnone =>
    cases hclaim
    have hempty : ∀ t ∈ db.recoverTargets id, t.maintenanceId = id → t.state ≠ .pending := by
      intro t ht hid hp
      have := filter_eq_nil_iff.1 (firstBy_eq_none.1 hnone) t ht
      simp [hid, hp] at this
    have hexhausted : db.exhausted id := by
      intro t ht hid
      constructor
      · intro hp
        exact hempty t (updateWhere_miss ht (by simp [hp])) hid hp
      · rintro ⟨hr, hlate⟩
        exact hempty _ (updateWhere_hit ht (by simp [hid, hr, hlate])) hid rfl
    intro t' ht' hid
    obtain ⟨t, ht, rfl⟩ := mem_updateWhere.1 ht'
    split_ifs at hid ⊢ with hhit
    · have hhit := of_decide_eq_true hhit
      exact absurd hhit.2.1 (hs hexhausted t ht hid)
    · have hlawful := h.lawful t ht
      rcases hlawful with hp | hr | hc
      · exact absurd hp (hexhausted t ht hid).1
      · exact absurd hr (hs hexhausted t ht hid)
      · exact hc
  · cases hclaim

theorem targetCount_eq (targets : List VerifyTarget)
    (h : ∀ t ∈ targets, t.maintenanceId = id → t.state.checked = true) :
    (targets.filter fun t => t.maintenanceId = id ∧ t.state = .completed).length +
      (targets.filter fun t => t.maintenanceId = id ∧ t.state = .missing).length +
      (targets.filter fun t => t.maintenanceId = id ∧ t.state = .damaged).length =
      (targets.filter (·.maintenanceId = id)).length := by
  induction targets with
  | nil => rfl
  | cons t targets ih =>
    have ih := ih fun t' ht' => h t' (mem_cons_of_mem t ht')
    by_cases hid : t.maintenanceId = id
    · have hc := h t mem_cons_self hid
      simp only [filter_cons, hid, true_and, decide_true, if_true, length_cons, ← ih]
      cases hs : t.state <;> rw [hs] at hc <;> first
        | cases hc; done
        | simp only [reduceCtorEq, decide_true, decide_false, if_true, if_false, Bool.false_eq_true,
            length_cons]
          omega
    · simpa [filter_cons, hid] using ih

theorem EndsChecked.completeVerify (h : CheckBooks db) (hall : db.checkedAll id) :
    EndsChecked db ((UpkeepOp.completeVerify id).tx.commit db) := by
  refine Tx.commit_of (.refl db) fun a db' hok => ?_
  simp only [UpkeepOp.tx, completeBackupVerify] at hok
  split_ifs at hok with hany
  cases hok
  intro m' hm' _ hs
  obtain ⟨m, hm, rfl⟩ := mem_updateWhere.1 hm'
  split_ifs at hs ⊢ with hin
  · -- the request in hand: its total is the number of its targets
    have hin := of_decide_eq_true hin
    refine .inr ⟨fun t' ht' hid' => ?_, ?_⟩
    · obtain ⟨t, ht, rfl⟩ := mem_updateWhere.1 ht'
      have hstate : ∀ t : VerifyTarget, (if decide (t.maintenanceId = id) = true then
          { t with packId := none } else t).state = t.state := fun t => by split_ifs <;> rfl
      have howner : ∀ t : VerifyTarget, (if decide (t.maintenanceId = id) = true then
          { t with packId := none } else t).maintenanceId = t.maintenanceId :=
        fun t => by split_ifs <;> rfl
      rw [hstate]
      refine hall t ht ?_
      rw [howner] at hid'
      exact hid'.trans hin.1
    · have hrun : m.state = .running := by
        rcases hin.2 with hr | hr
        · exact hr
        · rw [hr] at hs
          cases hs
      have htotal := h.totals m hm (by rw [hrun]; rfl)
      rw [hin.1] at htotal
      rw [htotal]
      exact targetCount_eq db.verifyTargets hall
  · exact .inl ⟨m, hm, rfl, hs⟩

/-- Completing a request completes no check: not one that is settled, nor one of another kind. -/
theorem EndsChecked.complete (h : CheckBooks db) {kind : MaintenanceKind} (hk : KindOf db id kind)
    (hs : kind ≠ .verify ∨ Settled db id) : EndsChecked db ((UpkeepOp.complete id).tx.commit db) := by
  refine .of_moved (upkept_complete id db h.toRequestKeys).moves fun m hm hdone => ?_
  simp only [Maintenance.finished] at hdone
  split_ifs at hdone with hin
  · have hin := of_decide_eq_true hin
    rcases hs with hne | hset
    · exact .inr fun hv => hne ((hk.kind m hm hin.1).symm.trans hv)
    · have hc := hset.state m hm hin.1
      rcases hin.2 with hr | hr
      · rw [hr] at hc
        cases hc
      · rw [hr] at hdone
        cases hdone
  · exact .inl hdone

theorem settled_completeVerify (h : CheckBooks db) (hk : id < db.nextId)
    (hok : completeBackupVerify id db = .ok (u, db')) : Settled db' id := by
  simp only [completeBackupVerify] at hok
  split_ifs at hok with hany
  cases hok
  refine ⟨hk, fun m' hm' hid => ?_⟩
  obtain ⟨m₀, hm₀, hin₀⟩ := List.any_eq_true.1 hany
  obtain ⟨m, hm, rfl⟩ := mem_updateWhere.1 hm'
  have hsame : m = m₀ := by
    refine eq_of_key h.nodup hm hm₀ ?_
    rw [(of_decide_eq_true hin₀).1, ← hid]
    split_ifs <;> rfl
  subst hsame
  rw [if_pos hin₀]
  cases m.state <;> rfl

theorem settled_cancelling (h : CheckBooks db) (hk : id < db.nextId)
    (hok : isBackupMaintenanceCancelling id db = .ok (true, db')) : Settled db' id := by
  simp only [isBackupMaintenanceCancelling, Except.ok.injEq, Prod.mk.injEq] at hok
  obtain ⟨hany, rfl⟩ := hok
  obtain ⟨m₀, hm₀, hc⟩ := List.any_eq_true.1 hany
  have hc := of_decide_eq_true hc
  refine ⟨hk, fun m hm hid => ?_⟩
  rw [eq_of_key h.nodup hm hm₀ (hid.trans hc.1.symm), hc.2]
  rfl

end Check

abbrev Maintenance.Stays (m : Maintenance) (w : World) : Prop := KindOf w.db m.id m.kind

section Programs

variable (sha256 : List UInt8 → Digest) {m : Maintenance}

theorem checking_sql (q : SqlOp) (P : Db → Prop) (Q : q.Val → Db → Prop)
    (hP : checking.Stable fun w => P w.db) (hfault : ∀ db db', CheckBooks db → Evolves db db' → P db →
      KindOf db' m.id m.kind)
    (hguar : ∀ db, CheckBooks db → P db → Steady (.sql q) db → EndsChecked db (q.tx.commit db))
    (hok : ∀ db v db', CheckBooks db → P db → Steady (.sql q) db → q.tx db = .ok (v, db') →
      KindOf db' m.id m.kind → Q v db') :
    Triple checking (fun w => P w.db) (sql q) (fun v w => Q v w.db)
      (fun _ => m.Stays) := by
  refine .perform hP ?_
  intro w r w' hi hPw hx
  obtain ⟨hs, o, hx⟩ := hx
  have hk := hfault w.db w'.db hi (evolves_exec hi.toRequestKeys hx) hPw
  have hsame : checking.guar w w' ∧ checking.inv w' := by
    rcases exec_sql hx with rfl | ⟨-, rfl⟩
    · exact ⟨hguar w.db hi hPw hs, CheckBooks.sql hi hs⟩
    · exact ⟨.refl _, hi⟩
  refine ⟨hsame.1, hsame.2, ?_⟩
  cases r with
  | error e => exact hk
  | ok v =>
    obtain ⟨db', htx, rfl⟩ := exec_sql_ok hx
    exact hok w.db v db' hi hPw hs htx hk

theorem checking_checkOnly (hP : Lasting P) {α : Type} {x : Act α} (hx : CheckOnly m x) :
    Triple checking (fun w => P w.db) x (fun _ w => P w.db) (fun _ w => P w.db) :=
  hP.triple (fun _ h => h.2) hx

variable (hm : m.kind = .verify)
include hm

variable (fuel : ℕ)

theorem checking_verifyTargets (read : VerifyRead) :
    Triple checking m.Stays (verifyTargets sha256 m fuel read)
      (fun r w => m.Stays w ∧ if r then w.db.checkedAll m.id else Settled w.db m.id)
      (fun _ => m.Stays) := by
  have hkind := Lasting.kindOf m.id m.kind
  induction fuel generalizing read with
  | zero =>
    refine .bind (checking_checkOnly (m := m) hkind (within_call ⟨trivial, rfl⟩)) fun stopped => ?_
    exact nomatch stopped
  | succ fuel ih =>
    refine .bind (Q := fun r w => m.Stays w ∧ (r = none → w.db.checkedAll m.id)) ?_
      fun r => ?_
    · refine checking_sql (.upkeep (.claimTarget m.id)) (fun db => KindOf db m.id m.kind)
        (fun r db => KindOf db m.id m.kind ∧ (r = none → db.checkedAll m.id)) hkind.stable
        (fun _ _ _ he h => h.evolves he) (fun _ hb _ _ => .sql hb rfl) ?_
      intro db v db' hb _ hs hok hk
      refine ⟨hk, ?_⟩
      rintro rfl
      exact checkedAll_of_none hb hs hok
    · split
      · exact .pure fun w _ h => ⟨h.1, h.2 rfl⟩
      · next target =>
        refine Triple.conseq (R := m.Stays) ?_ (fun _ _ h => h.1)
          (fun _ _ h => h) (fun _ _ h => h)
        refine .bind (checking_checkOnly (m := m) hkind (within_ask ⟨trivial, rfl⟩)) fun past => ?_
        split
        · refine .bind (checking_checkOnly hkind (checkOnly_releaseTarget hm target)) fun _ => ?_
          exact .throw fun _ _ h => h
        · refine .bind (Q := fun b w => m.Stays w ∧ (b = true → Settled w.db m.id)) ?_
            fun cancelling => ?_
          · refine checking_sql (.upkeep (.cancelling m.id)) (fun db => KindOf db m.id m.kind)
              (fun b db => KindOf db m.id m.kind ∧ (b = true → Settled db m.id)) hkind.stable
              (fun _ _ _ he h => h.evolves he) (fun _ hb _ _ => .sql hb rfl) ?_
            intro db v db' hb hk _ hok hk'
            refine ⟨hk', ?_⟩
            rintro rfl
            exact settled_cancelling hb hk.taken hok
          · split
            · next hc =>
              have hboth : Lasting fun db => KindOf db m.id m.kind ∧ Settled db m.id :=
                ⟨fun he h => ⟨h.1.evolves he, h.2.evolves he⟩,
                  fun hl h => ⟨hl.kinds _ _ h.1, hl.settled _ h.2⟩⟩
              refine Triple.conseq (R := fun w => m.Stays w ∧ Settled w.db m.id)
                (S := fun r w => m.Stays w ∧
                  if r then w.db.checkedAll m.id else Settled w.db m.id)
                (F := fun _ w => m.Stays w ∧ Settled w.db m.id) ?_
                (fun _ _ h => ⟨h.1, h.2 hc⟩) (fun _ _ h => h) (fun _ _ h => h.1)
              refine .bind (checking_checkOnly hboth (checkOnly_releaseTarget hm target)) fun _ => ?_
              exact .pure fun w _ h => h
            · refine Triple.conseq (R := m.Stays) ?_ (fun _ _ h => h.1)
                (fun _ _ h => h) (fun _ _ h => h)
              refine .bind (checking_checkOnly hkind
                (checkOnly_checkTarget sha256 hm target read)) fun r => ?_
              refine .bind (checking_checkOnly hkind (checkOnly_settleTarget hm target r.1))
                fun _ => ih r.2

theorem checking_verifyRepositoryMetadata :
    Triple checking m.Stays (verifyRepositoryMetadata sha256 fuel m)
      (fun _ w => m.Stays w ∧ Settled w.db m.id)
      (fun _ => m.Stays) := by
  have hkind := Lasting.kindOf m.id m.kind
  unfold verifyRepositoryMetadata
  split
  · exact .throw fun _ _ h => h
  · refine .bind (checking_checkOnly hkind (within_sql ⟨⟨rfl, hm⟩, rfl⟩)) fun _ => ?_
    refine .bind (checking_verifyTargets sha256 hm fuel _) fun r => ?_
    split
    · next hr =>
      refine Triple.conseq (R := fun w => m.Stays w ∧ w.db.checkedAll m.id) ?_
        (fun _ _ h => ⟨h.1, by simpa [hr] using h.2⟩) (fun _ _ h => h) (fun _ _ h => h)
      refine checking_sql (.upkeep (.completeVerify m.id))
        (fun db => KindOf db m.id m.kind ∧ db.checkedAll m.id)
        (fun _ db => KindOf db m.id m.kind ∧ Settled db m.id) ?_ ?_ ?_ ?_
      · intro w w' h hl _
        refine ⟨hl.kinds _ _ h.1, ?_⟩
        unfold Db.checkedAll
        rw [hl.targets]
        exact h.2
      · exact fun _ _ _ he h => h.1.evolves he
      · exact fun _ hb h _ => .completeVerify hb h.2
      · exact fun _ _ _ hb h _ hok hk => ⟨hk, settled_completeVerify hb h.1.taken hok⟩
    · next hr => exact .pure fun w _ h => ⟨h.1, by simpa [hr] using h.2⟩

omit hm

theorem checking_executeMaintenance :
    Triple checking m.Stays (executeMaintenance sha256 fuel m)
      (fun _ w => m.Stays w ∧ (m.kind = .verify → Settled w.db m.id))
      (fun _ => m.Stays) := by
  have hkind := Lasting.kindOf m.id m.kind
  by_cases hm : m.kind = .verify
  · refine .bind (checking_checkOnly (m := m) hkind (within_sql ⟨trivial, rfl⟩)) fun job => ?_
    refine .bind (checking_checkOnly (m := m) hkind (within_ask ⟨trivial, rfl⟩)) fun _ => ?_
    refine .bind (checking_checkOnly (m := m) hkind (.attempt (within_ask ⟨trivial, rfl⟩)))
      fun r => ?_
    split
    · simp only [hm]
      have h := checking_verifyRepositoryMetadata sha256 hm fuel
      exact h.conseq (fun _ _ h => by rwa [Maintenance.Stays, hm]) (fun _ _ h => ⟨h.1, fun _ => h.2⟩) (fun _ _ h => h)
    · exact .throw fun _ _ h => h
  · have hends : ∀ op : Op, op.ofExecution m → op.finishes = false := by
      intro op hop
      by_contra hf
      have hf : op.finishes = true := by simpa using hf
      unfold Op.finishes at hf
      split at hf
      · exact hop
      · exact hm hop.2
      · cases hf
    refine (hkind.triple hends (upkeepOnly_executeMaintenance sha256 fuel m)).conseq (fun _ _ h => h)
      (fun _ _ h => ⟨h, fun hv => absurd hv hm⟩) (fun _ _ h => h)

theorem checking_runMaintenance :
    Triple checking m.Stays (runMaintenance sha256 fuel m)
      (fun _ _ => True) (fun _ => m.Stays) := by
  have hkind := Lasting.kindOf m.id m.kind
  refine .bind (Q := fun r w => m.Stays w ∧
    ∀ u, r = .ok u → m.kind = .verify → Settled w.db m.id) ?_ fun r => ?_
  · refine .attempt ((checking_executeMaintenance sha256 fuel).conseq (fun _ _ h => h) ?_ ?_)
    · exact fun _ _ h => ⟨h.1, fun _ _ => h.2⟩
    · exact fun _ _ h => ⟨h, nofun⟩
  · have hretry : ∀ code, Triple checking m.Stays
        (sql (.upkeep (.retry m.id code))) (fun _ _ => True) (fun _ => m.Stays) :=
      fun code => checking_sql (.upkeep (.retry m.id code)) (fun db => KindOf db m.id m.kind)
        (fun _ _ => True) hkind.stable (fun _ _ _ he h => h.evolves he) (fun _ hb _ _ => .sql hb rfl)
        fun _ _ _ _ _ _ _ _ => trivial
    split
    · next u =>
      refine Triple.conseq (R := fun w => m.Stays w ∧
        (m.kind = .verify → Settled w.db m.id)) ?_ (fun _ _ h => ⟨h.1, h.2 u rfl⟩)
        (fun _ _ h => h) (fun _ _ h => h)
      refine checking_sql (.upkeep (.complete m.id))
        (fun db => KindOf db m.id m.kind ∧ (m.kind = .verify → Settled db m.id)) (fun _ _ => True)
        ?_ (fun _ _ _ he h => h.1.evolves he) ?_ fun _ _ _ _ _ _ _ _ => trivial
      · exact fun h hl _ => ⟨hl.kinds _ _ h.1, fun hv => hl.settled _ (h.2 hv)⟩
      · intro db hb h _
        refine .complete hb h.1 ?_
        by_cases hv : m.kind = .verify
        · exact .inr (h.2 hv)
        · exact .inl hv
    · exact (hretry _).pre (fun _ _ h => h.1)
    · exact (hretry _).pre (fun _ _ h => h.1)

end Programs

theorem ofRun_not_finishes (op : Op) (h : op.ofRun = true) : op.finishes = false := by
  by_contra hf
  have hf : op.finishes = true := by simpa using hf
  unfold Op.finishes at hf
  split at hf <;> first | cases h | cases hf

/-- The ticket of a maintenance request is one of its kind. -/
def Ticket.ofRequest (t : Ticket) (db : Db) : Prop :=
  ∀ fuel m, t = .maintenance fuel m → KindOf db m.id m.kind

theorem Ticket.claim_commit {t : Ticket} (h : t.claim db db') :
    ∃ q : SqlOp, db' = q.tx.commit db ∧ (q = .run .claimQueued ∨ ∃ pick, q = .upkeep (.claim pick)) := by
  cases t with
  | run job claimed =>
    refine ⟨.run .claimQueued, ?_, .inl rfl⟩
    change db' = claimNextQueuedBackupRun.commit db
    unfold Tx.commit
    rw [show claimNextQueuedBackupRun db = _ from h]
  | maintenance fuel m =>
    obtain ⟨pick, h⟩ := h
    refine ⟨.upkeep (.claim pick), ?_, .inr ⟨pick, rfl⟩⟩
    change db' = (claimNextBackupMaintenance pick).commit db
    unfold Tx.commit
    rw [h]

theorem Ticket.ofRequest_claim {t : Ticket} (hk : RequestKeys db)
    (h : t.claim db db') : t.ofRequest db := by
  rintro fuel m rfl
  obtain ⟨pick, h⟩ := h
  obtain ⟨⟨row, hrow, hid, hkind, -⟩, -⟩ := upkept_claim h
  refine ⟨hid ▸ hk.fresh row hrow, fun row' hrow' hid' => ?_⟩
  rw [eq_of_key hk.nodup hrow' hrow (hid'.trans hid.symm)]
  exact hkind

/-- No check of an orderly run ends before it has checked everything. -/
def checkProof (sha256 : List UInt8 → Digest) : Machine.Proof (backupSystem sha256) Orderly where
  logic := checking
  idle _ := True
  ticket t w := t.ofRequest w.db
  idle_stable := @fun _ _ _ _ _ => trivial
  ticket_stable t := @fun _ _ h hr _ fuel m ht => hr.kinds _ _ (h fuel m ht)
  guar_refl w := .refl w.db
  env := by
    rintro c e w hi - ⟨hout, rfl⟩
    cases e with
    | takeover =>
      exact ⟨.takeover _, hi.carry (upkept_takeover _) (.of_eq rfl) fun m _ =>
        (takeover_moves _ m).completable, .of_evolves (.takeover _) rfl⟩
    | tick seconds =>
      have hu : Upkept (Maintenance.steady (·.state)) c.world.db
          { c.world.db with now := c.world.db.now + seconds } := .same le_rfl id rfl
      exact ⟨fun m hm _ hs => .inl ⟨m, hm, rfl, hs⟩, hi.carry hu (.of_eq rfl) fun _ _ h => h,
        .of_evolves (.keeps hu.moves) rfl⟩
    | sql q =>
      refine aside_sql hi ?_
      have ho := hout q rfl
      cases q with
      | run q => rfl
      | restore q => rfl
      | catalog q => cases ho
      | upkeep q => cases q <;> first | rfl | cases ho
  poll := by
    rintro c t w hi - ⟨db, hclaim, rfl⟩
    obtain ⟨q, rfl, hq⟩ := Ticket.claim_commit hclaim
    obtain ⟨hg, hi', hr⟩ := aside_sql hi (q := q) (by rcases hq with rfl | ⟨pick, rfl⟩ <;> rfl)
    exact ⟨hg, hi', hr, fun fuel m ht =>
      hr.kinds _ _ (Ticket.ofRequest_claim hi.toRequestKeys hclaim fuel m ht)⟩
  giveUp := by
    rintro c t o r w hi - - hx
    have hrefl : checking.guar c.world c.world ∧ checking.inv c.world ∧
        checking.rely c.world c.world := ⟨.refl _, hi, checking.rely_refl _⟩
    cases t with
    | run | maintenance =>
      rcases exec_sql hx with rfl | ⟨-, rfl⟩
      · exact aside_sql hi rfl
      · exact hrefl
  exec := @fun c t op k o r w _ hh hok hx => ⟨hok t op k hh, o, hx⟩
  guarantee := @fun op w r w' t hi hx ht fuel m hm => by
    exact (Lasting.kindOf m.id m.kind).exec hi (ht fuel m hm) hx
  program := @fun t w hi _ ht => by
    cases t with
    | run job claimed =>
      have hrun := Lasting.triple (P := fun _ => True) ⟨fun _ _ => trivial, fun _ _ => trivial⟩
        ofRun_not_finishes (runOnly_execute sha256 job claimed)
      exact wp_bind (wp_mono (fun _ _ _ => trivial) (hrun w hi trivial))
    | maintenance fuel m =>
      have hrun := checking_runMaintenance sha256 (m := m) fuel
      exact wp_bind (wp_mono (fun _ _ _ => trivial) (hrun w hi (ht fuel m rfl)))
  crash := @fun _ _ _ => trivial

theorem checkBooks_started (h : started w) : CheckBooks w.db := by
  obtain ⟨config, rfl⟩ := h
  exact ⟨⟨.nil, fun m hm => (nomatch hm), nofun⟩, fun m hm => (nomatch hm),
    fun _ h => (nomatch h), fun _ h => nomatch h⟩

/-- A check that becomes `COMPLETED` in an orderly run has a verdict on every object it lists. -/
theorem check_ends_checked {sha256 : List UInt8 → Digest} {c c' : SystemState} {l : SystemLabel}
    (h : Reachable sha256 Orderly c) (hok : Orderly c l) (hs : Step (backupSystem sha256) c l c')
    {m : Maintenance} (hm : m ∈ c'.world.db.maintenance) (hkind : m.kind = .verify)
    (hdone : m.state = .completed)
    (hnew : ∀ m₀ ∈ c.world.db.maintenance, m₀.id = m.id → m₀.state ≠ .completed) :
    (∀ t ∈ c'.world.db.verifyTargets, t.maintenanceId = m.id →
      t.state = .completed ∨ t.state = .missing ∨ t.state = .damaged) ∧
    m.checkedPacks + m.missingPacks + m.damagedPacks = m.totalPacks := by
  have hholds := (checkProof sha256).sound (fun w hw => ⟨checkBooks_started hw, trivial⟩) h
  have hends : EndsChecked c.world.db c'.world.db := hholds.guar hok hs
  rcases hends m hm hkind hdone with ⟨m₀, hm₀, hid, hs₀⟩ | ⟨hall, hsum⟩
  · exact absurd hs₀ (hnew m₀ hm₀ hid)
  · refine ⟨fun t ht hid => ?_, hsum⟩
    have hc := hall t ht hid
    cases hst : t.state <;> rw [hst] at hc <;> first | cases hc; done | simp

instance (db : Db) (id : ℕ) : Decidable (db.exhausted id) := by
  unfold Db.exhausted
  infer_instance

instance (op : Op) (db : Db) : Decidable (Steady op db) := by
  unfold Steady
  split <;> infer_instance

/-- `Orderly`, computed. -/
def orderly : SystemLabel → Bool
  | .exec _ =>
    match c.holder with
    | some (_, .call op _) => decide (Steady op c.world.db)
    | _ => true
  | _ => true

theorem orderly_sound (l : SystemLabel) (h : orderly c l = true) : Orderly c l := by
  cases l with
  | exec o =>
    intro t op k hh
    simp only [orderly, hh] at h
    exact of_decide_eq_true h
  | _ => trivial

def lengthHash (l : List UInt8) : Digest :=
  ⟨List.replicate 31 0 ++ [UInt8.ofNat l.length], by simp⟩

def docsJob : Job where
  selectedPaths := [['d']]
  targetDir := ['t']
  repositoryId := ['r']
  repositoryRoot := ['t', '/', 'r']
  retentionCount := 1
  filesSupported := true

def oneFile : Host :=
  calmHost [({ sourcePath := ['/', 'd', '/', 'f'], relativePath := ['f'], size := 1, mtime := 5 }, [7])]

/-- One backup, and a check some worker claims and starts: a number of its operations. -/
def checkOrders (operations : ℕ) : List Order :=
  backupOrders oneFile 35 ++ [.env (.sql (.upkeep (.createVerify .metadata none))),
    .pollMaintenance 10 6, .acquire] ++ List.replicate operations (.exec oneFile)

/-- A step completes a check of one object; the object's target is then in this state, and the check
counts this many verdicts. -/
def CompletesCheck (state : TargetState) (verdicts : ℕ) (c c' : SystemState) (m : Maintenance) :
    Prop :=
  (∀ m₀ ∈ c.world.db.maintenance, m₀.id = m.id → m₀.state ≠ .completed) ∧
  m.kind = .verify ∧ m.state = .completed ∧ m.totalPacks = 1 ∧
  m.checkedPacks + m.missingPacks + m.damagedPacks = verdicts ∧
  ∃ t ∈ c'.world.db.verifyTargets, t.maintenanceId = m.id ∧ t.state = state

instance (state : TargetState) (verdicts : ℕ) (c c' : SystemState) (m : Maintenance) :
    Decidable (CompletesCheck state verdicts c c' m) := by
  unfold CompletesCheck
  infer_instance

/-- The next operation of the worker completes a check. -/
def aboutToComplete (state : TargetState) (verdicts : ℕ) (c : SystemState) : Bool :=
  match (Order.exec oneFile).next lengthHash c with
  | some (l, c') => orderly c l &&
    decide (∃ m ∈ c'.world.db.maintenance, CompletesCheck state verdicts c c' m)
  | none => false

theorem exists_completing
    (h : ∃ c, Reachable lengthHash ok c ∧ aboutToComplete state verdicts c = true) :
    ∃ c c' l, Reachable lengthHash ok c ∧ Orderly c l ∧ Step (backupSystem lengthHash) c l c' ∧
      ∃ m ∈ c'.world.db.maintenance, CompletesCheck state verdicts c c' m := by
  obtain ⟨c, hc, hP⟩ := h
  unfold aboutToComplete at hP
  split at hP
  · next l c' hnext =>
    obtain ⟨hl, hm⟩ := Bool.and_eq_true_iff.1 hP
    exact ⟨c, c', l, hc, orderly_sound c l hl, Order.next_step lengthHash hnext,
      of_decide_eq_true hm⟩
  · cases hP

/-- One backup of one file and a check of its pack. -/
theorem check_ends_checked_docs : ∃ c c' l, Reachable lengthHash Orderly c ∧ Orderly c l ∧
    Step (backupSystem lengthHash) c l c' ∧ ∃ m ∈ c'.world.db.maintenance,
      CompletesCheck .completed 1 c c' m ∧
      (∀ t ∈ c'.world.db.verifyTargets, t.maintenanceId = m.id →
        t.state = .completed ∨ t.state = .missing ∨ t.state = .damaged) ∧
      m.checkedPacks + m.missingPacks + m.damagedPacks = m.totalPacks := by
  obtain ⟨c, c', l, hc, hl, hs, m, hm, hdone⟩ := exists_completing
    (exists_reachable orderly Orderly orderly_sound docsJob (checkOrders 11) (aboutToComplete .completed 1)
      (by decide +kernel))
  exact ⟨c, c', l, hc, hl, hs, m, hm, hdone,
    check_ends_checked hc hl hs hm hdone.2.1 hdone.2.2.1 hdone.1⟩

/-- A worker dies in the middle of a target. Its lease runs out after two minutes, the claim on the
target after ten: a worker that takes the check over in between completes it without a verdict. -/
theorem check_completed_unchecked : ∃ c c' l, Reachable lengthHash (fun _ _ => True) c ∧
    Step (backupSystem lengthHash) c l c' ∧ ∃ m ∈ c'.world.db.maintenance,
      CompletesCheck .running 0 c c' m := by
  obtain ⟨c, c', l, hc, -, hs, m, hm, hdone⟩ := exists_completing
    (exists_reachable (fun _ _ => true) (fun _ _ => True) (fun _ _ _ => trivial) docsJob
      (checkOrders 5 ++ [.crash, .env (.tick 130), .pollMaintenance 10 6, .acquire] ++
        List.replicate 5 (.exec oneFile)) (aboutToComplete .running 0) (by decide +kernel))
  exact ⟨c, c', l, hc, hs, m, hm, hdone⟩

end Clumoove
