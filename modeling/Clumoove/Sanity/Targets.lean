import Clumoove.Sanity.Upkeep

/-! The targets of repository checks and the totals their requests keep of them. -/

namespace Clumoove

open Table List

def TargetState.checked : TargetState → Bool
  | .completed | .missing | .damaged => true
  | _ => false

/-- A target is queued, in hand or has its verdict; nothing else ever happens to one. -/
def VerifyTarget.lawful (t : VerifyTarget) : Prop :=
  t.state = .pending ∨ t.state = .running ∨ t.state.checked = true

def Db.targetsOf (db : Db) (maintenanceId : ℕ) : ℕ :=
  (db.verifyTargets.filter (·.maintenanceId = maintenanceId)).length

/-- No target is added or removed, and each stays lawful. -/
structure Listed (db db' : Db) : Prop where
  owners : db'.verifyTargets.map (·.maintenanceId) = db.verifyTargets.map (·.maintenanceId)
  lawful : (∀ t ∈ db.verifyTargets, t.lawful) → ∀ t ∈ db'.verifyTargets, t.lawful

section Carried

variable {db db' : Db}

theorem Listed.of_eq (h : db'.verifyTargets = db.verifyTargets) : Listed db db' := by
  constructor
  · rw [h]
  · rw [h]
    exact fun h => h

theorem Listed.update (h : db'.verifyTargets = updateWhere p f db.verifyTargets)
    (howner : ∀ t, (f t).maintenanceId = t.maintenanceId) (hlawful : ∀ t, t.lawful → (f t).lawful) :
    Listed db db' := by
  constructor
  · rw [h]
    exact map_updateWhere _ fun t _ => howner t
  · intro hall t' ht'
    rw [h] at ht'
    obtain ⟨t, ht, rfl⟩ := mem_updateWhere.1 ht'
    split_ifs
    · exact hlawful t (hall t ht)
    · exact hall t ht

theorem Listed.trans (h₁ : Listed db db') (h₂ : Listed db' db'') : Listed db db'' :=
  ⟨h₂.owners.trans h₁.owners, fun h => h₂.lawful (h₁.lawful h)⟩

theorem targetsOf_eq (h : db'.verifyTargets.map (·.maintenanceId) =
    db.verifyTargets.map (·.maintenanceId)) (id : ℕ) : db'.targetsOf id = db.targetsOf id := by
  have hcount : ∀ db : Db, db.targetsOf id =
      ((db.verifyTargets.map (·.maintenanceId)).filter (· = id)).length := fun db => by
    rw [List.filter_map, length_map]
    rfl
  rw [hcount, hcount, h]

end Carried

theorem finishTarget_listed (targetId claimEpoch : ℕ)
    (h : state.checked = true) (db : Db) : Listed db (finishTarget targetId claimEpoch state db) :=
  .update rfl (fun _ => rfl) fun _ _ => .inr (.inr h)

theorem targetVerdict_checked (found : Bool) (expectedSize actualSize : ℕ) :
    (targetVerdict found expectedSize actualSize).checked = true := by
  unfold targetVerdict
  split_ifs <;> rfl

theorem recoverTargets_listed (db : Db) (maintenanceId : ℕ) :
    Listed db { db with verifyTargets := db.recoverTargets maintenanceId } :=
  .update rfl (fun _ => rfl) fun _ _ => .inl rfl

theorem UpkeepOp.listed (q : UpkeepOp) (hq : ∀ id, q ≠ .snapshotTargets id) (db : Db) :
    Listed db (q.tx.commit db) := by
  refine Tx.commit_of (.of_eq rfl) fun a db' h => ?_
  cases q with
  | snapshotTargets id => exact absurd rfl (hq id)
  | claimTarget maintenanceId =>
    simp only [UpkeepOp.tx, claimNextBackupVerifyTarget] at h
    split at h <;> cases h
    · exact recoverTargets_listed db maintenanceId
    · refine (recoverTargets_listed db maintenanceId).trans ?_
      exact .update rfl (fun _ => rfl) fun _ _ => .inr (.inl rfl)
  | releaseTarget targetId claimEpoch =>
    cases h
    exact .update rfl (fun _ => rfl) fun _ _ => .inl rfl
  | completeTarget targetId found expectedSize actualSize claimEpoch =>
    cases h
    exact finishTarget_listed _ _ (targetVerdict_checked ..) db
  | targetDamaged targetId claimEpoch =>
    cases h
    exact finishTarget_listed _ _ rfl db
  | targetRead targetId bytes claimEpoch =>
    cases h
    exact .update rfl (fun _ => rfl) fun _ h => h
  | complete maintenanceId =>
    simp only [UpkeepOp.tx, completeBackupMaintenance] at h
    split_ifs at h <;> cases h
    · exact .update rfl (fun _ => rfl) fun _ h => h
    · exact .of_eq rfl
  | completeVerify maintenanceId =>
    simp only [UpkeepOp.tx, completeBackupVerify] at h
    split_ifs at h
    cases h
    exact .update rfl (fun _ => rfl) fun _ h => h
  | _ =>
    simp only [UpkeepOp.tx, enqueueBackupMaintenance, createBackupVerify, claimNextBackupMaintenance,
      cancelBackupVerify, isBackupMaintenanceCancelling, retryBackupMaintenance,
      addBackupVerifyProcessedBytes, advanceBackupVerifyCursor] at h
    repeat' split at h
    all_goals first | cases h; done | cases h; exact .of_eq rfl

theorem RunOp.verifyTargets_eq (q : RunOp) (db : Db) :
    (q.tx.commit db).verifyTargets = db.verifyTargets :=
  congrArg (fun x => x.2.2.1) (q.packTables_eq db)

theorem RestoreOp.verifyTargets_eq (q : RestoreOp) (db : Db) :
    (q.tx.commit db).verifyTargets = db.verifyTargets :=
  (congrArg Db.verifyTargets (q.backupTables_eq db) :)

theorem CatalogOnly.verifyTargets (h : CatalogOnly db db') : db'.verifyTargets = db.verifyTargets :=
  (congrArg Db.verifyTargets h.outside :)

theorem SqlOp.listed (q : SqlOp) (hq : ∀ id, q ≠ .upkeep (.snapshotTargets id))
    (hd : q ≠ .catalog .deleteJob) (db : Db) : Listed db (q.tx.commit db) := by
  cases q with
  | run q | restore q => exact .of_eq (q.verifyTargets_eq db)
  | catalog q => exact .of_eq (q.only (fun h => hd (h ▸ rfl)) db).verifyTargets
  | upkeep q => exact q.listed (fun id h => hq id (h ▸ rfl)) db

structure CheckBooks (db : Db) : Prop extends RequestKeys db where
  totals : ∀ m ∈ db.maintenance, m.state.completable = true → m.totalPacks = db.targetsOf m.id
  lawful : ∀ t ∈ db.verifyTargets, t.lawful
  owned : ∀ t ∈ db.verifyTargets, t.maintenanceId < db.nextId

theorem targetsOf_fresh (h : CheckBooks db) {id : ℕ} (hid : db.nextId ≤ id) :
    db.targetsOf id = 0 := by
  unfold Db.targetsOf
  rw [length_eq_zero_iff, filter_eq_nil_iff]
  intro t ht
  have := h.owned t ht
  simp only [decide_eq_true_eq]
  omega

theorem CheckBooks.carry (h : CheckBooks db)
    (hu : Upkept (Maintenance.steady f) db db') (hl : Listed db db')
    (hc : ∀ m ∈ db.maintenance, (f m).completable = true → m.state.completable = true) :
    CheckBooks db' := by
  refine ⟨h.toRequestKeys.upkept hu, fun m' hm' hs => ?_, hl.lawful h.lawful, fun t' ht' => ?_⟩
  · rw [targetsOf_eq hl.owners]
    rcases hu.origin hm' with ⟨m, hm, hid, -, hmove, htotal⟩ | ⟨hid, -, -, htotal, -⟩
    · rw [htotal, hid]
      exact h.totals m hm (hc m hm (hmove.1 ▸ hs))
    · rw [htotal, targetsOf_fresh h hid.ge]
  · have howner : t'.maintenanceId ∈ db.verifyTargets.map (·.maintenanceId) := by
      rw [← hl.owners]
      exact List.mem_map_of_mem ht'
    obtain ⟨t, hmem, heq⟩ := List.mem_map.1 howner
    have := h.owned t hmem
    have := hu.nextId
    omega

theorem CheckBooks.deleteJob (h : CheckBooks db) :
    CheckBooks (CatalogOp.deleteJob.tx.commit db) := by
  rcases deleteJob_commit db with heq | heq <;> rw [heq]
  · exact h
  · unfold Db.emptied
    exact ⟨⟨.nil, by simp, fun _ => rfl⟩, by simp, by simp, by simp⟩

theorem mem_verifyTargetsOf {maintenanceId id : ℕ}
    (h : t ∈ verifyTargetsOf maintenanceId id packs) :
    t.maintenanceId = maintenanceId ∧ t.state = .pending ∧ packs ≠ [] := by
  induction packs generalizing id with
  | nil => cases h
  | cons p packs ih =>
    rcases mem_cons.1 h with rfl | h
    · exact ⟨rfl, rfl, by simp⟩
    · exact ⟨(ih h).1, (ih h).2.1, by simp⟩

/-- Listing the packs of a check keeps the totals, unless the check is back in the queue and there
is a pack to list. -/
theorem CheckBooks.snapshotTargets {db : Db} (h : CheckBooks db) (maintenanceId : ℕ)
    (hq : ∀ m ∈ db.maintenance, m.id = maintenanceId → m.state = .pending ∨ m.state = .retryWait →
      db.unlistedPacks maintenanceId = []) :
    CheckBooks ((UpkeepOp.snapshotTargets maintenanceId).tx.commit db) := by
  refine Tx.commit_of h fun a db' hok => ?_
  have he := Evolves.quiet db (q := .upkeep (.snapshotTargets maintenanceId)) rfl
  have hcommit : (UpkeepOp.snapshotTargets maintenanceId).tx.commit db = db' := by
    unfold Tx.commit
    rw [hok]
  rw [show (SqlOp.upkeep (.snapshotTargets maintenanceId)).tx.commit db = db' from hcommit] at he
  have hkeys := h.toRequestKeys.evolves he
  have hn := he.nextId_le
  simp only [UpkeepOp.tx, snapshotBackupVerifyTargets] at hok
  split_ifs at hok with hrow
  cases hok
  refine ⟨hkeys, fun m' hm' hs => ?_, fun t ht => ?_, fun t ht => ?_⟩
  · obtain ⟨m, hm, rfl⟩ := mem_updateWhere.1 hm'
    split_ifs at hs ⊢ with hrun
    · rw [← (of_decide_eq_true hrun).1]
      rfl
    · rw [h.totals m hm hs]
      unfold Db.targetsOf
      by_cases hid : m.id = maintenanceId
      · have hqueued : m.state = .pending ∨ m.state = .retryWait :=
          (MaintenanceState.completable_iff.1 hs).resolve_left fun hr => hrun (by simp [hid, hr])
        simp [hq m hm hid hqueued, verifyTargetsOf]
      · rw [filter_append, length_append, Nat.left_eq_add, length_eq_zero_iff, filter_eq_nil_iff]
        intro t ht
        simp [(mem_verifyTargetsOf ht).1, Ne.symm hid]
  · rcases mem_append.1 ht with ht | ht
    · exact h.lawful t ht
    · exact .inl (mem_verifyTargetsOf ht).2.1
  · rcases mem_append.1 ht with ht | ht
    · exact Nat.lt_of_lt_of_le (h.owned t ht) hn
    · obtain ⟨hid, -, hne⟩ := mem_verifyTargetsOf ht
      have hany : db.maintenance.any (·.id = maintenanceId) = true := by
        by_contra hany
        exact hrow ⟨by simpa using hne, hany⟩
      obtain ⟨m, hm, hm_id⟩ := List.any_eq_true.1 hany
      refine Nat.lt_of_lt_of_le ?_ hn
      rw [hid, ← of_decide_eq_true hm_id]
      exact h.fresh m hm

end Clumoove
