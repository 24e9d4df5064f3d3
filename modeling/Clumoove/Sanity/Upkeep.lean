import Clumoove.Sanity.Frames
import Clumoove.Sanity.Store

/-! What the transactions do to maintenance requests. Every transaction but the one that deletes
the job keeps the id and the kind of each request and adds at most one, which is `PENDING`. -/

namespace Clumoove

open Table List

/-- The requests after a transaction: each old one changed as `R` says, and perhaps a new one. -/
structure Upkept (R : Maintenance → Maintenance → Prop) (db db' : Db) : Prop where
  nextId : db.nextId ≤ db'.nextId
  job : db.job.isSome → db'.job.isSome
  rows : ∃ f added, db'.maintenance = db.maintenance.map f ++ added ∧
    (∀ m ∈ db.maintenance, (f m).id = m.id ∧ (f m).kind = m.kind ∧ R m (f m)) ∧
    (added = [] ∨ ∃ m, added = [m] ∧ m.id = db.nextId ∧ db.nextId < db'.nextId ∧
      m.state = .pending ∧ m.totalPacks = 0 ∧ db.job.isSome)

namespace Upkept

variable {R R' : Maintenance → Maintenance → Prop} {db db' : Db}

theorem update (hn : db.nextId ≤ db'.nextId) (hj : db.job.isSome → db'.job.isSome)
    (hm : db'.maintenance = updateWhere p f db.maintenance)
    (hid : ∀ m, (f m).id = m.id) (hkind : ∀ m, (f m).kind = m.kind)
    (hit : ∀ m ∈ db.maintenance, p m = true → R m (f m))
    (miss : ∀ m ∈ db.maintenance, p m = false → R m m) : Upkept R db db' := by
  refine ⟨hn, hj, fun m => if p m then f m else m, [], by simp [hm, updateWhere], fun m hmem => ?_,
    .inl rfl⟩
  cases hp : p m with
  | true =>
    simp only [hp, if_true]
    exact ⟨hid m, hkind m, hit m hmem hp⟩
  | false =>
    simp only [hp, Bool.false_eq_true, if_false]
    exact ⟨trivial, trivial, miss m hmem hp⟩

theorem updateTwice (hn : db.nextId ≤ db'.nextId) (hj : db.job.isSome → db'.job.isSome)
    (hm : db'.maintenance = updateWhere p' f' (updateWhere p f db.maintenance))
    (hrow : ∀ m ∈ db.maintenance, ∀ m₁ m₂, m₁ = (if p m then f m else m) →
      m₂ = (if p' m₁ then f' m₁ else m₁) → m₂.id = m.id ∧ m₂.kind = m.kind ∧ R m m₂) :
    Upkept R db db' := by
  refine ⟨hn, hj, _, [], ?_, fun m hmem => hrow m hmem _ _ rfl rfl, .inl rfl⟩
  rw [hm, append_nil, updateWhere, updateWhere, List.map_map]
  rfl

theorem mono (h : Upkept R db db') (hR : ∀ m m', R m m' → R' m m') : Upkept R' db db' := by
  obtain ⟨hn, hj, f, added, heq, hf, ha⟩ := h
  exact ⟨hn, hj, f, added, heq, fun m hm => (hf m hm).imp_right (And.imp_right (hR _ _)), ha⟩

theorem origin (h : Upkept R db db') (hm : m' ∈ db'.maintenance) :
    (∃ m ∈ db.maintenance, m'.id = m.id ∧ m'.kind = m.kind ∧ R m m') ∨
      (m'.id = db.nextId ∧ m'.id < db'.nextId ∧ m'.state = .pending ∧ m'.totalPacks = 0 ∧
        db.job.isSome) := by
  obtain ⟨-, -, f, added, heq, hf, ha⟩ := h
  rw [heq] at hm
  rcases mem_append.1 hm with hm | hm
  · obtain ⟨m, hmem, rfl⟩ := List.mem_map.1 hm
    exact .inl ⟨m, hmem, hf m hmem⟩
  · rcases ha with rfl | ⟨a, rfl, hid, hlt, hs⟩
    · exact absurd hm (by simp)
    · rw [mem_singleton.1 hm]
      exact .inr ⟨hid, by omega, hs⟩

theorem image (h : Upkept R db db') (hm : m ∈ db.maintenance) :
    ∃ m' ∈ db'.maintenance, m'.id = m.id ∧ m'.kind = m.kind ∧ R m m' := by
  obtain ⟨-, -, f, added, heq, hf, -⟩ := h
  exact ⟨f m, by rw [heq]; simp [List.mem_map_of_mem hm], hf m hm⟩

end Upkept

/-- Requests have distinct ids, all below the counter, and none is left without its job. -/
structure RequestKeys (db : Db) : Prop where
  nodup : (db.maintenance.map (·.id)).Nodup
  fresh : ∀ m ∈ db.maintenance, m.id < db.nextId
  orphan : db.job = none → db.maintenance = []

theorem RequestKeys.upkept (h : RequestKeys db) (hu : Upkept R db db') : RequestKeys db' := by
  refine ⟨?_, fun m' hm' => ?_, fun hj => ?_⟩
  · obtain ⟨-, -, f, added, heq, hf, ha⟩ := hu
    have hids : (db.maintenance.map f).map (·.id) = db.maintenance.map (·.id) := by
      rw [List.map_map]
      exact map_congr_left fun m hm => (hf m hm).1
    rw [heq, map_append, hids]
    rcases ha with rfl | ⟨a, rfl, hid, -⟩
    · simpa using h.nodup
    · refine List.Nodup.append h.nodup (by simp) ?_
      intro i hi hi'
      obtain ⟨m, hm, rfl⟩ := List.mem_map.1 hi
      have := h.fresh m hm
      simp only [map_cons, map_nil, mem_singleton] at hi'
      omega
  · rcases hu.origin hm' with ⟨m, hm, hid, -⟩ | ⟨-, hlt, -⟩
    · rw [hid]
      exact Nat.lt_of_lt_of_le (h.fresh m hm) hu.nextId
    · exact hlt
  · have hnone : db.job = none := by
      cases hjob : db.job with
      | none => rfl
      | some j => have := hu.job (by simp [hjob]); simp [hj] at this
    refine eq_nil_iff_forall_not_mem.2 fun m' hm' => ?_
    rcases hu.origin hm' with ⟨m, hm, -⟩ | ⟨-, -, -, -, hsome⟩
    · rw [h.orphan hnone] at hm
      exact absurd hm (by simp)
    · simp [hnone] at hsome

def Maintenance.leased (m : Maintenance) : Prop :=
  m.state = .running → m.coordinatorLeaseUntil.isSome

/-- A request goes to the state `f` says and does not lose its lease while it runs. -/
def Maintenance.moves (f : Maintenance → MaintenanceState) (m m' : Maintenance) : Prop :=
  m'.state = f m ∧ (m.leased → m'.leased)

abbrev Maintenance.keeps : Maintenance → Maintenance → Prop := Maintenance.moves (·.state)

def Maintenance.steady (f : Maintenance → MaintenanceState) (m m' : Maintenance) : Prop :=
  m.moves f m' ∧ m'.totalPacks = m.totalPacks

theorem Upkept.moves
    (h : Upkept (Maintenance.steady f) db db') : Upkept (Maintenance.moves f) db db' :=
  h.mono fun _ _ => And.left

theorem Upkept.same {db db' : Db} (hn : db.nextId ≤ db'.nextId) (hj : db.job.isSome → db'.job.isSome)
    (hm : db'.maintenance = db.maintenance) : Upkept (Maintenance.steady (·.state)) db db' :=
  ⟨hn, hj, id, [], by simp [hm], fun m _ => ⟨rfl, rfl, ⟨rfl, id⟩, rfl⟩, .inl rfl⟩

theorem Upkept.added (hn : db'.nextId = db.nextId + 1)
    (hj : db.job.isSome) (hj' : db'.job.isSome) (hm : db'.maintenance = db.maintenance ++ [m])
    (hid : m.id = db.nextId) (hs : m.state = .pending ∧ m.totalPacks = 0) :
    Upkept (Maintenance.steady (·.state)) db db' :=
  ⟨by omega, fun _ => hj', id, [m], by simp [hm], fun m _ => ⟨rfl, rfl, ⟨rfl, id⟩, rfl⟩,
    .inr ⟨m, rfl, hid, by omega, hs.1, hs.2, hj⟩⟩

def SqlOp.quiet : SqlOp → Bool
  | .run .suspend | .catalog .deleteJob => false
  | .upkeep (.claim _) | .upkeep (.complete _) | .upkeep (.retry ..) | .upkeep (.cancelVerify _)
  | .upkeep (.completeVerify _) => false
  | _ => true

theorem upkept_run {q : RunOp} (hq : q ≠ .suspend) (db : Db) :
    Upkept (Maintenance.steady (·.state)) db (q.tx.commit db) := by
  refine Tx.commit_of (.same le_rfl id rfl) fun a db' h => ?_
  cases q with
  | suspend => exact absurd rfl hq
  | publish generation runId snapshotId snapshotState runState c =>
    rcases publishBackupSnapshotAndFinalize_cases h with ⟨-, rfl⟩ | ⟨-, -, -, job, hj, -, rfl⟩
    · exact .same le_rfl id rfl
    · exact .added rfl (by simp [hj]) rfl rfl rfl ⟨rfl, rfl⟩
  | requestDeletion =>
    simp only [RunOp.tx, requestBackupRepositoryDeletion] at h
    repeat' split at h
    · cases h; exact .same le_rfl id rfl
    · next job hj _ => cases h; exact .added rfl (by simp [hj]) rfl rfl rfl ⟨rfl, rfl⟩
    · cases h; exact .same le_rfl id rfl
  | recoverStale =>
    simp only [RunOp.tx, recoverStaleBackupRuns] at h
    split at h
    · cases h; exact .same le_rfl id rfl
    · cases h; exact .same le_rfl (fun _ => rfl) rfl
  | discardDraft => cases h; exact .same le_rfl id rfl
  | _ =>
    simp only [RunOp.tx, claimBackupJobPass, claimNextQueuedBackupRun, transitionBackupRun,
      finalizeBackupRun, failBackupRun, completeBackupRun, touchBackupRun,
      createBackupSnapshotDraft, backupRunActive, pauseBackup, resumeBackup] at h
    repeat' split at h
    all_goals first
      | cases h; done
      | cases h; exact .same (by simp) (fun _ => by simp_all) rfl

theorem upkept_upkeep (hq : (SqlOp.upkeep q).quiet = true)
    (hs : ∀ id, q ≠ .snapshotTargets id) (db : Db) :
    Upkept (Maintenance.steady (·.state)) db (q.tx.commit db) := by
  refine Tx.commit_of (.same le_rfl id rfl) fun a db' h => ?_
  cases q with
  | enqueue kind =>
    simp only [UpkeepOp.tx, enqueueBackupMaintenance] at h
    split at h
    · cases h
    · next hj =>
      cases h
      have hs : db.job.isSome := by simpa [Option.isSome_iff_ne_none] using hj
      exact .added rfl hs hs rfl rfl ⟨rfl, rfl⟩
  | createVerify mode byteBudget =>
    simp only [UpkeepOp.tx, createBackupVerify] at h
    split_ifs at h with _ hj
    cases h
    have hs : db.job.isSome := by
      cases hjob : db.job with
      | none => simp [hjob] at hj
      | some j => rfl
    exact .added rfl hs hs rfl rfl ⟨rfl, rfl⟩
  | claim | complete | retry | cancelVerify | completeVerify => cases hq
  | snapshotTargets id => exact absurd rfl (hs id)
  | addProcessedBytes | advanceCursor =>
    cases h
    exact .update le_rfl id rfl (fun _ => rfl) (fun _ => rfl)
      (fun _ _ _ => ⟨⟨rfl, fun h hs => by first | exact h hs | rfl⟩, rfl⟩) fun _ _ _ => ⟨⟨rfl, id⟩, rfl⟩
  | claimTarget maintenanceId =>
    simp only [UpkeepOp.tx, claimNextBackupVerifyTarget] at h
    split at h <;> cases h <;> exact .same le_rfl id rfl
  | cancelling | releaseTarget | completeTarget | targetDamaged | targetRead =>
    cases h; exact .same le_rfl id rfl

theorem SqlOp.steady (q : SqlOp) (hq : q.quiet = true) (hs : ∀ id, q ≠ .upkeep (.snapshotTargets id))
    (db : Db) : Upkept (Maintenance.steady (·.state)) db (q.tx.commit db) := by
  cases q with
  | run q => exact upkept_run (by rintro rfl; cases hq) db
  | upkeep q => exact upkept_upkeep hq (fun id hid => hs id (hid ▸ rfl)) db
  | catalog q =>
    have h := q.only (by rintro rfl; cases hq) db
    exact .same h.nextId (fun hs => h.job ▸ hs) h.maintenance
  | restore q => exact .same (q.nextId_le db) (fun hs => q.job_eq db ▸ hs) (q.maintenance_eq db)

theorem SqlOp.upkept (q : SqlOp) (hq : q.quiet = true) (db : Db) :
    Upkept Maintenance.keeps db (q.tx.commit db) := by
  by_cases hs : ∃ id, q = .upkeep (.snapshotTargets id)
  · obtain ⟨id, rfl⟩ := hs
    refine Tx.commit_of (Upkept.same le_rfl (fun h => h) rfl).moves fun a db' h => ?_
    simp only [SqlOp.tx, UpkeepOp.tx, snapshotBackupVerifyTargets] at h
    split_ifs at h
    cases h
    exact .update (by simp) (fun h => h) rfl (fun _ => rfl) (fun _ => rfl)
      (fun _ _ _ => ⟨rfl, fun h => h⟩) fun _ _ _ => ⟨rfl, fun h => h⟩
  · exact (q.steady hq (fun id h => hs ⟨id, h⟩) db).moves

/-! The transactions that do change the state of requests. -/

def MaintenanceState.completable : MaintenanceState → Bool
  | .pending | .running | .retryWait => true
  | _ => false

theorem MaintenanceState.completable_iff {s : MaintenanceState} :
    s.completable = true ↔ s = .running ∨ s = .pending ∨ s = .retryWait := by
  cases s <;> simp [MaintenanceState.completable]

section Moves

variable (id : ℕ) (db : Db)

def Maintenance.retried (m : Maintenance) : MaintenanceState :=
  if m.id = id ∧ m.state = .running then .retryWait else m.state

theorem upkept_retry (code : String) :
    Upkept (Maintenance.steady (·.retried id)) db ((UpkeepOp.retry id code).tx.commit db) := by
  refine .update le_rfl (fun h => h) rfl (fun _ => rfl) (fun _ => rfl) (fun m _ hp => ?_)
    fun m _ hp => ?_
  · have hp := of_decide_eq_true hp
    exact ⟨⟨by simp [Maintenance.retried, hp], fun _ h => by cases h⟩, rfl⟩
  · have hp := of_decide_eq_false hp
    exact ⟨⟨by simp [Maintenance.retried, hp], fun h => h⟩, rfl⟩

def Maintenance.finished (m : Maintenance) : MaintenanceState :=
  if m.inHand id then m.state.finished else m.state

theorem MaintenanceState.finished_ne_running (s : MaintenanceState) : s.finished ≠ .running := by
  cases s <;> simp [MaintenanceState.finished]

theorem Maintenance.finished_of_not (m : Maintenance) (h : m.inHand id = false) :
    m.finished id = m.state := by
  simp [Maintenance.finished, h]

theorem upkept_idle (h : ¬ db.maintenance.any (Maintenance.inHand id)) :
    Upkept (Maintenance.steady (·.finished id)) db db := by
  have hnone : ∀ m ∈ db.maintenance, m.inHand id = false := by simpa using h
  refine .update (p := Maintenance.inHand id) (f := fun m => m) le_rfl (fun h => h)
    (updateWhere_none hnone).symm (fun _ => rfl) (fun _ => rfl) (fun m hm hp => ?_)
    fun m _ hp => ⟨⟨(m.finished_of_not id hp).symm, fun h => h⟩, rfl⟩
  rw [hnone m hm] at hp
  cases hp

theorem upkept_finish (hn : db.nextId ≤ db'.nextId) (hj : db.job.isSome → db'.job.isSome)
    (hm : db'.maintenance = updateWhere (Maintenance.inHand id) f db.maintenance)
    (hf : ∀ m, (f m).id = m.id ∧ (f m).kind = m.kind ∧ (f m).state = m.state.finished ∧
      (f m).totalPacks = m.totalPacks) : Upkept (Maintenance.steady (·.finished id)) db db' := by
  refine .update hn hj hm (fun m => (hf m).1) (fun m => (hf m).2.1) (fun m _ hp => ?_)
    fun m _ hp => ⟨⟨(m.finished_of_not id hp).symm, fun h => h⟩, rfl⟩
  refine ⟨⟨by simp [Maintenance.finished, hp, (hf m).2.2.1], fun _ h => ?_⟩, (hf m).2.2.2⟩
  exact absurd ((hf m).2.2.1.symm.trans h) m.state.finished_ne_running

theorem upkept_complete (hkeys : RequestKeys db) :
    Upkept (Maintenance.steady (·.finished id)) db ((UpkeepOp.complete id).tx.commit db) := by
  unfold Tx.commit
  simp only [UpkeepOp.tx, completeBackupMaintenance]
  split_ifs with h₁ h₂
  · exact upkept_finish id db le_rfl (fun h => h) rfl fun _ => ⟨rfl, rfl, rfl, rfl⟩
  · exact upkept_idle id db h₂
  · refine upkept_idle id db fun hany => ?_
    obtain ⟨m, hm, hp⟩ := List.any_eq_true.1 hany
    have hid : m.id = id := (of_decide_eq_true hp).1
    refine h₁ ⟨?_, List.any_eq_true.2 ⟨m, hm, by simpa using hid⟩⟩
    cases hj : db.job with
    | none => rw [hkeys.orphan hj] at hm; cases hm
    | some j => rfl

theorem upkept_completeVerify :
    Upkept (Maintenance.steady (·.finished id)) db ((UpkeepOp.completeVerify id).tx.commit db) := by
  unfold Tx.commit
  simp only [UpkeepOp.tx, completeBackupVerify]
  split_ifs with h
  · exact upkept_finish id db le_rfl (fun h => h) rfl fun _ => ⟨rfl, rfl, rfl, rfl⟩
  · exact upkept_idle id db h

def Maintenance.cancelled (m : Maintenance) : MaintenanceState :=
  if m.id = id ∧ m.kind = .verify ∧
      (m.state = .pending ∨ m.state = .retryWait ∨ m.state = .running) then
    if m.state = .running then .cancelling else .cancelled
  else m.state

theorem upkept_cancelVerify :
    Upkept (Maintenance.steady (·.cancelled id)) db ((UpkeepOp.cancelVerify id).tx.commit db) := by
  refine .update le_rfl (fun h => h) rfl (fun m => ?_) (fun m => ?_) (fun m _ hp => ?_)
    fun m _ hp => ?_
  · split_ifs <;> rfl
  · split_ifs <;> rfl
  · have hp := of_decide_eq_true hp
    split_ifs with hr
    · exact ⟨⟨by simp [Maintenance.cancelled, hp, hr], fun _ h => by cases h⟩, rfl⟩
    · refine ⟨⟨?_, fun _ h => by cases h⟩, rfl⟩
      simp only [Maintenance.cancelled]
      rw [if_pos hp, if_neg hr]
  · have hp := of_decide_eq_false hp
    refine ⟨⟨?_, fun h => h⟩, rfl⟩
    simp only [Maintenance.cancelled]
    rw [if_neg hp]

theorem upkept_suspend :
    Upkept (Maintenance.steady fun m => if m.state.active then .cancelled else m.state) db
      (RunOp.suspend.tx.commit db) := by
  refine .update le_rfl (fun h => ?_) rfl (fun _ => rfl) (fun _ => rfl)
    (fun m _ hp => ⟨⟨by simp [hp], fun _ h => by cases h⟩, rfl⟩)
    fun m _ hp => ⟨⟨by simp [hp], fun h => h⟩, rfl⟩
  have hs : ((RunOp.suspend.tx.commit db).job.isSome) = db.job.isSome := by
    simp [RunOp.tx, Tx.commit, suspendUser]
  rw [hs]
  exact h

theorem upkept_takeover :
    Upkept (Maintenance.steady fun m => if m.abandoned db.now then .pending else m.state) db
      db.recoverVerifies :=
  .update le_rfl (fun h => h) rfl (fun _ => rfl) (fun _ => rfl)
    (fun m _ hp => ⟨⟨by simp [hp], fun _ h => by cases h⟩, rfl⟩)
    fun m _ hp => ⟨⟨by simp [hp], fun h => h⟩, rfl⟩

theorem upkept_claim {db db' : Db} (h : claimNextBackupMaintenance pick db = .ok (some m, db')) :
    (∃ row ∈ db.maintenance, row.id = m.id ∧ row.kind = m.kind ∧ row.state.completable = true) ∧
    Upkept (Maintenance.steady fun row => if row.id = m.id then .running
      else if row.abandoned db.now then .pending else row.state) db db' := by
  unfold claimNextBackupMaintenance at h
  simp only at h
  split at h
  · cases h
  · next found hfind =>
    split_ifs at hfind
    have hmem := List.mem_of_find?_eq_some hfind
    obtain ⟨row, hrow, hfound⟩ := mem_updateWhere.1 hmem
    have hfits := List.find?_some hfind
    have hclaimable := of_decide_eq_true hfits
    cases h
    refine ⟨⟨row, hrow, ?_, ?_, ?_⟩, ?_⟩
    · rw [hfound]; split_ifs <;> rfl
    · rw [hfound]; split_ifs <;> rfl
    · have hstate := (of_decide_eq_true hclaimable.2).1
      rw [hfound] at hstate
      split_ifs at hstate with hab
      · rw [(of_decide_eq_true hab).2.1]
        rfl
      · rcases hstate with hs | hs <;> rw [hs] <;> rfl
    · -- one row: first the takeover, then the lease
      refine .updateTwice le_rfl (fun h => h) rfl fun row _ row₁ row₂ h₁ h₂ => ?_
      have hid : row₁.id = row.id := by rw [h₁]; split_ifs <;> rfl
      have hkind : row₁.kind = row.kind := by rw [h₁]; split_ifs <;> rfl
      have htotal : row₁.totalPacks = row.totalPacks := by rw [h₁]; split_ifs <;> rfl
      have hstate : row₁.state = if row.abandoned db.now then .pending else row.state := by
        rw [h₁]; split_ifs <;> rfl
      have hlease : row.leased → row₁.leased := by
        rw [h₁]
        split_ifs
        · exact fun _ h => by cases h
        · exact fun h => h
      by_cases hf : row.id = found.id
      · rw [if_pos (by simp [hid, hf])] at h₂
        subst h₂
        exact ⟨hid, hkind, ⟨by simp [hf], fun _ _ => rfl⟩, htotal⟩
      · rw [if_neg (by simp [hid, hf])] at h₂
        subst h₂
        exact ⟨hid, hkind, ⟨by simp [hf, hstate], hlease⟩, htotal⟩

end Moves

theorem retried_running (m : Maintenance) (id : ℕ) (hs : m.retried id = .running) :
    m.state = .running := by
  unfold Maintenance.retried at hs
  split_ifs at hs
  exact hs

theorem retried_cancelling (m : Maintenance) (id : ℕ) (hs : m.retried id = .cancelling) :
    m.state = .cancelling := by
  unfold Maintenance.retried at hs
  split_ifs at hs
  exact hs

theorem finished_running (m : Maintenance) (id : ℕ) (hs : m.finished id = .running) :
    m.state = .running := by
  unfold Maintenance.finished at hs
  split_ifs at hs
  · exact absurd hs m.state.finished_ne_running
  · exact hs

theorem finished_cancelling (m : Maintenance) (id : ℕ) (hs : m.finished id = .cancelling) :
    m.state = .cancelling := by
  unfold Maintenance.finished at hs
  split_ifs at hs
  · cases hm : m.state <;> rw [hm] at hs <;> cases hs
  · exact hs

def Db.emptied (db : Db) : Db :=
  { db with
    job := none, runs := [], snapshots := [], items := [], itemBlocks := [], packs := []
    maintenance := [], verifyTargets := []
    restoreJobs := db.restoreJobs.map fun j => { j with snapshotId := none } }

theorem deleteJob_cases (h : CatalogOp.deleteJob.tx db = .ok (a, db')) :
    (a = false ∧ db' = db) ∨ db' = db.emptied := by
  simp only [CatalogOp.tx, deleteBackupJobAfterRepositoryCleanup] at h
  repeat' split at h
  all_goals first
    | cases h; done
    | cases h; exact .inl ⟨rfl, rfl⟩
    | cases h; exact .inr rfl

theorem deleteJob_commit (db : Db) : CatalogOp.deleteJob.tx.commit db = db ∨
    CatalogOp.deleteJob.tx.commit db = db.emptied :=
  Tx.commit_of (P := fun db' => db' = db ∨ db' = db.emptied) (.inl rfl) fun _ _ hok =>
    (deleteJob_cases hok).imp_left And.right

/-- How the state of a request may change. `ends` says that requests are finished. -/
inductive StateMove (ends : Prop) (m : Maintenance) (s : MaintenanceState) : Prop
  | same (h : s = m.state)
  | claimed (hm : m.state.completable = true) (h : s = .running)
  | requeued (hm : m.state = .running) (h : s = .pending ∨ s = .retryWait)
  | finished (hends : ends) (h : s = m.state.finished)
  | cancelling (hk : m.kind = .verify) (hm : m.state = .running) (h : s = .cancelling)
  | cancelled (h : s = .cancelled)

namespace StateMove

variable {ends : Prop} {m : Maintenance}

theorem completable (h : StateMove ends m s) (hs : s.completable = true) : m.state.completable = true := by
  cases h with
  | same h => exact h ▸ hs
  | claimed hm => exact hm
  | requeued hm | cancelling _ hm =>
    rw [hm]
    rfl
  | finished _ h =>
    subst h
    cases hm : m.state <;> rw [hm] at hs <;> cases hs
  | cancelled h =>
    subst h
    cases hs

theorem of_cancelling (h : StateMove ends m .cancelling) :
    m.state = .cancelling ∨ (m.kind = .verify ∧ m.state = .running) := by
  cases h with
  | same h => exact .inl h.symm
  | cancelling hk hm => exact .inr ⟨hk, hm⟩
  | finished _ h => cases hm : m.state <;> rw [hm] at h <;> cases h
  | requeued _ h => simp at h
  | claimed _ h | cancelled h => cases h

theorem of_completed (h : StateMove ends m .completed) : m.state = .completed ∨ ends := by
  cases h with
  | same h => exact .inl h.symm
  | finished hends => exact .inr hends
  | requeued _ h => simp at h
  | claimed _ h | cancelled h | cancelling _ _ h => cases h

end StateMove

def SqlOp.ends (q : SqlOp) : Prop := ∃ id, q = .upkeep (.complete id) ∨ q = .upkeep (.completeVerify id)

theorem takeover_moves (db : Db) (m : Maintenance) :
    StateMove False m (if m.abandoned db.now then .pending else m.state) := by
  split_ifs with hab
  · exact .requeued (of_decide_eq_true hab).2.1 (.inl rfl)
  · exact .same rfl

/-- All transactions but two: the one that lists the targets of a check writes its total as well, and
the one that deletes the job deletes the requests. -/
theorem SqlOp.moved {db : Db} (h : RequestKeys db) (q : SqlOp)
    (hs : ∀ id, q ≠ .upkeep (.snapshotTargets id)) (hd : q ≠ .catalog .deleteJob) :
    ∃ f, Upkept (Maintenance.steady f) db (q.tx.commit db) ∧
      ∀ m ∈ db.maintenance, StateMove q.ends m (f m) := by
  by_cases hq : q.quiet = true
  · exact ⟨_, q.steady hq hs db, fun _ _ => .same rfl⟩
  cases q with
  | run q =>
    cases q with
    | suspend =>
      refine ⟨_, upkept_suspend db, fun m _ => ?_⟩
      split_ifs
      · exact .cancelled rfl
      · exact .same rfl
    | _ => exact absurd rfl hq
  | catalog q =>
    cases q with
    | deleteJob => exact absurd rfl hd
    | _ => exact absurd rfl hq
  | restore q => exact absurd rfl hq
  | upkeep q =>
    cases q with
    | claim pick =>
      refine Tx.commit_of (P := fun db' => ∃ f, Upkept (Maintenance.steady f) db db' ∧
        ∀ m ∈ db.maintenance, StateMove _ m (f m)) ⟨_, .same le_rfl id rfl, fun _ _ => .same rfl⟩ ?_
      intro a db' hok
      cases a with
      | some m =>
        obtain ⟨⟨row, hrow, hid, -, hcomp⟩, hu⟩ := upkept_claim hok
        refine ⟨_, hu, fun row' hrow' => ?_⟩
        split_ifs with h₁ h₂
        · exact .claimed (by rwa [eq_of_key h.nodup hrow' hrow (h₁.trans hid.symm)]) rfl
        · exact .requeued (of_decide_eq_true h₂).2.1 (.inl rfl)
        · exact .same rfl
      | none =>
        simp only [SqlOp.tx, UpkeepOp.tx, claimNextBackupMaintenance] at hok
        split at hok <;> cases hok
        exact ⟨_, .same le_rfl id rfl, fun _ _ => .same rfl⟩
    | complete id | completeVerify id =>
      refine ⟨_, by first | exact upkept_complete id db h | exact upkept_completeVerify id db, fun m _ => ?_⟩
      unfold Maintenance.finished
      split_ifs
      · exact .finished ⟨id, by simp⟩ rfl
      · exact .same rfl
    | retry id code =>
      refine ⟨_, upkept_retry id db code, fun m _ => ?_⟩
      unfold Maintenance.retried
      split_ifs with hr
      · exact .requeued hr.2 (.inr rfl)
      · exact .same rfl
    | cancelVerify id =>
      refine ⟨_, upkept_cancelVerify id db, fun m _ => ?_⟩
      unfold Maintenance.cancelled
      split_ifs with h₁ h₂
      · exact .cancelling h₁.2.1 h₂ rfl
      · exact .cancelled rfl
      · exact .same rfl
    | _ => exact absurd rfl hq

/-- How any step of the system changes the requests: their states move, or all of them go with the
job. -/
inductive Evolves (db db' : Db) : Prop
  | moved {ends : Prop} {f : Maintenance → MaintenanceState} (hu : Upkept (Maintenance.moves f) db db')
      (hm : ∀ m ∈ db.maintenance, StateMove ends m (f m))
  | gone (hm : db'.maintenance = []) (hn : db.nextId ≤ db'.nextId)

namespace Evolves

theorem keeps (hu : Upkept Maintenance.keeps db db') : Evolves db db' :=
  .moved hu fun _ _ => (.same rfl : StateMove False _ _)

theorem refl (db : Db) : Evolves db db := .keeps (Upkept.same le_rfl id rfl).moves

theorem quiet (db : Db) {q : SqlOp} (hq : q.quiet = true) : Evolves db (q.tx.commit db) :=
  .keeps (q.upkept hq db)

theorem takeover (db : Db) : Evolves db db.recoverVerifies :=
  .moved (upkept_takeover db).moves fun m _ => takeover_moves db m

theorem sql (h : RequestKeys db) (q : SqlOp) : Evolves db (q.tx.commit db) := by
  by_cases hq : q.quiet = true
  · exact .quiet db hq
  by_cases hd : q = .catalog .deleteJob
  · subst hd
    show Evolves db (CatalogOp.deleteJob.tx.commit db)
    rcases deleteJob_commit db with heq | heq <;> rw [heq]
    · exact refl db
    · exact .gone rfl le_rfl
  · obtain ⟨f, hu, hm⟩ := SqlOp.moved h q (fun id hid => hq (hid ▸ rfl)) hd
    exact .moved hu.moves hm

end Evolves

theorem Evolves.nextId_le (h : Evolves db db') : db.nextId ≤ db'.nextId := by
  cases h with
  | moved hu => exact hu.nextId
  | gone _ hn => exact hn

theorem evolves_exec (h : RequestKeys w.db) (hx : Exec op w o r w') : Evolves w.db w'.db := by
  rcases exec_cases hx with ⟨q, -, rfl⟩ | hdb
  · exact .sql h q
  · rw [hdb]
    exact .refl _

theorem RequestKeys.evolves (h : RequestKeys db) (he : Evolves db db') : RequestKeys db' := by
  cases he with
  | moved hu => exact h.upkept hu
  | gone hm hn => constructor <;> simp [hm]

/-- What every step keeps of the requests: keys, leases of running ones, and that only checks are
cancelled. -/
structure Requests (db : Db) : Prop extends RequestKeys db where
  leased : ∀ m ∈ db.maintenance, m.leased
  checks : ∀ m ∈ db.maintenance, m.state = .cancelling → m.kind = .verify

theorem Requests.evolves (h : Requests db) (he : Evolves db db') : Requests db' := by
  refine ⟨h.toRequestKeys.evolves he, ?_, ?_⟩ <;> cases he with
  | gone hm hn => simp [hm]
  | moved hu hmoves =>
    intro m' hm'
    rcases hu.origin hm' with ⟨m, hm, -, hk, hmove⟩ | ⟨-, -, hp, -⟩
    · first
        | exact hmove.2 (h.leased m hm)
        | exact fun hs => hk ▸ (((hmove.1.symm.trans hs) ▸ hmoves m hm).of_cancelling).elim (h.checks m hm) And.left
    · intro hs
      rw [hp] at hs
      cases hs

structure KindOf (db : Db) (id : ℕ) (kind : MaintenanceKind) : Prop where
  taken : id < db.nextId
  kind : ∀ m ∈ db.maintenance, m.id = id → m.kind = kind

theorem KindOf.evolves {id : ℕ} {kind : MaintenanceKind} (h : KindOf db id kind)
    (he : Evolves db db') : KindOf db' id kind := by
  cases he with
  | moved hu =>
    refine ⟨Nat.lt_of_lt_of_le h.taken hu.nextId, fun m' hm' hid => ?_⟩
    rcases hu.origin hm' with ⟨m, hm, hid', hk, -⟩ | ⟨hfresh, -⟩
    · rw [hk]
      exact h.kind m hm (hid' ▸ hid)
    · have := h.taken
      omega
  | gone hm hn => exact ⟨Nat.lt_of_lt_of_le h.taken hn, by simp [hm]⟩

structure Settled (db : Db) (id : ℕ) : Prop where
  taken : id < db.nextId
  state : ∀ m ∈ db.maintenance, m.id = id → m.state.completable = false

theorem Settled.evolves {id : ℕ} (h : Settled db id) (he : Evolves db db') : Settled db' id := by
  cases he with
  | moved hu hmoves =>
    refine ⟨Nat.lt_of_lt_of_le h.taken hu.nextId, fun m' hm' hid => ?_⟩
    rcases hu.origin hm' with ⟨m, hm, hid', -, hmove⟩ | ⟨hfresh, -⟩
    · by_contra hs
      have hcomp := (hmoves m hm).completable (hmove.1 ▸ by simpa using hs)
      rw [h.state m hm (hid' ▸ hid)] at hcomp
      cases hcomp
    · have := h.taken
      omega
  | gone hm hn => exact ⟨Nat.lt_of_lt_of_le h.taken hn, by simp [hm]⟩

end Clumoove
