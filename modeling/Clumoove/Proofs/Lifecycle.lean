import Clumoove.Sanity.Runs

/-! Job and runs in lockstep: the job's status and generation say exactly which run, if any, is
unfinished. Every operation either moves that one run together with the job, cancels it, or
starts a new one when there is none. -/

namespace Clumoove

open Table List

variable {db db' : Db} {expected : RunState} {r : Run} {generation runId : ℕ}

theorem RunState.active_iff_status {s : RunState} : s.active = true ↔ s.status.isSome := by
  cases s <;> decide

theorem JobStatus.active_iff :
    j.active = true ↔ ∃ s : RunState, s.active = true ∧ s.status = some j := by
  cases j with
  | queued => exact ⟨fun _ => ⟨.queued, rfl, rfl⟩, fun _ => rfl⟩
  | scanning => exact ⟨fun _ => ⟨.scanning, rfl, rfl⟩, fun _ => rfl⟩
  | running => exact ⟨fun _ => ⟨.running, rfl, rfl⟩, fun _ => rfl⟩
  | verifying => exact ⟨fun _ => ⟨.verifying, rfl, rfl⟩, fun _ => rfl⟩
  | idle | paused | failed | deleting =>
    refine ⟨fun h => by simp [JobStatus.active] at h, fun ⟨s, _, hs⟩ => ?_⟩
    cases s <;> simp [RunState.status] at hs

structure Lockstep (job : Job) (runs : List Run) : Prop where
  increasing : (runs.map (·.generation)).Pairwise (· < ·)
  bounded : ∀ r ∈ runs, r.generation ≤ job.runGeneration
  current : ∀ r ∈ runs, r.state.active = true →
    r.generation = job.runGeneration ∧ r.state.status = some job.status
  owned : job.status.active = true → ∃ r ∈ runs, r.state.active = true

namespace Lockstep

variable {job job' : Job} {runs : List Run}

section

variable (h : Lockstep job runs)
include h

theorem eq_of_generation (hr : r ∈ runs) (hr' : r' ∈ runs)
    (hg : r.generation = r'.generation) : r = r' := by
  have hnodup : (runs.map (·.generation)).Nodup := h.increasing.imp fun hlt => Nat.ne_of_lt hlt
  exact eq_of_key hnodup hr hr' hg

theorem unique_active (hr : r ∈ runs) (hr' : r' ∈ runs)
    (ha : r.state.active = true) (ha' : r'.state.active = true) : r = r' :=
  h.eq_of_generation hr hr' ((h.current r hr ha).1.trans (h.current r' hr' ha').1.symm)

theorem active_iff : job.status.active = true ↔ ∃ r ∈ runs, r.state.active = true := by
  refine ⟨h.owned, fun ⟨r, hr, ha⟩ => ?_⟩
  exact JobStatus.active_iff.2 ⟨r.state, ha, (h.current r hr ha).2⟩

theorem congr_runs (hf : ∀ r, (f r).generation = r.generation ∧ (f r).state = r.state) :
    Lockstep job (updateWhere p f runs) := by
  have hback : ∀ r ∈ updateWhere p f runs, ∃ a ∈ runs,
      r.generation = a.generation ∧ r.state = a.state := by
    intro r hr
    obtain ⟨a, ha, rfl⟩ := mem_updateWhere.1 hr
    refine ⟨a, ha, ?_⟩
    split_ifs
    · exact hf a
    · exact ⟨rfl, rfl⟩
  refine ⟨?_, fun r hr => ?_, fun r hr ha => ?_, fun hj => ?_⟩
  · rw [map_updateWhere (·.generation) fun a _ => (hf a).1]
    exact h.increasing
  · obtain ⟨a, ha, hg, -⟩ := hback r hr
    rw [hg]
    exact h.bounded a ha
  · obtain ⟨a, hmem, hg, hs⟩ := hback r hr
    rw [hg, hs]
    exact h.current a hmem (hs ▸ ha)
  · obtain ⟨a, hmem, ha⟩ := h.owned hj
    refine ⟨if p a then f a else a, mem_updateWhere.2 ⟨a, hmem, rfl⟩, ?_⟩
    split_ifs
    · rw [(hf a).2]; exact ha
    · exact ha

theorem restatus (hg : job'.runGeneration = job.runGeneration)
    (hj : job.status.active = false) (hj' : job'.status.active = false) : Lockstep job' runs := by
  have hnone : ∀ r ∈ runs, r.state.active = true → False := fun r hr ha => by
    rw [h.active_iff.2 ⟨r, hr, ha⟩] at hj
    cases hj
  exact ⟨h.increasing, by rw [hg]; exact h.bounded, fun r hr ha => (hnone r hr ha).elim,
    fun ha => by rw [hj'] at ha; cases ha⟩

/-- The unfinished run and the job move together: to the same active state, or to a terminal
state and an inactive one. -/
theorem move (hf : ∀ r, (f r).generation = r.generation ∧ (f r).state = n)
    (hp : ∀ r ∈ runs, p r = true → r.state.active = true) (hhit : ∃ r ∈ runs, p r = true)
    (hg : job'.runGeneration = job.runGeneration) (hnext : n.status = some job'.status ∨
      (n.active = false ∧ job'.status.active = false)) : Lockstep job' (updateWhere p f runs) := by
  obtain ⟨r₀, hr₀, hp₀⟩ := hhit
  have ha₀ := hp r₀ hr₀ hp₀
  refine ⟨?_, fun r hr => ?_, fun r hr ha => ?_, fun hj => ?_⟩
  · rw [map_updateWhere (·.generation) fun a _ => (hf a).1]
    exact h.increasing
  · obtain ⟨a, hmem, rfl⟩ := mem_updateWhere.1 hr
    rw [hg]
    split_ifs
    · rw [(hf a).1]; exact h.bounded a hmem
    · exact h.bounded a hmem
  · obtain ⟨a, hmem, rfl⟩ := mem_updateWhere.1 hr
    by_cases hpa : p a = true
    · simp only [hpa, if_true, (hf a).1, (hf a).2] at ha ⊢
      rw [hg]
      refine ⟨(h.current a hmem (hp a hmem hpa)).1, ?_⟩
      rcases hnext with hn | ⟨hn, -⟩
      · exact hn
      · rw [hn] at ha; cases ha
    · -- an unfinished run the statement missed would be the one it hit
      simp only [hpa] at ha ⊢
      have := h.unique_active hmem hr₀ ha ha₀
      rw [this] at hpa
      exact absurd hp₀ hpa
  · rcases hnext with hn | ⟨-, hn⟩
    · refine ⟨f r₀, updateWhere_hit hr₀ hp₀, ?_⟩
      rw [(hf r₀).2, RunState.active_iff_status, hn]
      rfl
    · rw [hn] at hj; cases hj

theorem cancel (now : ℕ) (hg : job'.runGeneration = job.runGeneration)
    (hj' : job'.status.active = false) : Lockstep job' (cancelActiveRuns now runs) := by
  by_cases hhit : ∃ r ∈ runs, r.state.active = true
  · exact h.move (n := .cancelled) (fun _ => ⟨rfl, rfl⟩) (fun _ _ hp => hp) hhit hg
      (.inr ⟨rfl, hj'⟩)
  · have hnone : ∀ r ∈ runs, r.state.active = false := fun r hr => by
      simpa using fun ha => hhit ⟨r, hr, ha⟩
    rw [cancelActiveRuns, updateWhere_none hnone]
    refine h.restatus hg ?_ hj'
    simpa using fun ha => hhit (h.owned ha)

/-- A new run starts only when the last one has finished, and takes the next generation. -/
theorem start (hj : job.status.active = false)
    (hrun : run.generation = job.runGeneration + 1) (hstate : run.state = .queued)
    (hg : job'.runGeneration = run.generation) (hs : job'.status = .queued) :
    Lockstep job' (runs ++ [run]) := by
  have hnone : ∀ r ∈ runs, r.state.active = true → False := fun r hr ha => by
    rw [h.active_iff.2 ⟨r, hr, ha⟩] at hj
    cases hj
  refine ⟨?_, fun r hr => ?_, fun r hr ha => ?_, fun _ => ⟨run, by simp, by rw [hstate]; rfl⟩⟩
  · rw [map_append, pairwise_append]
    refine ⟨h.increasing, pairwise_singleton _ _, fun a ha b hb => ?_⟩
    obtain ⟨r, hr, rfl⟩ := List.mem_map.1 ha
    have hb : b = run.generation := by simpa using hb
    have := h.bounded r hr
    omega
  · rw [hg, hrun]
    rcases mem_append.1 hr with hr | hr
    · exact Nat.le_succ_of_le (h.bounded r hr)
    · rw [mem_singleton.1 hr, hrun]
  · rcases mem_append.1 hr with hr | hr
    · exact (hnone r hr ha).elim
    · rw [mem_singleton.1 hr, hg, hs, hstate]
      exact ⟨rfl, rfl⟩

end

end Lockstep

def InStep (db : Db) : Prop := ∃ job, db.job = some job ∧ Lockstep job db.runs

theorem inStep_newBackupJob (config : Job) : InStep (newBackupJob config) := by
  refine ⟨_, rfl, List.Pairwise.nil, ?_, ?_, ?_⟩
  · intro r hr
    cases hr
  · intro r hr
    cases hr
  · intro h
    cases h

theorem fenced_active (hj : Job.fenced generation expected job = true)
    (hr : Run.fenced generation runId expected r = true) : r.state.active = true := by
  simp only [Job.fenced, Run.fenced, decide_eq_true_eq] at hj hr
  rw [hr.2.2, RunState.active_iff_status, ← hj.2]
  rfl

theorem publishStates_terminal (c : PublishCounts) : (publishStates c).2.active = false := by
  unfold publishStates
  split_ifs <;> rfl

section

variable (h : InStep db)
include h

theorem InStep.frame (hj : db'.job = db.job) (hr : db'.runs = db.runs) : InStep db' := by
  obtain ⟨job, hjob, hl⟩ := h
  exact ⟨job, hj.trans hjob, hr ▸ hl⟩

theorem inStep_claimPass (trigger : Trigger) (key : Option String) :
    InStep ((claimBackupJobPass trigger key).commit db) := by
  refine Tx.commit_of h fun o db' hok => ?_
  obtain ⟨job, hjob, hl⟩ := h
  rcases claimBackupJobPass_cases hok with rfl | ⟨job', run, hjob', hidle, -, hgen, hstate, rfl⟩
  · exact ⟨job, hjob, hl⟩
  · cases hjob.symm.trans hjob'
    exact ⟨_, rfl, hl.start hidle hgen hstate rfl rfl⟩

theorem inStep_claimQueued : InStep (claimNextQueuedBackupRun.commit db) := by
  refine Tx.commit_of h fun res db' hok => ?_
  obtain ⟨job, hjob, hl⟩ := h
  rcases claimNextQueuedBackupRun_cases hok with
    ⟨-, rfl⟩ | ⟨job', run, -, hjob', hrun, hqueued, -, -, -, rfl⟩
  · exact ⟨job, hjob, hl⟩
  · cases hjob.symm.trans hjob'
    refine ⟨_, rfl, hl.move (n := .scanning) (fun _ => ⟨rfl, rfl⟩) ?_
      ⟨run, hrun, by simp [hqueued]⟩ rfl (.inl rfl)⟩
    intro r _ hp
    simp only [decide_eq_true_eq] at hp
    rw [hp.2]
    rfl

theorem inStep_transition (generation runId : ℕ) (expected next : RunState) :
    InStep ((transitionBackupRun generation runId expected next).commit db) := by
  refine Tx.commit_of h fun b db' hok => ?_
  obtain ⟨job, hjob, hl⟩ := h
  rcases transitionBackupRun_cases hok with ⟨-, rfl⟩ | ⟨-, hvalid, hhit, job', hjob', hf, rfl⟩
  · exact ⟨job, hjob, hl⟩
  · cases hjob.symm.trans hjob'
    have hnext : next.status = some (next.status.getD job.status) := by
      cases expected <;> cases next <;> simp [validBackupTransition] at hvalid <;> rfl
    exact ⟨_, rfl, hl.move (fun _ => ⟨rfl, rfl⟩) (fun r _ hp => fenced_active hf hp) hhit rfl
      (.inl hnext)⟩

theorem inStep_complete (generation runId : ℕ) (hterm : terminal.active = false)
    (hjs : jobState.active = false) (totals : Totals) (errorCode : Option String) :
    InStep ((completeBackupRun generation runId expected terminal jobState totals
      errorCode).commit db) := by
  refine Tx.commit_of h fun b db' hok => ?_
  obtain ⟨job, hjob, hl⟩ := h
  rcases completeBackupRun_cases hok with ⟨-, rfl⟩ | ⟨-, hhit, job', hjob', hf, rfl⟩
  · exact ⟨job, hjob, hl⟩
  · cases hjob.symm.trans hjob'
    exact ⟨_, rfl, hl.move (fun _ => ⟨rfl, rfl⟩) (fun r _ hp => fenced_active hf hp) hhit rfl
      (.inr ⟨hterm, hjs⟩)⟩

theorem inStep_finalize (generation runId : ℕ)
    (expected terminal : RunState) (totals : Totals) (errorCode : Option String) :
    InStep ((finalizeBackupRun generation runId expected terminal totals errorCode).commit db) := by
  by_cases hbad : ¬ expected.claimed ∨
      (terminal ≠ .completed ∧ terminal ≠ .partially ∧ terminal ≠ .cancelled)
  · simp only [Tx.commit, finalizeBackupRun, if_pos hbad]
    exact h
  · have hterm : terminal.active = false := by
      cases terminal <;> simp at hbad ⊢ <;> rfl
    simp only [Tx.commit, finalizeBackupRun, if_neg hbad]
    exact inStep_complete h generation runId hterm rfl totals errorCode

theorem inStep_fail (generation runId : ℕ) (expected : RunState) (errorCode : String) :
    InStep ((failBackupRun generation runId expected errorCode).commit db) := by
  by_cases hbad : ¬ expected.active
  · simp only [Tx.commit, failBackupRun, if_pos hbad]
    exact h
  · simp only [Tx.commit, failBackupRun, if_neg hbad]
    exact inStep_complete h generation runId rfl rfl {} (some errorCode)

theorem inStep_publish (generation runId snapshotId : ℕ) (hterm : runState.active = false)
    (c : PublishCounts) :
    InStep ((publishBackupSnapshotAndFinalize generation runId snapshotId snapshotState runState
      c).commit db) := by
  refine Tx.commit_of h fun b db' hok => ?_
  obtain ⟨job, hjob, hl⟩ := h
  rcases publishBackupSnapshotAndFinalize_cases hok with
    ⟨-, rfl⟩ | ⟨-, -, hhit, job', hjob', hf, rfl⟩
  · exact ⟨job, hjob, hl⟩
  · cases hjob.symm.trans hjob'
    exact ⟨_, rfl, hl.move (fun _ => ⟨rfl, rfl⟩) (fun r _ hp => fenced_active hf hp) hhit rfl
      (.inr ⟨hterm, rfl⟩)⟩

theorem inStep_recoverStale : InStep (recoverStaleBackupRuns.commit db) := by
  obtain ⟨job, hjob, hl⟩ := h
  unfold Tx.commit recoverStaleBackupRuns
  simp only [hjob]
  by_cases hnone : (db.runs.filter (staleRun job db.now)).isEmpty
  · have hmiss : ∀ r ∈ db.runs, staleRun job db.now r = false := by
      intro r hr
      simpa using filter_eq_nil_iff.1 (List.isEmpty_iff.1 hnone) r hr
    refine ⟨job, by simp [Db.deleteSnapshots, hnone], ?_⟩
    simp only [Db.deleteSnapshots, updateWhere_none hmiss]
    exact hl
  · refine ⟨_, by simp only [Db.deleteSnapshots, hnone]; rfl, ?_⟩
    refine hl.move (n := .failed) (fun _ => ⟨rfl, rfl⟩) ?_ ?_ rfl (.inr ⟨rfl, rfl⟩)
    · intro r _ hp
      simp only [staleRun, decide_eq_true_eq] at hp
      cases hs : r.state <;> simp [hs, RunState.claimed] at hp <;> rfl
    · obtain ⟨r, hr⟩ := exists_mem_of_ne_nil _ fun hnil => hnone (List.isEmpty_iff.2 hnil)
      exact ⟨r, (mem_filter.1 hr).1, (mem_filter.1 hr).2⟩

theorem inStep_pause : InStep (pauseBackup.commit db) := by
  obtain ⟨job, hjob, hl⟩ := h
  unfold Tx.commit pauseBackup
  simp only [hjob]
  split_ifs
  · exact ⟨job, hjob, hl⟩
  · exact ⟨_, rfl, hl.cancel db.now rfl rfl⟩

theorem inStep_resume : InStep (resumeBackup.commit db) := by
  obtain ⟨job, hjob, hl⟩ := h
  unfold Tx.commit resumeBackup
  simp only [hjob]
  split_ifs with hp
  · exact ⟨_, rfl, hl.restatus rfl (by rw [hp]; rfl) rfl⟩
  · exact ⟨job, hjob, hl⟩

theorem inStep_suspend : InStep (suspendUser.commit db) := by
  obtain ⟨job, hjob, hl⟩ := h
  unfold Tx.commit suspendUser
  simp only [hjob]
  refine ⟨_, rfl, hl.cancel db.now ?_ ?_⟩
  · beta_reduce
    split_ifs <;> rfl
  · beta_reduce
    split_ifs with ha
    · rfl
    · simpa using ha

theorem inStep_requestDeletion : InStep (requestBackupRepositoryDeletion.commit db) := by
  obtain ⟨job, hjob, hl⟩ := h
  unfold Tx.commit requestBackupRepositoryDeletion
  simp only [hjob]
  split_ifs
  · exact ⟨_, rfl, hl.cancel db.now rfl rfl⟩
  · exact ⟨job, hjob, hl⟩

theorem inStep_apply (op : LifecycleOp) : InStep (op.apply db) := by
  cases op with
  | claimPass trigger key => exact inStep_claimPass h trigger key
  | claimQueued => exact inStep_claimQueued h
  | transition generation runId expected next => exact inStep_transition h generation runId _ _
  | finalize generation runId expected terminal totals code => exact inStep_finalize h _ _ _ _ _ _
  | fail generation runId expected code => exact inStep_fail h generation runId expected code
  | createDraft runId roots =>
    refine Tx.commit_of h fun id db' hok => ?_
    unfold createBackupSnapshotDraft at hok
    split_ifs at hok
    cases hok
    exact h.frame rfl rfl
  | discardDraft snapshotId runId => exact h.frame rfl rfl
  | publish generation runId snapshotId c =>
    exact inStep_publish h generation runId snapshotId (publishStates_terminal c) c
  | touch generation runId =>
    obtain ⟨job, hjob, hl⟩ := h
    exact ⟨job, hjob, hl.congr_runs fun _ => ⟨rfl, rfl⟩⟩
  | recoverStale => exact inStep_recoverStale h
  | pause => exact inStep_pause h
  | resume => exact inStep_resume h
  | suspend => exact inStep_suspend h
  | requestDeletion => exact inStep_requestDeletion h
  | expire keep => exact h.frame rfl rfl
  | packDamaged packId =>
    refine Tx.commit_of h fun _ db' hok => ?_
    unfold markBackupPackDamaged at hok
    split_ifs at hok
    cases hok
    exact h.frame rfl rfl
  | tick seconds => exact h.frame rfl rfl

theorem inStep_runLifecycle (ops : List LifecycleOp) : InStep (runLifecycle db ops) := by
  induction ops generalizing db with
  | nil => exact h
  | cons op ops ih => exact ih (inStep_apply h op)

end

def NoNewLive (db db' : Db) : Prop :=
  ∀ s' ∈ db'.snapshots, s'.state.live = true →
    ∃ s ∈ db.snapshots, s.id = s'.id ∧ s.state.live = true

theorem NoNewLive.of_eq (h : db'.snapshots = db.snapshots) : NoNewLive db db' :=
  fun s' hs' hlive => ⟨s', h ▸ hs', rfl, hlive⟩

theorem NoNewLive.refl (db : Db) : NoNewLive db db := .of_eq rfl

theorem noNewLive_hide (h : db'.snapshots = updateWhere p f db.snapshots)
    (hf : ∀ s, (f s).state.live = false) : NoNewLive db db' := by
  intro s' hs' hlive
  rw [h] at hs'
  obtain ⟨s, hs, rfl⟩ := mem_updateWhere.1 hs'
  split_ifs at hlive ⊢
  · rw [hf s] at hlive
    cases hlive
  · exact ⟨s, hs, rfl, hlive⟩

theorem noNewLive_delete (db : Db) (p : Snapshot → Bool) : NoNewLive db (db.deleteSnapshots p) := by
  intro s' hs' hlive
  exact ⟨s', (mem_filter.1 hs').1, rfl, hlive⟩

/-- A snapshot that a step makes visible: its own run was `VERIFYING` and current, and that
step finishes it. -/
def PublishedBy (db db' : Db) (s' : Snapshot) : Prop :=
  ∃ job r r', db.job = some job ∧ r ∈ db.runs ∧ r' ∈ db'.runs ∧ r.id = s'.runId ∧
    r.state = .verifying ∧ r.generation = job.runGeneration ∧ r'.id = r.id ∧
    r'.generation = r.generation ∧ (r'.state = .completed ∨ r'.state = .partially)

theorem publishedBy_publish
    (hs' : s' ∈ ((LifecycleOp.publish generation runId snapshotId c).apply db).snapshots)
    (hlive : s'.state.live = true)
    (hnew : ∀ s ∈ db.snapshots, s.id = s'.id → s.state.live = false) :
    PublishedBy db ((LifecycleOp.publish generation runId snapshotId c).apply db) s' := by
  revert hs'
  refine Tx.commit_of (P := fun db' => s' ∈ db'.snapshots → PublishedBy db db' s') ?_ ?_
  · intro hs'
    rw [hnew s' hs' rfl] at hlive
    cases hlive
  · intro b db' hok hs'
    rcases publishBackupSnapshotAndFinalize_cases hok with
      ⟨-, rfl⟩ | ⟨-, -, ⟨r, hr, hfr⟩, job, hjob, hfj, rfl⟩
    · rw [hnew s' hs' rfl] at hlive
      cases hlive
    · obtain ⟨s, hs, rfl⟩ := mem_updateWhere.1 hs'
      have hdraft : Snapshot.drafted snapshotId runId s = true := by
        by_contra hd
        rw [if_neg hd] at hlive hnew
        rw [hnew s hs rfl] at hlive
        cases hlive
      have hrun : s.runId = runId := by
        simp only [Snapshot.drafted, decide_eq_true_eq] at hdraft
        exact hdraft.2.1
      rw [if_pos hdraft]
      refine ⟨job, r, _, hjob, hr, updateWhere_hit hr hfr, ?_⟩
      simp only [Run.fenced, Job.fenced, decide_eq_true_eq] at hfr hfj
      refine ⟨hfr.1.trans hrun.symm, hfr.2.2, hfr.2.1.trans hfj.1.symm, rfl, rfl, ?_⟩
      unfold publishStates
      split_ifs
      · exact .inr rfl
      · exact .inl rfl

theorem snapshots_complete
    (h : completeBackupRun generation runId expected terminal jobState totals errorCode db
      = .ok (b, db')) : db'.snapshots = db.snapshots := by
  rcases completeBackupRun_cases h with ⟨-, rfl⟩ | ⟨-, -, _, -, -, rfl⟩ <;> rfl

theorem publishedBy_apply (op : LifecycleOp)
    (hs' : s' ∈ (op.apply db).snapshots) (hlive : s'.state.live = true)
    (hnew : ∀ s ∈ db.snapshots, s.id = s'.id → s.state.live = false) :
    PublishedBy db (op.apply db) s' := by
  have hfrom : NoNewLive db (op.apply db) → PublishedBy db (op.apply db) s' := by
    intro h
    obtain ⟨s, hs, hid, hl⟩ := h s' hs' hlive
    rw [hnew s hs hid] at hl
    cases hl
  cases op with
  | publish generation runId snapshotId c => exact publishedBy_publish hs' hlive hnew
  | createDraft runId roots =>
    refine hfrom (Tx.commit_of (NoNewLive.refl db) fun id db' hok => ?_)
    unfold createBackupSnapshotDraft at hok
    split_ifs at hok
    cases hok
    intro s hs hl
    rcases mem_append.1 hs with hs | hs
    · exact ⟨s, hs, rfl, hl⟩
    · rw [mem_singleton.1 hs] at hl
      cases hl
  | discardDraft snapshotId runId => exact hfrom (noNewLive_delete db _)
  | recoverStale =>
    refine hfrom (Tx.commit_of (NoNewLive.refl db) fun n db' hok => ?_)
    unfold recoverStaleBackupRuns at hok
    cases hj : db.job with
    | none => simp only [hj] at hok; cases hok; exact NoNewLive.refl db
    | some job =>
      simp only [hj] at hok
      cases hok
      intro s hs hl
      exact ⟨s, (mem_filter.1 hs).1, rfl, hl⟩
  | requestDeletion =>
    refine hfrom (Tx.commit_of (NoNewLive.refl db) fun b db' hok => ?_)
    unfold requestBackupRepositoryDeletion at hok
    cases hj : db.job with
    | none => simp only [hj] at hok; cases hok; exact NoNewLive.refl db
    | some job =>
      simp only [hj] at hok
      split_ifs at hok
      · cases hok; exact noNewLive_hide rfl fun _ => rfl
      · cases hok; exact NoNewLive.refl db
  | expire keep => exact hfrom (noNewLive_hide rfl fun _ => rfl)
  | packDamaged packId =>
    refine hfrom (Tx.commit_of (NoNewLive.refl db) fun _ db' hok => ?_)
    unfold markBackupPackDamaged at hok
    split_ifs at hok
    cases hok
    exact noNewLive_hide rfl fun _ => rfl
  | claimPass trigger key =>
    refine hfrom (Tx.commit_of (NoNewLive.refl db) fun o db' hok => .of_eq ?_)
    rcases claimBackupJobPass_cases hok with rfl | ⟨_, _, -, -, -, -, -, rfl⟩ <;> rfl
  | claimQueued =>
    refine hfrom (Tx.commit_of (NoNewLive.refl db) fun res db' hok => .of_eq ?_)
    rcases claimNextQueuedBackupRun_cases hok with
      ⟨-, rfl⟩ | ⟨_, _, -, -, -, -, -, -, -, rfl⟩ <;> rfl
  | transition generation runId expected next =>
    refine hfrom (Tx.commit_of (NoNewLive.refl db) fun b db' hok => .of_eq ?_)
    rcases transitionBackupRun_cases hok with ⟨-, rfl⟩ | ⟨-, -, -, _, -, -, rfl⟩ <;> rfl
  | finalize | fail =>
    refine hfrom (Tx.commit_of (NoNewLive.refl db) fun b db' hok => .of_eq ?_)
    simp only [finalizeBackupRun, failBackupRun] at hok
    split_ifs at hok
    exact snapshots_complete hok
  | pause | resume =>
    refine hfrom (Tx.commit_of (NoNewLive.refl db) fun b db' hok => .of_eq ?_)
    simp only [pauseBackup, resumeBackup] at hok
    cases hj : db.job with
    | none => simp only [hj] at hok; cases hok; rfl
    | some job => simp only [hj] at hok; split_ifs at hok <;> cases hok <;> rfl
  | touch | suspend | tick => exact hfrom (.of_eq rfl)

/-- Under any sequence of operations, from whichever worker and however stale, job and run
lifecycles stay in lockstep. -/
theorem lifecycle_lockstep (config : Job) (ops : List LifecycleOp) :
    ∃ job, (runLifecycle (newBackupJob config) ops).job = some job ∧
      (∀ r ∈ (runLifecycle (newBackupJob config) ops).runs,
        ∀ r' ∈ (runLifecycle (newBackupJob config) ops).runs,
        r.state.active = true → r'.state.active = true → r = r') ∧ (job.status.active = true ↔
        ∃ r ∈ (runLifecycle (newBackupJob config) ops).runs, r.state.active = true) ∧
      (∀ r ∈ (runLifecycle (newBackupJob config) ops).runs, r.state.active = true →
        r.state.status = some job.status ∧ r.generation = job.runGeneration) ∧
      ((runLifecycle (newBackupJob config) ops).runs.map (·.generation)).Pairwise (· < ·) ∧
      ∀ op : LifecycleOp, ∀ s' ∈ (op.apply (runLifecycle (newBackupJob config) ops)).snapshots,
        s'.state.live = true →
        (∀ s ∈ (runLifecycle (newBackupJob config) ops).snapshots, s.id = s'.id →
          s.state.live = false) → PublishedBy (runLifecycle (newBackupJob config) ops)
          (op.apply (runLifecycle (newBackupJob config) ops)) s' := by
  obtain ⟨job, hjob, hl⟩ := inStep_runLifecycle (inStep_newBackupJob config) ops
  refine ⟨job, hjob, ?_, hl.active_iff, ?_, hl.increasing, ?_⟩
  · intro r hr r' hr' ha ha'
    exact hl.unique_active hr hr' ha ha'
  · intro r hr ha
    exact (hl.current r hr ha).symm
  · intro op s' hs' hlive hnew
    exact publishedBy_apply op hs' hlive hnew

end Clumoove
