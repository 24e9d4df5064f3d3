import Clumoove.Spec.Lifecycle

/-! What a committed lifecycle transaction did: each lemma lists the possible outcomes with the
guards that held and the database that was written. -/

namespace Clumoove

open Table

variable {db db' : Db}

theorem Tx.commit_of {α : Type} {tx : Tx α} {P : Db → Prop} (hsame : P db)
    (hok : ∀ a db', tx db = .ok (a, db') → P db') : P (tx.commit db) := by
  unfold Tx.commit
  cases h : tx db with
  | error e => exact hsame
  | ok res => exact hok res.1 res.2 h

theorem claimBackupJobPass_cases (h : claimBackupJobPass trigger key db = .ok (o, db')) :
    db' = db ∨ ∃ job run, db.job = some job ∧ job.status.active = false ∧
      run.id = db.nextId ∧ run.generation = job.runGeneration + 1 ∧ run.state = .queued ∧
      db' = { db with
        runs := db.runs ++ [run]
        job := some { job with
          status := .queued, runGeneration := run.generation, errorCode := none }
        nextId := db.nextId + 1 } := by
  unfold claimBackupJobPass at h
  cases hj : db.job with
  | none =>
    simp only [hj] at h
    split_ifs at h
  | some job =>
    simp only [hj] at h
    split_ifs at h with _ h₁
    · cases h; exact .inl rfl
    · cases h; exact .inl rfl
    · cases h; exact .inl rfl
    · cases h
      refine .inr ⟨job, { id := db.nextId, generation := job.runGeneration + 1, trigger := trigger
                          scheduledLocalKey := key, updatedAt := db.now }, rfl, ?_, rfl, rfl, rfl, rfl⟩
      simpa using h₁

theorem claimNextQueuedBackupRun_cases (h : claimNextQueuedBackupRun db = .ok (res, db')) :
    (res = none ∧ db' = db) ∨ ∃ job run, res = some ({ job with status := .scanning },
        { run with state := .scanning }) ∧ db.job = some job ∧ run ∈ db.runs ∧
      run.state = .queued ∧ job.status = .queued ∧ job.runGeneration = run.generation ∧
      job.deletionState = .active ∧
      db' = { db with
        runs := updateWhere (fun r => r.id = run.id ∧ r.state = .queued)
          (fun r => { r with state := .scanning, updatedAt := db.now }) db.runs
        job := some { job with status := .scanning } } := by
  unfold claimNextQueuedBackupRun at h
  cases hj : db.job with
  | none => rw [hj] at h; cases h; exact .inl ⟨rfl, rfl⟩
  | some job =>
    rw [hj] at h
    simp only at h
    split at h
    · cases h; exact .inl ⟨rfl, rfl⟩
    · next run hfind =>
      have hrun := List.find?_some hfind
      simp only [decide_eq_true_eq] at hrun
      obtain ⟨h₁, h₂, h₃, h₄⟩ := hrun
      cases h
      exact .inr ⟨job, run, rfl, rfl, List.mem_of_find?_eq_some hfind, h₁, h₂, h₃, h₄, rfl⟩

theorem transitionBackupRun_cases
    (h : transitionBackupRun generation runId expected next db = .ok (b, db')) :
    (b = false ∧ db' = db) ∨ (b = true ∧ validBackupTransition expected next = true ∧
      (∃ r ∈ db.runs, Run.fenced generation runId expected r = true) ∧
      ∃ job, db.job = some job ∧ Job.fenced generation expected job = true ∧
      db' = { db with
        runs := updateWhere (Run.fenced generation runId expected)
          (fun r => { r with state := next, updatedAt := db.now }) db.runs
        job := some { job with status := next.status.getD job.status } }) := by
  unfold transitionBackupRun at h
  cases hj : db.job with
  | none =>
    simp only [hj] at h
    split_ifs at h
    cases h
    exact .inl ⟨rfl, rfl⟩
  | some job =>
    simp only [hj] at h
    split_ifs at h with h₁ h₂ h₃
    · cases h
      exact .inr ⟨rfl, h₁, by simpa using h₂, job, rfl, h₃, rfl⟩
    · cases h; exact .inl ⟨rfl, rfl⟩

theorem completeBackupRun_cases
    (h : completeBackupRun generation runId expected terminal jobState totals errorCode db
      = .ok (b, db')) :
    (b = false ∧ db' = db) ∨ (b = true ∧
      (∃ r ∈ db.runs, Run.fenced generation runId expected r = true) ∧
      ∃ job, db.job = some job ∧ Job.fenced generation expected job = true ∧
      db' = { db with
        runs := updateWhere (Run.fenced generation runId expected) (fun r => { r with
            state := terminal, totals := totals, errorCode := errorCode, updatedAt := db.now })
          db.runs
        job := some { job with
          status := jobState, lastRunStatus := some terminal, totals := totals
          errorCode := errorCode } }) := by
  unfold completeBackupRun at h
  cases hj : db.job with
  | none =>
    simp only [hj] at h
    split_ifs at h
    cases h
    exact .inl ⟨rfl, rfl⟩
  | some job =>
    simp only [hj] at h
    split_ifs at h with h₂ h₃
    · cases h
      exact .inr ⟨rfl, by simpa using h₂, job, rfl, h₃, rfl⟩
    · cases h; exact .inl ⟨rfl, rfl⟩

theorem publishBackupSnapshotAndFinalize_cases
    (h : publishBackupSnapshotAndFinalize generation runId snapshotId snapshotState runState c db
      = .ok (b, db')) :
    (b = false ∧ db' = db) ∨ (b = true ∧
      (∃ s ∈ db.snapshots, Snapshot.drafted snapshotId runId s = true) ∧
      (∃ r ∈ db.runs, Run.fenced generation runId .verifying r = true) ∧
      ∃ job, db.job = some job ∧ Job.fenced generation .verifying job = true ∧
      db' = { db with
        snapshots := updateWhere (Snapshot.drafted snapshotId runId) (fun s => { s with
            state := snapshotState, totalFiles := c.totals.totalFiles, totalDirs := c.totalDirs
            totalBytes := c.totals.totalBytes, omittedUnstableCount := c.unstableFiles
            omittedErrorCount := c.totals.failedFiles, integrityState := .valid }) db.snapshots
        runs := updateWhere (Run.fenced generation runId .verifying)
          (fun r => { r with state := runState, totals := c.totals, updatedAt := db.now }) db.runs
        job := some { job with
          status := .idle, lastRunStatus := some runState, totals := c.totals, errorCode := none }
        maintenance := db.maintenance ++ [{ id := db.nextId, kind := .retention }]
        nextId := db.nextId + 1 }) := by
  unfold publishBackupSnapshotAndFinalize at h
  cases hj : db.job with
  | none =>
    simp only [hj] at h
    split_ifs at h <;> cases h <;> exact .inl ⟨rfl, rfl⟩
  | some job =>
    simp only [hj] at h
    split_ifs at h with h₁ h₂ h₃
    · cases h
      exact .inr ⟨rfl, by simpa using h₁, by simpa using h₂, job, rfl, h₃, rfl⟩
    all_goals cases h; exact .inl ⟨rfl, rfl⟩

end Clumoove
