import Clumoove.Spec.RestorePlan

/-! When a plan commits, and what it wrote. -/

namespace Clumoove

variable {db db' : Db} {job : RestoreJob} {run : RestoreRun}

theorem planRestoreRun_eq_ok : planRestoreRun job run db = .ok (b, db') ↔
    ∃ snapshotId, job.snapshotId = some snapshotId ∧ db.planRefused job run snapshotId = none ∧
      b = true ∧ db' = db.withPlan job run snapshotId := by
  unfold planRestoreRun
  cases job.snapshotId with
  | none => simp
  | some snapshotId =>
    cases hr : db.planRefused job run snapshotId with
    | none => simp [hr, eq_comm]
    | some e => simp [hr]

theorem planRefused_eq_none : db.planRefused job run snapshotId = none ↔
    db.restorable snapshotId = true ∧ db.job.any (·.deletionState = .active) = true ∧
      (∀ i ∈ db.items, i.snapshotId = snapshotId →
        inSelection job.selectedPaths i.relativePath = true → db.invalidRecipe i = false) ∧
      (∀ i ∈ db.plannedItems job run.id snapshotId, ∀ i' ∈ db.restoreItems, i'.runId = run.id →
        i'.snapshotRelativePath ≠ i.snapshotRelativePath) ∧
      (∀ p ∈ db.plannedPins snapshotId run.id (db.plannedItems job run.id snapshotId),
        p ∉ db.packPins) ∧ db.restoreRuns.any (RestoreRun.planning job run) = true := by
  unfold Db.planRefused
  simp only [ite_not]
  split_ifs <;> simp_all

theorem plannedItems_runId : ∀ i ∈ db.plannedItems job runId snapshotId, i.runId = runId := by
  have hplan (id : ℕ) (items : List Item) :
      ∀ i ∈ planItems runId db.now job.targetRoot id items, i.runId = runId := by
    induction items generalizing id with
    | nil => exact fun i hi => absurd hi List.not_mem_nil
    | cons a items ih =>
      intro i hi
      rcases List.mem_cons.1 hi with rfl | hi
      · rfl
      · exact ih _ i hi
  intro i hi
  obtain ⟨child, hchild, rfl⟩ := List.mem_map.1 hi
  repeat' split
  all_goals exact hplan _ _ child hchild

end Clumoove
