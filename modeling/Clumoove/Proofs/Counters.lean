import Clumoove.Lib.Tally
import Clumoove.Sanity.Frames
import Clumoove.Sanity.RestorePlan

/-! The progress of a restore run. Its totals count files when it is planned, its workers add up
what they complete, and the statement that closes it counts all of its items once more, whatever they
are. -/

namespace Clumoove

open Table List

/-- What the only callers of a statement say: `restoreItem` completes a file, with the size of the
row it has claimed. -/
def RestoreOp.Called (db : Db) : RestoreOp → Prop
  | .completeItem itemId _ sizeBytes _ =>
    ∀ i ∈ db.restoreItems, i.id = itemId → i.isDir = false ∧ i.sizeBytes = sizeBytes
  | _ => True

/-- The databases that are reached while restores are made, from one without a restore. Everything
else that happens leaves their runs and items alone. -/
inductive Restoring (ok : Db → RestoreOp → Prop) : Db → Prop
  | start {db : Db} (hruns : db.restoreRuns = []) (hitems : db.restoreItems = []) : Restoring ok db
  | step {db : Db} {q : RestoreOp} (h : Restoring ok db) (hcalled : q.Called db) (hok : ok db q) :
    Restoring ok (q.tx.commit db)
  | suspend {db : Db} (h : Restoring ok db) : Restoring ok (suspendUser.commit db)
  | elsewhere {db db' : Db} (h : Restoring ok db) (hruns : db'.restoreRuns = db.restoreRuns)
    (hitems : db'.restoreItems = db.restoreItems) (hid : db.nextId ≤ db'.nextId) :
    Restoring ok db'

def RestoreItem.settled (i : RestoreItem) : Bool := ¬ (i.status = .pending ∨ i.status = .running)

def RestoreItem.done (i : RestoreItem) : Bool := i.status = .completed ∨ i.status = .warning

def RestoreItem.fileOf (runId : ℕ) (i : RestoreItem) : Bool := i.runId = runId ∧ ¬ i.isDir

def RestoreItem.doneOf (runId : ℕ) (i : RestoreItem) : Bool := i.fileOf runId && i.done

def RestoreItem.missedOf (runId : ℕ) (i : RestoreItem) : Bool := i.fileOf runId && !i.doneOf runId

/-- `COMPLETED`, `PARTIAL` or `FAILED`. -/
def RestoreStatus.closed : RestoreStatus → Bool
  | .completed | .partially | .failed => true
  | _ => false

def RestoreStatus.unplanned : RestoreStatus → Bool
  | .queued | .planning => true
  | _ => false

theorem RestoreStatus.not_closed_of_unplanned {s : RestoreStatus} (h : s.unplanned = true) :
    s.closed = false := by
  cases s <;> first | rfl | cases h

structure RestoreRun.Booked (items : List RestoreItem) (r : RestoreRun) : Prop where
  unplanned : r.status.unplanned = true → ∀ i ∈ items, i.runId ≠ r.id
  totalFiles : r.totalFiles = tally (RestoreItem.fileOf r.id) (fun _ => 1) items
  totalBytes : r.totalBytes = tally (RestoreItem.fileOf r.id) (·.sizeBytes) items
  processedFiles : r.processedFiles ≤ tally (RestoreItem.doneOf r.id) (fun _ => 1) items
  processedBytes : r.processedBytes ≤ tally (RestoreItem.doneOf r.id) (·.sizeBytes) items
  failedFiles : r.status.closed = false → r.failedFiles = 0
  settled : r.status.closed = true → ∀ i ∈ items, i.runId = r.id → i.settled = true
  closed : r.status.closed = true →
    r.processedFiles = tally (RestoreItem.doneOf r.id) (fun _ => 1) items ∧
      r.failedFiles = tally (RestoreItem.missedOf r.id) (fun _ => 1) items

/-- What nothing but a deletion and the completion of a file does to an item otherwise: one that is
settled stays so, at most with a warning. -/
structure RestoreItem.Keeps (i j : RestoreItem) : Prop where
  runId : j.runId = i.runId
  isDir : j.isDir = i.isDir
  sizeBytes : j.sizeBytes = i.sizeBytes
  settled : i.settled = true → j.settled = true ∧ j.done = i.done

/-- A run that goes on to another state, with its counters as they are. -/
structure RestoreRun.Turns (r s : RestoreRun) : Prop where
  id : s.id = r.id
  counters : (s.totalFiles, s.totalBytes, s.processedFiles, s.processedBytes, s.failedFiles) =
    (r.totalFiles, r.totalBytes, r.processedFiles, r.processedBytes, r.failedFiles)
  status : s.status = r.status ∨ (r.status.unplanned = true ∧
      (s.status.unplanned = true ∨ s.status = .failed)) ∨
    (r.status.closed = false ∧ (s.status = .cancelling ∨ s.status = .cancelled))

namespace RestoreItem

variable {i j : RestoreItem} {runId : ℕ}

theorem settled_of_done (h : i.done = true) : i.settled = true := by
  unfold done at h
  unfold settled
  cases hs : i.status <;> simp_all

theorem Keeps.refl (i : RestoreItem) : Keeps i i := ⟨rfl, rfl, rfl, fun h => ⟨h, rfl⟩⟩

theorem Keeps.fileOf (h : Keeps i j) : j.fileOf runId = i.fileOf runId := by
  unfold RestoreItem.fileOf
  rw [h.runId, h.isDir]

theorem Keeps.doneOf (h : Keeps i j) (hd : i.doneOf runId = true) : j.doneOf runId = true := by
  obtain ⟨hfile, hdone⟩ := Bool.and_eq_true_iff.1 hd
  rw [RestoreItem.doneOf, h.fileOf, hfile, (h.settled (settled_of_done hdone)).2, hdone]
  rfl

theorem Keeps.doneOf_eq (h : Keeps i j) (hs : i.settled = true) : j.doneOf runId = i.doneOf runId := by
  rw [RestoreItem.doneOf, h.fileOf, (h.settled hs).2]
  rfl

theorem Keeps.of_unsettled (hrun : j.runId = i.runId) (hdir : j.isDir = i.isDir)
    (hsize : j.sizeBytes = i.sizeBytes) (h : i.settled = false) : Keeps i j :=
  ⟨hrun, hdir, hsize, fun hs => absurd (hs.symm.trans h) (by simp)⟩

end RestoreItem

namespace RestoreRun

variable {r s : RestoreRun} {items : List RestoreItem} {f : RestoreItem → RestoreItem}

theorem Turns.refl (r : RestoreRun) : Turns r r := ⟨rfl, rfl, .inl rfl⟩

theorem Booked.turn (h : Booked items r) (hs : Turns r s) : Booked items s := by
  obtain ⟨hid, hcounters, hstatus⟩ := hs
  simp only [Prod.mk.injEq] at hcounters
  obtain ⟨hfiles, hbytes, hprocessed, hpbytes, hfailed⟩ := hcounters
  obtain ⟨hun, h₁, h₂, h₃, h₄, h₅, h₆, h₇⟩ := h
  rw [← hid, ← hfiles, ← hbytes, ← hprocessed, ← hpbytes, ← hfailed] at *
  rcases hstatus with heq | ⟨hearly, hnext⟩ | ⟨hopen, hnext⟩
  · rw [← heq] at hun h₅ h₆ h₇
    exact ⟨hun, h₁, h₂, h₃, h₄, h₅, h₆, h₇⟩
  · have hitems := hun hearly
    have hzero : s.failedFiles = 0 := h₅ (RestoreStatus.not_closed_of_unplanned hearly)
    have hnone (w : RestoreItem → ℕ) : tally (RestoreItem.doneOf s.id) w items = 0 :=
      tally_none fun i hi => by simp [RestoreItem.doneOf, RestoreItem.fileOf, hitems i hi]
    refine ⟨fun _ => hitems, h₁, h₂, h₃, h₄, fun _ => hzero,
      fun _ i hi hrun => absurd hrun (hitems i hi), fun _ => ⟨?_, ?_⟩⟩
    · rw [hnone] at h₃ ⊢
      omega
    · rw [hzero, tally_none fun i hi => by simp [RestoreItem.missedOf, RestoreItem.fileOf, hitems i hi]]
  · have hclosed : s.status.closed = false ∧ s.status.unplanned = false := by
      rcases hnext with heq | heq <;> rw [heq] <;> exact ⟨rfl, rfl⟩
    refine ⟨?_, h₁, h₂, h₃, h₄, fun _ => h₅ hopen, ?_, ?_⟩ <;> simp [hclosed]

theorem Booked.keep (h : Booked items r) (hf : ∀ i, RestoreItem.Keeps i (f i)) :
    Booked (items.map f) r := by
  have hfile (w : RestoreItem → ℕ) (hw : ∀ i, w (f i) = w i) :
      tally (RestoreItem.fileOf r.id) w (items.map f) = tally (RestoreItem.fileOf r.id) w items :=
    tally_congr fun i _ => ⟨(hf i).fileOf, hw i⟩
  have hdone (w : RestoreItem → ℕ) (hw : ∀ i, w (f i) = w i) :
      tally (RestoreItem.doneOf r.id) w items ≤ tally (RestoreItem.doneOf r.id) w (items.map f) :=
    tally_mono fun i _ hd => ⟨(hf i).doneOf hd, hw i⟩
  have hsize (i : RestoreItem) : (f i).sizeBytes = i.sizeBytes := (hf i).sizeBytes
  refine ⟨fun hun i hi => ?_, ?_, ?_, h.processedFiles.trans (hdone _ fun _ => rfl),
    h.processedBytes.trans (hdone _ hsize), h.failedFiles, fun hc i hi hrun => ?_, fun hc => ?_⟩
  · obtain ⟨a, ha, rfl⟩ := List.mem_map.1 hi
    rw [(hf a).runId]
    exact h.unplanned hun a ha
  · rw [hfile _ fun _ => rfl]
    exact h.totalFiles
  · rw [hfile _ hsize]
    exact h.totalBytes
  · obtain ⟨a, ha, rfl⟩ := List.mem_map.1 hi
    rw [(hf a).runId] at hrun
    exact ((hf a).settled (h.settled hc a ha hrun)).1
  · -- the files of a closed run are settled, so none is counted otherwise than before
    have hsame (i : RestoreItem) (hi : i ∈ items) : (f i).doneOf r.id = i.doneOf r.id := by
      by_cases hrun : i.runId = r.id
      · exact (hf i).doneOf_eq (h.settled hc i hi hrun)
      · simp [RestoreItem.doneOf, RestoreItem.fileOf, (hf i).runId, hrun]
    have hmissed (i : RestoreItem) (hi : i ∈ items) : (f i).missedOf r.id = i.missedOf r.id := by
      rw [RestoreItem.missedOf, (hf i).fileOf, hsame i hi]
      rfl
    rw [tally_congr fun i hi => ⟨hsame i hi, rfl⟩, tally_congr fun i hi => ⟨hmissed i hi, rfl⟩]
    exact h.closed hc

theorem Booked.of_own (h : Booked items r)
    (hown : items'.filter (·.runId = r.id) = items.filter (·.runId = r.id)) : Booked items' r := by
  have hmem (i : RestoreItem) (hi : i ∈ items') (hrun : i.runId = r.id) : i ∈ items := by
    have hi' : i ∈ items'.filter (·.runId = r.id) := mem_filter.2 ⟨hi, by simpa using hrun⟩
    rw [hown] at hi'
    exact (mem_filter.1 hi').1
  have hsame (p : RestoreItem → Bool) (w : RestoreItem → ℕ)
      (hp : ∀ i, RestoreItem.fileOf r.id i = false → p i = false) :
      tally p w items' = tally p w items := by
    have hrun (i : RestoreItem) (hi : p i = true) : decide (i.runId = r.id) = true := by
      by_contra hne
      simp_all [RestoreItem.fileOf]
    rw [← tally_filter hrun, hown, tally_filter hrun]
  have hfile (w : RestoreItem → ℕ) := hsame (RestoreItem.fileOf r.id) w fun _ hi => hi
  have hdone (w : RestoreItem → ℕ) := hsame (RestoreItem.doneOf r.id) w fun i hi => by
    simp [RestoreItem.doneOf, hi]
  have hmissed (w : RestoreItem → ℕ) := hsame (RestoreItem.missedOf r.id) w fun i hi => by
    simp [RestoreItem.missedOf, hi]
  refine ⟨fun hun i hi hrun => h.unplanned hun i (hmem i hi hrun) hrun, ?_, ?_, ?_, ?_,
    h.failedFiles, fun hc i hi hrun => h.settled hc i (hmem i hi hrun) hrun, ?_⟩
  · rw [hfile]
    exact h.totalFiles
  · rw [hfile]
    exact h.totalBytes
  · rw [hdone]
    exact h.processedFiles
  · rw [hdone]
    exact h.processedBytes
  · rw [hdone, hmissed]
    exact h.closed

theorem Booked.complete (h : Booked items r) (hf : ∀ i, RestoreItem.Keeps i (f i))
    (ha : a ∈ items) (hfile : a.fileOf r.id = true) (hopen : a.settled = false)
    (hdone : (f a).done = true) (hs : r.status.closed = false) (updatedAt : ℕ) : Booked (items.map f) { r with
      processedFiles := r.processedFiles + 1, processedBytes := r.processedBytes + a.sizeBytes
      updatedAt := updatedAt } := by
  have hkeep := h.keep hf
  have hbefore : a.doneOf r.id = false := by
    by_contra hd
    have := RestoreItem.settled_of_done (Bool.and_eq_true_iff.1 (Bool.of_not_eq_false hd)).2
    simp [hopen] at this
  have hafter : (f a).doneOf r.id = true := by
    rw [RestoreItem.doneOf, (hf a).fileOf, hfile, hdone]
    rfl
  have henter (w : RestoreItem → ℕ) (hw : ∀ i, w (f i) = w i) :
      tally (RestoreItem.doneOf r.id) w items + w a ≤
        tally (RestoreItem.doneOf r.id) w (items.map f) := by
    rw [← hw a]
    exact tally_enter ha hbefore hafter fun i hi => ⟨(hf i).doneOf hi, hw i⟩
  have hfiles := henter (fun _ => 1) fun _ => rfl
  have hbytes := henter (·.sizeBytes) fun i => (hf i).sizeBytes
  have := h.processedFiles
  have := h.processedBytes
  refine ⟨hkeep.unplanned, hkeep.totalFiles, hkeep.totalBytes, ?_, ?_, hkeep.failedFiles,
    hkeep.settled, fun hc => ?_⟩
  · dsimp only
    omega
  · dsimp only at hbytes ⊢
    omega
  · exact absurd (hs.symm.trans hc) (by simp)

end RestoreRun

/-- What holds of the restores of every database that is reached. -/
structure Db.Counted (db : Db) : Prop where
  nodup : (db.restoreRuns.map (·.id)).Nodup
  runs_lt : ∀ r ∈ db.restoreRuns, r.id < db.nextId
  items_lt : ∀ i ∈ db.restoreItems, i.runId < db.nextId
  booked : ∀ r ∈ db.restoreRuns, r.Booked db.restoreItems

variable {db db' : Db} {q : RestoreOp}

theorem Db.Counted.rebook (h : db.Counted) (hitems : ∀ i ∈ db'.restoreItems, i.runId < db'.nextId)
    (hruns : db'.restoreRuns = db.restoreRuns.map g) (hid : db.nextId ≤ db'.nextId)
    (hg : ∀ r ∈ db.restoreRuns, (g r).id = r.id ∧ (g r).Booked db'.restoreItems) : db'.Counted := by
  refine ⟨?_, ?_, hitems, ?_⟩
  · have hids : (db.restoreRuns.map g).map (·.id) = db.restoreRuns.map (·.id) := by
      rw [List.map_map]
      exact map_congr_left fun r hr => (hg r hr).1
    rw [hruns, hids]
    exact h.nodup
  · rw [hruns]
    intro _ hmem
    obtain ⟨r, hr, rfl⟩ := List.mem_map.1 hmem
    rw [(hg r hr).1]
    exact (h.runs_lt r hr).trans_le hid
  · rw [hruns]
    intro _ hmem
    obtain ⟨r, hr, rfl⟩ := List.mem_map.1 hmem
    exact (hg r hr).2

theorem Db.Counted.keeps_lt (h : db.Counted)
    (hf : ∀ i, RestoreItem.Keeps i (f i)) : ∀ i ∈ db.restoreItems.map f, i.runId < db.nextId := by
  intro _ hmem
  obtain ⟨i, hi, rfl⟩ := List.mem_map.1 hmem
  rw [(hf i).runId]
  exact h.items_lt i hi

theorem Db.Counted.moved (h : db.Counted)
    (hitems : Moved RestoreItem.Keeps db.restoreItems db'.restoreItems)
    (hruns : Moved RestoreRun.Turns db.restoreRuns db'.restoreRuns) (hid : db.nextId ≤ db'.nextId) :
    db'.Counted := by
  obtain ⟨f, hf, hkeep⟩ := hitems
  obtain ⟨g, hg, hturn⟩ := hruns
  refine h.rebook (fun i hi => ?_) hg hid fun r hr => ⟨(hturn r).id, ?_⟩
  · rw [hf] at hi
    exact (h.keeps_lt hkeep i hi).trans_le hid
  · rw [hf]
    exact ((h.booked r hr).keep hkeep).turn (hturn r)

/-- The statements that count, and the one that deletes what was counted. -/
def RestoreOp.counts : RestoreOp → Bool
  | .consumePreview .. | .plan .. | .completeItem .. | .finalizeCompleted | .deleteJob _ => true
  | _ => false

section Moved

variable {f : RestoreItem → RestoreItem}

theorem RestoreItem.unsettled_of_claimedBy {i : RestoreItem} {itemId runId claimEpoch : ℕ}
    (hi : i.claimedBy itemId runId claimEpoch = true) : i.settled = false := by
  unfold RestoreItem.claimedBy at hi
  simp_all [RestoreItem.settled]

theorem moved_updateHeld (hrun : ∀ i, (f i).runId = i.runId)
    (hdir : ∀ i, (f i).isDir = i.isDir) (hsize : ∀ i, (f i).sizeBytes = i.sizeBytes) :
    Moved RestoreItem.Keeps db.restoreItems (db.updateHeld itemId runId claimEpoch f).restoreItems :=
  .update .refl fun i hi =>
    .of_unsettled (hrun i) (hdir i) (hsize i) (RestoreItem.unsettled_of_claimedBy hi)

end Moved

theorem RestoreOp.moved (hq : q.counts = false) :
    Moved RestoreItem.Keeps db.restoreItems (q.tx.commit db).restoreItems ∧
      Moved RestoreRun.Turns db.restoreRuns (q.tx.commit db).restoreRuns := by
  have hitems : Moved RestoreItem.Keeps db.restoreItems db.restoreItems := .refl .refl
  have hruns : Moved RestoreRun.Turns db.restoreRuns db.restoreRuns := .refl .refl
  refine Tx.commit_of (P := fun db' => Moved RestoreItem.Keeps db.restoreItems db'.restoreItems ∧
    Moved RestoreRun.Turns db.restoreRuns db'.restoreRuns) ⟨hitems, hruns⟩ fun a db' h => ?_
  cases q with
  | consumePreview | plan | completeItem | finalizeCompleted | deleteJob => cases hq
  | claimQueued =>
    simp only [RestoreOp.tx, claimNextQueuedRestoreRun] at h
    repeat' split at h
    all_goals cases h
    · exact ⟨hitems, hruns⟩
    · exact ⟨hitems, hruns⟩
    · refine ⟨hitems, .update .refl fun r hr => ⟨rfl, rfl, .inr (.inl ⟨?_, .inl rfl⟩)⟩⟩
      simp_all [RestoreStatus.unplanned]
  | failPlanning | recoverPlanning =>
    cases h
    refine ⟨hitems, .update .refl fun r hr => ⟨rfl, rfl, .inr (.inl ⟨?_, by simp [RestoreStatus.unplanned]⟩)⟩⟩
    simp_all [RestoreStatus.unplanned]
  | cancel runId =>
    simp only [RestoreOp.tx, cancelRestoreRun] at h
    split at h <;> cases h
    · exact ⟨hitems, hruns⟩
    · refine ⟨.update .refl fun i hi => .of_unsettled rfl rfl rfl ?_, .update .refl fun r hr => ?_⟩
      · simp_all [RestoreItem.settled]
      · have hopen : r.status.closed = false := by
          simp only [decide_eq_true_eq] at hr
          rcases hr.2 with hs | hs | hs <;> rw [hs] <;> rfl
        split_ifs
        · exact ⟨rfl, rfl, .inr (.inr ⟨hopen, .inl rfl⟩)⟩
        · exact ⟨rfl, rfl, .inr (.inr ⟨hopen, .inr rfl⟩)⟩
  | claimItem pick =>
    simp only [RestoreOp.tx, claimNextRestoreItem] at h
    split at h <;> cases h
    · exact ⟨hitems, hruns⟩
    · refine ⟨.update .refl fun i hi => .of_unsettled rfl rfl rfl ?_, hruns⟩
      simp_all [RestoreItem.settled]
  | completeDirectory itemId runId claimEpoch =>
    simp only [RestoreOp.tx, completeRestoreDirectory] at h
    split at h <;> cases h
    exact ⟨moved_updateHeld (fun _ => rfl) (fun _ => rfl) fun _ => rfl, hruns⟩
  | warnItem =>
    cases h
    refine ⟨.update .refl fun i hi => ⟨rfl, rfl, rfl, fun _ => ⟨rfl, ?_⟩⟩, hruns⟩
    simp_all [RestoreItem.done]
  | failItem | skipItem | retryItem | setTarget | setResolvedTarget =>
    cases h
    exact ⟨moved_updateHeld (fun _ => rfl) (fun _ => rfl) fun _ => rfl, hruns⟩
  | reserve | moveReservation =>
    simp only [RestoreOp.tx, reserveRestoreTargetPath, moveRestoreTargetReservation] at h
    repeat' split at h
    all_goals cases h
    all_goals exact ⟨hitems, hruns⟩
  | setDirectoryTarget =>
    simp only [RestoreOp.tx, setRestoreDirectoryTargetPath] at h
    split at h <;> cases h
    refine ⟨⟨_, List.map_map, fun i => ?_⟩, hruns⟩
    dsimp only [Function.comp_apply]
    split_ifs <;> exact ⟨rfl, rfl, rfl, fun hs => ⟨hs, rfl⟩⟩
  | heartbeat =>
    cases h
    exact ⟨.update .refl fun i hi => ⟨rfl, rfl, rfl, fun hs => ⟨hs, rfl⟩⟩, hruns⟩
  | skipBlocked | recoverItems =>
    cases h
    refine ⟨.update .refl fun i hi => .of_unsettled rfl rfl rfl ?_, hruns⟩
    simp_all [RestoreItem.settled, Db.staleItem]
  | finalizeCancelling =>
    cases h
    refine ⟨hitems, .update .refl fun r hr => ⟨rfl, rfl, .inr (.inr ⟨?_, .inr rfl⟩)⟩⟩
    simp_all [RestoreStatus.closed]

theorem Db.Counted.suspendUser (h : db.Counted) : (suspendUser.commit db).Counted := by
  refine h.moved (.update .refl fun i hi => .of_unsettled rfl rfl rfl ?_)
    (.update .refl fun r hr => ⟨rfl, rfl, .inr (.inr ⟨?_, .inr rfl⟩)⟩) le_rfl
  · simp_all [RestoreItem.settled, or_iff_not_imp_left]
  · revert hr
    cases r.status <;> simp [RestoreStatus.active, RestoreStatus.closed]

theorem Db.Counted.enter (h : db.Counted) (hruns : db'.restoreRuns = db.restoreRuns ++ [{
      id := db.nextId + 1, jobId := jobId, generation := generation, updatedAt := updatedAt }])
    (hitems : db'.restoreItems = db.restoreItems) (hid : db'.nextId = db.nextId + 2) :
    db'.Counted := by
  have hnone (i : RestoreItem) (hi : i ∈ db.restoreItems) : i.runId ≠ db.nextId + 1 := by
    have := h.items_lt i hi
    omega
  have hzero (w : RestoreItem → ℕ) :
      tally (RestoreItem.fileOf (db.nextId + 1)) w db.restoreItems = 0 :=
    tally_none fun i hi => by simp [RestoreItem.fileOf, hnone i hi]
  refine ⟨?_, ?_, ?_, ?_⟩
  · rw [hruns, map_append, nodup_append]
    refine ⟨h.nodup, nodup_singleton _, fun a ha b hb => ?_⟩
    obtain ⟨r, hr, rfl⟩ := List.mem_map.1 ha
    have := h.runs_lt r hr
    simp only [map_cons, map_nil, mem_singleton] at hb
    omega
  · intro r hr
    rw [hruns, mem_append, mem_singleton] at hr
    rcases hr with hr | rfl
    · have := h.runs_lt r hr
      omega
    · rw [hid]
      exact Nat.lt_succ_self _
  · intro i hi
    rw [hitems] at hi
    have := h.items_lt i hi
    omega
  · intro r hr
    rw [hruns, mem_append, mem_singleton] at hr
    rw [hitems]
    rcases hr with hr | rfl
    · exact h.booked r hr
    · exact ⟨fun _ => hnone, (hzero _).symm, (hzero _).symm, Nat.zero_le _, Nat.zero_le _,
        fun _ => rfl, fun hc => (Bool.false_ne_true hc).elim, fun hc => (Bool.false_ne_true hc).elim⟩

theorem Db.Counted.consumePreview
    (h : db.Counted) (hq : consumeRestorePreview config retryJobId db = .ok (run, db')) :
    db'.Counted := by
  simp only [consumeRestorePreview] at hq
  repeat' split at hq
  all_goals cases hq
  all_goals exact h.enter rfl rfl rfl

/-- The plan of a run that had no items: what it inserts is what it counts. -/
theorem Db.Counted.plan {job : RestoreJob} (h : db.Counted)
    (hq : planRestoreRun job run db = .ok (b, db')) : db'.Counted := by
  obtain ⟨snapshotId, -, hplan, -, rfl⟩ := planRestoreRun_eq_ok.1 hq
  obtain ⟨-, -, -, -, -, hplanning⟩ := planRefused_eq_none.1 hplan
  obtain ⟨r₀, hr₀, hp₀⟩ := List.any_eq_true.1 hplanning
  have hid (r : RestoreRun) (hp : RestoreRun.planning job run r = true) :
      r.id = run.id ∧ r.status = .planning := by
    simp only [RestoreRun.planning, decide_eq_true_eq] at hp
    exact ⟨hp.1, hp.2.2.2⟩
  have hnew : ∀ i ∈ db.plannedItems job run.id snapshotId, i.runId = run.id := plannedItems_runId
  unfold Db.withPlan
  generalize db.plannedItems job run.id snapshotId = planned at hnew ⊢
  refine h.rebook (fun i hi => ?_) rfl (Nat.le_add_right _ _) fun r hr => ?_
  · rcases mem_append.1 hi with hi | hi
    · exact (h.items_lt i hi).trans_le (Nat.le_add_right _ _)
    · rw [hnew i hi, ← (hid r₀ hp₀).1]
      exact (h.runs_lt r₀ hr₀).trans_le (Nat.le_add_right _ _)
  · have hb := h.booked r hr
    split_ifs with hp
    · obtain ⟨hrun, hs⟩ := hid r hp
      have hnone := hb.unplanned (by rw [hs]; rfl)
      have hold (p : RestoreItem → Bool) (w : RestoreItem → ℕ)
          (hfile : ∀ i, p i = true → i.fileOf r.id = true) : tally p w db.restoreItems = 0 := by
        refine tally_none fun i hi => Bool.eq_false_iff.2 fun hi' => ?_
        simpa [RestoreItem.fileOf, hnone i hi] using hfile i hi'
      have hdone (w : RestoreItem → ℕ) := hold (RestoreItem.doneOf r.id) w fun i hi =>
        (Bool.and_eq_true_iff.1 hi).1
      have hfiles (w : RestoreItem → ℕ) :
          tally (RestoreItem.fileOf r.id) w (db.restoreItems ++ planned) =
            tally (fun i => ¬ i.isDir) w planned := by
        rw [tally_append, hold _ _ fun _ hi => hi, Nat.zero_add, tally, tally]
        congr 2
        exact filter_congr fun i hi => by simp [RestoreItem.fileOf, hnew i hi, hrun]
      have hprocessed := hb.processedFiles
      have hbytes := hb.processedBytes
      rw [hdone] at hprocessed hbytes
      have hnot : RestoreStatus.closed .running ≠ true := Bool.false_ne_true
      exact ⟨rfl, ⟨fun hc => absurd hc hnot, ((hfiles _).trans tally_one).symm, (hfiles _).symm,
        hprocessed.trans (Nat.zero_le _), hbytes.trans (Nat.zero_le _),
        fun _ => hb.failedFiles (by rw [hs]; rfl), fun hc => absurd hc hnot,
        fun hc => absurd hc hnot⟩⟩
    · have hother : r.id ≠ run.id := by
        intro heq
        cases eq_of_key h.nodup hr hr₀ (heq.trans (hid r₀ hp₀).1.symm)
        exact hp hp₀
      refine ⟨rfl, hb.of_own ?_⟩
      rw [filter_append, append_right_eq_self, filter_eq_nil_iff]
      intro i hi
      simp [hnew i hi, hother.symm]

theorem Db.Counted.completeItem (h : db.Counted)
    (hcalled : ∀ i ∈ db.restoreItems, i.id = itemId → i.isDir = false ∧ i.sizeBytes = sizeBytes)
    (hq : completeRestoreItem itemId runId sizeBytes claimEpoch db = .ok (b, db')) :
    db'.Counted := by
  simp only [completeRestoreItem] at hq
  split at hq <;> cases hq
  · exact h
  rename_i hheld
  obtain ⟨a, ha, hclaim⟩ := List.any_eq_true.1 (not_not.1 hheld)
  obtain ⟨hid, hrun, -⟩ := of_decide_eq_true hclaim
  obtain ⟨hfile, rfl⟩ := hcalled a ha hid
  have hkeep (i : RestoreItem) : RestoreItem.Keeps i (if i.claimedBy itemId runId claimEpoch then
      { i with status := .completed, errorCode := none, claimDeadline := none, updatedAt := db.now }
      else i) := by
    split_ifs with hi
    · exact .of_unsettled rfl rfl rfl (RestoreItem.unsettled_of_claimedBy hi)
    · exact .refl i
  refine h.rebook (h.keeps_lt hkeep) rfl le_rfl fun r hr => ?_
  have hb := h.booked r hr
  split_ifs with hp
  · obtain ⟨heq, hs⟩ := of_decide_eq_true hp
    have hopen : r.status.closed = false := by
      rcases hs with hs | hs <;> rw [hs] <;> rfl
    refine ⟨rfl, hb.complete hkeep ha ?_ (RestoreItem.unsettled_of_claimedBy hclaim) ?_ hopen db.now⟩
    · simp [RestoreItem.fileOf, hrun, heq, hfile]
    · rw [if_pos hclaim]
      rfl
  · exact ⟨rfl, hb.keep hkeep⟩

/-- No run is closed that has a directory or a file with a warning. -/
def RestoreOp.FilesOnly (db : Db) : RestoreOp → Prop
  | .finalizeCompleted => ∀ r ∈ db.restoreRuns, r.status = .running →
      db.runHas r.id (fun s => s = .pending ∨ s = .running) = false →
        ∀ i ∈ db.restoreItems, i.runId = r.id → i.isDir = false ∧ i.status ≠ .warning
  | _ => True

theorem runSummary_eq (h : ∀ i ∈ db.restoreItems, i.runId = runId →
    i.settled = true ∧ i.isDir = false ∧ i.status ≠ .warning) :
    db.runSummary runId = (tally (RestoreItem.doneOf runId) (fun _ => 1) db.restoreItems,
      tally (RestoreItem.missedOf runId) (fun _ => 1) db.restoreItems,
      tally (RestoreItem.doneOf runId) (·.sizeBytes) db.restoreItems) := by
  have hdone : ((db.restoreItems.filter (·.runId = runId)).filter fun i =>
      i.status = .completed ∨ i.status = .warning) =
        db.restoreItems.filter (RestoreItem.doneOf runId) := by
    rw [List.filter_filter]
    refine filter_congr fun i hi => ?_
    by_cases hrun : i.runId = runId
    · simp [RestoreItem.doneOf, RestoreItem.fileOf, RestoreItem.done, hrun, (h i hi hrun).2.1]
    · simp [RestoreItem.doneOf, RestoreItem.fileOf, hrun]
  have hmissed : ((db.restoreItems.filter (·.runId = runId)).filter fun i => i.status = .failed ∨
      i.status = .skipped ∨ i.status = .warning ∨ i.status = .cancelled) =
        db.restoreItems.filter (RestoreItem.missedOf runId) := by
    rw [List.filter_filter]
    refine filter_congr fun i hi => ?_
    by_cases hrun : i.runId = runId
    · obtain ⟨hsettled, hdir, hwarn⟩ := h i hi hrun
      unfold RestoreItem.settled at hsettled
      unfold RestoreItem.missedOf RestoreItem.doneOf RestoreItem.fileOf RestoreItem.done
      cases hs : i.status <;> simp_all
    · simp [RestoreItem.missedOf, RestoreItem.fileOf, hrun]
  simp only [Db.runSummary, hdone, hmissed, tally_one]
  rfl

theorem RestoreStatus.closed_finalStatus (completed imperfect : ℕ) :
    (finalStatus completed imperfect).closed = true ∧
      (finalStatus completed imperfect).unplanned = false := by
  unfold finalStatus
  split_ifs <;> exact ⟨rfl, rfl⟩

theorem Db.Counted.finalizeCompleted (h : db.Counted)
    (hfiles : RestoreOp.FilesOnly db .finalizeCompleted)
    (hq : finalizeCompletedRestoreRuns db = .ok (n, db')) : db'.Counted := by
  cases hq
  refine h.rebook h.items_lt rfl le_rfl fun r hr => ?_
  have hb := h.booked r hr
  split_ifs with hp
  · obtain ⟨hs, hdrained⟩ := of_decide_eq_true hp
    have hdrained : db.runHas r.id (fun s => s = .pending ∨ s = .running) = false := by
      simpa using hdrained
    have hsettled (i : RestoreItem) (hi : i ∈ db.restoreItems) (hrun : i.runId = r.id) :
        i.settled = true := by
      have hno := List.any_eq_false.1 hdrained i hi
      simp_all [RestoreItem.settled]
    have hsum := runSummary_eq fun i hi hrun =>
      ⟨hsettled i hi hrun, hfiles r hr hs hdrained i hi hrun⟩
    have hclosed := RestoreStatus.closed_finalStatus (db.runSummary r.id).1 (db.runSummary r.id).2.1
    refine ⟨rfl, fun hc => ?_, hb.totalFiles, hb.totalBytes, ?_, ?_, fun hc => ?_,
      fun _ => hsettled, fun _ => ?_⟩
    · exact absurd (hc.symm.trans hclosed.2) (by simp)
    · simp [hsum]
    · simp [hsum]
    · exact absurd (hc.symm.trans hclosed.1) (by simp)
    · simp [hsum]
  · exact ⟨rfl, hb⟩

theorem Db.Counted.deleteJob (h : db.Counted)
    (hq : deleteRestoreJob jobId db = .ok (b, db')) : db'.Counted := by
  simp only [deleteRestoreJob] at hq
  split at hq <;> cases hq
  · exact h
  refine ⟨h.nodup.sublist (filter_sublist.map _), fun r hr => h.runs_lt r (mem_filter.1 hr).1,
    fun i hi => h.items_lt i (mem_filter.1 hi).1, fun r hmem => ?_⟩
  obtain ⟨hr, hjob⟩ := mem_filter.1 hmem
  refine (h.booked r hr).of_own ?_
  rw [List.filter_filter]
  refine filter_congr fun i _ => ?_
  by_cases hrun : i.runId = r.id
  · have hgone : (db.restoreRuns.any fun s => s.id = i.runId ∧ s.jobId = jobId) = false := by
      refine List.any_eq_false.2 fun s hs hgone => ?_
      obtain ⟨hid, hgone⟩ := of_decide_eq_true hgone
      cases eq_of_key h.nodup hs hr (hid.trans hrun)
      exact of_decide_eq_true hjob hgone
    simp only [hgone, Bool.false_eq_true, not_false_eq_true, decide_true, Bool.and_true]
  · simp [hrun]

theorem Db.Counted.step (h : db.Counted) (hcalled : q.Called db) (hfiles : q.FilesOnly db) :
    (q.tx.commit db).Counted := by
  by_cases hq : q.counts = true
  · refine Tx.commit_of (P := Db.Counted) h fun a db' hrun => ?_
    cases q with
    | consumePreview config retry => exact h.consumePreview hrun
    | plan job run => exact h.plan hrun
    | completeItem itemId runId sizeBytes claimEpoch => exact h.completeItem hcalled hrun
    | finalizeCompleted => exact h.finalizeCompleted hfiles hrun
    | deleteJob jobId => exact h.deleteJob hrun
    | _ => cases hq
  · obtain ⟨hitems, hruns⟩ := RestoreOp.moved (Bool.eq_false_iff.2 hq)
    exact h.moved hitems hruns (q.nextId_le db)

theorem Restoring.counted (h : Restoring RestoreOp.FilesOnly db) : db.Counted := by
  induction h with
  | start hruns hitems => exact ⟨by simp [hruns], by simp [hruns], by simp [hitems], by simp [hruns]⟩
  | step _ hcalled hok ih => exact ih.step hcalled hok
  | suspend _ ih => exact ih.suspendUser
  | elsewhere _ hruns hitems hid ih =>
    refine ih.moved ?_ ?_ hid
    · rw [hitems]
      exact .refl .refl
    · rw [hruns]
      exact .refl .refl

/-- Whatever becomes of the items of a run and in whatever order, as long as a run that is closed has
no directory and no warning: its counters stay within its totals, and in the end every file is counted
once, with those that were restored or with those that were not. -/
theorem restore_counters_agree {r : RestoreRun} (h : Restoring RestoreOp.FilesOnly db)
    (hr : r ∈ db.restoreRuns) :
    r.processedFiles + r.failedFiles ≤ r.totalFiles ∧ r.processedBytes ≤ r.totalBytes ∧
      (r.status.closed = true →
        r.processedFiles = (db.restoreItems.filter (RestoreItem.doneOf r.id)).length ∧
        r.failedFiles = (db.restoreItems.filter (RestoreItem.missedOf r.id)).length ∧
        r.processedFiles + r.failedFiles = r.totalFiles) := by
  have hb := h.counted.booked r hr
  have hfile (i : RestoreItem) (hi : i.doneOf r.id = true) : i.fileOf r.id = true :=
    (Bool.and_eq_true_iff.1 hi).1
  have hsum (hc : r.status.closed = true) : r.processedFiles + r.failedFiles = r.totalFiles := by
    obtain ⟨hdone, hmissed⟩ := hb.closed hc
    rw [hdone, hmissed, hb.totalFiles]
    exact tally_split fun i _ => hfile i
  refine ⟨?_, ?_, fun hc => ?_⟩
  · cases hc : r.status.closed with
    | true => exact (hsum hc).le
    | false =>
      rw [hb.failedFiles hc, hb.totalFiles]
      exact hb.processedFiles.trans (tally_le hfile)
  · rw [hb.totalBytes]
    exact hb.processedBytes.trans (tally_le hfile)
  · obtain ⟨hdone, hmissed⟩ := hb.closed hc
    exact ⟨hdone.trans tally_one, hmissed.trans tally_one, hsum hc⟩

/-! Runs with one item. -/

def commitAll (qs : List RestoreOp) (db : Db) : Db := qs.foldl (fun db q => q.tx.commit db) db

theorem Restoring.all (h : Restoring ok db)
    (hqs : ∀ q ∈ qs, (∀ db, q.Called db) ∧ ∀ db, ok db q) : Restoring ok (commitAll qs db) := by
  induction qs generalizing db with
  | nil => exact h
  | cons q qs ih =>
    obtain ⟨hcalled, hok⟩ := hqs q mem_cons_self
    exact ih (h.step (hcalled db) (hok db)) fun q' hq' => hqs q' (mem_cons_of_mem q hq')

/-- A snapshot with one empty file, or one directory. -/
def oneItem (isDir : Bool) : Db where
  job := some {
    selectedPaths := [], targetDir := [], repositoryId := [], repositoryRoot := []
    retentionCount := 1, filesSupported := true }
  snapshots := [{ id := 0, runId := 0, state := .ready, selectedRoots := [] }]
  items := [{
    id := 0, snapshotId := 0, relativePath := ['a'], isDir := isDir, sizeBytes := 0, mtime := none
    fileSha256 := none, state := .available, errorCode := none }]

def restoreAll : RestoreJob where
  id := 0
  snapshotId := some 0
  selectedPaths := [[]]
  targetRoot := ['/']
  conflictStrategy := .skip
  threads := 1

/-- The run is planned, and a worker claims its item. -/
def untilClaimed : List RestoreOp :=
  [.consumePreview restoreAll none, .claimQueued,
    .plan restoreAll { id := 1, jobId := 0, generation := 1, updatedAt := 0 }, .claimItem 2]

def restoredFile : Db :=
  (RestoreOp.completeItem 2 1 0 1).tx.commit (commitAll untilClaimed (oneItem false))

theorem restoring_claimed
    (hok : ∀ q ∈ untilClaimed, ∀ db, ok db q) : Restoring ok (commitAll untilClaimed (oneItem isDir)) :=
  (Restoring.start rfl rfl).all fun q hq =>
    ⟨by revert q; simp [untilClaimed, RestoreOp.Called], hok q hq⟩

theorem restoring_restoredFile
    (hok : ∀ q ∈ .completeItem 2 1 0 1 :: untilClaimed, ∀ db, ok db q) : Restoring ok restoredFile :=
  (restoring_claimed fun q hq => hok q (mem_cons_of_mem _ hq)).step
    (by unfold RestoreOp.Called; decide +kernel) (hok _ mem_cons_self _)

theorem one_file_is_counted_once : ∃ db r, Restoring RestoreOp.FilesOnly db ∧ r ∈ db.restoreRuns ∧
    r.status = .completed ∧ r.processedFiles + r.failedFiles = r.totalFiles := by
  have h : Restoring RestoreOp.FilesOnly (RestoreOp.finalizeCompleted.tx.commit restoredFile) :=
    (restoring_restoredFile (by simp [untilClaimed, RestoreOp.FilesOnly])).step trivial
      (by unfold RestoreOp.FilesOnly; decide +kernel)
  have hrun : ∃ r ∈ (RestoreOp.finalizeCompleted.tx.commit restoredFile).restoreRuns,
      r.status = .completed := by decide +kernel
  obtain ⟨r, hr, hs⟩ := hrun
  exact ⟨_, r, h, hr, hs, ((restore_counters_agree h hr).2.2 (by rw [hs]; rfl)).2.2⟩

/-- A directory is no file for the totals, but it is for the last count; and a file with a warning is
counted with those that were restored and with those that were not. -/
theorem directories_and_warnings_exceed_the_total :
    (∃ db, Restoring (fun _ _ => True) db ∧ ∃ r ∈ db.restoreRuns, r.status = .completed ∧
      r.totalFiles = 0 ∧ r.processedFiles = 1) ∧
    ∃ db, Restoring (fun _ _ => True) db ∧ ∃ r ∈ db.restoreRuns, r.status = .partially ∧
      r.totalFiles = 1 ∧ r.processedFiles = 1 ∧ r.failedFiles = 1 := by
  constructor
  · exact ⟨commitAll [.completeDirectory 2 1 1, .finalizeCompleted] _,
      (restoring_claimed (by simp) : Restoring _ (commitAll untilClaimed (oneItem true))).all
        (by simp [RestoreOp.Called]),
      by decide +kernel⟩
  · exact ⟨commitAll [.warnItem 2 1 1 "RESTORE_METADATA_FAILED", .finalizeCompleted] _,
      (restoring_restoredFile (by simp)).all (by simp [RestoreOp.Called]), by decide +kernel⟩

end Clumoove
