import Clumoove.Sanity.Store

/-! The operations a worker's program may come to perform. -/

namespace Clumoove

open Prog

section Rules

variable {A : Op → Prop} {α : Type}

theorem within_sql {q : SqlOp} (h : A (.sql q)) : Within A (sql q) := Within.perform h

theorem within_ask {x : External} (h : A (.ask x)) : Within A (ask x) := Within.perform h

theorem within_call {op : Op} (h : A op) : Within A (call op) := Within.perform h

theorem within_liftText (x : Except String α) : Within A (liftText x) := by
  cases x <;> trivial

theorem within_liftPack (x : Except PackErr α) : Within A (liftPack x) := by
  cases x <;> trivial

theorem within_confirmSize (h : ∀ path, A (.fileExists path)) (path : Path) (size : ℕ)
    (message : String) : Within A (confirmSize path size message) := by
  simp [confirmSize, within_iff, call, h]

end Rules

attribute [local simp] within_iff call sql ask liftText liftPack confirmSize

/-- What a backup run may do. It never deletes an object. -/
def Op.ofRun : Op → Bool
  | .sql (.run q) =>
    match q with
    | .transition .. | .finalize .. | .fail .. | .createDraft .. | .active .. | .discardDraft ..
    | .publish .. => true
    | _ => false
  | .sql (.catalog q) =>
    match q with
    | .findBlock _ | .recordPack .. | .createItems .. | .latestValidSnapshot | .fileCatalog _
    | .snapshotPacks _ | .packsChecked _ | .packDamaged _ => true
    | _ => false
  | .fileExists _ | .streamUpload .. | .streamDownload _ | .ask _ => true
  | _ => false

section Run

variable (sha256 : List UInt8 → Digest)

abbrev RunOnly {α : Type} (x : Act α) : Prop := Within (Marked Op.ofRun) x

attribute [local simp] Op.ofRun fail

theorem runOnly_splitBlocks {σ : Type} {callback : σ → Entry → Act σ}
    (h : ∀ s e, RunOnly (callback s e)) (stream : Stream) (init : σ) :
    RunOnly (splitBlocks sha256 callback stream init) := by
  have hfeed : ∀ blocks s, RunOnly (feedBlocks sha256 callback blocks s) := by
    intro blocks
    induction blocks with
    | nil => exact fun s => .pure _
    | cons block blocks ih =>
      intro s
      refine .bind (.bind (.attempt (.bind (within_ask rfl) fun _ => h _ _)) fun r => ?_) fun r => ?_
      · split <;> exact .pure _
      · split
        · exact ih _
        · exact .pure _
  have hend : RunOnly (endOfStream sha256 stream) := by
    unfold endOfStream streamHash
    repeat' split
    all_goals simp
  refine .bind (hfeed _ _) fun r => ?_
  split
  · exact .pure _
  · exact .bind (.attempt hend) fun _ => .pure _

variable (root : Path)

theorem runOnly_flush (b : PackBuilder) : RunOnly (flush sha256 root b) := by
  unfold flush
  split
  · exact .pure _
  · refine .bind (within_liftPack _) fun r => .bind (within_liftText _) fun path => ?_
    refine .bind (within_ask rfl) fun _ => .bind (within_call rfl) fun _ => ?_
    refine .bind (within_confirmSize (fun _ => rfl) _ _ _) fun _ => .bind (within_call rfl) fun _ => ?_
    split <;> simp

theorem runOnly_backupBlock (s : FileWork) (entry : Entry) : RunOnly (backupBlock sha256 root s entry) := by
  have hadd : ∀ b, RunOnly (add sha256 root b entry) := fun b => by
    unfold add
    split_ifs
    · exact .pure _
    · exact .bind (runOnly_flush sha256 root b) fun _ => .pure _
    · exact .pure _
  unfold backupBlock
  split
  · exact .pure _
  · split
    · exact .pure _
    · refine .bind (within_sql rfl) fun r => ?_
      split
      · exact .pure _
      · exact .bind (hadd _) fun _ => .pure _

theorem runOnly_backupFile (file : ScannedFile) (b : PackBuilder) (stats : RunStats) :
    RunOnly (backupFile sha256 root file b stats) := by
  have hread : ∀ s, RunOnly (readFile sha256 root file s) := fun s => by
    refine .bind (.attempt (within_ask rfl)) fun r => ?_
    split
    · exact .pure _
    · exact runOnly_splitBlocks sha256 (runOnly_backupBlock sha256 root) _ _
  have hattempt : ∀ s, RunOnly (backupAttempt sha256 root file s) := fun s => by
    refine .bind (.attempt (within_ask rfl)) fun r => ?_
    split
    · exact .pure _
    · split
      · exact .pure _
      · refine .bind (hread _) fun r => ?_
        split <;> simp
  refine .bind (hattempt _) fun r => ?_
  split
  · exact hattempt _
  · exact .pure _

variable (run : RunClaim)

theorem runOnly_fail (code : String) : RunOnly (fail run code) := by
  simp

theorem runOnly_finishOrFail (e : Err) (stats : RunStats) : RunOnly (finishOrFail run e stats) := by
  simp [finishOrFail]

variable (snapshotId : ℕ)

theorem runOnly_runActive : RunOnly (runActive run snapshotId) := by
  simp [runActive]

theorem runOnly_prepare (job : Job) : RunOnly (prepare job) := by
  have hdedicated : ∀ dir id, RunOnly (ensureDedicatedTarget dir id) := fun dir id => by
    refine .bind (within_ask rfl) fun entries => ?_
    split
    · exact .pure _
    · refine .bind (within_liftText _) fun container => ?_
      split
      · exact .throw _
      · refine .bind (.attempt (within_ask rfl)) fun r => ?_
        repeat' split
        all_goals simp
  have hformat : ∀ root id, RunOnly (ensureFormat root id) := fun root id => by
    refine .bind (within_liftText _) fun path => ?_
    simp
  -- any other answer ends the preparation
  iterate 3
    refine .bind (.attempt (within_ask rfl)) fun r => ?_
    split <;> [skip; exact .pure _]
  refine .bind (.attempt (hdedicated _ _)) fun r => ?_
  split <;> [skip; exact .pure _]
  refine .bind (.attempt (hformat _ _)) fun r => ?_
  split <;> simp

theorem runOnly_backupFiles (catalog : List CatalogItem) (files : List ScannedFile) (work : Work) :
    RunOnly (backupFiles sha256 root run snapshotId catalog files work) := by
  have hreuse : ∀ file, RunOnly (reuseFile catalog file) := fun file => by
    unfold reuseFile
    split <;> simp
  induction files generalizing work with
  | nil => exact .pure _
  | cons file files ih =>
    refine .bind (runOnly_runActive run snapshotId) fun active => ?_
    split
    · exact .pure _
    · refine .bind (hreuse file) fun r => ?_
      split
      · exact ih _
      · refine .bind (runOnly_backupFile sha256 root file _ _) fun r => ?_
        split
        · exact .bind (runOnly_finishOrFail run _ _) fun _ => .pure _
        · exact ih _
        · exact ih _

theorem runOnly_samplePacks (packs : List PackRow) (remaining : ℕ) (checked : List ℕ) :
    RunOnly (samplePacks sha256 packs remaining checked) := by
  have hdamaged : ∀ packId e, RunOnly (failSample packId e) := by
    simp [failSample, markPackDamaged]
  have hpack : ∀ pack, RunOnly (samplePack sha256 pack) := fun pack => by
    unfold samplePack
    split
    · exact hdamaged _ _
    · refine .bind (.attempt (within_confirmSize (fun _ => rfl) _ _ _)) fun r => ?_
      split
      · exact hdamaged _ _
      · refine .bind (.attempt (within_call rfl)) fun r => ?_
        repeat' split
        all_goals first | exact hdamaged _ _ | exact .pure _
  induction packs generalizing remaining checked with
  | nil => exact .pure _
  | cons pack packs ih =>
    unfold samplePacks
    split
    · exact ih _ _
    · refine .bind (hpack pack) fun _ => ?_
      split
      · exact .pure _
      · exact ih _ _

theorem runOnly_publish (stats : RunStats) : RunOnly (publish sha256 run snapshotId stats) := by
  have hsample : RunOnly (verifySnapshotSample sha256 snapshotId) := by
    refine .bind (within_sql rfl) fun packs => ?_
    split
    · exact .pure _
    · exact .bind (within_ask rfl) fun start =>
        .bind (runOnly_samplePacks sha256 _ _ _) fun _ => within_sql rfl
  refine .bind (.attempt (within_sql rfl)) fun r => ?_
  split
  · refine .bind (.attempt hsample) fun r => ?_
    split <;> simp
  · exact runOnly_fail _ _

theorem runOnly_writeCatalog (directories : List ScannedDirectory) (work : Work) :
    RunOnly (writeCatalog sha256 root run snapshotId directories work) := by
  refine .bind (runOnly_runActive run snapshotId) fun active => ?_
  split <;> [skip; exact .pure _]
  refine .bind (.attempt (runOnly_flush sha256 root _)) fun r => ?_
  split <;> [exact runOnly_finishOrFail run _ _; skip]
  refine .bind (runOnly_runActive run snapshotId) fun active => ?_
  split <;> [skip; exact .pure _]
  refine .bind (.attempt (within_sql rfl)) fun r => ?_
  split <;> [exact runOnly_finishOrFail run _ _; skip]
  refine .bind (runOnly_runActive run snapshotId) fun active => ?_
  split
  · exact runOnly_publish sha256 run snapshotId _
  · exact .pure _

theorem runOnly_execute (job : Job) (claimed : Run) : RunOnly (execute sha256 job claimed) := by
  have hprevious : RunOnly previousCatalog := by simp [previousCatalog, Option.forall]
  have htransfer : ∀ run scanned, RunOnly (transfer sha256 job run scanned) := fun run scanned => by
    refine .bind (.attempt (within_ask rfl)) fun r => ?_
    split <;> [exact runOnly_finishOrFail run _ _; skip]
    refine .bind (.attempt (within_sql rfl)) fun r => ?_
    split <;> [skip; exact runOnly_fail _ _]
    refine .bind (.attempt (within_sql rfl)) fun r => ?_
    split <;> [exact runOnly_fail _ _; skip]
    refine .bind (.attempt hprevious) fun r => ?_
    split <;> [exact runOnly_fail _ _; skip]
    refine .bind (runOnly_backupFiles sha256 _ _ _ _ _ _) fun r => ?_
    split
    · exact .pure _
    · exact runOnly_writeCatalog sha256 _ _ _ _ _
  unfold execute
  split <;> [exact runOnly_fail _ _; skip]
  refine .bind (runOnly_prepare job) fun r => ?_
  split <;> [exact runOnly_fail _ _; skip]
  refine .bind (.attempt (within_ask rfl)) fun r => ?_
  split
  · exact runOnly_finishOrFail _ _ _
  · exact htransfer _ _

end Run

/-- What the execution of a maintenance request may do. Only the deletion of a repository requeues
its request, and only a check touches check targets. -/
def Op.ofExecution (m : Maintenance) : Op → Prop
  | .sql (.upkeep q) =>
    match q with
    | .enqueue _ => True
    | .retry id _ => id = m.id ∧ m.kind = .deleteRepository
    | .cancelling id | .snapshotTargets id | .claimTarget id | .addProcessedBytes id _
    | .advanceCursor id | .completeVerify id => id = m.id ∧ m.kind = .verify
    | .releaseTarget .. | .completeTarget .. | .targetDamaged .. | .targetRead .. => m.kind = .verify
    | .createVerify .. | .claim _ | .cancelVerify _ | .complete _ => False
  | .sql (.catalog q) =>
    match q with
    | .deleteJob => m.kind = .deleteRepository
    | .getJob | .packsChecked _ | .packDamaged _ | .expire _ | .reclaimablePacks _
    | .packsForDeletion _ | .packDeleted _ | .liveBlocks _ | .compactionCandidate
    | .replaceLocators .. => True
    | _ => False
  | .sql (.run _) | .sql (.restore _) => False
  | _ => True

/-- What the worker with a maintenance request may do: execute it, and then complete or requeue
it. -/
def Op.ofMaintenance (m : Maintenance) (op : Op) : Prop :=
  op.ofExecution m ∨ op = .sql (.upkeep (.complete m.id)) ∨
    ∃ code, op = .sql (.upkeep (.retry m.id code))

section Maintenance

variable (sha256 : List UInt8 → Digest) {m : Maintenance}

abbrev UpkeepOnly {α : Type} (m : Maintenance) (x : Act α) : Prop := Within (Op.ofExecution m) x

attribute [local simp] Op.ofExecution

theorem upkeepOnly_deleteObject (path : Path) : UpkeepOnly m (deleteObject path) := by
  simp [deleteObject]

theorem upkeepOnly_reclaimPacks (packs : List PackRow) : UpkeepOnly m (reclaimPacks packs) := by
  induction packs with
  | nil => exact .pure _
  | cons pack packs ih =>
    exact .bind (upkeepOnly_deleteObject _) fun _ => .bind (within_sql trivial) fun _ => ih

theorem upkeepOnly_enqueueCompaction : UpkeepOnly m enqueueCompaction := by
  simp [enqueueCompaction, Option.forall]

theorem upkeepOnly_applyRetention (job : Job) : UpkeepOnly m (applyRetention job) := by
  refine .bind (within_sql trivial) fun _ => .bind (within_sql trivial) fun packs => ?_
  refine .bind (upkeepOnly_reclaimPacks packs) fun _ => ?_
  split
  · exact within_sql trivial
  · exact upkeepOnly_enqueueCompaction

theorem upkeepOnly_compactOnePack (job : Job) : UpkeepOnly m (compactOnePack sha256 job) := by
  have hlive : ∀ pack live, UpkeepOnly m (readLive sha256 pack live) := fun pack live => by
    refine .bind (within_call trivial) fun reader => ?_
    split <;> simp
  have hwrite : ∀ root entries, UpkeepOnly m (writeReplacement sha256 root entries) :=
    fun root entries => by
      refine .bind (within_liftPack _) fun r => .bind (within_liftText _) fun path => ?_
      refine .bind (within_ask trivial) fun _ => .bind (within_call trivial) fun _ => ?_
      refine .bind (within_confirmSize (fun _ => trivial) _ _ _) fun _ => ?_
      refine .bind (within_call trivial) fun verified => ?_
      repeat' split
      all_goals simp
  refine .bind (within_sql trivial) fun r => ?_
  split
  · exact .pure _
  · refine .bind (within_sql trivial) fun live => .bind (within_ask trivial) fun _ => ?_
    refine .bind (hlive _ _) fun kept => .bind (hwrite _ _) fun new => ?_
    refine .bind (within_sql trivial) fun _ => .bind (upkeepOnly_deleteObject _) fun _ => ?_
    exact .bind (within_sql trivial) fun _ => upkeepOnly_enqueueCompaction

theorem upkeepOnly_deleteRepository (hm : m.kind = .deleteRepository) (job : Job) :
    UpkeepOnly m (deleteRepository m.id job) := by
  refine .bind (within_sql trivial) fun packs => .bind (upkeepOnly_reclaimPacks packs) fun _ => ?_
  split
  · exact within_sql ⟨rfl, hm⟩
  · refine .bind (within_liftText _) fun path => .bind (upkeepOnly_deleteObject path) fun _ => ?_
    simp [hm]

def Op.finishes : Op → Bool
  | .sql (.upkeep (.complete _)) | .sql (.upkeep (.completeVerify _)) => true
  | _ => false

abbrev CheckOnly {α : Type} (m : Maintenance) (x : Act α) : Prop :=
  Within (fun op => op.ofExecution m ∧ op.finishes = false) x

section Verify

variable (hm : m.kind = .verify)
include hm

attribute [local simp] Op.finishes

variable (target : VerifyTarget)

theorem checkOnly_releaseTarget : CheckOnly m (releaseTarget target) := by
  simp [releaseTarget, hm]

theorem checkOnly_releasing {α : Type} {x : Act α} (target : VerifyTarget) (hx : CheckOnly m x) :
    CheckOnly m (releasing target x) := by
  refine .bind (.attempt hx) fun r => ?_
  split
  · exact .pure _
  · exact .bind (checkOnly_releaseTarget hm target) fun _ => .throw _

theorem checkOnly_checkTarget (read : VerifyRead) : CheckOnly m (checkTarget sha256 m target read) := by
  have hmark : CheckOnly m (markPackChecked target.packId) := by
    cases target.packId <;> simp [markPackChecked]
  have hread : ∀ size, CheckOnly m (readTarget sha256 m target size read) := fun size => by
    refine .bind (checkOnly_releasing hm target (within_ask ⟨trivial, rfl⟩)) fun _ => ?_
    refine .bind (checkOnly_releasing hm target (within_call ⟨trivial, rfl⟩)) fun reader => ?_
    split
    · split
      · exact .bind (checkOnly_releaseTarget hm target) fun _ => .throw _
      · exact .bind (within_sql ⟨hm, rfl⟩) fun _ => .pure _
    · refine .bind (within_sql ⟨⟨rfl, hm⟩, rfl⟩) fun _ => .bind (within_sql ⟨hm, rfl⟩) fun _ => ?_
      exact .bind hmark fun _ => .bind (within_sql ⟨hm, rfl⟩) fun _ => .pure _
  refine .bind (checkOnly_releasing hm target (within_call ⟨trivial, rfl⟩)) fun (found, size) => ?_
  dsimp only
  split_ifs
  · exact .bind (within_sql ⟨hm, rfl⟩) fun _ => .pure _
  · exact .bind (checkOnly_releaseTarget hm target) fun _ => .throw _
  · exact hread size
  · exact .bind (within_sql ⟨hm, rfl⟩) fun _ => .pure _

theorem checkOnly_settleTarget (state : TargetState) : CheckOnly m (settleTarget m target state) := by
  cases htarget : target.packId <;> simp [settleTarget, damagePack, htarget, hm]

theorem checkOnly_verifyTargets (fuel : ℕ) (read : VerifyRead) :
    CheckOnly m (verifyTargets sha256 m fuel read) := by
  induction fuel generalizing read with
  | zero => exact .bind (within_call ⟨trivial, rfl⟩) nofun
  | succ fuel ih =>
    refine .bind (within_sql ⟨⟨rfl, hm⟩, rfl⟩) fun r => ?_
    split
    · exact .pure _
    · refine .bind (within_ask ⟨trivial, rfl⟩) fun past => ?_
      split
      · exact .bind (checkOnly_releaseTarget hm _) fun _ => .throw _
      · refine .bind (within_sql ⟨⟨rfl, hm⟩, rfl⟩) fun cancelling => ?_
        split
        · exact .bind (checkOnly_releaseTarget hm _) fun _ => .pure _
        · refine .bind (checkOnly_checkTarget sha256 hm _ read) fun r => ?_
          exact .bind (checkOnly_settleTarget hm _ _) fun _ => ih _

theorem upkeepOnly_verifyRepositoryMetadata (fuel : ℕ) :
    UpkeepOnly m (verifyRepositoryMetadata sha256 fuel m) := by
  unfold verifyRepositoryMetadata
  split
  · exact .throw _
  · refine .bind (within_sql ⟨rfl, hm⟩) fun _ => ?_
    refine .bind ((checkOnly_verifyTargets sha256 hm _ _).mono fun _ h => h.1) fun r => ?_
    split
    · exact within_sql ⟨rfl, hm⟩
    · exact .pure _

end Verify

theorem upkeepOnly_executeMaintenance (fuel : ℕ) (m : Maintenance) :
    UpkeepOnly m (executeMaintenance sha256 fuel m) := by
  refine .bind (within_sql trivial) fun job => .bind (within_ask trivial) fun _ => ?_
  refine .bind (.attempt (within_ask trivial)) fun r => ?_
  split
  · cases hk : m.kind with
    | retention => exact upkeepOnly_applyRetention job
    | compaction => exact upkeepOnly_compactOnePack sha256 job
    | deleteRepository => exact upkeepOnly_deleteRepository hk job
    | verify => exact upkeepOnly_verifyRepositoryMetadata sha256 hk fuel
  · exact .throw _

theorem within_runMaintenance (fuel : ℕ) (m : Maintenance) :
    Within (Op.ofMaintenance m) (runMaintenance sha256 fuel m) := by
  have hexecute := (upkeepOnly_executeMaintenance sha256 fuel m).mono fun op h =>
    (.inl h : op.ofMaintenance m)
  refine .bind (.attempt hexecute) fun r => ?_
  split
  · exact within_sql (.inr (.inl rfl))
  · exact within_sql (.inr (.inr ⟨_, rfl⟩))
  · exact within_sql (.inr (.inr ⟨_, rfl⟩))

end Maintenance

end Clumoove
