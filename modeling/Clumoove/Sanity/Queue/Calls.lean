import Clumoove.Spec.Queue.Lifecycle

/-! Which calls the processes of a migration make. -/

namespace Clumoove.Queue

open Prog

variable {errors : List IndexingError} {s : MigrationStmt} {f : Failure}

/-! The calls of the longer programs. -/

def workerCalls : MigrationStmt → Bool
  | .dequeue _ | .getMigration | .getTask _ | .transitionClaimedTask _ _ _
  | .updateClaimedTaskStatus _ | .updateMigrationTaskAndProgress _ _
  | .updateClaimedTaskResolvedTargetPath _ _ _ | .updateClaimedTaskMetadata _ _ _
  | .heartbeatTaskClaim _ _ | .addLiveBytes _ | .resetLiveBytes | .reconcileMigrationProgress none
  | .pauseMigrationForConnectionLoss | .failMigrationForAuthentication _ _
  | .recordConnLoss _ | .recordConnLossTask _ _ | .clearConnLoss _ | .clearConnLossTask _ _
  | .now | .choice | .failure | .openProviders | .resolveTarget | .stream => true
  | _ => false

def verifierCalls (generation : ℕ) : MigrationStmt → Bool
  | .renewMigrationVerificationLease g | .releaseMigrationVerificationLease g
  | .markMigrationTaskChecksumVerified _ _ g | .markMigrationTaskChecksumMismatch _ g
  | .reconcileMigrationProgress (some g) => g = generation
  | .getMigration | .getUnverifiedCompletedTasks | .choice | .renewals | .compareNext _ => true
  | _ => false

def traversalCalls (generation : ℕ) : MigrationStmt → Bool
  | .failMigrationWhileIndexingClaim g _ | .renewMigrationIndexingLease g _
  | .createMigrationTaskWhileIndexingClaim _ g | .bulkCreateMigrationTasksWhileIndexingClaim g _
  | .noteTraversed g _ _ => g = generation
  | .renewals | .visit _ => true
  | _ => false

def indexerCalls (generation : ℕ) : MigrationStmt → Bool
  | .failMigrationWhileIndexingClaim g _ | .renewMigrationIndexingLease g _
  | .transitionMigrationIndexingToRunningClaim g | .transitionMigrationIndexingToCompletedClaim g
  | .createMigrationTaskWhileIndexingClaim _ g | .bulkCreateMigrationTasksWhileIndexingClaim g _
  | .updateMigrationTotalsWhileIndexingClaim g _ _ | .noteTraversed g _ _ => g = generation
  | .migrationTaskTotals | .migrationIndexedTaskKeys | .recordIndexingErrors _
  | .reconcileMigrationProgress none | .renewals | .visit _ | .connectSource => true
  | _ => false

theorem indexerCalls_of_traversal
    (h : traversalCalls generation s = true) : indexerCalls generation s = true := by
  cases s <;> first | exact h | cases h

def schedulerCalls : MigrationStmt → Bool
  | .schedule .getDueSchedules | .schedule (.tryClaimScheduleLock _)
  | .schedule (.updateNextRunAtIfUnchanged _ _ _) | .schedule (.deactivateSchedule _)
  | .getMigration | .claimScheduledMigrationForIndexing | .nextRun _ => true
  | _ => false

def reads : MigrationStmt → Bool
  | .verifyMigrationOwnership _ | .getMigration | .isOrphanedImmediate | .choice => true
  | _ => false

def MigrationRole.calls : MigrationRole → MigrationStmt → Prop
  | worker _, s => workerCalls s
  | indexer, s => s = .getMigration ∨ ∃ g, indexerCalls g s
  | verifier, s => s = .claimMigrationVerification ∨ ∃ g, verifierCalls g s
  | pause _, s => reads s ∨ s = .updateMigrationStatus .paused none
  | resume _, s => reads s ∨ s = .resumeMigration
  | cancel _, s => reads s ∨ s = .updateMigrationStatus .cancelled none ∨ s = .cancelPendingTasks
  | retryFailed _, s => reads s ∨ s = .resetFailedTasksForRetry
  | reindex _, s => reads s ∨ s = .resetMigrationForReindex
  | reauth _, s => reads s ∨ s = .resetFailedTasksForRetry
  | setThreads _ n, s => reads s ∨ s = .updateMigrationThreads n
  | delete _, s => reads s ∨ s = .updateMigrationStatus .cancelled none ∨ s = .cancelPendingTasks ∨
      s = .deleteMigrationCascade ∨ s = .schedule .deleteSchedulesForTask
  | cancelTransfer _, s => reads s ∨ s = .updateMigrationStatus .cancelled none ∨
      s = .cancelPendingTasks
  | rotateToken _, s => reads s ∨ ∃ e, s = .updateMigrationStatus .failed e
  | deleteSchedule id user, s => s = .schedule (.verifyScheduleOwnership id user) ∨
      s = .schedule (.deleteSchedule id)
  | suspendUser user, s => s = .suspendUser user
  | reactivateUser user, s => s = .reactivateSchedulesOf user
  | scheduler, s => schedulerCalls s
  | recoverIndexing, s => reads s ∨ (∃ e, s = .recoverScheduledMigrations e) ∨
      s = .schedule .reactivateSchedules ∨ ∃ e, s = .failStaleIndexingMigration e
  | recoverConnection, s => reads s ∨ s = .recoverConnectionLostMigration
  | recoverWorker workerID, s => s = .recoverAbandonedTasks workerID
  | retryScheduler, s => s = .requeueFailedTasks
  | reconciler, s => reads s ∨ s = .maybeRetryFailedMigrationTasks ∨
      s = .reconcileMigrationProgress none
  | repairNotifications, s => s = .missesNotificationEvent ∨ s = .createMigrationNotificationEvent
  | recoverTasks, s => s = .requeueOrphanedRunningTasks
  | retention, s => s = .deleteOldMigrations
  | clock, s => s = .tick

section Within

variable {A : MigrationStmt → Prop}

theorem within_call (h : A s) : Within A (call s) := Within.perform h

theorem within_tryCall (h : A s) : Within A (tryCall s) :=
  .bind (.attempt (within_call h)) fun _ => .pure _

end Within

attribute [local simp] within_iff call tryCall

/-! The worker. -/

section Worker

variable {α : Type} {workerID : String} {mig : Migration} {task : Task}

abbrev ByWorker (x : MigrationWork α) : Prop := Within (Marked workerCalls) x

attribute [local simp] workerCalls reconcileFileManagerTransferIfDone clearConnLoss completeTask
  skipTask retryAfter

theorem byWorker_beats (bs : List Beat) : ByWorker (beats task bs) := by
  induction bs with
  | nil => exact .pure _
  | cons b bs ih =>
    have hbeat : ByWorker (beat task b) := by
      cases b with
      | bytes | heartbeat => simp [beat]
    refine .bind hbeat fun goesOn => ?_
    cases goesOn with
    | false => exact .pure _
    | true => exact ih

theorem byWorker_finishTransfer : ByWorker (finishTransfer workerID mig task u) := by
  cases hmetadata : u.metadata <;> cases hkept : u.sourceKept <;>
    simp [finishTransfer, storeMetadata, hmetadata, hkept]

theorem byWorker_transfer : ByWorker (transfer workerID mig task) := by
  refine .bind (within_call rfl) fun s => .bind (byWorker_beats s.beats) fun goesOn => ?_
  cases goesOn with
  | false => exact .pure _
  | true =>
    cases s.result with
    | failed f => exact .pure _
    | skip reason => simp
    | done u => exact byWorker_finishTransfer

theorem byWorker_processClaimed : ByWorker (processClaimed workerID mig task) := by
  refine .bind (within_call rfl) fun f => ?_
  cases f with
  | some f => exact .pure _
  | none =>
    refine .bind (within_call rfl) fun _ => .bind (within_call rfl) fun res => ?_
    cases res with
    | target path =>
      cases path with
      | none => exact byWorker_transfer
      | some path => exact .bind (within_call rfl) fun _ => byWorker_transfer
    | _ => simp

theorem byWorker_processTask : ByWorker (processTask workerID payload) := by
  refine .bind (within_call rfl) fun mig => ?_
  cases mig.status with
  | running | indexing => exact .bind (within_call rfl) fun _ => byWorker_processClaimed
  | _ => simp [giveBack]

theorem byWorker_handleTaskFailure : ByWorker (handleTaskFailure workerID payload f) := by
  simp [handleTaskFailure, handleConnectionLoss, handleAuthFailure, refreshRejectedToken,
    handleTransferFailure]

theorem byWorker_runWorker : ByWorker (runWorker workerID) := by
  have hdequeue : ByWorker (dequeueSQL migrationParent (fun d => call (.dequeue d)) workerID) := by
    simp [dequeueSQL, claimCandidate, claimUnderLimit, Option.forall]
  refine .bind hdequeue fun found => ?_
  cases found with
  | none => exact .pure _
  | some payload =>
    refine .bind (.attempt byWorker_processTask) fun r => ?_
    cases r with
    | error e => exact .bind (within_call rfl) fun _ => byWorker_handleTaskFailure
    | ok f =>
      cases f with
      | none => exact .pure _
      | some f => exact byWorker_handleTaskFailure

end Worker

/-! The verifier. -/

section Verifier

variable {α : Type} {generation : ℕ}

abbrev ByVerifier (generation : ℕ) (x : MigrationWork α) : Prop :=
  Within (Marked (verifierCalls generation)) x

attribute [local simp] verifierCalls

theorem byVerifier_renewLease (canWrite : Bool) (n : ℕ) :
    ByVerifier generation (renewLease generation canWrite n) := by
  induction n generalizing canWrite with
  | zero => exact .pure _
  | succ n ih =>
    refine .bind (.attempt (within_call (decide_eq_true rfl))) fun r => ?_
    cases r with
    | error e => exact ih false
    | ok owned =>
      cases owned with
      | true => exact ih true
      | false => exact .pure _

theorem byVerifier_verifyTasks (fuel : ℕ) (canWrite : Bool) (tasks : List Task) :
    ByVerifier generation (verifyTasks generation fuel canWrite tasks) := by
  induction fuel generalizing canWrite tasks with
  | zero => exact .pure _
  | succ fuel ih =>
    refine .bind (within_call rfl) fun n =>
      .bind (byVerifier_renewLease canWrite n) fun renewed => ?_
    cases renewed with
    | none => exact .pure _
    | some canWrite =>
      refine .bind (within_call rfl) fun result => ?_
      cases result with
      | finished | aborted => exact .pure _
      | compared k c =>
        dsimp only
        cases tasks[k]? with
        | none => exact .pure _
        | some task =>
          have hmark : ByVerifier generation (markResult generation canWrite task c) := by
            cases c <;> simp [markResult]
          exact .bind hmark fun _ => ih _ _

theorem byVerifier_verifyClaimed : ByVerifier generation (verifyClaimed generation) := by
  have hpass : ByVerifier generation (verificationPass generation) := by
    refine .bind (within_call (decide_eq_true rfl)) fun owned => ?_
    cases owned with
    | false => exact .pure _
    | true =>
      refine .bind (within_call rfl) fun tasks => ?_
      split_ifs
      · simp
      · refine .bind (within_call rfl) fun reached => ?_
        cases reached with
        | false => exact .pure _
        | true =>
          refine .bind (byVerifier_verifyTasks _ _ _) fun ended => ?_
          cases ended <;> simp
  refine .bind (.attempt (within_call rfl)) fun found => ?_
  cases found with
  | error e => simp
  | ok mig =>
    refine .bind (within_call rfl) fun fresh => ?_
    cases fresh with
    | false => exact .pure _
    | true => exact .bind (.attempt hpass) fun _ => within_tryCall (decide_eq_true rfl)

end Verifier

/-! The indexer. -/

section Indexer

variable {α : Type} {generation : ℕ} {s : Selection} {done : Indexed}

abbrev ByIndexer (generation : ℕ) (x : MigrationWork α) : Prop :=
  Within (Marked (indexerCalls generation)) x

abbrev ByTraversal (generation : ℕ) (x : MigrationWork α) : Prop :=
  Within (Marked (traversalCalls generation)) x

theorem ByTraversal.byIndexer (h : ByTraversal generation x) : ByIndexer generation x :=
  h.mono fun _ => indexerCalls_of_traversal

attribute [local simp] traversalCalls failMigration traversed indexFile indexFolder

theorem byTraversal_indexingStopped (err : DbError) :
    ByTraversal generation (indexingStopped generation e err) := by
  cases err <;> simp [indexingStopped]

theorem byTraversal_createBatches (fuel : ℕ) (ts : List Task) :
    ByTraversal generation (createBatches generation fuel ts) := by
  induction fuel generalizing ts with
  | zero => exact .pure _
  | succ fuel ih =>
    unfold createBatches
    split_ifs
    · exact .pure _
    · exact .bind (within_call (decide_eq_true rfl)) fun _ => ih _

theorem byTraversal_indexFile : ByTraversal generation (indexFile generation s done t) := by
  unfold indexFile
  split_ifs
  · simp
  · refine .bind (.attempt (within_call (decide_eq_true rfl))) fun r => ?_
    cases r with
    | ok u => simp
    | error e => exact .bind (byTraversal_indexingStopped e) fun _ => .pure _

theorem byTraversal_indexFolder :
    ByTraversal generation (indexFolder generation s done found errors) := by
  refine .bind (.attempt (byTraversal_createBatches _ _)) fun r => ?_
  cases r with
  | ok u => simp
  | error e => exact .bind (byTraversal_indexingStopped e) fun _ => .pure _

theorem byTraversal_indexRoot :
    ByTraversal generation (indexRoot generation s done root found errors) := by
  cases root with
  | none => exact byTraversal_indexFolder
  | some t =>
    unfold indexRoot
    dsimp only
    split_ifs
    · exact byTraversal_indexFolder
    · refine .bind (.attempt (within_call (decide_eq_true rfl))) fun r => ?_
      cases r with
      | ok u => exact byTraversal_indexFolder
      | error e => exact .bind (byTraversal_indexingStopped e) fun _ => .pure _

theorem byTraversal_indexSelections (ss : List Selection) (done : Indexed) :
    ByTraversal generation (indexSelections generation ss done) := by
  have hrenew (n : ℕ) : ByTraversal generation (renewIndexingLease generation n) := by
    induction n with
    | zero => exact .pure _
    | succ n ih => exact .bind (within_tryCall (decide_eq_true rfl)) fun _ => ih
  induction ss generalizing done with
  | nil => exact .pure _
  | cons s ss ih =>
    have hone : ByTraversal generation (indexSelection generation s done) := by
      refine .bind (within_call rfl) fun n => .bind (hrenew n) fun _ =>
        .bind (within_call rfl) fun v => ?_
      cases v with
      | failed e => simp
      | ignored => simp
      | file t => exact byTraversal_indexFile
      | folder root found errors => exact byTraversal_indexRoot
    refine .bind hone fun r => ?_
    cases r with
    | none => exact .pure _
    | some done => exact ih done

theorem byIndexer_indexMigration (mig : Migration) :
    ByIndexer mig.discoveryGeneration (indexMigration mig) := by
  have hfinish (errors : List IndexingError) :
      ByIndexer mig.discoveryGeneration (finishIndexing mig.discoveryGeneration errors) := by
    have hstop (e : String) (err : DbError) :
        Abides (kind (Marked (indexerCalls mig.discoveryGeneration)))
          (indexingStopped mig.discoveryGeneration e err) (fun _ _ => True) () :=
      within_iff.1 (byTraversal_indexingStopped err).byIndexer
    cases errors <;> simp [finishIndexing, recordErrors, hstop, indexerCalls]
  refine .bind (within_call rfl) fun failed => ?_
  cases failed with
  | some e => simp [indexerCalls]
  | none =>
    refine .bind (.attempt (within_call rfl)) fun r => ?_
    cases r with
    | error e => simp [indexerCalls]
    | ok keys =>
      refine .bind (byTraversal_indexSelections _ _).byIndexer fun r => ?_
      cases r with
      | none => exact .pure _
      | some done => exact hfinish _

end Indexer

/-! The scheduler. -/

section Scheduler

variable {α : Type}

abbrev ByScheduler (x : MigrationWork α) : Prop := Within (Marked schedulerCalls) x

attribute [local simp] schedulerCalls migrationJobs completeSchedule JobKind.trySql triggerMigration

theorem byScheduler_completeSchedule (s : Schedule) :
    ByScheduler (completeSchedule migrationJobs s) := by
  cases hcron : s.cronExpression <;> simp [hcron]

theorem byScheduler_processSchedule (s : Schedule) :
    ByScheduler (processSchedule migrationJobs s) := by
  have hactive : ByScheduler isMigrationActive := by
    refine .bind (.attempt (within_call rfl)) fun found => ?_
    split <;> simp
  have htrigger : ByScheduler triggerMigration := by simp
  refine .bind (.attempt hactive) fun active => ?_
  split
  · exact .pure _
  · exact byScheduler_completeSchedule s
  · refine .bind (.attempt htrigger) fun triggered => ?_
    split
    · exact .pure _
    · exact byScheduler_completeSchedule s
    · split_ifs <;> simp

theorem byScheduler_processDueSchedules : ByScheduler (processDueSchedules migrationJobs) := by
  refine .bind (within_call rfl) fun due => ?_
  induction due with
  | nil => exact .pure _
  | cons s ss ih =>
    refine .bind (.attempt (within_call rfl)) fun claimed => ?_
    split
    · exact .bind (byScheduler_processSchedule s) fun _ => ih
    · exact ih

end Scheduler

/-! Everybody. -/

attribute [local simp] MigrationRole.calls MigrationRole.program reads handlePause handleResume
  handleCancel handleRetryFailed handleReindex handleMigrationReauth handleSetThreads
  handleDeleteMigration handleFileTransferCancel rotateOAuthToken handleDeleteSchedule
  recoverOrphanedMigrationIndexing recoverScheduledMigrations recoverPausedMigrations
  reconcileActiveMigrations repairMissingNotificationEvents

theorem MigrationRole.within_program (role : MigrationRole) : Within role.calls role.program := by
  cases role with
  | worker workerID => exact byWorker_runWorker
  | indexer =>
    refine .bind (.attempt (within_call (.inl rfl))) fun found => ?_
    cases found with
    | error e => exact within_tryCall (.inr ⟨0, rfl⟩)
    | ok mig =>
      have hlease : indexerCalls mig.discoveryGeneration
          (.renewMigrationIndexingLease mig.discoveryGeneration indexingLeaseDuration) = true :=
        decide_eq_true rfl
      dsimp only
      split_ifs
      · exact .pure _
      · refine .bind (within_call (.inr ⟨_, hlease⟩)) fun owned => ?_
        cases owned with
        | false => exact .pure _
        | true => exact (byIndexer_indexMigration mig).mono fun s hs => .inr ⟨_, hs⟩
  | verifier =>
    refine .bind (within_call (.inl rfl)) fun claimed => ?_
    cases claimed with
    | none => exact .pure _
    | some g => exact byVerifier_verifyClaimed.mono fun s hs => .inr ⟨g, hs⟩
  | scheduler => exact byScheduler_processDueSchedules
  | _ => simp

theorem migrationCrew_uses {ι : Type} [DecidableEq ι] (role : ι → MigrationRole) (i : ι) :
    ((migrationCrew role).program i).Uses (role i).calls := by
  apply Uses.bind (role i).within_program
  intro r
  trivial

end Clumoove.Queue
