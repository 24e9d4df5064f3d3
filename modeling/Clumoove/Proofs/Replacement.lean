import Clumoove.Sanity.Transfer.Calls

/-! Replacing a file never loses both versions. The worker stages the new content, keeps the old one
as a backup until the new one is in its place, and every call may fail before or after its effect;
still, at any moment the old or the new content is complete under the target or the backup path. -/

namespace Clumoove.Transfer

open GoPath Prog Sync

variable {E : Fault → World Unit → Prop} {K : Text → Prop} {P : World Unit → Prop} {l : Location}
  {α : Type} {c : Call} {persisted : Bool} {resolved : Text} {x : Work α} {r : Except Fault c.Val}

structure Places where
  source : Location
  target : Location
  upload : Location
  backup : Location

/-- The three places on the target are different ones, and the source is not the backup. -/
structure Places.Apart (pl : Places) : Prop where
  upload_target : pl.upload ≠ pl.target
  upload_backup : pl.upload ≠ pl.backup
  backup_target : pl.backup ≠ pl.target
  backup_source : pl.backup ≠ pl.source

section Safe

variable {pl : Places} {old : GoMap Location Content} {w : World ι} {c : Content}

def Places.Sound (pl : Places) (old : GoMap Location Content) (c : Content) : Prop :=
  old.get pl.target = some c ∨ old.get pl.source = some c

def Places.Holds (pl : Places) (old : GoMap Location Content) (w : World ι) (l : Location) : Prop :=
  ∃ c, w.objects.get l = some c ∧ pl.Sound old c

/-- What holds from the moment the transfer has its target: if there was an old version then one of
the two is in its place, or the place is empty and one of them is the backup. -/
structure Places.Safe (pl : Places) (old : GoMap Location Content) (w : World ι) : Prop where
  kept : old.get pl.target = none ∨ pl.Holds old w pl.target ∨
    (w.objects.get pl.target = none ∧ pl.Holds old w pl.backup)
  source : ∀ c, w.objects.get pl.source = some c → old.get pl.source = some c

theorem Places.Safe.initial (h : ∀ l, w.objects.get l = old.get l) : pl.Safe old w := by
  refine ⟨?_, fun c hc => h _ ▸ hc⟩
  cases ht : old.get pl.target with
  | none => exact .inl rfl
  | some c => exact .inr (.inl ⟨c, (h _).trans ht, .inl ht⟩)

theorem Places.Safe.congr (h : pl.Safe old w) (hv : v.objects = w.objects) : pl.Safe old v := by
  obtain ⟨hk, hs⟩ := h
  refine ⟨?_, hv ▸ hs⟩
  unfold Places.Holds at *
  rwa [hv]

theorem Places.Safe.put (hpl : pl.Apart) (h : pl.Safe old w)
    (hl : l = pl.upload ∨ l = pl.target) (hnew : old.get pl.source = some c) :
    pl.Safe old (w.put l c) := by
  refine ⟨?_, fun d hd => ?_⟩
  · rcases hl with rfl | rfl
    · refine h.kept.imp_right (Or.imp ?_ ?_)
      · rintro ⟨d, hd, hs⟩
        exact ⟨d, by simp [hd, hpl.upload_target.symm], hs⟩
      · rintro ⟨hn, d, hd, hs⟩
        exact ⟨by simp [hn, hpl.upload_target.symm], d, by simp [hd, hpl.upload_backup.symm], hs⟩
    · exact .inr (.inl ⟨c, by simp, .inr hnew⟩)
  · rw [World.get_put] at hd
    split_ifs at hd
    · cases hd
      exact hnew
    · exact h.source d hd

theorem Places.Safe.remove (hpl : pl.Apart) (h : pl.Safe old w)
    (hl : l = pl.upload ∨ (l = pl.source ∧ pl.source ≠ pl.target) ∨
      (l = pl.backup ∧ (old.get pl.target = none ∨ pl.Holds old w pl.target))) :
    pl.Safe old (w.remove l) := by
  have hne : pl.target ≠ l := by
    rcases hl with rfl | ⟨rfl, hne⟩ | ⟨rfl, -⟩
    · exact hpl.upload_target.symm
    · exact hne.symm
    · exact hpl.backup_target.symm
  refine ⟨?_, fun d hd => ?_⟩
  · have htarget : pl.Holds old w pl.target → pl.Holds old (w.remove l) pl.target := by
      rintro ⟨d, hd, hs⟩
      exact ⟨d, by rw [World.get_remove, if_neg hne, hd], hs⟩
    by_cases hb : l = pl.backup
    · rcases hl with rfl | ⟨rfl, -⟩ | ⟨-, hgood⟩
      · exact absurd hb hpl.upload_backup
      · exact absurd hb hpl.backup_source.symm
      · exact hgood.imp_right fun ht => .inl (htarget ht)
    · refine h.kept.imp_right (Or.imp htarget ?_)
      rintro ⟨hn, d, hd, hs⟩
      refine ⟨by rw [World.get_remove, if_neg hne, hn], d, ?_, hs⟩
      rw [World.get_remove, if_neg fun h => hb h.symm, hd]
  · rw [World.get_remove] at hd
    split_ifs at hd
    exact h.source d hd

theorem Places.Safe.preserve (hpl : pl.Apart) (h : pl.Safe old w)
    (hc : w.objects.get pl.target = some c) : pl.Safe old ((w.remove pl.target).put pl.backup c) ∧
      (old.get pl.target = none ∨
        pl.Holds old ((w.remove pl.target).put pl.backup c) pl.backup) := by
  have hsound : old.get pl.target = none ∨ pl.Sound old c := by
    refine h.kept.imp_right ?_
    rintro (⟨d, hd, hs⟩ | ⟨hn, -⟩)
    · rw [hc] at hd
      cases hd
      exact hs
    · rw [hc] at hn
      cases hn
  have hbackup : old.get pl.target = none ∨
      pl.Holds old ((w.remove pl.target).put pl.backup c) pl.backup :=
    hsound.imp_right fun hs => ⟨c, by simp, hs⟩
  refine ⟨⟨?_, fun d hd => ?_⟩, hbackup⟩
  · refine hbackup.imp_right fun hb => .inr ⟨?_, hb⟩
    simp [hpl.backup_target.symm]
  · rw [World.get_put, if_neg hpl.backup_source.symm, World.get_remove] at hd
    split_ifs at hd
    exact h.source d hd

theorem Places.Safe.promote (h : pl.Safe old w) (hsound : old.get pl.target = none ∨ pl.Sound old c)
    (hsource : pl.source = pl.target → old.get pl.source = some c) :
    pl.Safe old ((w.remove l).put pl.target c) := by
  refine ⟨?_, fun d hd => ?_⟩
  · exact hsound.imp_right fun hs => .inl ⟨c, by simp, hs⟩
  · rw [World.get_put, World.get_remove] at hd
    split_ifs at hd with hst hsl
    · cases hd
      exact hsource hst
    · exact h.source d hd

end Safe

/-! A worker that has the target to itself. -/

def alone (a : Accounts) (inv : World Unit → Prop) :
    Logic Call (fun c => Except Fault c.Val) (World Unit) where
  inv := inv
  rely := Eq
  guar w w' := True ∧ ∀ j : Unit, j ≠ () → w = w'
  exec op w r w' := ∃ o, True ∧ exec a () op o w = some (r, w')
  rely_refl _ := rfl
  rely_trans := Eq.trans

section Alone

variable {a : Accounts} {inv : World Unit → Prop} {P : World Unit → Prop}

theorem alone_stable : (alone a inv).Stable P := by
  intro w w' hP hr _
  cases hr
  exact hP

theorem triple_call (h : ∀ w o r v, inv w → P w → exec a () c o w = some (r, v) → inv v ∧
      match r with | .ok x => Q x v | .error e => E e v) : Triple (alone a inv) P (call c) Q E := by
  refine Triple.perform alone_stable fun w r v hi hP hx => ?_
  obtain ⟨o, -, hx⟩ := hx
  obtain ⟨hv, hres⟩ := h w o r v hi hP hx
  refine ⟨⟨trivial, fun j hj => absurd rfl hj⟩, hv, ?_⟩
  cases r with
  | ok x => exact hres
  | error e => exact hres

end Alone

section Core

variable {a : Accounts} {old : GoMap Location Content} {K : Text → Prop} {route : Route}
  {content : Content}

def Route.places (a : Accounts) (route : Route) : Places where
  source := a.locate route.source route.sourcePath
  target := a.locate route.target route.targetPath
  upload := a.locate route.target (stagingPath route.targetPath)
  backup := a.locate route.target route.backupPath

/-- A transfer of a file that has the declared size. -/
structure Route.Proper (a : Accounts) (old : GoMap Location Content) (route : Route) : Prop where
  uploadPath : route.uploadPath = stagingPath route.targetPath ∨ route.uploadPath = route.targetPath
  apart : (route.places a).Apart
  size : ∀ c, old.get (route.places a).source = some c → c.length = route.fileSize

/-- What an attempt keeps once it has its target: what is known of the stored path, and that a
version is safe. -/
def Route.Keeps (a : Accounts) (old : GoMap Location Content) (K : Text → Prop) (route : Route)
    (w : World Unit) : Prop :=
  K (w.rows ()).resolved ∧ (route.places a).Safe old w

def Route.BackedUp (a : Accounts) (old : GoMap Location Content) (route : Route) (w : World Unit) :
    Prop :=
  old.get (route.places a).target = none ∨ (route.places a).Holds old w (route.places a).backup

abbrev Route.logic (a : Accounts) (old : GoMap Location Content) (K : Text → Prop)
    (route : Route) : Logic Call (fun c => Except Fault c.Val) (World Unit) :=
  alone a (route.Keeps a old K)

theorem keeps_exec (hc : ∀ p, c ≠ .updateResolvedTargetPath p) (h : route.Keeps a old K w)
    (hx : exec a () c o w = some (r, v)) (hv : (route.places a).Safe old v) :
    route.Keeps a old K v := by
  refine ⟨?_, hv⟩
  rcases exec_resolved hx () with hsame | ⟨-, rfl⟩
  · rw [hsame]
    exact h.1
  · exact absurd rfl (hc _)

theorem keeps_harmless (hc : c.isHarmless = true) (h : route.Keeps a old K w)
    (hx : exec a () c o w = some (r, v)) : route.Keeps a old K v := by
  obtain ⟨hobj, hres⟩ := harmless_frame hc hx
  unfold Route.Keeps
  rw [hres]
  exact ⟨h.1, h.2.congr hobj⟩

theorem triple_harmless (hx : Within (fun c => c.isHarmless = true) x) :
    Runs (route.logic a old K) (fun _ => True) x := by
  refine Within.triple hx (fun _ _ _ => trivial) fun c w r v hc hi _ hx => ?_
  obtain ⟨o, -, hx⟩ := hx
  exact ⟨⟨trivial, fun j hj => absurd rfl hj⟩, keeps_harmless hc hi hx, trivial⟩

theorem triple_effect (hc : ∀ p, c ≠ .updateResolvedTargetPath p)
    (h : ∀ w, route.Keeps a old K w → P w → ∃ answer v,
      (∀ o, exec a () c o w = o.effect w answer v) ∧ (route.places a).Safe old v ∧ Q answer v ∧
        ∀ e, E e w ∧ E e v) : Triple (route.logic a old K) P (call c) Q E := by
  refine triple_call fun w o r v hi hP hx => ?_
  obtain ⟨answer, v', heffect, hsafe, hQ, hE⟩ := h w hi hP
  rcases effect_cases ((heffect o).symm.trans hx) with ⟨rfl, rfl⟩ | ⟨fault, rfl, rfl | rfl⟩
  · exact ⟨keeps_exec hc hi hx hsafe, hQ⟩
  · exact ⟨hi, (hE fault).1⟩
  · exact ⟨keeps_exec hc hi hx hsafe, (hE fault).2⟩

theorem triple_fileExists : Ensures (route.logic a old K) P (call (.fileExists side path))
      (fun found w => P w ∧ found = (w.objects.get (a.locate side path)).map List.length) :=
  triple_effect (by simp) fun w hi hP => ⟨_, w, fun _ => rfl, hi.2, ⟨hP, rfl⟩, by simp⟩

theorem triple_clearBackup (content : Content) (h : route.Proper a old) :
    Ensures (route.logic a old K) (fun w => (w.objects.get (route.places a).target).isSome ∧
        w.objects.get (route.places a).upload = some content)
      (clearBackup route.target route.backupPath)
      (fun _ w => (w.objects.get (route.places a).target).isSome ∧
        w.objects.get (route.places a).upload = some content) := by
  refine Triple.bind triple_fileExists fun found => triple_only (fun _ => ?_) fun _ _ _ hP => hP.1
  refine triple_effect (by simp) fun w hi hP =>
    ⟨(), w.remove (route.places a).backup, fun _ => rfl,
      hi.2.remove h.apart (.inr (.inr ⟨rfl, ?_⟩)), ?_, by simp⟩
  · refine hi.2.kept.imp_right fun hkept => hkept.resolve_right fun hempty => ?_
    rw [hempty.1] at hP
    cases hP.1.1
  · simpa [h.apart.backup_target.symm, h.apart.upload_backup] using hP.1

theorem triple_preserveTarget (content : Content) (h : route.Proper a old) :
    Ensures (route.logic a old K) (fun w => w.objects.get (route.places a).upload = some content)
      (preserveTarget route.target route.targetPath route.backupPath)
      (fun _ w => w.objects.get (route.places a).target = none ∧
        w.objects.get (route.places a).upload = some content) := by
  refine Triple.bind triple_fileExists fun found => ?_
  cases found with
  | none => exact Triple.pure fun w _ hP => ⟨Option.map_eq_none_iff.1 hP.2.symm, hP.1⟩
  | some n =>
    refine Triple.bind ((triple_clearBackup content h).conseq ?_ (fun _ _ hQ => hQ)
      fun _ _ _ => trivial)
      fun _ => ?_
    · intro w _ hP
      refine ⟨?_, hP.1⟩
      rw [← Option.isSome_map (f := List.length)]
      exact hP.2 ▸ rfl
    · refine Triple.bind (triple_effect (E := fun _ _ => True) (by simp) fun w hi hP => ?_)
        fun _ => Triple.pure fun _ _ hQ => hQ
      obtain ⟨c, hc⟩ := Option.isSome_iff_exists.1 hP.1
      refine ⟨(), (w.remove (route.places a).target).put (route.places a).backup c,
        fun _ => exec_rename hc, (hi.2.preserve h.apart hc).1, ?_, by simp⟩
      simp [h.apart.backup_target.symm, h.apart.upload_backup, h.apart.upload_target, hP.2]

theorem triple_cleanup (h : route.Proper a old)
    (hP : ∀ w, P w → P (w.remove (route.places a).upload)) : Triple (route.logic a old K) P
      (cleanupStagingUpload route.target (stagingPath route.targetPath)) (fun _ => P) E := by
  refine Triple.bind (Triple.attempt (R := fun _ => P) (triple_effect (by simp) fun w hi hw => ?_))
    fun _ => Triple.pure fun _ _ hQ => hQ
  exact ⟨(), _, fun _ => rfl, hi.2.remove h.apart (.inl rfl), hP w hw, fun _ => ⟨hw, hP w hw⟩⟩

theorem backedUp_remove_upload (h : route.Proper a old) (w : World Unit)
    (hw : route.BackedUp a old w) : route.BackedUp a old (w.remove (route.places a).upload) := by
  refine hw.imp_right fun ⟨d, hd, hs⟩ => ⟨d, ?_, hs⟩
  rw [World.get_remove, if_neg h.apart.upload_backup.symm, hd]

/-- The backup holds a version, so it may come back whatever became of the promotion. -/
theorem triple_rollBack (hnew : old.get (route.places a).source = some content) :
    Triple (route.logic a old K) (route.BackedUp a old)
      (rollBack route.target route.targetPath route.backupPath) (fun _ _ => True) E := by
  refine Triple.bind (Triple.attempt (R := fun _ _ => True)
    (triple_call fun w o r v hi hP hx => ⟨keeps_exec (by simp) hi hx ?_, by cases r <;> trivial⟩))
    fun _ => Triple.pure fun _ _ hQ => hQ
  cases hb : w.objects.get (route.places a).backup with
  | none =>
    obtain ⟨_, -, rfl⟩ := missing_cases ((exec_rename_missing hb).symm.trans hx)
    exact hi.2
  | some d =>
    have hsound : old.get (route.places a).target = none ∨ (route.places a).Sound old d := by
      refine hP.imp_right fun ⟨d', hd', hs⟩ => ?_
      rw [hb] at hd'
      cases hd'
      exact hs
    have hsource : (route.places a).source = (route.places a).target →
        old.get (route.places a).source = some d := by
      intro heq
      rcases hsound with hnone | hs | hs
      · rw [heq, hnone] at hnew
        cases hnew
      · rw [heq]
        exact hs
      · exact hs
    rcases effect_or ((exec_rename hb).symm.trans hx) with rfl | rfl
    · exact hi.2
    · exact hi.2.promote hsound hsource

theorem triple_deleteBackup (h : route.Proper a old) : Runs (route.logic a old K)
      (fun w => (route.places a).Holds old w (route.places a).target)
      (call (.deleteFile route.target route.backupPath)) := by
  refine triple_effect (by simp) fun w hi hP =>
    ⟨(), _, fun _ => rfl, hi.2.remove h.apart (.inr (.inr ⟨rfl, .inr hP⟩)), by simp⟩

section

variable (h : route.Proper a old) (hnew : old.get (route.places a).source = some content)
include h hnew

theorem triple_promote : Triple (route.logic a old K)
      (fun w => w.objects.get (route.places a).target = none ∧
        w.objects.get (route.places a).upload = some content)
      (call (.renameFile route.target (stagingPath route.targetPath) route.targetPath))
      (fun _ w => (route.places a).Holds old w (route.places a).target)
      (fun _ => route.BackedUp a old) := by
  refine triple_effect (by simp) fun w hi hP => ?_
  obtain ⟨hfree, hstaged⟩ := hP
  have hbacked : route.BackedUp a old w := by
    refine hi.2.kept.imp_right fun hkept => ?_
    rcases hkept with ⟨d, hd, -⟩ | ⟨-, hholds⟩
    · rw [hfree] at hd
      cases hd
    · exact hholds
  refine ⟨(), (w.remove (route.places a).upload).put (route.places a).target content,
    fun _ => exec_rename hstaged, hi.2.promote (.inr (.inr hnew)) fun _ => hnew,
    ⟨content, by simp, .inr hnew⟩, fun _ => ⟨hbacked, ?_⟩⟩
  refine hbacked.imp_right fun ⟨d, hd, hs⟩ => ⟨d, ?_, hs⟩
  simp [h.apart.backup_target, h.apart.upload_backup.symm, hd]

theorem triple_promoteOverwrite : Runs (route.logic a old K)
      (fun w => w.objects.get (route.places a).upload = some content)
      (promoteOverwrite route.target route.targetPath (stagingPath route.targetPath)
        route.backupPath) := by
  refine Triple.bind (triple_preserveTarget content h) fun backedUp => ?_
  refine Triple.bind (Triple.attempt (R := fun r w => match r with
    | .ok _ => (route.places a).Holds old w (route.places a).target
    | .error _ => route.BackedUp a old w) (triple_promote h hnew)) fun r => ?_
  cases r with
  | ok _ => exact triple_only (fun _ => triple_deleteBackup h) fun _ _ _ _ => trivial
  | error e =>
    refine Triple.bind (triple_cleanup h (backedUp_remove_upload h)) fun _ => ?_
    refine Triple.bind (triple_only (Q := fun _ => True) (fun _ => triple_rollBack hnew)
      fun _ _ _ _ => trivial) fun _ => ?_
    exact Triple.throw fun _ _ _ => trivial

theorem triple_upload : Ensures (route.logic a old K) (fun _ => True) (route.upload content)
      (fun _ w => route.staged = true → w.objects.get (route.places a).upload = some content) := by
  have hwhole : content.take route.fileSize = content :=
    List.take_of_length_le (Nat.le_of_eq (h.size content hnew))
  have hl : a.locate route.target route.uploadPath = (route.places a).upload ∨
      a.locate route.target route.uploadPath = (route.places a).target := by
    rcases h.uploadPath with hup | hup
    · exact .inl (congrArg (a.locate route.target) hup)
    · exact .inr (congrArg (a.locate route.target) hup)
  refine Triple.bind (triple_effect (Q := fun _ w => route.staged = true →
    w.objects.get (route.places a).upload = some content) (E := fun _ _ => True) (by simp)
    fun w hi _ => ?_) fun _ =>
      triple_only (fun _ => Triple.throw fun _ _ _ => trivial) fun _ _ _ hQ => hQ
  rw [hwhole]
  refine ⟨(), _, fun _ => rfl, hi.2.put h.apart hl hnew, fun hstaged => ?_, by simp⟩
  have hup := h.uploadPath.resolve_right (of_decide_eq_true hstaged)
  rw [World.get_put, if_pos]
  exact congrArg (a.locate route.target) hup.symm

theorem triple_settle : Runs (route.logic a old K)
      (fun w => route.staged = true → w.objects.get (route.places a).upload = some content)
      route.settle := by
  refine Triple.bind (triple_only (Q := fun _ => True) (fun hstaged => ?_) fun _ _ _ _ => trivial)
    fun _ => triple_only (fun _ => triple_harmless (harmless_of_asks (asks_of_silent silent_verify)))
      fun _ _ _ _ => trivial
  rw [h.uploadPath.resolve_right (of_decide_eq_true hstaged)]
  exact (triple_promoteOverwrite h hnew).pre (fun _ _ hP => hP hstaged)

end

theorem triple_download (P : World Unit → Prop) :
    Ensures (route.logic a old K) P (call (.streamDownload route.source route.sourcePath))
      (fun content _ => old.get (route.places a).source = some content) := by
  refine triple_call fun w o r v hi _ hx => ⟨keeps_harmless rfl hi hx, ?_⟩
  cases r with
  | ok content => exact hi.2.source content (download_ok hx)
  | error e => trivial

theorem triple_of_fact {f : Prop}
    (h : f → Triple L (fun _ => True) x Q E) : Triple L (fun _ => f) x Q E :=
  fun w hi hf => h hf w hi trivial

theorem triple_runTransferCore (h : route.Proper a old) :
    Runs (route.logic a old K) (fun _ => True) (runTransferCore route) := by
  refine Triple.bind (triple_download _) fun content => triple_of_fact fun hnew => ?_
  exact Triple.bind (triple_upload h hnew) fun _ => triple_settle h hnew

theorem triple_uploadOrCleanUp (h : route.Proper a old)
    (hnew : old.get (route.places a).source = some content) :
    Ensures (route.logic a old K) (fun _ => True) (route.uploadOrCleanUp content)
      (fun _ w => route.staged = true → w.objects.get (route.places a).upload = some content) := by
  refine Triple.bind (Triple.attempt (R := fun r w => match r with
    | .ok _ => route.staged = true → w.objects.get (route.places a).upload = some content
    | .error _ => True) (triple_upload h hnew)) fun r => ?_
  cases r with
  | ok _ => exact Triple.pure fun _ _ hQ => hQ
  | error e =>
    refine Triple.bind (triple_only (Q := fun _ => True) (fun hstaged => ?_) fun _ _ _ _ => trivial)
      fun _ => Triple.throw fun _ _ _ => trivial
    rw [h.uploadPath.resolve_right (of_decide_eq_true hstaged)]
    exact triple_cleanup h fun _ _ => trivial

end Core

section Job

variable {lib : GoLib} {a : Accounts} {old : GoMap Location Content}

def Job.places (a : Accounts) (job : Job) (p : Text) : Places where
  source := job.source a
  target := a.locate job.dest p
  upload := a.locate job.dest (stagingPath p)
  backup := a.locate job.dest (overwriteBackupPath p job.task.id.text)

/-- A transfer of a file that has the size the task knows, whose source is not where the backup is
going to be and, if it is going to be removed, not where the target is. -/
structure Job.Replaces (lib : GoLib) (a : Accounts) (old : GoMap Location Content) (job : Job) :
    Prop where
  transfer : match job with
    | .migration _ task => task.resourceType = .files
    | .sync _ task => task.action = .upload ∨ task.action = .download
  size : ∀ c, old.get (job.source a) = some c → c.length = job.task.fileSize
  backup : ∀ p ∈ job.targets lib, (job.places a p).backup ≠ job.source a
  move : job.moves = true → ∀ p ∈ job.targets lib, job.source a ≠ (job.places a p).target

/-- As long as no path is stored every target is safe, and then the one that is stored. -/
def Job.Guarded (lib : GoLib) (a : Accounts) (old : GoMap Location Content) (job : Job)
    (w : World Unit) : Prop :=
  ((w.rows ()).resolved = [] ∨ (w.rows ()).resolved ∈ job.targets lib) ∧
  ∀ p ∈ job.targets lib, (w.rows ()).resolved = [] ∨ (w.rows ()).resolved = p →
    (job.places a p).Safe old w

abbrev HasStored (p : Text) (w : World Unit) : Prop := (w.rows ()).resolved = p

def Job.Settled (lib : GoLib) (job : Job) (p stored : Text) : Prop :=
  (stored = [] ∨ stored ∈ job.targets lib) ∧
  ∀ q ∈ job.targets lib, stored = [] ∨ stored = q → q = p

variable {job : Job} {p : Text}

theorem Job.Replaces.apart (h : job.Replaces lib a old) (hp : p ∈ job.targets lib) :
    (job.places a p).Apart where
  upload_target := locate_staging_ne a job.dest p
  upload_backup := locate_staging_ne_backup a job.dest p job.task.id
  backup_target := locate_backup_ne a job.dest p job.task.id
  backup_source := h.backup p hp

/-- Once the target is settled, a piece of work need only keep that one safe. -/
theorem triple_settled {route : Route} (hroute : route.places a = job.places a p)
    (hp : p ∈ job.targets lib)
    (hx : Runs (route.logic a old (job.Settled lib p)) (fun _ => True) x) :
    Runs (alone a (job.Guarded lib a old)) (fun w => job.Settled lib p (w.rows ()).resolved) x := by
  refine (hx.under (L := alone a (job.Guarded lib a old)) ?_ ?_ ?_ ?_).conseq ?_
    (fun _ _ _ => trivial) fun _ _ _ => trivial
  · rintro w ⟨hsettled, hsafe⟩
    refine ⟨hsettled.1, fun q hq hcur => ?_⟩
    rw [hsettled.2 q hq hcur, ← hroute]
    exact hsafe
  · rintro w _ hi rfl -
    exact ⟨rfl, hi⟩
  · exact fun _ _ hguar => hguar
  · exact fun _ _ _ _ hexec => hexec
  · intro w hi hsettled
    refine ⟨⟨hsettled, ?_⟩, trivial⟩
    rw [hroute]
    refine hi.2 p hp (hi.1.imp_right fun hmem => ?_)
    exact hsettled.2 _ hmem (.inr rfl)

theorem triple_harmless_job (hx : Within (fun c => c.isHarmless = true) x) :
    Triple (alone a (job.Guarded lib a old)) (HasStored q) x
      (fun _ => HasStored q) (fun _ => HasStored q) := by
  refine Within.triple hx (fun hP hr _ => hr ▸ hP) fun c w r v hc hi hP hx => ?_
  obtain ⟨o, -, hx⟩ := hx
  obtain ⟨hobj, hres⟩ := harmless_frame hc hx
  refine ⟨⟨trivial, fun j hj => absurd rfl hj⟩, ⟨?_, fun p hp hcur => ?_⟩, (hres ()).trans hP⟩
  · rw [hres]
    exact hi.1
  · rw [hres] at hcur
    exact (hi.2 p hp hcur).congr hobj

section Migration

variable {mig : Migration} {task : Task}

theorem triple_store (hp : p ∈ job.targets lib) :
    Ensures (alone a (job.Guarded lib a old)) (HasStored [])
      (call (.updateResolvedTargetPath p)) (fun _ => HasStored p) := by
  refine triple_call fun w o r v hi hP hx => ?_
  have hstored : job.Guarded lib a old (w.setRow () { w.rows () with resolved := p }) := by
    refine ⟨?_, fun q hq _ => ?_⟩
    · exact .inr hp
    · exact (hi.2 q hq (.inl hP)).congr (World.objects_setRow _)
  refine ⟨?_, ?_⟩
  · rcases effect_or hx with rfl | rfl
    · exact hi
    · exact hstored
  · rcases effect_cases hx with ⟨rfl, rfl⟩ | ⟨fault, rfl, -⟩
    · simp [HasStored]
    · trivial

theorem settled_of_stored (hp : p ∈ job.targets lib) (hne : p ≠ []) : job.Settled lib p p := by
  refine ⟨.inr hp, fun q _ hq => ?_⟩
  rcases hq with hq | hq
  · exact absurd hq hne
  · exact hq.symm

section

variable (h : (Job.migration mig task).Replaces lib a old)
  (hp : p ∈ (Job.migration mig task).targets lib)
include h hp

theorem proper_route : (task.route mig persisted p).Proper a old where
  uploadPath := by
    unfold Task.route
    split_ifs
    · exact .inl rfl
    · exact .inr rfl
  apart := h.apart hp
  size := h.size

theorem triple_finishTransfer :
    Runs ((task.route mig persisted p).logic a old K) (fun _ => True) (finishTransfer mig task) := by
  refine Triple.bind (triple_only (Q := fun _ => True)
    (fun _ => triple_harmless (Within.perform rfl)) fun _ _ _ _ => trivial) fun _ => ?_
  refine Triple.bind (triple_only (Q := fun _ => True) (fun hmove => triple_effect (by simp)
    fun w hi _ => ⟨(), _, fun _ => rfl, hi.2.remove (h.apart hp) (.inr (.inl ⟨rfl, ?_⟩)), by simp⟩)
    fun _ _ _ _ => trivial) fun _ => triple_harmless (Within.perform rfl)
  exact h.move (decide_eq_true hmove.1) p hp

theorem triple_transfer : Runs ((task.route mig persisted p).logic a old K) (fun _ => True) (do
        match ← attempt (runTransferCore (task.route mig persisted p)) with
        | .ok () => finishTransfer mig task
        | .error .other => throw .other
        | .error _ => call .skip) := by
  refine Triple.bind (Triple.attempt (R := fun _ _ => True)
    (triple_runTransferCore (proper_route h hp))) fun r => ?_
  cases r with
  | ok _ => exact triple_finishTransfer h hp
  | error e =>
    cases e with
    | other => exact Triple.throw fun _ _ _ => trivial
    | systemConflict | nativeDuplicate | duplicateUID => exact triple_harmless (Within.perform rfl)

theorem triple_writeTarget (hne : p ≠ []) (hkeep : resolved ≠ [] → p = resolved) :
    Runs (alone a ((Job.migration mig task).Guarded lib a old))
      (HasStored resolved) (writeTarget mig task resolved p) := by
  have hfiles : task.resourceType = .files := h.transfer
  refine Triple.bind (triple_only (Q := HasStored p) (fun hfirst => ?_)
    fun hfirst w _ hP => ?_) fun _ => ?_
  · rw [hfirst.2]
    exact triple_store hp
  · rw [HasStored, hP]
    exact (hkeep fun hnil => hfirst ⟨hfiles, hnil⟩).symm
  · refine (triple_settled rfl hp (triple_transfer h hp)).pre (fun w _ hP => ?_)
    rw [hP]
    exact settled_of_stored hp hne

end

theorem triple_transferFile
    (h : (Job.migration mig task).Replaces lib a old) (hmeta : task.metadata = some metadata)
    (hdir : task.isDirectory metadata = false) :
    Runs (alone a ((Job.migration mig task).Guarded lib a old))
      (HasStored resolved) (transferFile lib mig task resolved metadata) := by
  have hfiles : task.resourceType = .files := h.transfer
  have htargets : (Job.migration mig task).targets lib =
      finalNames lib mig (task.target lib mig metadata) := by
    simp [Job.targets, Task.targets, hmeta, hdir, hfiles]
  have hne : ∀ p ∈ (Job.migration mig task).targets lib, p ≠ [] := by
    rw [htargets]
    exact finalNames_ne_nil (target_ne_nil hfiles)
  intro w hi hres
  have hstored : resolved = [] ∨ resolved ∈ (Job.migration mig task).targets lib := hres ▸ hi.1
  refine Triple.bind ((triple_harmless_job (Within.perform rfl)).drop) (fun _ => ?_) w hi hres
  refine Triple.bind (((triple_harmless_job (harmless_chooseTarget hfiles)).drop).and_gives
    (gives_chooseTarget hfiles)) fun o => ?_
  cases o with
  | none => exact Triple.pure fun _ _ _ => trivial
  | some p =>
    intro w hi hP
    have hchosen := hP.2 p rfl
    have hp : p ∈ (Job.migration mig task).targets lib ∧ (resolved ≠ [] → p = resolved) := by
      rcases hchosen with ⟨hkeep, rfl⟩ | ⟨hfirst, hmem⟩
      · rw [if_pos ⟨hfiles, hkeep⟩]
        exact ⟨hstored.resolve_left hkeep, fun _ => rfl⟩
      · rw [if_neg fun hc => hc.2 hfirst, ← htargets] at hmem
        exact ⟨hmem, fun hkeep => absurd hfirst hkeep⟩
    exact triple_writeTarget h hp.1 (hne p hp.1) hp.2 w hi hP.1

theorem triple_processPrepared (h : (Job.migration mig task).Replaces lib a old) :
    Runs (alone a ((Job.migration mig task).Guarded lib a old))
      (HasStored resolved) (processPrepared lib mig task resolved) := by
  have hharmless : ∀ x : Work Unit, Within (fun c => c.isHarmless = true) x →
      Runs (alone a ((Job.migration mig task).Guarded lib a old))
        (HasStored resolved) x :=
    fun x hx => (triple_harmless_job hx).runs
  have hdir : ∀ side path, Within (fun c => c.isHarmless = true) (createDirectory side path) :=
    fun side path => Within.bind (Within.perform rfl) fun _ => Within.perform rfl
  have hadmitted : Runs (alone a ((Job.migration mig task).Guarded lib a old))
      (HasStored resolved) (processAdmitted lib mig task resolved) := by
    unfold processAdmitted
    split
    · exact Triple.throw fun _ _ _ => trivial
    · rename_i metadata hmeta
      split_ifs with hcond
      · exact hharmless _ (within_makeDirectory (fun _ => isHarmless_of_isQuery) rfl rfl)
      · exact hharmless _ (hdir _ _)
      · exact triple_transferFile h hmeta (by simpa [Task.isDirectory] using hcond)
  unfold processPrepared
  split_ifs
  · exact hharmless _ (Within.perform rfl)
  · refine Triple.bind ((triple_harmless_job
      (harmless_of_asks (asks_of_silent silent_inPersonalVault))).drop) fun vault => ?_
    cases vault with
    | true => exact hharmless _ (Within.perform rfl)
    | false => exact hadmitted

end Migration

theorem triple_syncTransfer (h : route.Proper a old) :
    Runs (route.logic a old K) (fun _ => True) (syncTransfer route) := by
  refine Triple.bind (triple_harmless (Within.perform rfl)) fun _ => ?_
  refine Triple.bind (triple_download _) fun content => triple_of_fact fun hnew => ?_
  refine Triple.bind (triple_uploadOrCleanUp h hnew) fun _ => ?_
  exact Triple.bind (triple_settle h hnew) fun _ => triple_harmless (Within.perform rfl)

theorem triple_syncAction {job : SyncJob} (h : (Job.sync job task).Replaces lib a old) :
    Runs (alone a ((Job.sync job task).Guarded lib a old)) (fun _ => True)
      (syncAction lib job task) := by
  have htarget : job.path task.dest task.filePath ∈ (Job.sync job task).targets lib :=
    List.mem_singleton.2 rfl
  have hproper : (task.route job).Proper a old := by
    refine ⟨?_, h.apart htarget, h.size⟩
    unfold SyncTask.route
    split_ifs
    · exact .inl rfl
    · exact .inr rfl
  have haction : syncAction lib job task = syncTransfer (task.route job) := by
    unfold syncAction
    rcases h.transfer with hact | hact
    · rw [hact]
    · rw [hact]
  rw [haction]
  refine (triple_settled rfl htarget (triple_syncTransfer hproper)).pre (fun w hi _ => ?_)
  exact ⟨hi.1, fun q hq _ => List.mem_singleton.1 hq⟩

theorem triple_program (h : job.Replaces lib a old) :
    Runs (alone a (job.Guarded lib a old)) (fun _ => True) (job.program lib) := by
  rw [Job.program_eq]
  refine Triple.bind (triple_call (Q := fun stored w => (w.rows ()).resolved = stored)
    (E := fun _ _ => True) fun w o r v hi _ hx => ?_) fun stored => ?_
  · rcases effect_cases hx with ⟨rfl, rfl⟩ | ⟨fault, rfl, rfl | rfl⟩
    · exact ⟨hi, rfl⟩
    · exact ⟨hi, trivial⟩
    · exact ⟨hi, trivial⟩
  · cases job with
    | migration mig task => exact triple_processPrepared h
    | sync job task =>
      exact (triple_syncAction h).pre (fun _ _ _ => trivial)

end Job

section Run

/-- Both ways in which an attempt ends leave the objects and the stored path alone. -/
def replacementProof (s : Setting Unit) (h : (s.job ()).Replaces s.lib s.accounts old) :
    Crew.Proof s.crew (fun _ _ => True) where
  inv := (s.job ()).Guarded s.lib s.accounts old
  rely _ := Eq
  guar _ _ := True
  rely_refl _ _ := rfl
  rely_trans := Eq.trans
  guar_refl _ := trivial
  leave := by
    intro i l w _ hi _
    refine ⟨⟨hi.1, fun p hp hcur => (hi.2 p hp hcur).congr rfl⟩, trivial, fun j hj => ?_⟩
    exact absurd rfl hj
  program := by
    intro i w hi _ _
    refine wp_bind (wp_mono (fun _ _ _ => trivial) (triple_program h w hi trivial))

end Run

def bothVersions : GoMap Location Content :=
  [(twoAccounts.locate .source "/a".toList, [1]), (twoAccounts.locate .target "/t/a".toList, [7])]

def upToBackup : List (Crew.Label Unit Outcome) :=
  .start () :: List.replicate 9 (.exec () .ok) ++ [.stop ()]

def calendarEntry : Setting Unit where
  lib := asciiLib
  accounts := twoAccounts
  job _ := .migration
    { targetDir := "/".toList, sourceProvider := .nextcloud, targetProvider := .nextcloud,
      conflictStrategy := .overwrite }
    { id := sampleID, resourceType := .calendars, filePath := "/c/e".toList, fileSize := 1 }

def bothEntries : GoMap Location Content :=
  [(twoAccounts.locate .source "/c/e".toList, [1]), (twoAccounts.locate .target "/c/e".toList, [7])]

end Clumoove.Transfer
