import Clumoove.Sanity.Transfer.Sharing

/-! An attempt of a task among others that are under way: each of its calls is one of the steps that
the others can rely on. -/

namespace Clumoove.Transfer

open Prog Sync

variable [DecidableEq ι] {s : Setting ι} {M : ι → Prop} {old : GoMap Location Content} {i : ι}

variable {w v : World ι} {P : World ι → Prop} {c : Call} {l : Location} {α : Type} {o : Outcome}
  {stored : Text} {r : Except Fault c.Val} {x : Work α}

/-- An attempt ends only when a target it shares with others is filled, unless it has stored no path
or has skipped the task. -/
def Setting.Settles (s : Setting ι) (M : ι → Prop) (w : World ι) (l : Crew.Label ι Outcome) : Prop :=
  ∀ i, (l = .finish i ∨ l = .stop i) → M i → s.Shared i → (w.rows i).progress ≠ .skipped →
    ∀ p, (s.job i).final (w.rows i) = some p → (w.objects.get (s.place i p)).isSome

/-- The logic of a task's program beside the programs of the others. -/
def Setting.logic (s : Setting ι) (M : ι → Prop) (old : GoMap Location Content) (i : ι) :
    Logic Call (fun c => Except Fault c.Val) (World ι) where
  inv := s.Inv M old
  rely w v := M i → s.Relies old i w v
  guar w v := s.SourcesKept M w v ∧ ∀ j, j ≠ i → M j → s.Relies old j w v
  exec c w r v := ∃ o, s.Settles M w (.exec i o) ∧ exec s.accounts i c o w = some (r, v)
  rely_refl w _ := .refl w
  rely_trans h h' hM := (h hM).trans (h' hM)

section Rules

variable {Q : c.Val → World ι → Prop}

theorem triple_step (hP : (s.logic M old i).Stable P)
    (h : ∀ w o r v, s.Inv M old w → P w → exec s.accounts i c o w = some (r, v) →
      s.Step M old i w v ∧ match r with | .ok x => Q x v | .error e => E e v) :
    Triple (s.logic M old i) P (call c) Q E := by
  refine Triple.perform hP fun w r v hi hw hx => ?_
  obtain ⟨o, -, hx⟩ := hx
  obtain ⟨hstep, hres⟩ := h w o r v hi hw hx
  refine ⟨⟨hstep.sources, hstep.relies⟩, hstep.inv, ?_⟩
  cases r with
  | ok x => exact hres
  | error e => exact hres

end Rules

/-! A task outside the set. -/

theorem triple_outsider (h : s.Orderly M) (hM : ¬M i)
    (hstored : stored = [] ∨ stored ∈ (s.job i).targets s.lib) :
    Runs (s.logic M old i) (fun _ => True) ((s.job i).rest s.lib stored) := by
  refine Within.triple (makes_rest _ _) (fun _ _ _ => trivial) fun c w r v hc hi _ hx => ?_
  obtain ⟨o, -, hx⟩ := hx
  have hstep : s.Step M old i w v := step_outsider h hi hM hstored hc hx
  exact ⟨⟨hstep.sources, hstep.relies⟩, hstep.inv, trivial⟩

/-! A transfer of the set. -/

section Member

variable {p : Text} {content : Content}

structure Setting.Bound (s : Setting ι) (i : ι) (p : Text) (w : World ι) : Prop where
  final : (s.job i).final (w.rows i) = some p
  unfinished : (w.rows i).progress = .unfinished

omit [DecidableEq ι] in
theorem Setting.Bound.frame (h : s.Bound i p w) (hrows : v.rows = w.rows) : s.Bound i p v := by
  obtain ⟨hfinal, hunfinished⟩ := h
  rw [← hrows] at hfinal hunfinished
  exact ⟨hfinal, hunfinished⟩

theorem stable_bound (hM : M i) : (s.logic M old i).Stable (s.Bound i p) := by
  rintro w v ⟨hfinal, hunfinished⟩ hr -
  rw [← (hr hM).row] at hfinal hunfinished
  exact ⟨hfinal, hunfinished⟩

theorem stable_bound_has (hM : M i) : (s.logic M old i).Stable
      fun w => s.Bound i p w ∧ w.objects.get (s.place i p) = some content := by
  rintro w v ⟨hb, hget⟩ hr hi
  have hclaims : s.Claims old i w p := ⟨hb.final, .inl (by simp [hb.unfinished])⟩
  exact ⟨stable_bound hM hb hr hi, ((hr hM).get_place hclaims).trans hget⟩

/-- A transfer at work, and what it has put at one of its places. -/
def Setting.Has (s : Setting ι) (old : GoMap Location Content) (i : ι) (p : Text) (l : Location)
    (content : Content) (w : World ι) : Prop :=
  s.Doing old i p w ∧ w.objects.get l = some content

theorem stable_doing (hM : M i) : (s.logic M old i).Stable (s.Doing old i p) :=
  fun hd hr _ => hd.of_relies (hr hM)

theorem stable_has (hM : M i) (hl : (s.job i).Place s.accounts p l) :
    (s.logic M old i).Stable (s.Has old i p l content) := by
  rintro w v ⟨hd, hget⟩ hr -
  exact ⟨hd.of_relies (hr hM), ((hr hM).own p l hd.claims hl).trans hget⟩

def Call.isStill : Call → Bool
  | .createDirectory _ _ | .createParentDirectories _ _ => true
  | c => c.isSilent

theorem still_frame (hc : c.isStill = true) (hx : exec a i c o w = some (r, v)) :
    v.objects = w.objects ∧ v.rows = w.rows := by
  cases exec_effect hx with
  | none | lock => exact ⟨rfl, rfl⟩
  | delete | rename | upload | resolved | skip | complete => cases hc

theorem still_harmless (hc : c.isStill = true) : c.isHarmless = true ∧ c ≠ .complete := by
  cases c with
  | deleteFile | renameFile | streamUpload | updateResolvedTargetPath | skip | complete => cases hc
  | _ => exact ⟨rfl, by simp⟩

theorem still_of_silent (h : Silent x) : Within (fun c => c.isStill = true) x := by
  refine h.mono fun c hc => ?_
  cases c with
  | createDirectory | createParentDirectories => rfl
  | _ => exact hc

theorem triple_still (h : s.Orderly M) (hP : (s.logic M old i).Stable P)
    (hframe : ∀ w v, P w → v.objects = w.objects → v.rows = w.rows →
      (∀ q, w.locks.get q = some i → v.locks.get q = some i) → P v)
    (hx : Within (fun c => c.isStill = true) x) :
    Triple (s.logic M old i) P x (fun _ => P) (fun _ => P) := by
  refine Within.triple hx hP fun c w r v hc hi hw hx => ?_
  obtain ⟨o, -, hx⟩ := hx
  obtain ⟨hharmless, hne⟩ := still_harmless hc
  have hstep : s.Step M old i w v := step_query h hi hharmless hne hx
  obtain ⟨hobjects, hrows⟩ := still_frame hc hx
  exact ⟨⟨hstep.sources, hstep.relies⟩, hstep.inv,
    hframe w v hw hobjects hrows fun q hq => exec_locks hx hq⟩

omit [DecidableEq ι] in
theorem Setting.Doing.frame (hd : s.Doing old i p w)
    (hobjects : v.objects = w.objects) (hrows : v.rows = w.rows) : s.Doing old i p v := by
  obtain ⟨hfinal, hunfinished, hsource⟩ := hd
  rw [← hrows] at hfinal hunfinished
  rw [← hobjects] at hsource
  exact ⟨hfinal, hunfinished, hsource⟩

theorem triple_still_has (h : s.Orderly M) (hM : M i) (hl : (s.job i).Place s.accounts p l)
    (hx : Within (fun c => c.isStill = true) x) :
    Triple (s.logic M old i) (s.Has old i p l content) x (fun _ => s.Has old i p l content)
      (fun _ => s.Has old i p l content) := by
  refine triple_still h (stable_has hM hl) (fun w v hw ho hr _ => ⟨hw.1.frame ho hr, ?_⟩) hx
  rw [ho]
  exact hw.2

theorem triple_skip (h : s.Orderly M) : Runs (s.logic M old i) P (call .skip) := by
  have hskip : Runs (s.logic M old i) (fun _ => True) (call .skip) :=
    triple_step (fun _ _ _ => trivial) fun w o r v hi _ hx =>
      ⟨step_query h hi rfl (by simp) hx, by cases r <;> trivial⟩
  exact hskip.pre (fun _ _ _ => trivial)

/-! The transfer itself. -/

structure Setting.Fits (s : Setting ι) (i : ι) (p : Text) (route : Route) : Prop where
  source : s.accounts.locate route.source route.sourcePath = s.source i
  dest : route.target = (s.job i).dest
  path : route.targetPath = p
  backup : route.backupPath = overwriteBackupPath p (s.job i).task.id.text
  upload : route.uploadPath = p ∨ (s.job i).stages = true ∧ route.uploadPath = stagingPath p

def Setting.uploadPlace (s : Setting ι) (route : Route) : Location :=
  s.accounts.locate route.target route.uploadPath

def Setting.backupPlace (s : Setting ι) (route : Route) : Location :=
  s.accounts.locate route.target route.backupPath

variable {route : Route}

section Fits

omit [DecidableEq ι]

section

variable (hf : s.Fits i p route)
include hf

theorem Setting.Fits.target_place :
    s.accounts.locate route.target route.targetPath = s.place i p := by
  rw [hf.dest, hf.path]
  rfl

theorem Setting.Fits.place (hc : route.Makes c)
    (hl : c.Writes s.accounts l) : (s.job i).Place s.accounts p l :=
  place_of_route hf.dest hf.path hf.backup hf.upload hc hl

theorem Setting.Fits.upload_place : (s.job i).Place s.accounts p (s.uploadPlace route) :=
  hf.place (.upload []) rfl

section

variable (hs : route.staged = true)
include hs

theorem Setting.Fits.stages :
    (s.job i).stages = true ∧ route.uploadPath = stagingPath p := by
  refine hf.upload.resolve_left fun hup => ?_
  exact absurd (hup.trans hf.path.symm) (of_decide_eq_true hs)

theorem Setting.Fits.not_shared : ¬s.Shared i := by
  rintro ⟨j, -, k, hslot, -⟩
  have hstages := (hf.stages hs).1
  rw [not_stages_of_slot hslot] at hstages
  cases hstages

theorem Setting.Fits.upload_ne : s.uploadPlace route ≠ s.place i p := by
  unfold Setting.uploadPlace
  rw [(hf.stages hs).2, hf.dest]
  exact locate_staging_ne _ _ _

theorem Setting.Fits.upload_ne_backup :
    s.uploadPlace route ≠ s.backupPlace route := by
  unfold Setting.uploadPlace Setting.backupPlace
  rw [(hf.stages hs).2, hf.backup]
  exact locate_staging_ne_backup _ _ _ _

end

theorem Setting.Fits.backup_ne : s.backupPlace route ≠ s.place i p := by
  unfold Setting.backupPlace
  rw [hf.backup, hf.dest]
  exact locate_backup_ne _ _ _ _

end

end Fits

def Call.isWrite : Call → Bool
  | .deleteFile _ _ | .renameFile _ _ _ | .streamUpload _ _ _ => true
  | _ => false

theorem write_frame (hc : c.isWrite = true) (hx : exec a i c o w = some (r, v)) :
    v.rows = w.rows ∧ v.locks = w.locks := by
  cases exec_effect hx with
  | none | delete | rename | upload => exact ⟨rfl, rfl⟩
  | lock | resolved | skip | complete => cases hc

section

variable (h : s.Orderly M) (hM : M i) (hf : s.Fits i p route)
  (hold : old.get (s.source i) = some content)
include h hM hf hold

theorem step_route (hi : s.Inv M old w) (hd : s.Doing old i p w) (hc : route.Makes c)
    (hwrite : c.isWrite = true) (hx : exec s.accounts i c o w = some (r, v))
    (hpresent : s.Shared i → (v.objects.get (s.place i p)).isSome ∨
      v.objects.get (s.place i p) = w.objects.get (s.place i p)) :
    s.Step M old i w v ∧ s.Doing old i p v := by
  obtain ⟨hrows, hlocks⟩ := write_frame hwrite hx
  refine step_own h hi hM hd (by rw [hold]; rfl) hrows hlocks (fun l hl => ?_) hpresent
  exact exec_objects hx fun hw => hl (hf.place hc hw)

section

variable (hs : route.staged = true)
include hs

theorem triple_staging_has (hc : route.Makes c) (hwrite : c.isWrite = true)
    (hl : (s.job i).Place s.accounts p l) (hkeep : ¬c.Writes s.accounts l) :
    Triple (s.logic M old i) (s.Has old i p l content) (call c)
      (fun _ => s.Has old i p l content) (fun _ => s.Doing old i p) := by
  refine triple_step (stable_has hM hl) fun w o r v hi hw hx => ?_
  obtain ⟨hstep, hd⟩ := step_route h hM hf hold hi hw.1 hc hwrite hx
    fun hshared => absurd hshared (hf.not_shared hs)
  refine ⟨hstep, ?_⟩
  cases r with
  | ok _ => exact ⟨hd, (exec_objects hx hkeep).trans hw.2⟩
  | error _ => exact hd

theorem triple_staging (hc : route.Makes c) (hwrite : c.isWrite = true) :
    Triple (s.logic M old i) (s.Doing old i p) (call c) (fun _ => s.Doing old i p)
      (fun _ => s.Doing old i p) := by
  refine triple_step (stable_doing hM) fun w o r v hi hd hx => ?_
  obtain ⟨hstep, hd⟩ := step_route h hM hf hold hi hd hc hwrite hx
    fun hshared => absurd hshared (hf.not_shared hs)
  refine ⟨hstep, ?_⟩
  cases r with
  | ok _ => exact hd
  | error _ => exact hd

theorem triple_preserve_has :
    Triple (s.logic M old i) (s.Has old i p (s.uploadPlace route) content)
      (preserveTarget route.target route.targetPath route.backupPath)
      (fun _ => s.Has old i p (s.uploadPlace route) content) (fun _ => s.Doing old i p) := by
  have hasks : ∀ path, Triple (s.logic M old i) (s.Has old i p (s.uploadPlace route) content)
      (call (.fileExists route.target path))
      (fun _ => s.Has old i p (s.uploadPlace route) content) (fun _ => s.Doing old i p) :=
    fun path => (triple_still_has h hM hf.upload_place (Within.perform rfl)).conseq
      (fun _ _ hP => hP) (fun _ _ hQ => hQ) fun _ _ hE => hE.1
  refine Triple.bind (hasks _) fun found => ?_
  cases found with
  | none => exact Triple.pure fun _ _ hP => hP
  | some _ =>
    have hclear : Triple (s.logic M old i) (s.Has old i p (s.uploadPlace route) content)
        (clearBackup route.target route.backupPath)
        (fun _ => s.Has old i p (s.uploadPlace route) content) (fun _ => s.Doing old i p) := by
      refine Triple.bind (hasks _) fun found => triple_only (fun _ => ?_) fun _ _ _ hP => hP
      exact triple_staging_has h hM hf hold hs (.clear hs) rfl hf.upload_place
        fun heq => hf.upload_ne_backup hs heq
    refine Triple.bind hclear fun _ => ?_
    refine Triple.bind (triple_staging_has h hM hf hold hs (.preserve hs) rfl hf.upload_place ?_)
      fun _ => Triple.pure fun _ _ hP => hP
    rintro (heq | heq)
    · exact hf.upload_ne hs (heq.trans hf.target_place)
    · exact hf.upload_ne_backup hs heq

theorem triple_promote_has :
    Triple (s.logic M old i) (s.Has old i p (s.uploadPlace route) content)
      (call (.renameFile route.target route.uploadPath route.targetPath))
      (fun _ => s.Has old i p (s.place i p) content) (fun _ => s.Doing old i p) := by
  refine triple_step (stable_has hM hf.upload_place) fun w o r v hi hw hx => ?_
  obtain ⟨hstep, hd⟩ := step_route h hM hf hold hi hw.1 (.promote hs) rfl hx
    fun hshared => absurd hshared (hf.not_shared hs)
  refine ⟨hstep, ?_⟩
  have hx' := (exec_rename hw.2).symm.trans hx
  rcases effect_cases hx' with ⟨rfl, rfl⟩ | ⟨fault, rfl, -⟩
  · refine ⟨hd, ?_⟩
    rw [World.get_put, if_pos hf.target_place.symm]
  · exact hd

theorem triple_promoteOverwrite_has :
    Triple (s.logic M old i) (s.Has old i p (s.uploadPlace route) content)
      (promoteOverwrite route.target route.targetPath route.uploadPath route.backupPath)
      (fun _ => s.Has old i p (s.place i p) content) (fun _ => s.Doing old i p) := by
  refine Triple.bind (triple_preserve_has h hM hf hold hs) fun backedUp => ?_
  refine Triple.bind (Triple.attempt (R := fun r w => match r with
    | .ok _ => s.Has old i p (s.place i p) content w
    | .error _ => s.Doing old i p w) (triple_promote_has h hM hf hold hs)) fun r => ?_
  cases r with
  | ok _ =>
    refine triple_only (fun _ => ?_) fun _ _ _ hP => hP
    exact triple_staging_has h hM hf hold hs (.clear hs) rfl (.inl rfl)
      fun heq => hf.backup_ne heq.symm
  | error e =>
    have hquiet : ∀ c, route.Makes c → c.isWrite = true →
        Triple (s.logic M old i) (s.Doing old i p) (attempt (call c))
          (fun _ => s.Doing old i p) (fun _ => s.Doing old i p) :=
      fun c hc hwrite => Triple.attempt (R := fun _ => s.Doing old i p)
        (triple_staging h hM hf hold hs hc hwrite)
    refine Triple.bind (Triple.bind (hquiet _ (.discard hs) rfl) fun _ =>
      Triple.pure (Q := fun _ => s.Doing old i p) fun _ _ hP => hP) fun _ => ?_
    refine Triple.bind (triple_only (Q := s.Doing old i p) (fun _ => ?_) fun _ _ _ hP => hP)
      fun _ => Triple.throw fun _ _ hP => hP
    exact Triple.bind (hquiet _ (.restore hs) rfl) fun _ => Triple.pure fun _ _ hP => hP

end

theorem triple_upload_has : Triple (s.logic M old i) (s.Doing old i p) (route.upload content)
      (fun _ => s.Has old i p (s.uploadPlace route) content) (fun _ => s.Doing old i p) := by
  have hput : Triple (s.logic M old i) (s.Doing old i p)
      (call (.streamUpload route.target route.uploadPath (content.take route.fileSize)))
      (fun _ => s.Has old i p (s.uploadPlace route) (content.take route.fileSize))
      (fun _ => s.Doing old i p) := by
    refine triple_step (stable_doing hM) fun w o r v hi hd hx => ?_
    have hpresent : s.Shared i → (v.objects.get (s.place i p)).isSome ∨
        v.objects.get (s.place i p) = w.objects.get (s.place i p) := by
      intro hshared
      have hup : route.uploadPath = p := by
        refine hf.upload.resolve_right fun hstaged => ?_
        obtain ⟨j, -, k, hslot, -⟩ := hshared
        rw [not_stages_of_slot hslot] at hstaged
        cases hstaged.1
      rcases effect_or hx with rfl | rfl
      · exact .inr rfl
      · rw [World.get_put, if_pos]
        · exact .inl rfl
        · rw [hup, hf.dest]
          rfl
    obtain ⟨hstep, hd⟩ := step_route h hM hf hold hi hd (.upload _) rfl hx hpresent
    refine ⟨hstep, ?_⟩
    rcases effect_cases hx with ⟨rfl, rfl⟩ | ⟨fault, rfl, -⟩
    · refine ⟨hd, ?_⟩
      rw [World.get_put, if_pos]
      rfl
    · exact hd
  refine Triple.bind hput fun _ => triple_only (fun _ => Triple.throw fun _ _ hP => hP.1)
    fun hsize w _ hP => ?_
  have hwhole : content.take route.fileSize = content := by
    rw [Decidable.not_not] at hsize
    exact List.take_of_length_le (Nat.le_of_eq hsize)
  rw [hwhole] at hP
  exact hP

theorem triple_settle_has :
    Triple (s.logic M old i) (s.Has old i p (s.uploadPlace route) content) route.settle
      (fun _ => s.Has old i p (s.place i p) content) (fun _ => s.Doing old i p) := by
  refine Triple.bind (triple_only (Q := s.Has old i p (s.place i p) content)
    (triple_promoteOverwrite_has h hM hf hold) fun hs w _ hP => ?_) fun _ => ?_
  · have hup : route.uploadPath = route.targetPath := by
      by_contra hne
      exact hs (decide_eq_true hne)
    have hplace : s.uploadPlace route = s.place i p := by
      rw [← hf.target_place, ← hup]
      rfl
    rwa [hplace] at hP
  · refine triple_only (fun _ => ?_) fun _ _ _ hP => hP
    exact (triple_still_has h hM (.inl rfl) (still_of_silent silent_verify)).conseq
      (fun _ _ hP => hP) (fun _ _ hQ => hQ) fun _ _ hE => hE.1

end

theorem triple_complete (h : s.Orderly M) (hM : M i) (hold : old.get (s.source i) = some content) :
    Runs (s.logic M old i) (fun w => s.Bound i p w ∧ w.objects.get (s.place i p) = some content)
      (call .complete) := by
  refine triple_step (stable_bound_has hM) fun w o r v hi hw hx => ⟨?_, by cases r <;> trivial⟩
  rcases effect_or hx with rfl | rfl
  · exact step_query (c := .prepare) (o := .ok) h hi rfl (by simp) rfl
  · exact step_complete h hi hM hw.1.unfinished hw.1.final hold hw.2

section

variable (h : s.Orderly M) (hM : M i) (hf : s.Fits i p route)
include h hM hf

theorem triple_download_doing : Ensures (s.logic M old i) (s.Bound i p)
      (call (.streamDownload route.source route.sourcePath))
      (fun content w => s.Doing old i p w ∧ old.get (s.source i) = some content) := by
  refine triple_step (stable_bound hM) fun w o r v hi hw hx =>
    ⟨step_query h hi rfl (by simp) hx, ?_⟩
  cases r with
  | error _ => trivial
  | ok content =>
    obtain ⟨hobjects, hrows⟩ := still_frame rfl hx
    have hget : w.objects.get (s.source i) = some content := hf.source ▸ download_ok hx
    have hsame : w.objects.get (s.source i) = old.get (s.source i) := by
      rcases (hi.kept i hM).source with hsame | ⟨_, _, -, hgone, -⟩
      · exact hsame
      · rw [hgone] at hget
        cases hget
    have hbound := hw.frame hrows
    refine ⟨⟨hbound.final, hbound.unfinished, ?_⟩, hsame.symm.trans hget⟩
    rw [hobjects]
    exact hsame

theorem triple_runTransferCore_has : Ensures (s.logic M old i) (s.Bound i p) (runTransferCore route)
      (fun _ w => ∃ content, old.get (s.source i) = some content ∧
        s.Has old i p (s.place i p) content w) := by
  refine Triple.bind (triple_download_doing h hM hf) fun content w hi hw => ?_
  obtain ⟨hd, hold⟩ := hw
  refine Triple.conseq (Triple.bind (triple_upload_has h hM hf hold) fun _ =>
    triple_settle_has h hM hf hold) (fun _ _ hP => hP) (fun _ w hQ => ⟨content, hold, hQ⟩)
    (fun _ _ _ => trivial) w hi hd

theorem triple_syncTransfer_has : Runs (s.logic M old i) (s.Bound i p) (syncTransfer route) := by
  refine Triple.bind ((triple_still h (stable_bound hM) (fun _ _ hw _ hrows _ => hw.frame hrows)
    (Within.perform rfl)).drop)
    fun _ => ?_
  refine Triple.bind (triple_download_doing h hM hf) fun content w hi hw => ?_
  obtain ⟨hd, hold⟩ := hw
  have hupload : Ensures (s.logic M old i) (s.Doing old i p) (route.uploadOrCleanUp content)
      (fun _ => s.Has old i p (s.uploadPlace route) content) := by
    refine Triple.bind (Triple.attempt (R := fun r w => match r with
      | .ok _ => s.Has old i p (s.uploadPlace route) content w
      | .error _ => s.Doing old i p w) (triple_upload_has h hM hf hold)) fun r => ?_
    cases r with
    | ok _ => exact Triple.pure fun _ _ hP => hP
    | error e =>
      refine Triple.bind (triple_only (Q := fun _ => True) (fun hs => ?_) fun _ _ _ _ => trivial)
        fun _ => Triple.throw fun _ _ _ => trivial
      refine Triple.bind (Triple.attempt (R := fun _ => s.Doing old i p)
        (triple_staging h hM hf hold hs (.discard hs) rfl)) fun _ => Triple.pure fun _ _ _ => trivial
  refine Triple.bind hupload (fun _ => Triple.bind ((triple_settle_has h hM hf hold).drop) fun _ => ?_) w hi hd
  exact (triple_complete h hM hold).pre (fun _ _ hP => ⟨⟨hP.1.final, hP.1.unfinished⟩, hP.2⟩)

end

end Member

section Migration

variable {mig : Migration} {task : Task} {p : Text}

omit [DecidableEq ι] in
theorem fits_migration (hjob : s.job i = .migration mig task) (persisted : Bool) :
    s.Fits i p (task.route mig persisted p) := by
  refine ⟨?_, ?_, rfl, ?_, ?_⟩
  · simp [Setting.source, hjob, Job.source, Task.route]
  · simp [hjob, Job.dest, Task.route]
  · simp [hjob, Job.task, Task.route]
  · rw [hjob]
    unfold Task.route
    split_ifs with hs
    · refine .inr ⟨?_, rfl⟩
      cases persisted with
      | true => simp [Task.overwrites] at hs
      | false => simpa [Job.stages] using hs
    · exact .inl rfl

theorem triple_finishTransfer_has (h : s.Orderly M) (hM : M i)
    (hjob : s.job i = .migration mig task) (hold : old.get (s.source i) = some content) :
    Runs (s.logic M old i) (s.Has old i p (s.place i p) content) (finishTransfer mig task) := by
  refine Triple.bind (triple_only (Q := s.Has old i p (s.place i p) content) (fun _ =>
    (triple_still_has h hM (.inl rfl) (Within.perform rfl)).drop) fun _ _ _ hP => hP) fun _ => ?_
  refine Triple.bind (triple_only (Q := fun w => s.Bound i p w ∧
    w.objects.get (s.place i p) = some content) (fun hmove => ?_) fun _ _ _ hP =>
    ⟨⟨hP.1.final, hP.1.unfinished⟩, hP.2⟩) fun _ => triple_complete h hM hold
  refine triple_step (stable_has hM (.inl rfl)) fun w o r v hi hw hx => ?_
  have hv : v = w ∨ v = w.remove (s.source i) := by
    have hsource : s.accounts.locate .source task.filePath = s.source i := by
      simp [Setting.source, hjob, Job.source]
    rw [← hsource]
    exact effect_or hx
  have hmoves : (s.job i).moves = true := by
    rw [hjob]
    exact decide_eq_true hmove.1
  have hne : s.place i p ≠ s.source i :=
    (hi.kept i hM).apart p hw.1.final (by rw [hold]; rfl)
  refine ⟨?_, ?_⟩
  · rcases hv with rfl | rfl
    · exact step_query (c := .prepare) (o := .ok) h hi rfl (by simp) rfl
    · exact step_move h hi hM hw.1 hmoves hold hw.2
  · cases r with
    | error _ => trivial
    | ok _ =>
      rcases hv with rfl | rfl
      · exact ⟨⟨hw.1.final, hw.1.unfinished⟩, hw.2⟩
      · refine ⟨⟨hw.1.final, hw.1.unfinished⟩, ?_⟩
        rw [World.get_remove, if_neg hne]
        exact hw.2

theorem triple_transfer_has (h : s.Orderly M) (hM : M i) (hjob : s.job i = .migration mig task)
    (persisted : Bool) : Runs (s.logic M old i) (s.Bound i p) (do
        match ← attempt (runTransferCore (task.route mig persisted p)) with
        | .ok () => finishTransfer mig task
        | .error .other => throw .other
        | .error _ => call .skip) := by
  refine Triple.bind (Triple.attempt (R := fun r w => match r with
    | .ok _ => ∃ content, old.get (s.source i) = some content ∧
        s.Has old i p (s.place i p) content w
    | .error _ => True) (triple_runTransferCore_has h hM (fits_migration hjob persisted)))
    fun r => ?_
  cases r with
  | ok _ =>
    intro w hi hw
    obtain ⟨content, hold, hhas⟩ := hw
    exact triple_finishTransfer_has h hM hjob hold w hi hhas
  | error e =>
    cases e with
    | other => exact Triple.throw fun _ _ _ => trivial
    | systemConflict | nativeDuplicate | duplicateUID => exact triple_skip h

/-! The first attempt, which has to find its path. -/

/-- Nothing is stored yet, and a shared target is locked. -/
structure Setting.Fresh (s : Setting ι) (i : ι) (w : World ι) : Prop where
  row : w.rows i = {}
  lock : s.Shared i → w.locks.get (s.key i) = some i

/-- A path that is free if it is shared, and is not the source. -/
structure Setting.Free (s : Setting ι) (old : GoMap Location Content) (i : ι) (p : Text)
    (w : World ι) : Prop extends s.Fresh i w where
  apart : (old.get (s.source i)).isSome → s.place i p ≠ s.source i
  free : s.Shared i → w.objects.get (s.place i p) = none

theorem stable_fresh (hM : M i) : (s.logic M old i).Stable (s.Fresh i) := by
  rintro w v ⟨hrow, hlock⟩ hr -
  exact ⟨(hr hM).row.trans hrow, fun hs => (hr hM).lock (hlock hs)⟩

theorem triple_still_fresh (h : s.Orderly M) (hM : M i)
    (hx : Within (fun c => c.isStill = true) x) :
    Ensures (s.logic M old i) (s.Fresh i) x (fun _ => s.Fresh i) := by
  refine (triple_still h (stable_fresh hM) (fun w v hw _ hrows hlocks => ⟨?_, fun hs => ?_⟩)
    hx).drop
  · rw [hrows]
    exact hw.row
  · exact hlocks _ (hw.lock hs)

theorem triple_orSkip (h : s.Orderly M) (hx : Ensures (s.logic M old i) P x Q) :
    Ensures (s.logic M old i) P (orSkip x) (fun o w => ∀ a, o = some a → Q a w) := by
  refine Triple.bind (Triple.attempt (R := fun r w => ∀ a, r = .ok a → Q a w)
    (hx.conseq (fun _ _ hP => hP) (fun a w hQ b hb => ?_) nofun)) fun r => ?_
  · cases hb
    exact hQ
  · cases r with
    | ok a =>
      refine Triple.pure fun w _ hP b hb => ?_
      cases hb
      exact hP a rfl
    | error e =>
      cases e with
      | systemConflict =>
        exact Triple.bind (triple_skip h) fun _ => Triple.pure nofun
      | nativeDuplicate | duplicateUID | other => exact Triple.throw fun _ _ _ => trivial

theorem triple_ask (h : s.Orderly M) (hM : M i) (hjob : s.job i = .migration mig task) :
    Ensures (s.logic M old i) (s.Fresh i) (orSkip (call (.fileExists .target p)))
      (fun o w => ∀ found, o = some found → s.Fresh i w ∧ (found = none → s.Free old i p w)) := by
  refine triple_orSkip h (triple_step (stable_fresh hM) fun w o r v hi hw hx =>
    ⟨step_query h hi rfl (by simp) hx, ?_⟩)
  cases r with
  | error _ => trivial
  | ok found =>
    rcases effect_cases hx with ⟨hfound, rfl⟩ | ⟨fault, hfail, -⟩
    · refine ⟨hw, fun hnone => ?_⟩
      have hget : v.objects.get (s.place i p) = none := by
        cases hfound
        have hmap := Option.map_eq_none_iff.1 hnone
        rw [Setting.place, hjob]
        exact hmap
      refine ⟨hw, fun hsome heq => ?_, fun _ => hget⟩
      rcases (hi.kept i hM).source with hsame | ⟨q, c, hq, -⟩
      · rw [heq, hsame] at hget
        rw [hget] at hsome
        cases hsome
      · rw [hw.row, hjob] at hq
        cases hq
    · cases hfail

/-- What is known of a path an attempt has chosen: it is free if the migration asks first. -/
def Setting.Picked (s : Setting ι) (old : GoMap Location Content) (i : ι) (o : Option Text)
    (w : World ι) : Prop :=
  ∀ p, o = some p → s.Fresh i w ∧ ((s.job i).asksFirst = true → s.Free old i p w)

omit [DecidableEq ι] in
theorem picked_none (w : World ι) : s.Picked old i none w := nofun

omit [DecidableEq ι] in
theorem picked_free (h : s.Free old i p w) : s.Picked old i (some p) w := by
  intro q hq
  cases hq
  exact ⟨h.toFresh, fun _ => h⟩

theorem silent_firstName : Silent (firstName lib mig task stored p) := by
  unfold firstName
  split_ifs with hfirst
  · exact (gives_avoidCaseCollision hfirst.2.2).within
  · exact Within.pure _

section

variable (h : s.Orderly M) (hM : M i) (hjob : s.job i = .migration mig task)
include h hM hjob

theorem triple_renameTarget (counters : List ℕ) :
    Ensures (s.logic M old i) (s.Fresh i) (renameTarget p counters) (s.Picked old i) := by
  induction counters with
  | nil => exact Triple.throw fun _ _ _ => trivial
  | cons counter rest ih =>
    refine Triple.bind (triple_ask h hM hjob) fun found => ?_
    cases found with
    | none => exact Triple.pure fun w _ _ => picked_none w
    | some found =>
      cases found with
      | none => exact Triple.pure fun w _ hP => picked_free ((hP none rfl).2 rfl)
      | some n =>
        exact ih.pre (fun w _ hP => (hP (some n) rfl).1)

theorem triple_resolveConflict (hfiles : task.resourceType = .files) :
    Ensures (s.logic M old i) (s.Fresh i) (resolveConflict mig task p) (s.Picked old i) := by
  refine Triple.bind (triple_ask h hM hjob) fun found => ?_
  cases found with
  | none => exact Triple.pure fun w _ _ => picked_none w
  | some found =>
    cases found with
    | none => exact Triple.pure fun w _ hP => picked_free ((hP none rfl).2 rfl)
    | some n =>
      simp only [hfiles, ne_eq, not_true_eq_false, if_false]
      have hkeep : mig.conflictStrategy ≠ .rename → mig.conflictStrategy ≠ .skip →
          ∀ w, s.Fresh i w → s.Picked old i (some p) w := by
        intro hrename hskip w hw q hq
        refine ⟨hw, fun hasks => ?_⟩
        rw [hjob] at hasks
        simp [Job.asksFirst, Migration.asksFirst, hrename, hskip] at hasks
      cases hmode : mig.conflictStrategy with
      | skip => exact Triple.bind (triple_skip h) fun _ => Triple.pure fun w _ _ => picked_none w
      | rename =>
        exact (triple_renameTarget h hM hjob _).pre (fun w _ hP => (hP (some n) rfl).1)
      | overwrite | unsupported =>
        exact Triple.pure fun w _ hP => hkeep (by simp [hmode]) (by simp [hmode]) w
          (hP (some n) rfl).1

theorem triple_chooseTarget (hfiles : task.resourceType = .files) :
    Ensures (s.logic M old i) (s.Fresh i) (chooseTarget lib mig task [] p) (s.Picked old i) := by
  refine Triple.bind (triple_still_fresh h hM (still_of_silent silent_firstName)) fun q => ?_
  refine Triple.bind (triple_only (Q := s.Fresh i)
    (fun _ => triple_still_fresh h hM (Within.perform rfl)) fun _ _ _ hP => hP) fun _ => ?_
  refine Triple.bind (triple_only (Q := s.Fresh i) (fun _ => Triple.throw fun _ _ _ => trivial)
    fun _ _ _ hP => hP) fun _ => ?_
  split_ifs with hdirect
  · refine Triple.pure fun w _ hw r hr => ⟨hw, fun hasks => ?_⟩
    -- a migration that asks first has no reason to go on without asking
    rw [hjob] at hasks
    simp only [Job.asksFirst, Migration.asksFirst, Bool.and_eq_true, Bool.or_eq_true,
      Bool.not_eq_true', decide_eq_true_eq] at hasks
    rcases hdirect with hne | hnative | hover
    · exact absurd rfl hne
    · rw [hasks.1] at hnative
      cases hnative
    · rcases hasks.2 with hmode | hmode
      · simp [Task.overwrites, hmode] at hover
      · simp [Task.overwrites, hmode] at hover
  · exact triple_resolveConflict h hM hjob hfiles

end

theorem stable_free (hM : M i) (hp : p ∈ (s.job i).targets s.lib) :
    (s.logic M old i).Stable (s.Free old i p) := by
  rintro w v hw hr hi
  refine ⟨stable_fresh hM hw.toFresh hr hi, hw.apart, fun hs => ?_⟩
  exact (hr hM).free hs (hw.lock hs) p hp (hw.free hs)

omit [DecidableEq ι] in
theorem not_shared_of_not_asksFirst (hasks : (s.job i).asksFirst = false) : ¬s.Shared i := by
  rintro ⟨j, -, k, hslot, -⟩
  obtain ⟨mig, task, metadata, hjob, -, hfirst, -⟩ := slot_migration hslot
  rw [hjob] at hasks
  exact absurd hfirst (by rw [show mig.asksFirst = false from hasks]; simp)

section

variable (h : s.Orderly M) (hM : M i) (hjob : s.job i = .migration mig task)
include h hM hjob

theorem triple_store_free (hp : p ∈ (s.job i).targets s.lib) (hne : p ≠ []) :
    Ensures (s.logic M old i) (s.Free old i p) (call (.updateResolvedTargetPath p))
      (fun _ => s.Bound i p) := by
  refine triple_step (stable_free hM hp) fun w o r v hi hw hx => ?_
  refine ⟨?_, ?_⟩
  · rcases effect_or hx with rfl | rfl
    · exact step_query (c := .prepare) (o := .ok) h hi rfl (by simp) rfl
    · refine step_store h hi hM hw.row hp hne (fun row hrow => ?_) hw.apart fun hs =>
        ⟨hw.lock hs, hw.free hs⟩
      rw [hjob]
      exact if_pos hrow
  · rcases effect_cases hx with ⟨rfl, rfl⟩ | ⟨fault, rfl, -⟩
    · refine ⟨?_, ?_⟩
      · rw [World.rows_setRow, hjob]
        exact if_neg hne
      · rw [World.rows_setRow, hw.row]
    · trivial

theorem triple_writeTarget_first (hfiles : task.resourceType = .files)
    (hp : p ∈ (s.job i).targets s.lib) (hne : p ≠ []) :
    Runs (s.logic M old i) (s.Free old i p) (writeTarget mig task [] p) := by
  refine Triple.bind (triple_only (Q := s.Bound i p) (fun _ => triple_store_free h hM hjob hp hne)
    fun hno => absurd ⟨hfiles, rfl⟩ hno) fun _ => ?_
  exact triple_transfer_has h hM hjob _

theorem triple_writeTarget_again (hne : stored ≠ []) :
    Runs (s.logic M old i) (s.Bound i stored) (writeTarget mig task stored stored) := by
  refine Triple.bind (triple_only (Q := s.Bound i stored) (fun hfirst => absurd hfirst.2 hne)
    fun _ _ _ hP => hP) fun _ => ?_
  exact triple_transfer_has h hM hjob _

end

section Attempt

variable {lib : GoLib} {metadata : Metadata} {stored : Text}

theorem still_chooseTarget (hne : stored ≠ []) :
    Within (fun c => c.isStill = true) (chooseTarget lib mig task stored p) := by
  refine Within.bind (still_of_silent silent_firstName) fun q => ?_
  refine Within.bind (within_only fun _ => Within.perform rfl) fun _ => ?_
  refine Within.bind (within_only fun _ => Within.throw _) fun _ => ?_
  rw [if_pos (.inl hne)]
  exact Within.pure _

section

variable (h : s.Orderly M) (hM : M i) (hjob : s.job i = .migration mig task)
include h hM hjob

theorem triple_lock_first
    (hmeta : task.metadata = some metadata) (hfiles : task.resourceType = .files) :
    Ensures (s.logic M old i) (fun w => w.rows i = {})
      (call (.lockTargetFile (task.target s.lib mig metadata))) (fun _ => s.Fresh i) := by
  refine triple_step (fun hw hr _ => (hr hM).row.trans hw) fun w o r v hi hw hx =>
    ⟨step_query h hi rfl (by simp) hx, ?_⟩
  have hfresh : s.Fresh i v := by
    refine ⟨?_, fun hs => ?_⟩
    · rw [(still_frame rfl hx).2]
      exact hw
    · obtain ⟨j, -, k, hslot, -⟩ := hs
      obtain ⟨mig', task', metadata', hjob', hmeta', -, rfl, hroot⟩ := slot_migration hslot
      rw [hjob] at hjob'
      cases hjob'
      rw [hmeta] at hmeta'
      cases hmeta'
      have hkey : s.key i = task.target s.lib mig metadata := by simp [Setting.key, hslot]
      rw [hkey]
      exact exec_lock ⟨target_ne_nil hfiles, hroot⟩ hx
  cases r with
  | ok _ => exact hfresh
  | error _ => trivial

theorem triple_transferFile_first (hmeta : task.metadata = some metadata) :
    Runs (s.logic M old i) (fun w => w.rows i = {}) (transferFile s.lib mig task [] metadata) := by
  have ht : (Job.migration mig task).Transfers := hjob ▸ h.transfers i hM
  have hfiles : task.resourceType = .files := ht.1
  have htargets : (s.job i).targets s.lib = finalNames s.lib mig (task.target s.lib mig metadata) := by
    simp [hjob, Job.targets, Task.targets, hmeta, ht.2 metadata hmeta, hfiles]
  have hpath : (if task.resourceType = .files ∧ ([] : Text) ≠ [] then []
      else task.target s.lib mig metadata) = task.target s.lib mig metadata :=
    if_neg fun hkeep => hkeep.2 rfl
  unfold transferFile
  rw [hpath]
  refine Triple.bind (triple_lock_first h hM hjob hmeta hfiles) fun _ => ?_
  refine Triple.bind ((triple_chooseTarget h hM hjob hfiles).and_gives (gives_chooseTarget hfiles))
    fun o => ?_
  cases o with
  | none => exact Triple.pure fun _ _ _ => trivial
  | some p =>
    intro w hi hP
    obtain ⟨hpicked, hchoice⟩ := hP
    obtain ⟨hfresh, hasked⟩ := hpicked p rfl
    have hp : p ∈ (s.job i).targets s.lib := by
      rcases hchoice p rfl with ⟨hne, -⟩ | ⟨-, hp⟩
      · exact absurd rfl hne
      · rwa [htargets]
    have hne : p ≠ [] := finalNames_ne_nil (target_ne_nil hfiles) p (htargets ▸ hp)
    have hfree : s.Free old i p w := by
      cases hasks : (s.job i).asksFirst with
      | true => exact hasked hasks
      | false =>
        refine ⟨hfresh, fun _ => h.own i hM hasks _ ⟨p, hp, .inl rfl⟩, fun hs => ?_⟩
        exact absurd hs (not_shared_of_not_asksFirst hasks)
    exact triple_writeTarget_first h hM hjob hfiles hp hne w hi hfree

theorem triple_transferFile_again (hne : stored ≠ []) :
    Runs (s.logic M old i) (s.Bound i stored) (transferFile lib mig task stored metadata) := by
  have ht : (Job.migration mig task).Transfers := hjob ▸ h.transfers i hM
  have hfiles : task.resourceType = .files := ht.1
  have hstill : ∀ {α : Type} {x : Work α}, Within (fun c => c.isStill = true) x →
      Ensures (s.logic M old i) (s.Bound i stored) x (fun _ => s.Bound i stored) := by
    intro α x hx
    exact (triple_still h (stable_bound hM) (fun _ _ hw _ hrows _ => hw.frame hrows) hx).drop
  unfold transferFile
  simp only [hfiles, ne_eq, hne, not_false_eq_true, and_self, if_true]
  refine Triple.bind (hstill (Within.perform rfl)) fun _ => ?_
  refine Triple.bind ((hstill (still_chooseTarget hne)).and_gives (gives_chooseTarget hfiles))
    fun o => ?_
  cases o with
  | none => exact Triple.pure fun _ _ _ => trivial
  | some p =>
    intro w hi hP
    have hp : p = stored := by
      rcases hP.2 p rfl with ⟨-, hp⟩ | ⟨hnil, -⟩
      · exact hp
      · exact absurd hnil hne
    subst hp
    exact triple_writeTarget_again h hM hjob hne w hi hP.1

theorem triple_processPrepared_has :
    Runs (s.logic M old i) (fun w => w.rows i = { resolved := stored })
      (processPrepared s.lib mig task stored) := by
  have ht : (Job.migration mig task).Transfers := hjob ▸ h.transfers i hM
  have hadmitted : Runs (s.logic M old i) (fun w => w.rows i = { resolved := stored })
      (processAdmitted s.lib mig task stored) := by
    unfold processAdmitted
    split
    · exact Triple.throw fun _ _ _ => trivial
    · rename_i metadata hmeta
      have hdir := ht.2 metadata hmeta
      rw [Task.isDirectory, Bool.or_eq_false_iff, decide_eq_false_iff_not] at hdir
      rw [if_neg (not_or.2 ⟨by simp [hdir.1], hdir.2⟩)]
      by_cases hne : stored = []
      · subst hne
        exact triple_transferFile_first h hM hjob hmeta
      · refine (triple_transferFile_again h hM hjob hne).pre (fun w _ hP => ?_)
        refine ⟨?_, by rw [hP]⟩
        rw [hP, hjob]
        exact if_neg hne
  unfold processPrepared
  rw [if_neg fun hsys => hsys.1 ht.1]
  refine Triple.bind ((triple_still h (fun hw hr _ => (hr hM).row.trans hw)
    (fun w v hw _ hrows _ => by rw [hrows]; exact hw)
    (still_of_silent silent_inPersonalVault)).drop) fun vault => ?_
  cases vault with
  | true => exact triple_skip h
  | false => exact hadmitted

end

end Attempt

end Migration

omit [DecidableEq ι] in
theorem fits_sync (hjob : s.job i = .sync job task) :
    s.Fits i (job.path task.dest task.filePath) (task.route job) := by
  refine ⟨?_, ?_, rfl, ?_, ?_⟩
  · simp [Setting.source, hjob, Job.source, SyncTask.route]
  · simp [hjob, Job.dest, SyncTask.route]
  · simp [hjob, Job.task, SyncTask.route]
  · rw [hjob]
    unfold SyncTask.route
    split_ifs with hs
    · exact .inr ⟨hs, rfl⟩
    · exact .inl rfl

theorem triple_rest_member (h : s.Orderly M) (hM : M i) :
    Runs (s.logic M old i) (fun w => w.rows i = { resolved := stored })
      ((s.job i).rest s.lib stored) := by
  cases hjob : s.job i with
  | migration mig task => exact triple_processPrepared_has h hM hjob
  | sync job task =>
    have ht : (Job.sync job task).Transfers := hjob ▸ h.transfers i hM
    have haction : syncAction s.lib job task = syncTransfer (task.route job) := by
      unfold syncAction
      rcases ht with hact | hact
      · rw [hact]
      · rw [hact]
    simp only [Job.rest, haction]
    refine (triple_syncTransfer_has h hM (fits_sync hjob)).pre (fun w _ hP => ⟨?_, by rw [hP]⟩)
    rw [hjob]
    rfl

theorem triple_program_member (h : s.Orderly M) (i : ι) :
    Runs (s.logic M old i) (fun w => M i → (w.rows i).progress = .unfinished)
      ((s.job i).program s.lib) := by
  rw [Job.program_eq]
  refine Triple.bind (triple_step (c := .prepare) (Q := fun stored w =>
      (stored = [] ∨ stored ∈ (s.job i).targets s.lib) ∧ (M i → w.rows i = { resolved := stored }))
    (E := fun _ _ => True) (fun hw hr _ hM => ?_) fun w o r v hi hw hx => ?_) fun stored => ?_
  · rw [(hr hM).row]
    exact hw hM
  · refine ⟨step_query h hi rfl (by simp) hx, ?_⟩
    rcases effect_cases hx with ⟨rfl, rfl⟩ | ⟨fault, rfl, -⟩
    · refine ⟨hi.stored i, fun hM => ?_⟩
      rw [← hw hM]
    · trivial
  · intro w hi hP
    by_cases hM : M i
    · exact triple_rest_member h hM w hi (hP.2 hM)
    · exact triple_outsider h hM hP.1 w hi trivial

def Setting.sharing (s : Setting ι) (old : GoMap Location Content) (h : s.Orderly M) :
    Crew.Proof s.crew (s.Settles M) where
  inv := s.Inv M old
  rely i w v := M i → s.Relies old i w v
  guar := s.SourcesKept M
  rely_refl _ w _ := .refl w
  rely_trans h h' hM := (h hM).trans (h' hM)
  guar_refl _ _ _ := .inl rfl
  leave := by
    intro i l w hl hi hok
    have hstep : s.Step M old i w (w.unlock i) := step_leave h hi (hok i hl)
    exact ⟨hstep.inv, hstep.sources, hstep.relies⟩
  program := by
    intro i w hi _ hready
    refine wp_bind (wp_mono (fun _ _ _ => trivial) (triple_program_member h i w hi fun _ => ?_))
    exact of_decide_eq_true hready

end Clumoove.Transfer
