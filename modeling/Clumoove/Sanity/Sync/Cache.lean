import Clumoove.Sanity.Sync.Rows

/-! The stored ETags of directories. As long as no path changes between file and directory, the
rows below a stored ETag are what was below the directory when the provider reported it. -/

namespace Clumoove.Sync

open PathTree List Option

section Stored

variable {s : Side} {rows : GoMap Path Row} {tree : Tree} {p : Path} {e : String}

theorem stored_eq_dir : stored s rows p = some (.dir e) ↔ (prevDirETags rows).get p = some e := by
  unfold stored
  rw [prevDirETags_eq_some, map_eq_some_iff]
  refine exists_congr fun r => and_congr_right fun _ => ?_
  cases r.isDir <;> simp

theorem stored_files : ((prevFiles rows).get p).map (·.state s)
    = (stored s rows p).bind fun n => match n with | .file fs => some fs | .dir _ => none := by
  rw [prevFiles_get, stored]
  cases h : rows.get p with
  | none => rfl
  | some r => cases hd : r.isDir <;> simp [Option.filter, hd]

theorem stored_etags : (prevDirETags rows).get p
    = (stored s rows p).bind fun n => match n with | .file _ => none | .dir e => some e := by
  rw [prevDirETags_get, stored]
  cases h : rows.get p with
  | none => rfl
  | some r => cases hd : r.isDir <;> simp [Option.filter, hd]

theorem reported_files : (tree.file p).map File.state
    = (reported tree p).bind fun n => match n with | .file fs => some fs | .dir _ => none := by
  unfold Tree.file reported
  cases tree.get p with
  | none => rfl
  | some n => cases n <;> rfl

theorem reported_etags : tree.dir p
    = (reported tree p).bind fun n => match n with | .file _ => none | .dir e => some e := by
  unfold Tree.dir reported
  cases tree.get p with
  | none => rfl
  | some n => cases n <;> rfl

end Stored

/-- Below every stored ETag, the rows are the version of that ETag. -/
def CacheSound (job : Job) (versions : Side → Versions) (rows : Baseline) : Prop :=
  ∀ s d e, e ≠ "" → stored s (rows.on s) d = some (.dir e) → ∀ q, q ≠ [] →
    stored s (rows.on s) (d ++ q) = versions s (absPath (job.base s) d) e q

theorem CacheSound.valid (h : CacheSound job versions rows) (ht : Honors (versions s) tree) :
    (storedCache (job.base s) s (rows.on s)).Valid tree := by
  intro d e he hd hdir q
  obtain ⟨d, rfl⟩ := storedCache_below hd
  rw [storedCache_etags, ← stored_eq_dir (s := s)] at hd
  by_cases hq : q = []
  · -- the directory itself: its row is no file's
    subst hq
    rw [append_nil, storedCache_files, storedCache_etags, stored_files, stored_etags (s := s), hd,
      hdir]
    refine ⟨?_, rfl⟩
    have hfile : tree.file (absPath (job.base s) d) = none := by
      rw [Tree.file, Tree.dir_eq_some.1 hdir]
    rw [hfile]
    rfl
  · have heq : stored s (rows.on s) (d ++ q) = reported tree (absPath (job.base s) d ++ q) := by
      rw [h s d e he hd q hq, ht _ e he hdir q hq]
    have habs : absPath (job.base s) d ++ q = absPath (job.base s) (d ++ q) := by
      simp [absPath]
    rw [habs] at heq ⊢
    rw [storedCache_files, storedCache_etags, stored_files, stored_etags (s := s), heq]
    exact ⟨reported_files.symm, reported_etags.symm⟩

/-! A pass. -/

section Pass

variable {job : Job} {sanitize : Sanitizer} {s : Side} {d p q : Path} {e : String}

def Below (d p : Path) : Prop := ∃ q, q ≠ [] ∧ p = d ++ q

theorem Below.dropLast (h : Below d p) : d <+: p.dropLast := by
  obtain ⟨q, hq, rfl⟩ := h
  rw [dropLast_append_of_ne_nil hq]
  exact prefix_append d _

theorem Below.trans_prefix (h : Below d p) (hp : p <+: q) : Below d q := by
  obtain ⟨r, hr, rfl⟩ := h
  obtain ⟨r', rfl⟩ := hp
  exact ⟨r ++ r', by simp [hr], by simp⟩

/-- Nothing in the pass has to do with the path on this side. -/
structure Quiet (job : Job) (sanitize : Sanitizer) (course : Course) (st : State) (pl : Plan)
    (s : Side) (p : Path) : Prop where
  free : p ∉ (finalSnapshot job sanitize course st pl).protectedPaths
  task : ∀ t, (t, true) ∈ (afterTasks job sanitize course st).done → t.dest = s → t.filePath ≠ p
  kept : ⟨p, s⟩ ∉ (afterCleanup job sanitize course st pl).removed

section

variable {st : State} {x : Pass job sanitize st}

/-- An ETag that a pass leaves was listed, and nothing happened below its directory. -/
theorem quiet_below_etag (h : (x.final.scans.on s).etags.get d = some e) :
    ∀ p, Below d p → Quiet job sanitize x.course st x.pl s p := by
  obtain ⟨hrec, hprot, hremoved⟩ := x.final_etags.1 h
  have hfree : ∀ p, Below d p → p ∉ x.final.protectedPaths :=
    fun p hp hmem => hprot p hmem hp.dropLast
  refine fun p hp => ⟨hfree p hp, ?_, ?_⟩
  · rintro t ht hs rfl
    -- a completed operation there takes the ETag away, unless its path is protected
    rcases reconcile_etag_stale (mem_completedOperations.2 ht) ⟨hs, .inl hp.dropLast⟩ with hmem | hnone
    · exact hfree _ hp hmem
    · rw [reconciled, hnone] at hrec
      cases hrec
  · intro hmem
    exact hremoved _ hmem ⟨rfl, .inl hp.dropLast⟩

variable (hall : ∀ p', p <+: p' → Quiet job sanitize x.course st x.pl s p')
include hall

theorem Quiet.files : (x.final.scans.on s).files.get p = (x.listed s).files.get p := by
  rw [x.final_files, reconciled, reconcile_file_eq, x.scans_on]
  rintro op hop ⟨-, hs, hp⟩
  exact (hall p (prefix_refl p)).task op (mem_completedOperations.1 hop) hs hp

theorem Quiet.dirs : p ∈ (x.final.scans.on s).dirs ↔ p ∈ (x.listed s).dirs := by
  have hq := hall p (prefix_refl p)
  rw [x.mem_final_dirs, and_iff_left hq.kept, ← x.scans_on]
  constructor
  · intro h
    refine (reconcile_mem_dirs h).resolve_right ?_
    rintro ⟨op, hop, -, hs, hp⟩
    exact hq.task op (mem_completedOperations.1 hop) hs hp
  · intro h
    refine (reconcile_dirs (fun op hop ⟨_, hs, hp⟩ => ?_) (.inl h)).resolve_left hq.free
    exact hq.task op (mem_completedOperations.1 hop) hs hp

theorem Quiet.etags : (x.final.scans.on s).etags.get p = (x.listed s).etags.get p := by
  have hrec : ((reconciled job sanitize x.course st x.pl).scans.on s).etags.get p
      = (x.listed s).etags.get p := by
    rw [reconciled, reconcile_etag_eq, x.scans_on]
    rintro op hop ⟨hs, hp⟩
    refine (hall op.filePath ?_).task op (mem_completedOperations.1 hop) hs rfl
    rcases hp with hp | ⟨-, rfl⟩
    · exact hp.trans (List.dropLast_prefix _)
    · exact prefix_refl _
  refine Option.ext fun e => ?_
  rw [x.final_etags, hrec]
  refine and_iff_left ⟨fun q hq hp => ?_, fun c hc hst => ?_⟩
  · exact (hall q (hp.trans (List.dropLast_prefix _))).free hq
  · obtain ⟨q, s'⟩ := c
    obtain ⟨rfl, hp⟩ := hst
    refine (hall q ?_).kept hc
    rcases hp with hp | rfl
    · exact hp.trans (List.dropLast_prefix _)
    · exact prefix_refl _

theorem stored_of_quiet (hclash : NoClash job st) (hscope : job.Scope s p) :
    stored s ((newBaseline st.rows x.final).on s) p
      = reported (st.trees.on s) (absPath (job.base s) p) := by
  have hfree := (hall p (prefix_refl p)).free
  have hlist := x.current s
  have hfiles := Quiet.files hall
  have hdirs := Quiet.dirs hall
  have hetags := Quiet.etags hall
  unfold reported
  cases hg : (st.trees.on s).get (absPath (job.base s) p) with
  | none =>
    have hnone : (x.listed s).files.get p = none ∧ p ∉ (x.listed s).dirs := by
      refine ⟨eq_none_iff_forall_ne_some.2 fun fs h => ?_, fun h => ?_⟩
      · simpa [fileAt, Tree.file, hg] using ((hlist.file p fs).1 h).2
      · simpa [dirAt, Tree.isDir, Tree.dir, hg] using ((hlist.dir p).1 h).2
    rw [stored, map_eq_none_iff]
    by_contra hne
    obtain ⟨r, hr⟩ := ne_none_iff_exists'.1 hne
    cases hd : r.isDir with
    | false =>
      rcases file_row_after hr hd with ⟨hprot, -⟩ | ⟨-, fs, hfs, -⟩
      · exact hfree hprot
      · rw [hfiles, hnone.1] at hfs
        cases hfs
    | true =>
      rcases dir_row_after hr hd (fun _ => x.final_file_size) x.final_etag_ne_empty with
        ⟨hmem, -⟩ | ⟨e, he, -⟩
      · exact hnone.2 (hdirs.1 hmem)
      · exact hnone.2 (x.listed_of_etag (x.of_final_etag he))
  | some n =>
    cases n with
    | file f =>
      have hat : fileAt job st.trees s p = some f := Tree.file_eq_some.2 hg
      have hnodir : ∀ s', ¬ st.KnowsDir job s' p :=
        fun s' h => hclash p s s' ⟨.inl (isSome_iff_exists.2 ⟨f, hat⟩), h⟩
      rw [stored, x.row_after hnodir, if_neg hfree, hfiles, x.listed_file_eq hscope, hat]
      have hrow : (f.state.row s).isDir = false := FileState.row_not_dir s (by simp [File.state])
      simp [hrow]
    | dir e =>
      have hdir : (st.trees.on s).dir (absPath (job.base s) p) = some e := Tree.dir_eq_some.2 hg
      have hat : dirAt job st.trees s p = true := by rw [dirAt, Tree.isDir, hdir]; rfl
      have hmem := (hlist.dir p).2 ⟨hscope, hat⟩
      have hkept : ¬ RowDeleted st.rows x.final s p := by
        rintro (⟨hk, -, -⟩ | ⟨-, h, -⟩)
        · -- no path is a file here and a directory there
          rcases mem_allKeys.1 hk with ⟨s', hs'⟩ | ⟨s', r, hr, hrow⟩
          · obtain ⟨s'', hs''⟩ := x.final_file_origin hfree hs'
            exact hclash p s'' s ⟨.inl hs'', .inl hat⟩
          · exact hclash p s' s ⟨.inr ⟨r, hr, hrow⟩, .inl hat⟩
        · exact h (hdirs.2 hmem)
      rw [stored, newBaseline_get hkept]
      by_cases he : e = ""
      · have hnoetag : (x.listed s).etags.get p = none := by
          refine eq_none_iff_forall_ne_some.2 fun e' h => ?_
          obtain ⟨-, h, hne⟩ := (hlist.etag p e').1 h
          rw [hdir] at h
          cases h
          exact hne he
        rw [if_pos ⟨hdirs.2 hmem, by rw [hetags, hnoetag]⟩]
        simp [dirRow, Row.isDir, he]
      · have hetag := (hlist.etag p e).2 ⟨hscope, hdir, he⟩
        rw [if_neg (by simp [hetags, hetag]), hetags, hetag]
        simp [dirRow, Row.isDir, he]

end

theorem CacheSound.newBaseline (x : Pass job sanitize st)
    (hclash : NoClash job st) (hhonors : ∀ s, Honors (versions s) (st.trees.on s)) :
    CacheSound job versions (newBaseline st.rows x.final) := by
  intro s d e he hd q hq
  -- the ETag was listed in this pass
  have hetag : (x.final.scans.on s).etags.get d = some e := by
    obtain ⟨r, hr, hdir, rfl⟩ := prevDirETags_eq_some.1 (stored_eq_dir.1 hd)
    rcases dir_row_after hr hdir (fun _ => x.final_file_size) x.final_etag_ne_empty with
      ⟨-, -, rfl⟩ | ⟨e, he', rfl⟩
    · exact absurd rfl he
    · exact he'
  have hquiet := quiet_below_etag hetag
  obtain ⟨hscope, hdir, -⟩ := ((x.current s).etag d e).1 (x.of_final_etag hetag)
  have hbelow : Below d (d ++ q) := ⟨q, hq, rfl⟩
  rw [stored_of_quiet (fun p' hp' => hquiet p' (hbelow.trans_prefix hp')) hclash
    (hscope.below (prefix_append d q))]
  have habs : absPath (job.base s) (d ++ q) = absPath (job.base s) d ++ q := by
    simp [absPath]
  rw [habs]
  exact hhonors s _ e he hdir q hq

theorem CacheSound.runSyncPass
    (hfit : course.FitsState job st) (hclash : NoClash job st) (h : CacheSound job versions st.rows)
    (hhonors : ∀ s, Honors (versions s) (st.trees.on s)) :
    CacheSound job versions (runSyncPass job sanitize course st).rows := by
  unfold Sync.runSyncPass
  cases hpl : plan job course st with
  | none => exact h
  | some pl =>
    unfold finishPass
    split_ifs
    · have hcur := current_of_valid (fun s => h.valid (hhonors s)) hpl
      exact CacheSound.newBaseline ⟨course, pl, hpl, hfit pl hpl, hcur⟩ hclash hhonors
    · exact h

/-- Along every run whose passes meet the conditions, the stored ETags are sound. -/
theorem Reaches.cacheSound
    (hok : ∀ course st, ok course st → NoClash job st ∧ ∀ s, Honors (versions s) (st.trees.on s))
    (hrun : Reaches job sanitize ok h) : CacheSound job versions h.st.rows := by
  induction hrun with
  | start trees =>
    intro s d e _ hd
    cases s <;> cases hd
  | edit trees _ ih => exact ih
  | pass _ hfit hp ih =>
    obtain ⟨hclash, hhonors⟩ := hok _ _ hp
    exact ih.runSyncPass hfit hclash hhonors

end Pass

end Clumoove.Sync
