import Clumoove.Sanity.Sync.Finalisation

/-! The removal of empty directories: which go, which stay and why, and what it leaves in the
listings. -/

namespace Clumoove.Sync

open PathTree List

section Providers

variable {job : Job} {cleans : CleanupCandidate → Bool} {x : Cleanup} {c : CleanupCandidate}
variable {l candidates : List CleanupCandidate} {trees : Sided Tree} {s : Side} {p : Path}

def CleanupCandidate.path (job : Job) (c : CleanupCandidate) : Path :=
  absPath (job.base c.side) c.relPath

def CleanupCandidate.Blocked (job : Job) (c : CleanupCandidate) (trees : Sided Tree) : Prop :=
  ((trees.on c.side).file (c.path job)).isSome ∨
    ∃ name, ((trees.on c.side).get (c.path job ++ [name])).isSome

inductive CleanupStep (job : Job) (cleans : CleanupCandidate → Bool) (x : Cleanup)
    (c : CleanupCandidate) : Cleanup → Prop
  | kept : (cleans c = true → (job.providers.on c.side).directoryDeletion = .deletes →
      c.Blocked job x.trees) → CleanupStep job cleans x c x
  | absent : (x.trees.on c.side).get (c.path job) = none →
      CleanupStep job cleans x c { x with removed := x.removed ++ [c] }
  | removed {tree : Tree} : (job.providers.on c.side).directoryDeletion = .deletes →
      (x.trees.on c.side).isDir (c.path job) = true →
      (x.trees.on c.side).remove (c.path job) = some tree →
      CleanupStep job cleans x c
        { trees := x.trees.update c.side tree, removed := x.removed ++ [c] }
  | ignored : (job.providers.on c.side).directoryDeletion = .ignores →
      CleanupStep job cleans x c { x with removed := x.removed ++ [c] }

theorem not_ignores {provider : Transfer.Provider} (h : provider.createsDirectories = true) :
    provider.directoryDeletion ≠ .ignores := by
  revert h
  cases provider <;> decide

theorem cleanupDirectory_step (job : Job) (cleans : CleanupCandidate → Bool) (x : Cleanup)
    (c : CleanupCandidate) : CleanupStep job cleans x c (cleanupDirectory job cleans x c) := by
  unfold cleanupDirectory
  by_cases hc : cleans c = true
  · rw [if_pos hc]
    split
    · next h => exact .absent h
    · next f h => exact .kept fun _ _ => .inl (by rw [CleanupCandidate.path, Tree.file_eq_some.2 h]; rfl)
    · next tag h =>
      split_ifs with hchildren
      · obtain ⟨q, hq⟩ := exists_mem_of_ne_nil _ hchildren
        obtain ⟨name, rfl, hname⟩ := Tree.mem_children.1 hq
        exact .kept fun _ _ => .inr ⟨name, hname⟩
      · split
        · next hdeletes =>
          exact .removed hdeletes (Tree.isDir_iff.2 ⟨tag, h⟩) (Tree.remove_eq_prune (not_not.1 hchildren))
        · next hrefuses => exact .kept fun _ hdeletes => by rw [hrefuses] at hdeletes; cases hdeletes
        · next hignores => exact .ignored hignores
  · rw [if_neg hc]
    exact .kept fun h => absurd h hc

section

variable (h : CleanupStep job cleans x c x')
include h

theorem CleanupStep.file_eq :
    fileAt job x'.trees s p = fileAt job x.trees s p := by
  cases h with
  | kept | absent | ignored => rfl
  | removed _ hd hr =>
    rw [fileAt_update]
    split_ifs with hs
    · subst hs
      rw [Tree.remove_file_eq hr]
      split_ifs with hp
      · -- a directory was there, no file
        obtain ⟨tag, htag⟩ := Tree.isDir_iff.1 hd
        simp only [fileAt, hp, Tree.file, htag]
      · rfl
    · rfl

theorem CleanupStep.dir_or_removed (hd : dirAt job x.trees s p = true) :
    dirAt job x'.trees s p = true ∨ ⟨p, s⟩ ∈ x'.removed := by
  cases h with
  | kept | absent | ignored => exact .inl hd
  | removed _ _ hr =>
    rw [dirAt_update]
    split_ifs with hs
    · subst hs
      rw [Tree.remove_isDir hr, CleanupCandidate.path, ne_eq, absPath_inj]
      by_cases hp : p = c.relPath
      · exact .inr (by simp [hp])
      · exact .inl ⟨hd, hp⟩
    · exact .inl hd

theorem CleanupStep.of_dir (hs : (job.providers.on s).directoryDeletion ≠ .ignores)
    (hd : dirAt job x'.trees s p = true) :
    dirAt job x.trees s p = true ∧ (⟨p, s⟩ ∈ x'.removed → ⟨p, s⟩ ∈ x.removed) := by
  have hmem : (⟨p, s⟩ : CleanupCandidate) ≠ c → ⟨p, s⟩ ∈ x.removed ++ [c] → ⟨p, s⟩ ∈ x.removed :=
    fun hne h => (mem_append.1 h).resolve_right fun h => hne (mem_singleton.1 h)
  cases h with
  | kept _ => exact ⟨hd, id⟩
  | absent hn =>
    refine ⟨hd, hmem ?_⟩
    rintro rfl
    obtain ⟨tag, htag⟩ := Tree.isDir_iff.1 hd
    simp only [CleanupCandidate.path] at hn
    rw [hn] at htag
    cases htag
  | removed _ _ hr =>
    rw [dirAt_update] at hd
    split_ifs at hd with hside
    · subst hside
      rw [Tree.remove_isDir hr] at hd
      refine ⟨hd.1, hmem fun hc => hd.2 ?_⟩
      rw [CleanupCandidate.path, ← hc]
    · refine ⟨hd, hmem ?_⟩
      rintro rfl
      exact hside rfl
  | ignored hi =>
    refine ⟨hd, hmem ?_⟩
    rintro rfl
    exact hs hi

theorem CleanupStep.get_eq (hq : q ≠ c.path job) : (x'.trees.on s).get q = (x.trees.on s).get q := by
  cases h with
  | kept | absent | ignored => rfl
  | removed _ _ hr =>
    rw [Sided.on_update]
    split_ifs with hs
    · subst hs
      rw [(Tree.remove_eq_some hr).2, if_neg hq]
    · rfl

theorem CleanupStep.other_side (hs : s ≠ c.side) : x'.trees.on s = x.trees.on s := by
  cases h with
  | kept | absent | ignored => rfl
  | removed => rw [Sided.on_update, if_neg hs]

theorem CleanupStep.not_deleted (hs : (job.providers.on s).directoryDeletion ≠ .deletes) :
    x'.trees.on s = x.trees.on s := by
  cases h with
  | kept | absent | ignored => rfl
  | removed hdeletes =>
    rw [Sided.on_update, if_neg]
    rintro rfl
    exact hs hdeletes

/-! All candidates. -/

end

def cleanupOrder (candidates : List CleanupCandidate) : List CleanupCandidate :=
  (candidates.filter (·.relPath ≠ [])).dedup.insertionSort CleanupCandidate.before

theorem mem_cleanupOrder : c ∈ cleanupOrder candidates ↔ c ∈ candidates ∧ c.relPath ≠ [] := by
  simp [cleanupOrder, mem_insertionSort, mem_dedup]

theorem foldl_cleanup_file (l : List CleanupCandidate) (x : Cleanup) :
    fileAt job (l.foldl (cleanupDirectory job cleans) x).trees s p = fileAt job x.trees s p :=
  List.foldlRecOn l _ (motive := fun x' : Cleanup => fileAt job x'.trees s p = fileAt job x.trees s p)
    rfl fun x' hx' c _ => (cleanupDirectory_step job cleans x' c).file_eq.trans hx'

theorem cleanup_file : fileAt job (cleanupEmptyDirectories job cleans trees candidates).trees s p
      = fileAt job trees s p :=
  foldl_cleanup_file _ _

theorem CleanupStep.removed_mono
    (h : CleanupStep job cleans x c x') (hd : d ∈ x.removed) : d ∈ x'.removed := by
  cases h with
  | kept _ => exact hd
  | absent | removed | ignored => exact mem_append_left _ hd

theorem foldl_cleanup_dir_or_removed (l : List CleanupCandidate) (hd : dirAt job trees s p = true) :
    dirAt job (l.foldl (cleanupDirectory job cleans) { trees := trees }).trees s p = true ∨
      ⟨p, s⟩ ∈ (l.foldl (cleanupDirectory job cleans) { trees := trees }).removed := by
  refine List.foldlRecOn l (cleanupDirectory job cleans)
    (motive := fun x : Cleanup => dirAt job x.trees s p = true ∨ ⟨p, s⟩ ∈ x.removed)
    (b := { trees := trees }) (.inl hd) fun x hx c _ => ?_
  have hstep := cleanupDirectory_step job cleans x c
  exact hx.elim hstep.dir_or_removed fun h => .inr (hstep.removed_mono h)

theorem cleanup_dir (hs : (job.providers.on s).directoryDeletion ≠ .ignores) :
    dirAt job (cleanupEmptyDirectories job cleans trees candidates).trees s p = true ↔
      dirAt job trees s p = true ∧
        ⟨p, s⟩ ∉ (cleanupEmptyDirectories job cleans trees candidates).removed := by
  constructor
  · refine List.foldlRecOn (cleanupOrder candidates) (cleanupDirectory job cleans)
      (motive := fun x : Cleanup => dirAt job x.trees s p = true → dirAt job trees s p = true ∧
        ⟨p, s⟩ ∉ x.removed) (b := { trees := trees }) (fun hd => ⟨hd, not_mem_nil⟩) fun x hx c _ hd => ?_
    obtain ⟨hd, hmem⟩ := (cleanupDirectory_step job cleans x c).of_dir hs hd
    exact ⟨(hx hd).1, fun h => (hx hd).2 (hmem h)⟩
  · rintro ⟨hd, hnot⟩
    exact (foldl_cleanup_dir_or_removed _ hd).resolve_right hnot

theorem cleanup_not_deleted (hs : (job.providers.on s).directoryDeletion ≠ .deletes) :
    (cleanupEmptyDirectories job cleans trees candidates).trees.on s = trees.on s :=
  List.foldlRecOn (cleanupOrder candidates) (cleanupDirectory job cleans)
    (motive := fun x : Cleanup => x.trees.on s = trees.on s) (b := { trees := trees }) rfl
    fun x hx c _ => ((cleanupDirectory_step job cleans x c).not_deleted hs).trans hx

theorem cleanup_removed (h : c ∈ (cleanupEmptyDirectories job cleans trees candidates).removed) :
    c ∈ candidates ∧ c.relPath ≠ [] := by
  refine mem_cleanupOrder.1 ?_
  refine List.foldlRecOn (cleanupOrder candidates) (cleanupDirectory job cleans)
    (motive := fun x : Cleanup => c ∈ x.removed → c ∈ cleanupOrder candidates)
    (fun h => by cases h) (fun x hx c' hc' h => ?_) h
  have hstep := cleanupDirectory_step job cleans x c'
  generalize cleanupDirectory job cleans x c' = x' at hstep h
  cases hstep with
  | kept _ => exact hx h
  | absent | removed | ignored =>
    rcases mem_append.1 h with h | h
    · exact hx h
    · exact mem_singleton.1 h ▸ hc'

theorem cleanupOrder_sorted (candidates : List CleanupCandidate) :
    (cleanupOrder candidates).Pairwise fun c d => d.relPath.length ≤ c.relPath.length := by
  have : Std.Total CleanupCandidate.before := by
    refine ⟨fun c d => ?_⟩
    rcases lt_trichotomy c.relPath.length d.relPath.length with h | h | h
    · exact .inr (.inl h)
    · exact (le_total c.text d.text).imp (fun ht => .inr ⟨h, ht⟩) fun ht => .inr ⟨h.symm, ht⟩
    · exact .inl (.inl h)
  have : IsTrans CleanupCandidate CleanupCandidate.before := by
    refine ⟨fun c d e h₁ h₂ => ?_⟩
    rcases h₁ with h₁ | ⟨h₁, t₁⟩ <;> rcases h₂ with h₂ | ⟨h₂, t₂⟩
    · exact .inl (h₂.trans h₁)
    · exact .inl (h₂ ▸ h₁)
    · exact .inl (h₁ ▸ h₂)
    · exact .inr ⟨h₁.trans h₂, t₁.trans t₂⟩
  refine (pairwise_insertionSort _ _).imp ?_
  rintro c d (h | ⟨h, -⟩)
  · exact h.le
  · exact h.ge

/-- What blocks a candidate is not in the way of one that is not deeper. -/
theorem CleanupStep.blocked
    (h : CleanupStep job cleans x d x') (hlen : d.relPath.length ≤ c.relPath.length)
    (hb : c.Blocked job x.trees) : c.Blocked job x'.trees := by
  rcases hb with hb | ⟨name, hname⟩
  · left
    have hf := h.file_eq (s := c.side) (p := c.relPath)
    unfold fileAt at hf
    rw [CleanupCandidate.path, hf]
    exact hb
  · refine .inr ⟨name, ?_⟩
    by_cases hs : d.side = c.side
    · rw [h.get_eq]
      · exact hname
      · intro heq
        have := congrArg List.length heq
        simp only [CleanupCandidate.path, absPath, hs, length_append, length_singleton] at this
        omega
    · rw [h.other_side (Ne.symm hs)]
      exact hname

theorem cleanup_blocked (hc : c ∈ candidates) (hne : c.relPath ≠ []) (hcl : cleans c = true)
    (hdel : (job.providers.on c.side).directoryDeletion = .deletes)
    (hnot : c ∉ (cleanupEmptyDirectories job cleans trees candidates).removed) :
    c.Blocked job (cleanupEmptyDirectories job cleans trees candidates).trees := by
  have hsorted := cleanupOrder_sorted candidates
  have hmem : c ∈ cleanupOrder candidates := mem_cleanupOrder.2 ⟨hc, hne⟩
  have hfold : cleanupEmptyDirectories job cleans trees candidates
    = (cleanupOrder candidates).foldl (cleanupDirectory job cleans) { trees := trees } := rfl
  rw [hfold] at hnot ⊢
  obtain ⟨l₁, l₂, hl⟩ := append_of_mem hmem
  rw [hl, pairwise_append, pairwise_cons] at hsorted
  rw [hl, foldl_append, foldl_cons] at hnot ⊢
  generalize l₁.foldl (cleanupDirectory job cleans) { trees := trees } = x at hnot ⊢
  refine (List.foldlRecOn l₂ (cleanupDirectory job cleans)
    (motive := fun x : Cleanup => c ∈ x.removed ∨ c.Blocked job x.trees) ?_
    fun x hx d hd => ?_).resolve_left hnot
  · have hstep := cleanupDirectory_step job cleans x c
    generalize cleanupDirectory job cleans x c = x' at hstep ⊢
    cases hstep with
    | kept hb => exact .inr (hb hcl hdel)
    | absent | removed | ignored => exact .inl (mem_append_right _ mem_cons_self)
  · have hstep := cleanupDirectory_step job cleans x d
    exact hx.imp hstep.removed_mono (hstep.blocked (hsorted.2.1.1 d hd))

end Providers

section Listings

variable {scans : Sided Scan} {removed : List CleanupCandidate} {s : Side} {p : Path}

theorem applyCleanup_files : ((applyCleanup scans removed).on s).files = (scans.on s).files := by
  refine List.foldlRecOn removed _
    (motive := fun x : Sided Scan => (x.on s).files = (scans.on s).files) rfl fun x hx c _ => ?_
  rw [Sided.on_update]
  split_ifs with hs
  · rw [Scan.invalidate_files, ← hs, hx]
  · exact hx

theorem mem_applyCleanup_dirs :
    p ∈ ((applyCleanup scans removed).on s).dirs ↔ p ∈ (scans.on s).dirs ∧ ⟨p, s⟩ ∉ removed := by
  unfold applyCleanup
  induction removed generalizing scans with
  | nil => simp
  | cons c removed ih =>
    rw [foldl_cons, ih, Sided.on_update, mem_cons, not_or]
    split_ifs with hs
    · subst hs
      rw [Scan.invalidate_dirs, mem_filter, decide_eq_true_eq, and_assoc]
      refine and_congr_right fun _ => and_congr_left fun _ => not_congr ⟨?_, ?_⟩
      · rintro rfl
        rfl
      · intro h
        rw [← h]
    · refine and_congr_right fun _ => (and_iff_right ?_).symm
      rintro rfl
      exact hs rfl

/-- A removed directory takes its ETag and those above it out of the listing. -/
def CleanupCandidate.Stales (c : CleanupCandidate) (s : Side) (d : Path) : Prop :=
  c.side = s ∧ (d <+: c.relPath.dropLast ∨ d = c.relPath)

theorem applyCleanup_etags : ((applyCleanup scans removed).on s).etags.get p = some e ↔
      (scans.on s).etags.get p = some e ∧ ∀ c ∈ removed, ¬ c.Stales s p := by
  unfold applyCleanup
  induction removed generalizing scans with
  | nil => simp
  | cons c removed ih =>
    rw [foldl_cons, ih, Sided.on_update, forall_mem_cons, ← and_assoc]
    refine and_congr_left fun _ => ?_
    unfold CleanupCandidate.Stales
    split_ifs with hs
    · subst hs
      rw [Scan.invalidate_etags, GoMap.get_erase]
      split_ifs with h₁ h₂
      · simp [h₁]
      · simp [h₂]
      · simp [h₁, h₂]
    · simp [Ne.symm hs]

variable {m : Snapshot}

theorem invalidateProtected_on : (invalidateProtected m).scans.on s
    = m.protectedPaths.foldl (fun scan p => scan.invalidate p) (m.scans.on s) := by
  rw [invalidateProtected, Sided.on_mk']

@[simp] theorem invalidateProtected_files :
    ((invalidateProtected m).scans.on s).files = (m.scans.on s).files := by
  rw [invalidateProtected_on]
  exact List.foldlRecOn m.protectedPaths _
    (motive := fun scan : Scan => scan.files = (m.scans.on s).files) rfl fun _ h _ _ => h

@[simp] theorem invalidateProtected_dirs :
    ((invalidateProtected m).scans.on s).dirs = (m.scans.on s).dirs := by
  rw [invalidateProtected_on]
  exact List.foldlRecOn m.protectedPaths _
    (motive := fun scan : Scan => scan.dirs = (m.scans.on s).dirs) rfl fun _ h _ _ => h

theorem invalidateProtected_etags : ((invalidateProtected m).scans.on s).etags.get p = some e ↔
      (m.scans.on s).etags.get p = some e ∧ ∀ q ∈ m.protectedPaths, ¬ p <+: q.dropLast := by
  rw [invalidateProtected_on]
  generalize m.scans.on s = scan
  induction m.protectedPaths generalizing scan with
  | nil => simp
  | cons q l ih =>
    rw [foldl_cons, ih, forall_mem_cons, ← and_assoc, Scan.invalidate_etags]
    refine and_congr_left fun _ => ?_
    split_ifs with h <;> simp [h]

end Listings

end Clumoove.Sync
