import Clumoove.Sanity.Sync.Outcome

/-! The directories after a two-way pass. Once the files of the two sides are at the same paths,
so are the directories: one that is missing on a side is created there, or removed here unless
something is left in it. -/

namespace Clumoove.Sync

open PathTree List

section Trees

variable {job : Job} {trees : Sided Tree} {s : Side} {p q : Path}

theorem dirAt_prefix (h : dirAt job trees s q = true) (hp : p <+: q) : dirAt job trees s p = true := by
  obtain ⟨r, rfl⟩ := hp
  by_cases hr : r = []
  · rwa [hr, append_nil] at h
  · unfold dirAt absPath at h ⊢
    rw [← append_assoc] at h
    exact Tree.isDir_of_below hr (Tree.get_isSome_iff.2 (.inr h))

theorem dirAt_above_file (h : (fileAt job trees s q).isSome) (hp : p <+: q) (hne : p ≠ q) :
    dirAt job trees s p = true := by
  obtain ⟨r, rfl⟩ := hp
  have hr : r ≠ [] := by
    rintro rfl
    exact hne (append_nil p).symm
  unfold fileAt absPath at h
  rw [← append_assoc] at h
  exact Tree.isDir_of_below hr (Tree.get_isSome_iff.2 (.inl h))

def depth (trees : Sided Tree) (s : Side) : ℕ :=
  ((trees.on s).nodes.keys.map List.length).foldr max 0

theorem length_le_depth (h : dirAt job trees s p = true) : p.length ≤ depth trees s := by
  have hmem : absPath (job.base s) p ∈ (trees.on s).nodes.keys :=
    GoMap.mem_keys.2 (Tree.get_isSome_iff.2 (.inr h))
  have hle : ∀ (l : List ℕ) n, n ∈ l → n ≤ l.foldr max 0 := by
    intro l n hn
    induction l with
    | nil => cases hn
    | cons a l ih =>
      rcases mem_cons.1 hn with rfl | hn
      · exact le_max_left _ _
      · exact (ih hn).trans (le_max_right _ _)
  refine le_trans ?_ (hle _ _ (List.mem_map_of_mem hmem))
  simp [absPath]

theorem dirAt_induction {P : Path → Prop} (h : ∀ p, dirAt job trees s p = true →
    (∀ x, dirAt job trees s (p ++ [x]) = true → P (p ++ [x])) → P p) :
    ∀ p, dirAt job trees s p = true → P p := by
  have hlt : ∀ n p, depth trees s < p.length + n → dirAt job trees s p = true → P p := by
    intro n
    induction n with
    | zero =>
      intro p hp hd
      have := length_le_depth hd
      omega
    | succ n ih =>
      intro p hp hd
      refine h p hd fun x hx => ih _ ?_ hx
      rw [length_append, length_singleton]
      omega
  exact fun p => hlt (depth trees s + 1) p (by omega)

end Trees

theorem mkdirPath_self (h : ∀ s name, sanitize s name = name) (s : Side)
    (p : Path) : mkdirPath sanitize s p = p := by
  unfold mkdirPath
  induction p using List.reverseRecOn with
  | nil => rfl
  | append_singleton p x _ => simp [h]

namespace SmoothPass

variable {job : Job} {sanitize : Sanitizer} {st : State} (x : SmoothPass job sanitize st) {s : Side} {p : Path}

theorem cleaned_dir : dirAt job x.cleaned.trees s p = true ↔
    dirAt job x.exec.trees s p = true ∧ ⟨p, s⟩ ∉ x.cleaned.removed :=
  cleanup_dir (not_ignores (x.undisturbed.keeps s))

theorem dir_kept (hd : dirAt job x.exec.trees s p = true)
    (hc : (⟨p, s⟩ : CleanupCandidate) ∉ x.pl.cleanup) : dirAt job x.cleaned.trees s p = true :=
  x.cleaned_dir.2 ⟨hd, fun h => hc (cleanup_removed h).1⟩

theorem dir_after_tasks (hd : dirAt job st.trees s p = true) : dirAt job x.exec.trees s p = true :=
  (runTasks_dirs x.undisturbed s p).2 (.inl hd)

theorem dir_of_mkdir (hdone : (mkdirTask p s, true) ∈ x.exec.done)
    (hname : mkdirPath sanitize s (absPath (job.base s) p) = absPath (job.base s) p) :
    dirAt job x.exec.trees s p = true := by
  refine (runTasks_dirs x.undisturbed s p).2 (.inr ⟨_, hdone, rfl, .inr ⟨rfl, ?_⟩⟩)
  change _ <+: mkdirPath sanitize s (absPath (job.base s) p)
  rw [hname]

section

variable (hscope : ∀ s p, job.Scope s p)
include hscope

theorem mem_listed_dirs : p ∈ (x.listed s).dirs ↔ dirAt job st.trees s p = true := by
  rw [(x.current s).dir]
  exact and_iff_right (hscope s p)

theorem mem_cleanup_iff (htwo : job.direction = .twoWay) :
    (⟨p, s⟩ : CleanupCandidate) ∈ x.pl.cleanup ↔ job.deletePropagation = true ∧ p ≠ [] ∧
      dirAt job st.trees s p = true ∧ dirAt job st.trees s.other p = false ∧
      p ∈ (prevDirs st.rows).on s.other := by
  simp only [x.mem_cleanup, x.mem_listed_dirs hscope, htwo, reduceCtorEq, false_implies, and_true,
    Bool.not_eq_true]

theorem dir_of_made (htwo : job.direction = .twoWay) (hsan : ∀ s name, sanitize s name = name)
    (hdone : (t, true) ∈ x.exec.done) (hmakes : t.Makes job sanitize s p) :
    dirAt job x.cleaned.trees s.other p = true := by
  obtain ⟨rfl, ⟨ha, hp, hne⟩ | ⟨ha, hp⟩⟩ := hmakes
  · -- the file a transfer comes from stays
    have hx : t.isTransfer = true := by simpa [TaskToCreate.isTransfer] using ha
    have hmem := x.mem_of_done (s := t.dest) hdone
      ⟨by rcases ha with ha | ha <;> simp [ha], rfl, rfl⟩
    obtain ⟨f, -, hkept, -⟩ := x.file_transferred hmem hx hdone
    refine dirAt_above_file (q := t.filePath) ?_ hp hne
    rw [Pass.cleaned, afterCleanup, cleanup_file]
    exact Option.isSome_iff_exists.2 ⟨f, hkept⟩
  · rw [mkdirPath_self hsan, absPath_prefix] at hp
    have htask := x.task_of_done hdone
    rw [x.eq_mkdirTask htask ha, x.mem_mkdir] at htask
    obtain ⟨-, hlisted, -, ⟨hprev, -⟩ | ⟨-, hone⟩⟩ := htask
    · -- the directory is created because the other side has it, and no candidate there
      refine dirAt_prefix (x.dir_kept (x.dir_after_tasks (x.listed_dir hlisted)) fun hc => hprev ?_) hp
      have := ((x.mem_cleanup_iff hscope htwo).1 hc).2.2.2.2
      rwa [Side.other_other] at this
    · rw [htwo] at hone
      cases hone

theorem dirs_agree (htwo : job.direction = .twoWay) (hsan : ∀ s name, sanitize s name = name)
    (hall : ∀ t ∈ x.pl.tasks, (t, true) ∈ x.exec.done)
    (hdel : (job.deletePropagation = true ∧ ∀ c ∈ x.pl.cleanup, x.course.cleans c = true ∧
        (job.providers.on c.side).directoryDeletion = .deletes) ∨
      ∀ s p, dirAt job st.trees s p = true → dirAt job st.trees s.other p = false →
        p ∉ (prevDirs st.rows).on s.other)
    (hfiles : ∀ s p, (x.after s p).isSome → (x.after s.other p).isSome) :
    ∀ p, dirAt job x.cleaned.trees s p = true → p ≠ [] →
      dirAt job x.cleaned.trees s.other p = true := by
  refine dirAt_induction fun p hd ih hne => ?_
  obtain ⟨hmade, hnot⟩ := x.cleaned_dir.1 hd
  rcases (runTasks_dirs x.undisturbed s p).1 hmade with hpre | ⟨t, hdone, hmakes⟩
  · cases hother : dirAt job st.trees s.other p with
    | true =>
      refine x.dir_kept (x.dir_after_tasks hother) fun hc => ?_
      have := ((x.mem_cleanup_iff hscope htwo).1 hc).2.2.2.1
      rw [Side.other_other, hpre] at this
      cases this
    | false =>
      by_cases hprev : p ∈ (prevDirs st.rows).on s.other
      · -- the directory was to be removed, so something is in it
        rcases hdel with ⟨hprop, hcleans⟩ | hdel
        · have hc : (⟨p, s⟩ : CleanupCandidate) ∈ x.pl.cleanup :=
            (x.mem_cleanup_iff hscope htwo).2 ⟨hprop, hne, hpre, hother, hprev⟩
          rcases cleanup_blocked hc hne (hcleans _ hc).1 (hcleans _ hc).2 hnot with hfile | ⟨name, hchild⟩
          · have hnone := Tree.file_isSome_not_dir hfile
            unfold dirAt Tree.isDir at hd
            rw [Pass.cleaned, afterCleanup] at hd
            simp only [CleanupCandidate.path] at hnone
            rw [hnone] at hd
            cases hd
          · have hpath : CleanupCandidate.path job ⟨p, s⟩ ++ [name]
                = absPath (job.base s) (p ++ [name]) := by
              simp [CleanupCandidate.path, absPath]
            rw [hpath, Tree.get_isSome_iff] at hchild
            have hp : p <+: p ++ [name] := prefix_append p [name]
            rcases hchild with hchild | hchild
            · refine dirAt_above_file (q := p ++ [name]) ?_ hp (by simp)
              rw [Pass.cleaned, afterCleanup, cleanup_file]
              refine hfiles s _ ?_
              rw [Pass.after, ← cleanup_file]
              exact hchild
            · exact dirAt_prefix (ih name hchild (by simp)) hp
        · exact absurd hprev (hdel s p hpre hother)
      · -- the other side gets the directory
        have hlacks : p ∉ (x.listed s.other).dirs := by simp [x.mem_listed_dirs hscope, hother]
        have htask : mkdirTask p s.other ∈ x.pl.tasks := by
          refine x.mem_mkdir.2 ⟨hne, ?_, hlacks, .inl ⟨hprev, htwo⟩⟩
          rwa [Side.other_other, x.mem_listed_dirs hscope]
        refine x.dir_kept (x.dir_of_mkdir (hall _ htask) (mkdirPath_self hsan _ _)) fun hc => ?_
        exact hlacks (x.mem_cleanup.1 hc).2.2.1
  · exact x.dir_of_made hscope htwo hsan hdone hmakes

end

end SmoothPass

end Clumoove.Sync
