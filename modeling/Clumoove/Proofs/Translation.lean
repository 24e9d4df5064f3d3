import Clumoove.Spec.Sync.Paths
import Mathlib.Data.Set.Function

/-! The engine's translation between paths relative to a job's target directory and the paths of the
target provider. A clean path is the rendering of the names it leads through, so both directions are
read at the level of names, where the target directory is a suffix that is put on and taken off. -/

namespace Clumoove.Sync

open GoPath List
open Transfer (Text)

variable {p q targetDir : Text}

theorem cleanRelPath_eq (p : Text) : cleanRelPath p = render true (resolve p) := clean_slash p

theorem resolve_cleanRelPath (p : Text) : resolve (cleanRelPath p) = resolve p := by
  rw [cleanRelPath, resolve_clean, resolve_slash]

theorem cleanRelPath_cleanRelPath (p : Text) : cleanRelPath (cleanRelPath p) = cleanRelPath p := by
  rw [cleanRelPath_eq, resolve_cleanRelPath, cleanRelPath_eq]

theorem cleanRelPath_inj : cleanRelPath p = cleanRelPath q ↔ resolve p = resolve q := by
  constructor
  · intro h
    rw [← resolve_cleanRelPath, h, resolve_cleanRelPath]
  · intro h
    rw [cleanRelPath_eq, h, cleanRelPath_eq]

theorem cleanRelPath_eq_root : cleanRelPath p = ['/'] ↔ resolve p = [] :=
  cleanRelPath_inj (q := [])

theorem getTargetAbsPath_eq (p targetDir : Text) :
    getTargetAbsPath p targetDir = render true (resolve p ++ resolve targetDir) := by
  unfold getTargetAbsPath
  dsimp only
  split_ifs with hdir hrel
  · rw [cleanRelPath_eq, cleanRelPath_eq_root.1 hdir, append_nil]
  · rw [cleanRelPath_eq, cleanRelPath_eq_root.1 hrel, nil_append]
  · exact render_append (fun h => hrel (cleanRelPath_eq_root.2 h)) fun h => hdir (cleanRelPath_eq_root.2 h)

theorem resolve_getTargetAbsPath (p targetDir : Text) :
    resolve (getTargetAbsPath p targetDir) = resolve p ++ resolve targetDir := by
  have hfold := foldl_clean_rooted p (resolve targetDir)
  rw [← resolve_join] at hfold
  rw [getTargetAbsPath_eq, ← hfold]
  exact resolve_render (normal_stack _ _) (up_not_mem_resolve _)

theorem cleanRelPath_cons (p : Text) : ∃ rest, cleanRelPath p = '/' :: rest := ⟨_, cleanRelPath_eq p⟩

theorem getSourceRelPath_eq (h : resolve q = resolve p ++ resolve targetDir) :
    getSourceRelPath q targetDir = cleanRelPath p := by
  by_cases hdir : resolve targetDir = []
  · rw [hdir, append_nil] at h
    rw [getSourceRelPath, if_pos (cleanRelPath_eq_root.2 hdir), cleanRelPath_inj.2 h]
  rw [getSourceRelPath, if_neg (mt cleanRelPath_eq_root.1 hdir)]
  by_cases hp : resolve p = []
  · -- the path is the target directory, which does not begin with itself and a slash
    have hq : cleanRelPath q = cleanRelPath targetDir := cleanRelPath_inj.2 (by rw [h, hp, nil_append])
    have hlong : ¬ cleanRelPath targetDir ++ ['/'] <+: cleanRelPath targetDir := by
      intro hpre
      have := hpre.length_le
      simp at this
    rw [hq, if_neg hlong, if_pos rfl, cleanRelPath_eq_root.2 hp]
  · obtain ⟨rest, hrest⟩ := cleanRelPath_cons p
    have hq : cleanRelPath q = cleanRelPath targetDir ++ ['/'] ++ rest := by
      rw [append_assoc, singleton_append, ← hrest, cleanRelPath_eq, h, ← render_append hp hdir,
        ← cleanRelPath_eq, ← cleanRelPath_eq]
    rw [hq, if_pos (prefix_append _ _), drop_left, cleanRelPath, ← hrest, cleanRelPath, clean_clean]

/-- For a target directory from the root, or none, the worker's path is the engine's. -/
theorem taskPath_eq (hdir : targetDir = [] ∨ rooted targetDir = true) (hp : cleanRelPath p = p) :
    taskPath targetDir p .target = getTargetAbsPath p targetDir := by
  obtain ⟨rest, hrest⟩ := cleanRelPath_cons p
  have hroot : ∃ body, join [targetDir, p] = clean ('/' :: body) := by
    rw [← hp, hrest]
    cases targetDir with
    | nil => exact ⟨rest, by simp [join]⟩
    | cons c dir =>
      obtain rfl : c = '/' := by simpa [rooted] using hdir
      exact ⟨dir ++ '/' :: '/' :: rest, by simp [join, intercalate_cons_cons]⟩
  obtain ⟨body, hbody⟩ := hroot
  have hfold := foldl_clean_rooted p (resolve targetDir)
  rw [← cleanRelPath, hp, ← resolve_join, hbody, resolve_clean, resolve_slash] at hfold
  rw [taskPath, hbody, clean_clean, clean_slash, hfold, getTargetAbsPath_eq]

/-- What does not begin at the root does not, with a path after it, once it is clean. -/
theorem rooted_taskPath (hdir : targetDir ≠ []) (hp : p ≠ []) :
    rooted (taskPath targetDir p .target) = rooted targetDir := by
  have hjoin : join [targetDir, p] = clean (targetDir ++ '/' :: p) := by
    simp [join, hdir, hp, intercalate_cons_cons]
  rw [taskPath, hjoin, rooted_clean, rooted_clean, rooted_append hdir]

def RelPaths : Set Text := Set.range cleanRelPath

theorem mem_relPaths : p ∈ RelPaths ↔ cleanRelPath p = p := by
  constructor
  · rintro ⟨q, rfl⟩
    exact cleanRelPath_cleanRelPath q
  · exact fun h => ⟨p, h⟩

def PathsWithin (dir : Text) : Set Text := {q | q ∈ RelPaths ∧ resolve dir <:+ resolve q}

theorem getTargetAbsPath_mem (p targetDir : Text) :
    getTargetAbsPath p targetDir ∈ PathsWithin targetDir := by
  have hres := resolve_getTargetAbsPath p targetDir
  refine ⟨mem_relPaths.2 ?_, hres ▸ suffix_append _ _⟩
  rw [cleanRelPath_eq, hres, getTargetAbsPath_eq]

theorem getSourceRelPath_getTargetAbsPath (p targetDir : Text) :
    getSourceRelPath (getTargetAbsPath p targetDir) targetDir = cleanRelPath p :=
  getSourceRelPath_eq (resolve_getTargetAbsPath p targetDir)

theorem getTargetAbsPath_getSourceRelPath (h : resolve targetDir <:+ resolve q) :
    getTargetAbsPath (getSourceRelPath q targetDir) targetDir = cleanRelPath q := by
  obtain ⟨top, htop⟩ := h
  have hrender := resolve_render_top htop.symm
  have hsource : getSourceRelPath q targetDir = cleanRelPath (render true top) :=
    getSourceRelPath_eq (by rw [hrender, htop])
  rw [hsource, getTargetAbsPath_eq, resolve_cleanRelPath, hrender, htop, cleanRelPath_eq]

theorem below_getTargetAbsPath (p q targetDir : Text) :
    GoPath.Below (getTargetAbsPath p targetDir) (getTargetAbsPath q targetDir) ↔ GoPath.Below p q := by
  have hassoc (top : List (List Char)) :
      resolve q ++ resolve targetDir = top ++ (resolve p ++ resolve targetDir) ↔ resolve q = top ++ resolve p := by
    rw [← append_assoc, append_cancel_right_eq]
  simp only [GoPath.Below, resolve_getTargetAbsPath, hassoc]

theorem bijOn_getTargetAbsPath (targetDir : Text) :
    Set.BijOn (getTargetAbsPath · targetDir) RelPaths (PathsWithin targetDir) := by
  have hinv : Set.InvOn (getSourceRelPath · targetDir) (getTargetAbsPath · targetDir)
      RelPaths (PathsWithin targetDir) := by
    constructor
    · intro p hp
      exact (getSourceRelPath_getTargetAbsPath p targetDir).trans (mem_relPaths.1 hp)
    · intro q hq
      exact (getTargetAbsPath_getSourceRelPath hq.2).trans (mem_relPaths.1 hq.1)
  apply hinv.bijOn
  · exact fun p _ => getTargetAbsPath_mem p targetDir
  · intro q hq
    obtain ⟨top, htop⟩ := hq.2
    exact ⟨render true top, (getSourceRelPath_eq (by rw [resolve_render_top htop.symm, htop])).symm⟩

theorem agrees_iff (targetDir : Text) :
    (∀ p ∈ RelPaths, getTargetAbsPath p targetDir = taskPath targetDir p .target) ↔
      targetDir = [] ∨ rooted targetDir = true := by
  constructor
  · intro h
    by_cases hdir : targetDir = []
    · exact .inl hdir
    · -- the root is a relative path, and its translation begins with a slash
      have hroot := h ['/'] ⟨[], rfl⟩
      rw [getTargetAbsPath_eq] at hroot
      rw [← rooted_taskPath hdir (cons_ne_nil '/' []), ← hroot]
      exact .inr rfl
  · intro hdir p hp
    exact (taskPath_eq hdir (mem_relPaths.1 hp)).symm

/-- The translation is a bijection between the relative paths and the clean paths at or below the
target directory, which keeps what lies below what. It leads to the worker's path exactly for a target
directory from the root, or none. -/
theorem target_paths_translate (targetDir : Text) :
    Set.BijOn (getTargetAbsPath · targetDir) RelPaths (PathsWithin targetDir) ∧
    (∀ p ∈ RelPaths, getSourceRelPath (getTargetAbsPath p targetDir) targetDir = p) ∧
    (∀ q, resolve targetDir <:+ resolve q →
      getTargetAbsPath (getSourceRelPath q targetDir) targetDir = cleanRelPath q) ∧
    (∀ p ∈ RelPaths, ∀ q ∈ RelPaths,
      (GoPath.Below (getTargetAbsPath p targetDir) (getTargetAbsPath q targetDir) ↔ GoPath.Below p q)) ∧
    ((∀ p ∈ RelPaths, getTargetAbsPath p targetDir = taskPath targetDir p .target) ↔
      targetDir = [] ∨ rooted targetDir = true) := by
  refine ⟨bijOn_getTargetAbsPath targetDir, ?_, ?_, ?_, agrees_iff targetDir⟩
  · intro p hp
    rw [getSourceRelPath_getTargetAbsPath, mem_relPaths.1 hp]
  · exact fun q hq => getTargetAbsPath_getSourceRelPath hq
  · exact fun p _ q _ => below_getTargetAbsPath p q targetDir

/-- Without a leading slash the worker's path is not from the root. -/
theorem task_path_not_rooted :
    cleanRelPath ['a'] = ['/', 'a'] ∧ getTargetAbsPath ['/', 'a'] ['d'] = ['/', 'd', '/', 'a'] ∧
      taskPath ['d'] ['/', 'a'] .target = ['d', '/', 'a'] := by
  decide

end Clumoove.Sync
