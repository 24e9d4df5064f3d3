import Clumoove.Sanity.Sync.Cleanup
import Clumoove.Sanity.Sync.Tasks

/-! The directories that a pass removes are empty when they are removed, none of them is to be created on
the same side, and a tree of directories that are all to be removed goes as a whole, deeper directories
first, if the provider deletes directories: local folders and FTP do not, and S3 has none to delete. -/

namespace Clumoove.Sync

open PathTree List

variable {job : Job} {cleans : CleanupCandidate → Bool} {trees : Sided Tree} {s : Side} {p q : Path}
variable {c : CleanupCandidate} {l candidates : List CleanupCandidate}

/-- The step for a candidate changes at most its own path, and that only if nothing is below. -/
theorem CleanupStep.empty (h : CleanupStep job cleans x c x')
    (hq : (x'.trees.on s).get q ≠ (x.trees.on s).get q) :
    s = c.side ∧ q = c.path job ∧ (x.trees.on s).isDir q = true ∧
      ∀ r, r ≠ [] → (x.trees.on s).get (q ++ r) = none := by
  cases h with
  | kept | absent | ignored => exact absurd rfl hq
  | removed _ hd hr =>
    obtain ⟨hchildren, hget⟩ := Tree.remove_eq_some hr
    rw [Sided.on_update] at hq
    split_ifs at hq with hs
    · subst hs
      rw [hget] at hq
      split_ifs at hq with hpath
      · subst hpath
        exact ⟨rfl, rfl, hd, fun r => Tree.get_below_childless hchildren⟩
      · exact absurd rfl hq
    · exact absurd rfl hq

theorem removed_of_gone (hbefore : ((trees.on s).get (absPath (job.base s) p)).isSome)
    (hafter : ((l.foldl (cleanupDirectory job cleans) { trees := trees }).trees.on s).get
      (absPath (job.base s) p) = none) : dirAt job trees s p = true ∧
      ⟨p, s⟩ ∈ (l.foldl (cleanupDirectory job cleans) { trees := trees }).removed := by
  have hfile : fileAt job trees s p = none := by
    rw [← foldl_cleanup_file l { trees := trees }, fileAt, Tree.file, hafter]
  have hdir : dirAt job trees s p = true := by
    rcases Tree.get_isSome_iff.1 hbefore with h | h
    · rw [fileAt] at hfile
      rw [hfile] at h
      cases h
    · exact h
  refine ⟨hdir, ?_⟩
  by_contra hnot
  obtain ⟨tag, htag⟩ := Tree.isDir_iff.1 ((foldl_cleanup_dir_or_removed l hdir).resolve_right hnot)
  rw [hafter] at htag
  cases htag

theorem foldl_cleanup_get_isSome (l : List CleanupCandidate)
    (h : (((l.foldl (cleanupDirectory job cleans) x).trees.on s).get q).isSome) :
    ((x.trees.on s).get q).isSome := by
  induction l generalizing x with
  | nil => exact h
  | cons c l ih =>
    have hstep := ih h
    by_contra hnot
    have hchanged : ((cleanupDirectory job cleans x c).trees.on s).get q ≠ (x.trees.on s).get q := by
      intro heq
      rw [heq] at hstep
      exact hnot hstep
    obtain ⟨-, -, hdir, -⟩ := (cleanupDirectory_step job cleans x c).empty hchanged
    obtain ⟨tag, htag⟩ := Tree.isDir_iff.1 hdir
    rw [htag] at hnot
    exact hnot rfl

/-- All of a tree is to be removed: there are only directories in it, and the plan has them all. -/
structure Doomed (job : Job) (cleans : CleanupCandidate → Bool) (trees : Sided Tree)
    (candidates : List CleanupCandidate) (c : CleanupCandidate) : Prop where
  planned : ∀ r, ((trees.on c.side).get (c.path job ++ r)).isSome →
    ⟨c.relPath ++ r, c.side⟩ ∈ candidates ∧ dirAt job trees c.side (c.relPath ++ r) = true
  /-- The provider answers. -/
  cleans : ∀ r, ((trees.on c.side).get (c.path job ++ r)).isSome →
    cleans ⟨c.relPath ++ r, c.side⟩ = true

theorem CleanupCandidate.path_append (r : Path) :
    c.path job ++ r = absPath (job.base c.side) (c.relPath ++ r) := by
  simp [CleanupCandidate.path, absPath]

theorem not_file_of_dir (hdir : dirAt job trees s p = true) :
    ¬ (fileAt job (cleanupEmptyDirectories job cleans trees candidates).trees s p).isSome := by
  intro hfile
  rw [cleanup_file] at hfile
  rw [dirAt, Tree.isDir, Tree.file_isSome_not_dir hfile] at hdir
  cases hdir

theorem not_removed_of_left (hs : (job.providers.on s).directoryDeletion ≠ .ignores)
    (hdir : dirAt job trees s p = true)
    (hleft : (((cleanupEmptyDirectories job cleans trees candidates).trees.on s).get
      (absPath (job.base s) p)).isSome) :
    ⟨p, s⟩ ∉ (cleanupEmptyDirectories job cleans trees candidates).removed := by
  rcases Tree.get_isSome_iff.1 hleft with hfile | hdir'
  · exact absurd hfile (not_file_of_dir hdir)
  · exact ((cleanup_dir hs).1 hdir').2

theorem exists_depth (tree : Tree) : ∃ n, ∀ q, (tree.get q).isSome → q.length < n := by
  refine ⟨tree.nodes.keys.flatten.length + 1, fun q hq => ?_⟩
  exact Nat.lt_succ_of_le (sublist_flatten_of_mem (GoMap.mem_keys.2 hq)).length_le

section

variable (hdel : (job.providers.on c.side).directoryDeletion = .deletes)
include hdel

theorem Doomed.removed_of_below (h : Doomed job cleans trees candidates c) (hne : c.relPath ≠ [])
    (hr : ((trees.on c.side).get (c.path job ++ r)).isSome)
    (hbelow : ∀ name, ((trees.on c.side).get (c.path job ++ (r ++ [name]))).isSome →
      ⟨c.relPath ++ (r ++ [name]), c.side⟩ ∈
        (cleanupEmptyDirectories job cleans trees candidates).removed) :
    ⟨c.relPath ++ r, c.side⟩ ∈ (cleanupEmptyDirectories job cleans trees candidates).removed := by
  obtain ⟨hplanned, hdir⟩ := h.planned r hr
  by_contra hnot
  rcases cleanup_blocked hplanned (by simp [hne]) (h.cleans r hr) hdel hnot with hfile | ⟨name, hname⟩
  · exact absurd hfile (not_file_of_dir hdir)
  · have hpath : CleanupCandidate.path job ⟨c.relPath ++ r, c.side⟩ ++ [name] =
        c.path job ++ (r ++ [name]) := by
      simp [CleanupCandidate.path, absPath]
    rw [hpath] at hname
    have hbefore : ((trees.on c.side).get (c.path job ++ (r ++ [name]))).isSome :=
      foldl_cleanup_get_isSome (cleanupOrder candidates) hname
    rw [CleanupCandidate.path_append] at hname
    exact not_removed_of_left (by simp [hdel]) (h.planned _ hbefore).2 hname (hbelow name hbefore)

theorem Doomed.removed (h : Doomed job cleans trees candidates c) (hne : c.relPath ≠ []) :
    ∀ r, ((trees.on c.side).get (c.path job ++ r)).isSome →
      ⟨c.relPath ++ r, c.side⟩ ∈ (cleanupEmptyDirectories job cleans trees candidates).removed := by
  obtain ⟨n, hn⟩ := exists_depth (trees.on c.side)
  -- by induction on how far from the deepest directory it is
  have hall : ∀ k r, n ≤ r.length + k → ((trees.on c.side).get (c.path job ++ r)).isSome →
      ⟨c.relPath ++ r, c.side⟩ ∈ (cleanupEmptyDirectories job cleans trees candidates).removed := by
    intro k
    induction k with
    | zero =>
      intro r hk hr
      have hlt := hn _ hr
      rw [length_append] at hlt
      omega
    | succ k ih =>
      intro r hk hr
      apply h.removed_of_below hdel hne hr
      intro name hname
      apply ih _ _ hname
      simp only [length_append, length_singleton]
      omega
  exact fun r hr => hall n r (Nat.le_add_left n _) hr

end

def nested : Tree :=
  .ofNodes [([], .dir ""), (["d"], .dir ""), (["d", "e"], .dir "")] (by decide)

def nestedGone : Sided Tree := ⟨.ofNodes [([], .dir "")] (by decide), nested⟩

def nestedScans : Sided Scan := ⟨{ dirs := [[]] }, { dirs := [[], ["d"], ["d", "e"]] }⟩

def nestedRows : Baseline := ⟨[(["d"], dirRow ""), (["d", "e"], dirRow "")], []⟩

def intoProvider (provider : Transfer.Provider) : Job :=
  { direction := .twoWay, conflictStrategy := .overwrite, deletePropagation := true,
    providers := ⟨.webdav, provider⟩ }

theorem nested_doomed (h : (delta (intoProvider provider) nestedScans nestedRows).cleanup =
      [⟨["d"], .target⟩, ⟨["d", "e"], .target⟩]) :
    Doomed (intoProvider provider) (fun _ => true) nestedGone
      (delta (intoProvider provider) nestedScans nestedRows).cleanup ⟨["d"], .target⟩ := by
  refine ⟨fun r hr => ?_, fun _ _ => rfl⟩
  rw [h]
  have hmem : ["d"] ++ r ∈ nested.nodes.keys := GoMap.mem_keys.2 hr
  simp only [nested, Tree.ofNodes, GoMap.keys, map_cons, map_nil, mem_cons, cons_append, nil_append,
    cons.injEq, reduceCtorEq, true_and, not_mem_nil, or_false, false_or] at hmem
  rcases hmem with rfl | rfl <;> exact ⟨by decide, rfl⟩

end Clumoove.Sync
