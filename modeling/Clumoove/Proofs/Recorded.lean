import Clumoove.Proofs.DirectoryCache
import Clumoove.Proofs.Translation
import Clumoove.Sanity.Transfer.World

/-! What a worker did and what the engine records of it, at the level of texts and of trees. -/

namespace Clumoove.Sync

open GoPath PathTree List Option
open Transfer (Text asciiLib)

/-! The texts. -/

theorem denoted_of_resolve (h : resolve p = resolve r ++ resolve q) :
    denoted p = absPath (denoted q) (denoted r) := by
  simp [denoted, absPath, h]

theorem denoted_paths (targetDir : Text) (h : cleanRelPath filePath = filePath) (s : Side) :
    denoted (taskPath targetDir filePath s) = denoted (destinationPath targetDir filePath s) ∧
      denoted (taskPath targetDir filePath s) =
        absPath (match s with | .source => [] | .target => denoted targetDir) (denoted filePath) := by
  cases s with
  | source => exact ⟨by rw [taskPath, destinationPath, h], rfl⟩
  | target =>
    have htask : resolve (taskPath targetDir filePath .target) = resolve filePath ++ resolve targetDir := by
      have hfold := foldl_clean_rooted filePath (resolve targetDir)
      rw [← cleanRelPath, h] at hfold
      rw [taskPath, resolve_clean, resolve_join]
      exact hfold
    have hdest : resolve (destinationPath targetDir filePath .target) = resolve filePath ++ resolve targetDir := by
      rw [destinationPath, resolve_getTargetAbsPath, resolve_cleanRelPath]
    exact ⟨by rw [denoted, denoted, htask, hdest], denoted_of_resolve htask⟩

/-! The trees and the listings. -/

/-- At every path the listing says what is there now, or neither of the two has changed; and nothing
outside of the job's directory has. -/
structure ListingFollows (job : Job) (before after : Sided Tree) (m m' : Snapshot) : Prop where
  outside : ∀ s q, ¬ job.base s <+: q → (after.on s).get q = (before.on s).get q
  file : ∀ s p, (m'.scans.on s).files.get p = (fileAt job after s p).map File.state ∨
    (fileAt job after s p = fileAt job before s p ∧
      (m'.scans.on s).files.get p = (m.scans.on s).files.get p)
  dir : ∀ s p, (p ∈ (m'.scans.on s).dirs ↔ dirAt job after s p = true) ∨
    (dirAt job after s p = dirAt job before s p ∧ (p ∈ (m'.scans.on s).dirs ↔ p ∈ (m.scans.on s).dirs))

section Worker

variable {job : Job} {sanitize : Sanitizer} {t : TaskToCreate} {w : Written} {clock : String}
  {trees trees' : Sided Tree} {m : Snapshot} {inspects : Path → Bool}

/-- What a worker does in the way the engine expects: no file is moved, the directory above is there,
the name is the one of the task, nothing is in the way of a transfer, and the provider keeps
directories. -/
structure Expected (job : Job) (sanitize : Sanitizer) (clock : String) (trees : Sided Tree)
    (t : TaskToCreate) : Prop where
  notMoved : t.action ≠ .conflictCopy
  sameName : t.action = .mkdir → mkdirPath sanitize t.dest (absPath (job.base t.dest) t.filePath) =
    absPath (job.base t.dest) t.filePath
  parent : t.action ≠ .delete →
    (trees.on t.dest).isDir (absPath (job.base t.dest) t.filePath).dropLast = true
  free : Unhindered job trees t clock
  keeps : (job.providers.on t.dest).createsDirectories = true

theorem Expected.above (hexp : Expected job sanitize clock trees t) (ha : t.action ≠ .delete)
    (hq : q <+: absPath (job.base t.dest) t.filePath) (hne : q ≠ absPath (job.base t.dest) t.filePath) :
    (trees.on t.dest).get q ≠ none := by
  have hnil : absPath (job.base t.dest) t.filePath ≠ [] := by
    intro hnil
    rw [hnil] at hq hne
    exact hne (prefix_nil.1 hq)
  obtain ⟨r, hr⟩ := (prefix_dropLast_iff hnil).2 ⟨hq, hne⟩
  obtain ⟨tag, hdir⟩ := Tree.isDir_iff.1 (hexp.parent ha)
  by_cases hrnil : r = []
  · subst hrnil
    rw [append_nil] at hr
    simp [hr, hdir]
  · rw [← hr] at hdir
    have hsome : ((trees.on t.dest).get (q ++ r)).isSome := by simp [hdir]
    obtain ⟨tag', hq⟩ := Tree.isDir_iff.1 (Tree.isDir_of_below hrnil hsome)
    simp [hq]

theorem Expected.get_eq (hexp : Expected job sanitize clock trees t)
    (h : perform job sanitize t w clock trees = some trees')
    (hq : s = t.dest → q ≠ absPath (job.base t.dest) t.filePath) :
    (trees'.on s).get q = (trees.on s).get q := by
  by_cases hs : s = t.dest
  · subst hs
    replace hq := hq rfl
    obtain ⟨tree, htree, rfl⟩ := map_eq_some_iff.1 h
    rw [Sided.on_update, if_pos rfl]
    have htransfer (ha : t.action = .upload ∨ t.action = .download)
        (ht : transfer (job.providers.on t.dest) (trees.on t.dest.other) (trees.on t.dest)
          (absPath (job.base t.dest.other) t.filePath) (absPath (job.base t.dest) t.filePath) w clock
          = some tree) : tree.get q = (trees.on t.dest).get q := by
      obtain ⟨f, made, -, hmade, -, -, hput⟩ := transfer_eq_some ht (hexp.free ha)
      rw [hput, if_neg hq, (Tree.mkdirs_eq_some hmade).2, if_neg]
      rintro ⟨hbelow, hnone⟩
      refine hexp.above ?_ (hbelow.trans (List.dropLast_prefix _)) hq hnone
      rcases ha with ha | ha <;> simp [ha]
    cases ha : t.action with
    | upload | download =>
      rw [ha] at htree
      exact htransfer (by simp [ha]) htree
    | delete =>
      simp only [ha] at htree
      split_ifs at htree
      rw [(Tree.remove_eq_some htree).2, if_neg hq]
    | mkdir =>
      simp only [ha, hexp.sameName ha, hexp.keeps, if_true] at htree
      rw [(Tree.mkdirs_eq_some htree).2, if_neg]
      rintro ⟨hbelow, hnone⟩
      exact hexp.above (by simp [ha]) hbelow hq hnone
    | conflictCopy => exact absurd ha hexp.notMoved
  · rw [perform_other h hs]

theorem dirAt_of_delete (ha : t.action = .delete) (h : perform job sanitize t w clock trees = some trees') :
    dirAt job trees' t.dest t.filePath = false := by
  obtain ⟨tree, htree, rfl⟩ := map_eq_some_iff.1 h
  simp only [ha] at htree
  split_ifs at htree
  rw [dirAt_update, if_pos rfl, Bool.eq_false_iff, ne_eq, Tree.remove_isDir htree]
  simp

theorem reconcile_applies (hfree : t.filePath ∉ m.protectedPaths) (hinspect : inspects t.filePath = true)
    (hthere : t.isTransfer = true → fileAt job trees' t.dest t.filePath ≠ none) :
    ∃ scan, Applies job trees' t (m.scans.on t.dest) scan ∧
      reconcileOperation job trees' inspects m t = m.update t.dest (scan.invalidate t.filePath) := by
  have hstep := reconcileOperation_step job trees' inspects m t
  generalize reconcileOperation job trees' inspects m t = m' at hstep
  cases hstep with
  | passedOver h => exact absurd h hfree
  | unread ht h => exact absurd (h hinspect) (hthere ht)
  | applied h => exact ⟨_, h, rfl⟩

end Worker

def newDirectory (name : String) : TaskToCreate :=
  { filePath := [name], action := .mkdir, side := some .target }

def intoOneDrive : Sanitizer := sanitizer asciiLib ⟨.nextcloud, .onedrive⟩

def nothingListed : Snapshot := { scans := ⟨{}, {}⟩, protectedPaths := [] }

end Clumoove.Sync
