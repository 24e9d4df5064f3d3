import Clumoove.Sanity.Sync.Cache
import Clumoove.Sanity.Sync.Evaluation

/-! Skipping unchanged directories. A traversal that takes stored rows for the subtree of a
directory with an unchanged ETag finds what a traversal of everything finds, unless a path has
changed between file and directory: the transaction that stores a baseline deletes after it
inserts, and then deletes the new row of such a path under an ETag that stays. -/

namespace Clumoove.Sync

open PathTree List

/-- Two scans with the same files, directories and ETags. -/
structure Scan.Same (a b : Scan) : Prop where
  files : ∀ p, a.files.get p = b.files.get p
  dirs : ∀ p, p ∈ a.dirs ↔ p ∈ b.dirs
  etags : ∀ p, a.etags.get p = b.etags.get p

theorem Scan.Lists.same {a b : Scan}
    (ha : a.Lists job trees s) (hb : b.Lists job trees s) : a.Same b where
  files p := Option.ext fun fs => (ha.file p fs).trans (hb.file p fs).symm
  dirs p := (ha.dir p).trans (hb.dir p).symm
  etags p := Option.ext fun e => (ha.etag p e).trans (hb.etag p e).symm

/-- In every run in which no path changes between file and directory, the listing of a side that
uses the stored ETags and rows is the full one, and the rows below a stored ETag are what was
there when the provider reported it. -/
theorem skipping_finds_everything {job : Job} {sanitize : Sanitizer} {versions : Side → Versions}
    {h : History} (hrun : Reaches job sanitize
      (fun _ st => NoClash job st ∧ ∀ s, Honors (versions s) (st.trees.on s)) h) (s : Side) :
    (∀ d e, e ≠ "" → stored s (h.st.rows.on s) d = some (.dir e) → ∀ q, q ≠ [] →
      stored s (h.st.rows.on s) (d ++ q) = versions s (absPath (job.base s) d) e q) ∧
    (Honors (versions s) (h.st.trees.on s) → ∀ faults faults' order order',
      (listFiles (storedCache (job.base s) s (h.st.rows.on s)) ⟨h.st.trees.on s, faults⟩ order
        (job.startPaths s)).indexErrors = [] →
      (listFiles {} ⟨h.st.trees.on s, faults'⟩ order' (job.startPaths s)).indexErrors = [] →
      ((listFiles (storedCache (job.base s) s (h.st.rows.on s)) ⟨h.st.trees.on s, faults⟩ order
          (job.startPaths s)).scan.relative (job.base s)).Same
        ((listFiles {} ⟨h.st.trees.on s, faults'⟩ order'
          (job.startPaths s)).scan.relative (job.base s))) := by
  have hsound : CacheSound job versions h.st.rows := hrun.cacheSound fun _ _ hok => hok
  refine ⟨hsound s, fun hhonors faults faults' order order' hcached hfull => ?_⟩
  have hreports := listFiles_reports (hsound.valid hhonors) hcached
  have hreports' := listFiles_reports (Cache.valid_empty _) hfull
  have hlists : Scan.Lists _ job h.st.trees s := hreports.lists
  exact hlists.same hreports'.lists

/-! Runs on fixed providers. -/

def plainJob : Job :=
  { direction := .twoWay, conflictStrategy := .skip, deletePropagation := true }

def bareRoot : Tree := .ofNodes [([], .dir "")] (Eq.refl true)

def dirTree : Tree := .ofNodes [([], .dir "R1"), (["x"], .dir "X1")] (by decide)

def fileTree : Tree :=
  .ofNodes [([], .dir "R2"), (["x"], .file { content := [1], hash := "h1" })] (by decide)

def kindVersions : Side → Versions
  | .source => fun d e q => reported (if e = "R2" then fileTree else dirTree) (d ++ q)
  | .target => fun _ _ _ => none

theorem honors_dirTree : Honors (kindVersions .source) dirTree := by
  intro d e he hd q hq
  have hmem := GoMap.mem_of_get (Tree.dir_eq_some.1 hd)
  simp only [dirTree, Tree.ofNodes, mem_cons, Prod.mk.injEq, Node.dir.injEq, not_mem_nil,
    or_false] at hmem
  rcases hmem with ⟨rfl, rfl⟩ | ⟨rfl, rfl⟩ <;> rfl

theorem honors_fileTree : Honors (kindVersions .source) fileTree := by
  intro d e he hd q hq
  have hmem := GoMap.mem_of_get (Tree.dir_eq_some.1 hd)
  simp only [fileTree, Tree.ofNodes, mem_cons, Prod.mk.injEq, Node.dir.injEq, not_mem_nil,
    or_false, reduceCtorEq, and_false] at hmem
  obtain ⟨rfl, rfl⟩ := hmem
  rfl

def uploadPass : Course :=
  { runs := [(uploadTask ["x"] ⟨1, none, "h1", ""⟩ false, .completes { hash := "h1" } "")] }

def uploadHistory : History :=
  ({ st := { trees := ⟨fileTree, bareRoot⟩, rows := ⟨[], []⟩ } } : History).pass plainJob keepNames
    uploadPass

theorem skipping_finds_everything_after_upload :
    ((listFiles (storedCache [] .source uploadHistory.st.rows.source) ⟨fileTree, []⟩ id
        [[]]).scan.relative []).Same ((listFiles {} ⟨fileTree, []⟩ id [[]]).scan.relative []) := by
  have hhonors : ∀ s, Honors (kindVersions s)
      ((⟨fileTree, bareRoot⟩ : Sided Tree).on s) := by
    rintro (_ | _)
    · exact honors_fileTree
    · exact honors_of_untagged (by decide)
  have hrun : Reaches plainJob keepNames (fun _ st => NoClash plainJob st ∧
      ∀ s, Honors (kindVersions s) (st.trees.on s)) uploadHistory :=
    .pass (.start _) (fitsState_of_perm (by decide +kernel)) ⟨by decide +kernel, hhonors⟩
  have h := (skipping_finds_everything hrun .source).2
  exact h honors_fileTree [] [] id id (by decide +kernel) (by decide +kernel)

def firstPass : Course :=
  { runs := [(mkdirTask ["x"] .target, .completes {} "")] }

def kindHistory : History :=
  let h : History := { st := { trees := ⟨dirTree, bareRoot⟩, rows := ⟨[], []⟩ } }
  ((h.pass plainJob keepNames firstPass).edit plainJob ⟨fileTree, bareRoot⟩).pass plainJob keepNames
    uploadPass

/-- A directory becomes a file, and the second pass uploads it. The traversal after that takes the
root's subtree from the rows, where the file is missing. -/
theorem kind_change_hides_file :
    Reaches plainJob keepNames (fun _ st => ∀ s, Honors (kindVersions s) (st.trees.on s)) kindHistory ∧
    (∀ s, Honors (kindVersions s) (kindHistory.st.trees.on s)) ∧
    (listFiles (storedCache [] .source kindHistory.st.rows.source) ⟨fileTree, []⟩ id [[]]).indexErrors
      = [] ∧ (listFiles (storedCache [] .source kindHistory.st.rows.source) ⟨fileTree, []⟩ id
      [[]]).scan.files.get ["x"] = none ∧
    (listFiles {} ⟨fileTree, []⟩ id [[]]).scan.files.get ["x"] = some ⟨1, none, "h1", ""⟩ := by
  refine ⟨?_, ?_, by decide +kernel, by decide +kernel, by decide +kernel⟩
  · refine .pass (.edit _ (.pass (.start _) ?_ ?_)) ?_ ?_
    · exact fitsState_of_perm (by decide +kernel)
    · rintro (_ | _)
      · exact honors_dirTree
      · exact honors_of_untagged (by decide)
    · exact fitsState_of_perm (by decide +kernel)
    · rintro (_ | _)
      · exact honors_fileTree
      · exact honors_of_untagged (by decide)
  · rintro (_ | _)
    · exact honors_fileTree
    · exact honors_of_untagged (by decide +kernel)

end Clumoove.Sync
