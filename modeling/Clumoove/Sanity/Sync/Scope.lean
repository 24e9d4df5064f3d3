import Clumoove.Sanity.Sync.Baseline
import Clumoove.Sanity.Sync.Listing

/-! The listings of a pass in relative paths, and the stored rows a pass hands to `listFiles`. -/

namespace Clumoove.Sync

open List

section Paths

variable {base p q : Path}

theorem absPath_inj : absPath base q = absPath base p ↔ q = p := by
  simp [absPath]

theorem absPath_prefix : absPath base q <+: absPath base p ↔ q <+: p := by
  simp [absPath]

@[simp] theorem relPath_absPath : relPath base (absPath base p) = p := by
  simp [relPath, absPath]

theorem relPath_eq_iff (hq : base <+: q) : relPath base q = p ↔ q = absPath base p := by
  obtain ⟨r, rfl⟩ := hq
  rw [show base ++ r = absPath base r from rfl, relPath_absPath, absPath_inj]

end Paths

def Job.Scope (job : Job) (s : Side) (p : Path) : Prop :=
  InScope (job.startPaths s) (absPath (job.base s) p)

/-- A listing of a side that has exactly what the provider holds in the side's scope. -/
structure Scan.Lists (scan : Scan) (job : Job) (trees : Sided Tree) (s : Side) : Prop where
  file : ∀ p fs, scan.files.get p = some fs ↔
    job.Scope s p ∧ (fileAt job trees s p).map File.state = some fs
  dir : ∀ p, p ∈ scan.dirs ↔ job.Scope s p ∧ dirAt job trees s p = true
  etag : ∀ p e, scan.etags.get p = some e ↔
    job.Scope s p ∧ (trees.on s).dir (absPath (job.base s) p) = some e ∧ e ≠ ""

def Current (job : Job) (course : Course) (st : State) : Prop :=
  ∀ s, ((listings job course st).on s).Lists job st.trees s

section

variable {job : Job} {course : Course} {st : State} {trees : Sided Tree} {s : Side} {p q : Path}
variable {scan : Scan} {base : Path}

theorem base_prefix_of_start (h : start ∈ job.startPaths s) : job.base s <+: start := by
  cases s with
  | source => exact nil_prefix
  | target => exact mem_singleton.1 h ▸ prefix_refl _

theorem Job.scope_target : job.Scope .target p :=
  ⟨job.targetDir, mem_singleton.2 rfl, prefix_append _ _⟩

theorem Job.Scope.below (h : job.Scope s p) (hq : p <+: q) : job.Scope s q := by
  obtain ⟨r, rfl⟩ := hq
  unfold Job.Scope absPath at h ⊢
  rw [← append_assoc]
  exact InScope.below h r

theorem Job.scope_of_root (h : [] ∈ job.startPaths .source) : job.Scope s p := by
  cases s with
  | source => exact ⟨[], h, nil_prefix⟩
  | target => exact Job.scope_target

theorem Scan.relative_files (h : ∀ q ∈ scan.files.keys, base <+: q) :
    (scan.relative base).files.get p = scan.files.get (absPath base p) := by
  have hkey := GoMap.get_map_key (f := relPath base) (m := scan.files) (k := absPath base p)
    fun q hq he => by rwa [relPath_absPath, relPath_eq_iff (h q hq)] at he
  rwa [relPath_absPath] at hkey

theorem Scan.relative_etags (h : ∀ q ∈ scan.etags.keys, base <+: q) :
    (scan.relative base).etags.get p = scan.etags.get (absPath base p) := by
  have hkey := GoMap.get_map_key (f := relPath base) (m := scan.etags) (k := absPath base p)
    fun q hq he => by rwa [relPath_absPath, relPath_eq_iff (h q hq)] at he
  rwa [relPath_absPath] at hkey

theorem Scan.mem_relative_dirs (h : ∀ q ∈ scan.dirs, base <+: q) :
    p ∈ (scan.relative base).dirs ↔ absPath base p ∈ scan.dirs := by
  simp only [Scan.relative, List.mem_map]
  constructor
  · rintro ⟨q, hq, he⟩
    rwa [← (relPath_eq_iff (h q hq)).1 he]
  · intro hp
    exact ⟨_, hp, relPath_absPath⟩

theorem Scan.Reports.lists (h : scan.Reports (trees.on s) (InScope (job.startPaths s))) :
    (scan.relative (job.base s)).Lists job trees s := by
  have hscope : ∀ q, InScope (job.startPaths s) q → job.base s <+: q := by
    rintro q ⟨start, hstart, hq⟩
    exact (base_prefix_of_start hstart).trans hq
  refine ⟨fun p fs => ?_, fun p => ?_, fun p e => ?_⟩
  · rw [Scan.relative_files, h.file]
    · rfl
    · intro q hq
      obtain ⟨fs, hfs⟩ := Option.isSome_iff_exists.1 (GoMap.mem_keys.1 hq)
      exact hscope q ((h.file q fs).1 hfs).1
  · rw [Scan.mem_relative_dirs, h.dir]
    · rfl
    · exact fun q hq => hscope q ((h.dir q).1 hq).1
  · rw [Scan.relative_etags, h.etag]
    · rfl
    · intro q hq
      obtain ⟨e, he⟩ := Option.isSome_iff_exists.1 (GoMap.mem_keys.1 hq)
      exact hscope q ((h.etag q e).1 he).1

theorem current_of_valid
    (h : ∀ s, (storedCache (job.base s) s (st.rows.on s)).Valid (st.trees.on s))
    (hpl : plan job course st = some pl) : Current job course st := by
  have herr : ∀ s, (traversal job course st s).indexErrors = [] := by
    unfold plan at hpl
    split_ifs at hpl with he
    intro s
    cases s
    · exact he.1
    · exact he.2
  intro s
  rw [listings, Sided.on_mk']
  exact (listFiles_reports (h s) (herr s)).lists

/-! The stored rows at the provider's paths. -/

variable {rows : GoMap Path Row}

theorem storedCache_etags :
    (storedCache base s rows).etags.get (absPath base p) = (prevDirETags rows).get p :=
  GoMap.get_map_key fun _ _ h => absPath_inj.1 h

theorem storedCache_files : (storedCache base s rows).files.get (absPath base p)
    = ((prevFiles rows).get p).map (·.state s) := by
  have hval := GoMap.get_map_val (m := prevFiles rows) (k := p) fun _ r => r.state s
  have hkey := GoMap.get_map_key (f := absPath base) (k := p)
    (m := (prevFiles rows).map fun e => (e.1, e.2.state s)) fun _ _ h => absPath_inj.1 h
  rw [← hval, ← hkey, List.map_map]
  rfl

theorem storedCache_below (h : (storedCache base s rows).etags.get q = some e) :
    ∃ p, q = absPath base p := by
  have hmem : q ∈ (storedCache base s rows).etags.keys := GoMap.mem_keys.2 (by rw [h]; rfl)
  simp only [storedCache, GoMap.keys, List.map_map, List.mem_map, Function.comp_apply] at hmem
  obtain ⟨e, -, he⟩ := hmem
  exact ⟨e.1, he.symm⟩

end

end Clumoove.Sync
