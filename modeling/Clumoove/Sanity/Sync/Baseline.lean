import Clumoove.Spec.Sync.Pass
import Mathlib.Data.List.Dedup

/-! What a pass reads from the baseline and what it leaves there, path by path. -/

namespace Clumoove.Sync

open List Option

section Read

variable {rows : GoMap Path Row} {p : Path} {r : Row} {e : String}

theorem prevFiles_get : (prevFiles rows).get p = (rows.get p).filter fun r => !r.isDir := by
  rw [prevFiles, GoMap.get_collect]
  split_ifs with h
  · rfl
  · rw [GoMap.get_eq_none_iff.2 h]
    rfl

theorem prevFiles_eq_some : (prevFiles rows).get p = some r ↔ rows.get p = some r ∧ r.isDir = false := by
  rw [prevFiles_get, filter_eq_some_iff]
  simp

theorem prevDirETags_get :
    (prevDirETags rows).get p = ((rows.get p).filter Row.isDir).map Row.etag := by
  rw [prevDirETags, GoMap.get_collect]
  split_ifs with h
  · rfl
  · rw [GoMap.get_eq_none_iff.2 h]
    rfl

theorem prevDirETags_eq_some :
    (prevDirETags rows).get p = some e ↔ ∃ r, rows.get p = some r ∧ r.isDir = true ∧ r.etag = e := by
  rw [prevDirETags_get, map_eq_some_iff]
  simp only [filter_eq_some_iff, and_assoc]

theorem mem_prevDirs : p ∈ (prevDirETags rows).keys ↔ ∃ r, rows.get p = some r ∧ r.isDir = true := by
  rw [GoMap.mem_keys, isSome_iff_exists]
  simp only [prevDirETags_eq_some]
  constructor
  · rintro ⟨e, r, hr, hd, -⟩
    exact ⟨r, hr, hd⟩
  · rintro ⟨r, hr, hd⟩
    exact ⟨r.etag, r, hr, hd, rfl⟩

theorem mem_prevFiles_keys :
    p ∈ (prevFiles rows).keys ↔ ∃ r, rows.get p = some r ∧ r.isDir = false := by
  rw [GoMap.mem_keys, isSome_iff_exists]
  simp only [prevFiles_eq_some]

end Read

section Write

variable {rows : GoMap Path Row} {p : Path} {r : Row}

theorem foldl_set_get (us : List (Path × Row)) :
    (us.foldl (fun rows u => rows.set u.1 u.2) rows).get p
      = (us.reverse.find? fun u => u.1 = p).elim (rows.get p) fun u => some u.2 := by
  induction us generalizing rows with
  | nil => rfl
  | cons u us ih =>
    rw [foldl_cons, ih, GoMap.get_set, reverse_cons, List.find?_append]
    cases h : us.reverse.find? fun u => u.1 = p with
    | some v => rfl
    | none =>
      by_cases hp : p = u.1
      · simp [hp]
      · simp [hp, Ne.symm hp]

theorem foldl_erase_get (ds : List Path) :
    (ds.foldl GoMap.erase rows).get p = if p ∈ ds then none else rows.get p := by
  induction ds generalizing rows with
  | nil => simp
  | cons d ds ih =>
    rw [foldl_cons, ih, GoMap.get_erase]
    by_cases hp : p = d
    · simp [hp]
    · simp [hp]

theorem writeRows_get (us : List (Path × Row)) (ds : List Path) :
    (writeRows rows us ds).get p = if p ∈ ds then none else
      (us.reverse.find? fun u => u.1 = p).elim (rows.get p) fun u => some u.2 := by
  rw [writeRows, foldl_erase_get, foldl_set_get]

end Write

theorem FileState.row_not_dir {fs : FileState} (s : Side) (h : 0 ≤ fs.size) :
    (fs.row s).isDir = false := by
  have : fs.size ≠ -1 := by omega
  cases s <;> exact decide_eq_false this

@[simp] theorem FileState.row_state (fs : FileState) (s : Side) : (fs.row s).state s = fs := by
  cases s <;> rfl

theorem mem_allKeys : p ∈ allKeys scans rows ↔ (∃ s, ((scans.on s).files.get p).isSome) ∨
      ∃ s r, (rows.on s).get p = some r ∧ r.isDir = false := by
  unfold allKeys
  rw [mem_dedup, mem_append, mem_append, mem_append, mem_prevFiles_keys,
    mem_prevFiles_keys, GoMap.mem_keys, GoMap.mem_keys]
  constructor
  · rintro (((h | h) | ⟨r, h⟩) | ⟨r, h⟩)
    · exact .inl ⟨.source, h⟩
    · exact .inl ⟨.target, h⟩
    · exact .inr ⟨.source, r, h⟩
    · exact .inr ⟨.target, r, h⟩
  · rintro (⟨s, h⟩ | ⟨s, r, h⟩)
    · cases s
      · exact .inl (.inl (.inl h))
      · exact .inl (.inl (.inr h))
    · cases s
      · exact .inl (.inr ⟨r, h⟩)
      · exact .inr ⟨r, h⟩

section NewBaseline

variable {rows : Baseline} {m : Snapshot} {s : Side} {p : Path} {r : Row}

theorem mem_prevDirs_on : p ∈ (prevDirs rows).on s ↔ ∃ r, (rows.on s).get p = some r ∧ r.isDir = true := by
  cases s <;> exact mem_prevDirs

theorem get_reverse_filterMap (ks : List Path) (f : Path → Option Row) :
    GoMap.get (ks.filterMap fun k => (f k).map fun v => (k, v)).reverse p
      = if p ∈ ks then f p else none := by
  have h := GoMap.get_collect (k := p) ks.reverse f
  rw [GoMap.collect, filterMap_reverse] at h
  simpa using h

theorem get_upserts (paths : List Path) (scan : Scan) (prot : List Path) :
    GoMap.get (upserts s scan paths prot).reverse p =
      (if p ∈ scan.dirs ∧ scan.etags.get p = none then some (dirRow "") else none).or
        ((((scan.etags.get p).filter (· ≠ "")).map dirRow).or
          (if p ∈ paths ∧ p ∉ prot then (scan.files.get p).map (·.row s) else none)) := by
  have hfiles := get_reverse_filterMap (p := p) paths fun p =>
    if p ∈ prot then none else (scan.files.get p).map (·.row s)
  have hetags := get_reverse_filterMap (p := p) scan.etags.keys fun p =>
    ((scan.etags.get p).filter (· ≠ "")).map dirRow
  have hdirs := get_reverse_filterMap (p := p) (scan.dirs.filter fun p => scan.etags.get p = none)
    fun _ => some (dirRow "")
  rw [upserts, reverse_append, reverse_append, GoMap.get_append, GoMap.get_append]
  congr 1
  · simpa [Function.comp_def] using hdirs
  congr 1
  · simp only [Option.map_map, Function.comp_def] at hetags
    rw [hetags]
    split_ifs with hk
    · rfl
    · rw [GoMap.get_eq_none_iff.2 hk]
      rfl
  · rw [show (fun p => if p ∈ prot then none else (scan.files.get p).map fun fs => (p, fs.row s))
      = fun k => (if k ∈ prot then none else (scan.files.get k).map (·.row s)).map fun v => (k, v)
      by funext k; split_ifs <;> simp [Function.comp_def], hfiles]
    by_cases hp : p ∈ prot <;> simp [hp]

def RowDeleted (rows : Baseline) (m : Snapshot) (s : Side) (p : Path) : Prop :=
  (p ∈ allKeys m.scans rows ∧ p ∉ m.protectedPaths ∧ (m.scans.on s).files.get p = none) ∨
    (p ∈ (prevDirs rows).on s ∧ p ∉ (m.scans.on s).dirs ∧ (m.scans.on s).etags.get p = none)

theorem newBaseline_deleted (h : RowDeleted rows m s p) :
    ((newBaseline rows m).on s).get p = none := by
  have hmem : p ∈ deletes (m.scans.on s) (allKeys m.scans rows) m.protectedPaths
      ((prevDirs rows).on s) := by
    simpa [deletes, RowDeleted] using h
  rw [newBaseline, Sided.on_mk', writeRows_get, if_pos hmem]

theorem newBaseline_get (h : ¬ RowDeleted rows m s p) : ((newBaseline rows m).on s).get p =
    ((if p ∈ (m.scans.on s).dirs ∧ (m.scans.on s).etags.get p = none then some (dirRow "")
      else none).or (((((m.scans.on s).etags.get p).filter (· ≠ "")).map dirRow).or
      (if p ∈ allKeys m.scans rows ∧ p ∉ m.protectedPaths then
        ((m.scans.on s).files.get p).map (·.row s) else none))).or ((rows.on s).get p) := by
  have hmem : p ∉ deletes (m.scans.on s) (allKeys m.scans rows) m.protectedPaths
      ((prevDirs rows).on s) := by
    simpa [deletes, RowDeleted] using h
  have helim : ∀ o : Option (Path × Row), o.elim ((rows.on s).get p) (fun u => some u.2)
      = (o.map Prod.snd).or ((rows.on s).get p) := by
    intro o
    cases o <;> rfl
  rw [newBaseline, Sided.on_mk', writeRows_get, if_neg hmem, helim, ← get_upserts]
  rfl

theorem file_row_after (h : ((newBaseline rows m).on s).get p = some r) (hr : r.isDir = false) :
    (p ∈ m.protectedPaths ∧ (rows.on s).get p = some r) ∨
      (p ∉ m.protectedPaths ∧ ∃ fs, (m.scans.on s).files.get p = some fs ∧ r = fs.row s) := by
  by_cases hdel : RowDeleted rows m s p
  · rw [newBaseline_deleted hdel] at h
    cases h
  rw [newBaseline_get hdel] at h
  by_cases hd : p ∈ (m.scans.on s).dirs ∧ (m.scans.on s).etags.get p = none
  · rw [if_pos hd] at h
    cases h
    cases hr
  rw [if_neg hd, none_or] at h
  cases he : ((m.scans.on s).etags.get p).filter (· ≠ "") with
  | some e =>
    rw [he] at h
    cases h
    cases hr
  | none =>
    rw [he, map_none, none_or] at h
    by_cases hp : p ∈ m.protectedPaths
    · rw [if_neg (by simp [hp]), none_or] at h
      exact .inl ⟨hp, h⟩
    cases hf : (m.scans.on s).files.get p with
    | some fs =>
      have hk : p ∈ allKeys m.scans rows := mem_allKeys.2 (.inl ⟨s, by simp [hf]⟩)
      rw [if_pos ⟨hk, hp⟩, hf] at h
      cases h
      exact .inr ⟨hp, fs, rfl, rfl⟩
    | none =>
      -- a row of a file makes its path one of the keys, and an unlisted one is deleted
      rw [hf, map_none, ite_self, none_or] at h
      exact absurd (.inl ⟨mem_allKeys.2 (.inr ⟨s, r, h, hr⟩), hp, hf⟩) hdel

theorem dir_row_after (h : ((newBaseline rows m).on s).get p = some r) (hr : r.isDir = true)
    (hfile : ∀ fs, (m.scans.on s).files.get p = some fs → 0 ≤ fs.size)
    (hetag : (m.scans.on s).etags.get p ≠ some "") :
    (p ∈ (m.scans.on s).dirs ∧ (m.scans.on s).etags.get p = none ∧ r = dirRow "") ∨
      ∃ e, (m.scans.on s).etags.get p = some e ∧ r = dirRow e := by
  by_cases hdel : RowDeleted rows m s p
  · rw [newBaseline_deleted hdel] at h
    cases h
  rw [newBaseline_get hdel] at h
  by_cases hd : p ∈ (m.scans.on s).dirs ∧ (m.scans.on s).etags.get p = none
  · rw [if_pos hd] at h
    cases h
    exact .inl ⟨hd.1, hd.2, rfl⟩
  rw [if_neg hd, none_or] at h
  cases he : (m.scans.on s).etags.get p with
  | some e =>
    have hne : e ≠ "" := by
      rintro rfl
      exact hetag he
    rw [he, filter_some, if_pos (decide_eq_true hne)] at h
    cases h
    exact .inr ⟨e, rfl, rfl⟩
  | none =>
    rw [he, filter_none, map_none, none_or] at h
    have hold : (rows.on s).get p ≠ some r := by
      -- an old row of a directory that is not listed is deleted
      intro hold
      exact hdel (.inr ⟨mem_prevDirs_on.2 ⟨r, hold, hr⟩, fun hd' => hd ⟨hd', he⟩, he⟩)
    split_ifs at h with hk
    · cases hf : (m.scans.on s).files.get p with
      | none =>
        rw [hf] at h
        exact absurd h hold
      | some fs =>
        rw [hf] at h
        cases h
        rw [FileState.row_not_dir s (hfile fs hf)] at hr
        cases hr
    · exact absurd h hold

end NewBaseline

end Clumoove.Sync
