import Clumoove.Sanity.Sync.Baseline

/-! The baseline after a pass is what its listings say exactly where no path changes between file and
directory and no protected path is a directory that comes or goes. The upserts of a pass come before its
deletes, which are computed for files and for directories separately, so a path in both loses its row. -/

namespace Clumoove.Sync

def Scan.HasDir (scan : Scan) (p : Path) : Prop := p ∈ scan.dirs ∨ scan.etags.get p ≠ none

def Scan.rowAt (s : Side) (scan : Scan) (p : Path) : Option Row :=
  match scan.files.get p with
  | some fs => some (fs.row s)
  | none =>
    match scan.etags.get p with
    | some etag => some (dirRow etag)
    | none => if p ∈ scan.dirs then some (dirRow "") else none

/-- The row that is to be there after a pass: protected paths keep theirs. -/
def wantedRow (rows : Baseline) (m : Snapshot) (s : Side) (p : Path) : Option Row :=
  if p ∈ m.protectedPaths then (rows.on s).get p else (m.scans.on s).rowAt s p

def rowsAt (rows : GoMap Path Row) (p : Path) : List Row := (rows.filter fun e => e.1 = p).map Prod.snd

/-- A path is listed as a file or as a directory, which has an ETag or none. -/
structure Scan.Listed (scan : Scan) (p : Path) : Prop where
  kind : scan.HasDir p → scan.files.get p = none
  etag : scan.etags.get p ≠ some ""

/-- The path does not change between file and directory, and is not a protected directory that comes,
changes or goes. -/
structure Steady (rows : Baseline) (m : Snapshot) (s : Side) (p : Path) : Prop where
  /-- What is a directory here is and was a file nowhere. -/
  dir : p ∉ m.protectedPaths → (m.scans.on s).HasDir p → p ∉ allKeys m.scans rows
  /-- What is a file here was not a directory. -/
  file : p ∉ m.protectedPaths → (m.scans.on s).files.get p ≠ none →
    ∀ r, (rows.on s).get p = some r → r.isDir = false
  same : p ∈ m.protectedPaths → (m.scans.on s).HasDir p →
    (rows.on s).get p = (m.scans.on s).rowAt s p
  stays : p ∈ m.protectedPaths → ∀ r, (rows.on s).get p = some r → r.isDir = true →
    (m.scans.on s).HasDir p

variable {rows : Baseline} {m : Snapshot} {s : Side} {p : Path}

theorem Scan.rowAt_none {scan : Scan} (hfile : scan.files.get p = none) (hdir : ¬ scan.HasDir p) :
    scan.rowAt s p = none := by
  obtain ⟨hdirs, hetag⟩ := not_or.1 hdir
  simp [Scan.rowAt, hfile, not_not.1 hetag, hdirs]

theorem Scan.rowAt_ne_none {scan : Scan} (hp : scan.HasDir p ∨ scan.files.get p ≠ none) : scan.rowAt s p ≠ none := by
  unfold Scan.rowAt
  cases hfile : scan.files.get p with
  | some fs => simp
  | none =>
    rcases hp with (hdirs | hetag) | hp
    · cases scan.etags.get p <;> simp [hdirs]
    · obtain ⟨etag, hetag⟩ := Option.ne_none_iff_exists'.1 hetag
      simp [hetag]
    · exact absurd hfile hp

/-- A row that is not a directory's in the listing: the file's, or the old one. -/
theorem newBaseline_get_file (hdel : ¬ RowDeleted rows m s p) (hdir : ¬ (m.scans.on s).HasDir p) :
    ((newBaseline rows m).on s).get p = wantedRow rows m s p := by
  obtain ⟨hmem, hetag⟩ := not_or.1 hdir
  rw [newBaseline_get hdel, wantedRow]
  by_cases hprot : p ∈ m.protectedPaths
  · simp [not_not.1 hetag, hmem, hprot]
  · cases hfile : (m.scans.on s).files.get p with
    | some fs =>
      have hkey : p ∈ allKeys m.scans rows := mem_allKeys.2 (.inl ⟨s, by simp [hfile]⟩)
      simp [not_not.1 hetag, hmem, hprot, hkey, Scan.rowAt, hfile]
    | none =>
      -- an old row would have been deleted
      have hold : (rows.on s).get p = none := by
        by_contra hne
        obtain ⟨r, hr⟩ := Option.ne_none_iff_exists'.1 hne
        apply hdel
        cases hisDir : r.isDir with
        | true => exact .inr ⟨mem_prevDirs_on.2 ⟨r, hr, hisDir⟩, hmem, not_not.1 hetag⟩
        | false => exact .inl ⟨mem_allKeys.2 (.inr ⟨s, r, hr, hisDir⟩), hprot, hfile⟩
      simp [not_not.1 hetag, hmem, hprot, hold, Scan.rowAt_none hfile hdir]

section Row

variable (hlisted : (m.scans.on s).Listed p)
include hlisted

/-- The row of a directory, unless it is deleted. -/
theorem newBaseline_get_dir (hdel : ¬ RowDeleted rows m s p) (hdir : (m.scans.on s).HasDir p) :
    ((newBaseline rows m).on s).get p = (m.scans.on s).rowAt s p := by
  rw [newBaseline_get hdel]
  cases hetag : (m.scans.on s).etags.get p with
  | some etag =>
    have hne : etag ≠ "" := by
      rintro rfl
      exact hlisted.etag hetag
    simp [Scan.rowAt, hlisted.kind hdir, hetag, hne]
  | none =>
    have hmem : p ∈ (m.scans.on s).dirs := hdir.resolve_right (not_not.2 hetag)
    simp [Scan.rowAt, hlisted.kind hdir, hetag, hmem]

theorem steady_of_get_eq (h : ((newBaseline rows m).on s).get p = wantedRow rows m s p) :
    Steady rows m s p := by
  have hkept (hwanted : wantedRow rows m s p ≠ none) : ¬ RowDeleted rows m s p := by
    intro hdel
    rw [newBaseline_deleted hdel] at h
    exact hwanted h.symm
  refine ⟨?_, ?_, ?_, ?_⟩
  · intro hprot hdir hkey
    refine hkept ?_ (.inl ⟨hkey, hprot, hlisted.kind hdir⟩)
    rw [wantedRow, if_neg hprot]
    exact Scan.rowAt_ne_none (.inl hdir)
  · intro hprot hfile r hr
    by_contra hisDir
    obtain ⟨hmem, hetag⟩ := not_or.1 fun hdir => hfile (hlisted.kind hdir)
    refine hkept ?_ (.inr ⟨mem_prevDirs_on.2 ⟨r, hr, by simpa using hisDir⟩, hmem, not_not.1 hetag⟩)
    rw [wantedRow, if_neg hprot]
    exact Scan.rowAt_ne_none (.inr hfile)
  · intro hprot hdir
    have hdel : ¬ RowDeleted rows m s p := by
      rintro (⟨-, hnot, -⟩ | ⟨-, hmem, hetag⟩)
      · exact hnot hprot
      · exact hdir.elim hmem fun hne => hne hetag
    rw [newBaseline_get_dir hlisted hdel hdir, wantedRow, if_pos hprot] at h
    exact h.symm
  · intro hprot r hr hisDir
    by_contra hdir
    obtain ⟨hmem, hetag⟩ := not_or.1 hdir
    refine hkept ?_ (.inr ⟨mem_prevDirs_on.2 ⟨r, hr, hisDir⟩, hmem, not_not.1 hetag⟩)
    rw [wantedRow, if_pos hprot, hr]
    exact nofun

end Row

namespace Steady

theorem wanted_of_deleted (h : Steady rows m s p) (hdel : RowDeleted rows m s p) :
    wantedRow rows m s p = none := by
  rcases hdel with ⟨hkey, hprot, hfile⟩ | ⟨hold, hdirs, hetag⟩
  · rw [wantedRow, if_neg hprot]
    exact Scan.rowAt_none hfile fun hdir => h.dir hprot hdir hkey
  · obtain ⟨r, hr, hisDir⟩ := mem_prevDirs_on.1 hold
    have hdir : ¬ (m.scans.on s).HasDir p := not_or.2 ⟨hdirs, not_not.2 hetag⟩
    have hprot : p ∉ m.protectedPaths := fun hprot => hdir (h.stays hprot r hr hisDir)
    rw [wantedRow, if_neg hprot]
    apply Scan.rowAt_none _ hdir
    by_contra hfile
    rw [h.file hprot hfile r hr] at hisDir
    cases hisDir

theorem wanted_of_dir (h : Steady rows m s p) (hdir : (m.scans.on s).HasDir p) :
    wantedRow rows m s p = (m.scans.on s).rowAt s p := by
  unfold wantedRow
  split_ifs with hprot
  · exact h.same hprot hdir
  · rfl

theorem newBaseline_get_eq (h : Steady rows m s p) (hlisted : (m.scans.on s).Listed p) :
    ((newBaseline rows m).on s).get p = wantedRow rows m s p := by
  by_cases hdel : RowDeleted rows m s p
  · rw [newBaseline_deleted hdel, h.wanted_of_deleted hdel]
  by_cases hdir : (m.scans.on s).HasDir p
  · rw [newBaseline_get_dir hlisted hdel hdir, h.wanted_of_dir hdir]
  · exact newBaseline_get_file hdel hdir

end Steady

theorem writeRows_nodup (ht : t.keys.Nodup) (us : List (Path × Row)) (ds : List Path) :
    (writeRows t us ds).keys.Nodup := by
  induction us generalizing t with
  | cons u us ih => exact ih (GoMap.keys_set_nodup ht)
  | nil =>
    induction ds generalizing t with
    | nil => exact ht
    | cons d ds ih => exact ih (GoMap.keys_erase_nodup ht)

/-- A path has after a pass exactly the row that its listing says, or exactly the old one if it is
protected, if and only if it does not change its kind and is no protected directory that changes. -/
theorem baseline_is_listing {rows : Baseline} {m : Snapshot} (hrows : ∀ s, (rows.on s).keys.Nodup)
    (hlisted : ∀ s p, (m.scans.on s).Listed p) (s : Side) (p : Path) :
    rowsAt ((newBaseline rows m).on s) p = (wantedRow rows m s p).toList ↔ Steady rows m s p := by
  have hnodup : ((newBaseline rows m).on s).keys.Nodup := by
    rw [newBaseline, Sided.on_mk']
    exact writeRows_nodup (hrows s) _ _
  have hrow : rowsAt ((newBaseline rows m).on s) p = (((newBaseline rows m).on s).get p).toList := by
    rw [rowsAt, GoMap.filter_key hnodup]
    simp
  rw [hrow]
  constructor
  · intro h
    have hget := congrArg List.head? h
    rw [Option.head?_toList, Option.head?_toList] at hget
    exact steady_of_get_eq (hlisted s p) hget
  · intro h
    rw [h.newBaseline_get_eq (hlisted s p)]

def twoListed : Snapshot where
  scans := ⟨{ files := [(["a"], ⟨2, none, "h2", ""⟩)], dirs := [["d"]], etags := [(["d"], "D1")] }, {}⟩
  protectedPaths := []

def oneStored : Baseline := ⟨[(["a"], { size := 1, sourceHash := "h1" })], []⟩

theorem changed_file_is_stored :
    rowsAt (newBaseline oneStored twoListed).source ["a"] = [{ size := 2, sourceHash := "h2" }] := by
  have hlisted (s : Side) (p : Path) : (twoListed.scans.on s).Listed p := by
    cases s with
    | target => exact ⟨fun _ => rfl, nofun⟩
    | source =>
      refine ⟨fun h => ?_, ?_⟩
      · obtain rfl : p = ["d"] := by
          simp only [twoListed, Scan.HasDir, GoMap.get_cons, Sided.on] at h
          simpa [eq_comm] using h
        rfl
      · simp [twoListed, Sided.on, GoMap.get_cons]
  refine (@baseline_is_listing oneStored twoListed ?_ hlisted .source ["a"]).2 ⟨?_, ?_, nofun, nofun⟩
  · rintro (_ | _) <;> decide
  · intro _ h
    simp [twoListed, Scan.HasDir, GoMap.get_cons, Sided.on] at h
  · intro _ _ r hr
    simp only [oneStored, Sided.on, GoMap.get_cons, Option.some.injEq, if_true] at hr
    rw [← hr]
    rfl

/-- A path that was a directory and is a file, one that was a file and is a directory, and a protected
directory that is gone: none has a row after the pass. -/
theorem changed_kind_is_lost :
    (∃ rows m, m.protectedPaths = [] ∧ (m.scans.source.rowAt .source ["x"]) = some { size := 1, sourceHash := "h" } ∧
      rowsAt (newBaseline rows m).source ["x"] = []) ∧
    (∃ rows m, m.protectedPaths = [] ∧ (m.scans.source.rowAt .source ["x"]) = some (dirRow "X1") ∧
      rowsAt (newBaseline rows m).source ["x"] = []) ∧
    ∃ rows m, m.protectedPaths = [["x"]] ∧ rows.source.get ["x"] = some (dirRow "X1") ∧
      rowsAt (newBaseline rows m).source ["x"] = [] := by
  refine ⟨?_, ?_, ?_⟩
  · exact ⟨⟨[(["x"], dirRow "")], []⟩, ⟨⟨{ files := [(["x"], ⟨1, none, "h", ""⟩)] }, {}⟩, []⟩,
      by decide, by decide, by decide⟩
  · exact ⟨⟨[(["x"], { size := 1 })], []⟩, ⟨⟨{ dirs := [["x"]], etags := [(["x"], "X1")] }, {}⟩, []⟩,
      by decide, by decide, by decide⟩
  · exact ⟨⟨[(["x"], dirRow "X1")], []⟩, ⟨⟨{}, {}⟩, [["x"]]⟩, by decide, by decide, by decide⟩

end Clumoove.Sync
