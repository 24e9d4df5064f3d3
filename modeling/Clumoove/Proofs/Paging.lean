import Clumoove.Sanity.Transfer.World
import Clumoove.Spec.Paging
import Mathlib.Data.Char
import Mathlib.Data.List.Lex
import Mathlib.Data.Prod.Lex

/-! Whoever follows the cursors of a directory sees each entry once or learns that the directory has
changed, exactly if one page has it all or entries that tie in the order of the pages are the same. -/

namespace Clumoove.Files

open List Sorting
open Transfer (GoLib asciiLib)

variable {lib : GoLib} {slice : Sorting (entryLess lib)} {sum : List ManagerItem → Digest}
  {content : ℕ → List CloudResource} {limit : ℕ}

def entryKey (lib : GoLib) (a : ManagerItem) : Bool ×ₗ Text ×ₗ Text :=
  toLex (!a.isDir, toLex (lib.toLower (lib.trimSpace a.name), managedLocatorIdentity a.locator))

theorem entryLess_eq (lib : GoLib) (a b : ManagerItem) :
    entryLess lib a b = decide (entryKey lib a < entryKey lib b) := by
  unfold entryLess entryKey
  rw [Bool.eq_iff_iff, decide_eq_true_iff, Prod.Lex.toLex_lt_toLex, Prod.Lex.toLex_lt_toLex]
  cases a.isDir <;> cases b.isDir <;> simp <;> split_ifs with h <;> simp [h]

theorem fingerprint_ne_nil (items : List ManagerItem) : managerListingFingerprint sum items ≠ [] := by
  intro h
  have hlen := (sum items).property
  rw [Bytes.hex_injective (y := []) h] at hlen
  cases hlen

/-- The cursor to a list is good for that list, and for another one only if the sums are the same. -/
theorem pageOffset_next {stop : ℕ} (hstop : stop ≤ s.length)
    (hsum : sum t = sum s → t = s) : pageOffset (managerListingFingerprint sum t) t.length
      (some (some ⟨stop, managerListingFingerprint sum s⟩)) = if t = s then some stop else none := by
  simp only [pageOffset]
  rw [if_neg (by simp [fingerprint_ne_nil])]
  by_cases ht : t = s
  · rw [if_pos ht, ht, if_neg (by simpa using hstop)]
    rfl
  · have hne : managerListingFingerprint sum s ≠ managerListingFingerprint sum t := by
      intro h
      exact ht (hsum (Subtype.ext (Bytes.hex_injective h.symm)))
    rw [if_neg ht, if_pos (.inl hne)]

/-- What a client is shown from a call on that begins at an offset of `s`, if the calls list `t`. -/
def Shown (s : List ManagerItem) (t : ℕ → List ManagerItem) (call offset : ℕ)
    (r : List (List ManagerItem) × Option ListError) : Prop :=
  (r.2 = none ∧ 0 < r.1.length ∧ r.1.flatten = s.drop offset ∧ ∀ k < r.1.length, t (call + k) = s) ∨
    (r.2 = some .directoryChanged ∧ t (call + r.1.length) ≠ s)

theorem Shown.cons {call : ℕ} (ht : t call = s) (h : Shown s t (call + 1) (offset + limit) r) :
    Shown s t call offset ((s.take (offset + limit)).drop offset :: r.1, r.2) := by
  have hnext : ∀ k, call + (k + 1) = call + 1 + k := by omega
  rcases h with ⟨hr, -, hflat, hall⟩ | ⟨hr, hne⟩
  · refine .inl ⟨hr, Nat.succ_pos _, ?_, ?_⟩
    · rw [flatten_cons, hflat, drop_take, ← drop_drop, Nat.add_sub_cancel_left, take_append_drop]
    · intro k hk
      cases k with
      | zero => exact ht
      | succ k =>
        rw [hnext]
        exact hall k (Nat.lt_of_succ_lt_succ hk)
  · refine .inr ⟨hr, ?_⟩
    rwa [length_cons, hnext]

theorem followPages_spec (hlimit : 1 ≤ limit)
    (hsize : ∀ k, (content k).length ≤ fileMaximumDirectoryItems)
    {t : ℕ → List ManagerItem} (hlist : ∀ k, sortManagedEntries lib slice (content k) = t k)
    (hsum : ∀ k, sum (t k) = sum s → t k = s) (fuel : ℕ) :
    ∀ (call offset : ℕ) (cursor : Option (Option LegacyManagerCursor)),
      offset ≤ s.length → s.length < fuel + offset →
      pageOffset (managerListingFingerprint sum (t call)) (t call).length cursor =
        (if t call = s then some offset else none) →
      ∃ r, followPages lib slice sum (fun k => some (content k)) limit fuel call cursor = some r ∧
        Shown s t call offset r := by
  induction fuel with
  | zero =>
    intro call offset cursor ho hf
    omega
  | succ fuel ih =>
    intro call offset cursor ho hf hcursor
    unfold followPages
    simp only [listLegacyManager, if_neg (hsize call).not_gt, hlist, hcursor]
    by_cases ht : t call = s
    · rw [if_pos ht, ht]
      by_cases hmore : offset + limit < s.length
      · obtain ⟨r, hrun, hr⟩ := ih (call + 1) (offset + limit) _ hmore.le (by omega)
          (pageOffset_next hmore.le (hsum (call + 1)))
        simp only [min_eq_left hmore.le, if_pos hmore, hrun]
        exact ⟨_, rfl, hr.cons ht⟩
      · simp only [min_eq_right (not_lt.1 hmore), lt_irrefl, if_false, take_length]
        refine ⟨_, rfl, .inl ⟨rfl, Nat.one_pos, by simp, ?_⟩⟩
        intro k hk
        obtain rfl : k = 0 := by simpa using hk
        exact ht
    · rw [if_neg ht]
      exact ⟨_, rfl, .inr ⟨rfl, ht⟩⟩

/-- Following the cursors shows every entry as often as it occurs, or ends in the error because a call has
listed something else than the first: however the ties are sorted and whatever the calls list, as long
as no call lists too much and sums do not collide. -/
def EachEntryOnce (lib : GoLib) (limit : ℕ) (entries : List CloudResource) : Prop :=
  ∀ (slice : Sorting (entryLess lib)) (sum : List ManagerItem → Digest) (content : ℕ → List CloudResource),
    content 0 ~ entries → (∀ k, (content k).length ≤ fileMaximumDirectoryItems) →
    (∀ k, sum (sortManagedEntries lib slice (content k)) = sum (sortManagedEntries lib slice (content 0)) →
      sortManagedEntries lib slice (content k) = sortManagedEntries lib slice (content 0)) →
    ∃ pages e, followPages lib slice sum (fun k => some (content k)) limit (entries.length + 1) 0 none =
        some (pages, e) ∧ ((e = none ∧ 0 < pages.length ∧
          ∀ k < pages.length, pages.flatten ~ (content k).map managerItemFromCloudResource) ∨
        (e = some .directoryChanged ∧ ¬ content pages.length ~ content 0))

theorem length_sortManagedEntries (lib : GoLib) (slice : Sorting (entryLess lib))
    (resources : List CloudResource) :
    (sortManagedEntries lib slice resources).length = resources.length := by
  rw [sortManagedEntries, (slice.perm _).length_eq, length_map]

theorem eachEntryOnce_of_page (hpage : entries.length ≤ limit) : EachEntryOnce lib limit entries := by
  intro slice sum content hfirst hsize _
  have hlen := length_sortManagedEntries lib slice (content 0)
  rw [← hfirst.length_eq, ← hlen] at hpage
  refine ⟨[sortManagedEntries lib slice (content 0)], none, ?_, .inl ⟨rfl, Nat.one_pos, ?_⟩⟩
  · unfold followPages
    simp [listLegacyManager, (hsize 0).not_gt, pageOffset, Nat.min_eq_right hpage]
  · intro k hk
    obtain rfl : k = 0 := by simpa using hk
    rw [flatten_singleton]
    exact slice.perm _

theorem eachEntryOnce_of_noTies (hlimit : 1 ≤ limit)
    (hties : NoTies (entryLess lib) (entries.map managerItemFromCloudResource)) :
    EachEntryOnce lib limit entries := by
  intro slice sum content hfirst hsize hsum
  have hlen := length_sortManagedEntries lib slice (content 0)
  obtain ⟨⟨pages, e⟩, hrun, hshown⟩ := followPages_spec hlimit hsize (fun _ => rfl) hsum
    ((content 0).length + 1) 0 0 none (Nat.zero_le _) (by omega) (by simp [pageOffset])
  refine ⟨pages, e, by rw [← hfirst.length_eq, hrun], ?_⟩
  simp only [Shown, Nat.zero_add] at hshown
  rcases hshown with ⟨he, hpos, hflat, hall⟩ | ⟨he, hne⟩
  · refine .inl ⟨he, hpos, fun k hk => ?_⟩
    rw [hflat, drop_zero, ← hall k hk]
    exact slice.perm _
  · refine .inr ⟨he, fun hperm => hne ?_⟩
    have hsort := slice.sort_eq ((hperm.trans hfirst).symm.map _) hties
    exact hsort.symm.trans (slice.sort_eq (hfirst.symm.map _) hties)

/-- A second call that lists what has another sum is refused. -/
theorem followPages_refused (hsize : ∀ k, (content k).length ≤ fileMaximumDirectoryItems)
    (hmore : limit < (content 0).length)
    (hsum : sum (sortManagedEntries lib slice (content 1)) ≠ sum (sortManagedEntries lib slice (content 0)))
    (n : ℕ) : ∃ page, followPages lib slice sum (fun k => some (content k)) limit (n + 2) 0 none =
      some ([page], some .directoryChanged) := by
  rw [← length_sortManagedEntries lib slice] at hmore
  have hnext := pageOffset_next hmore.le fun h : sum (sortManagedEntries lib slice (content 1)) =
    sum (sortManagedEntries lib slice (content 0)) => absurd h hsum
  rw [if_neg fun h => hsum (congrArg sum h)] at hnext
  unfold followPages followPages
  simp only [listLegacyManager, if_neg (hsize _).not_gt, pageOffset, Nat.zero_add, min_eq_left hmore.le,
    if_pos hmore] at hnext ⊢
  simp only [hnext]
  exact ⟨_, rfl⟩

/-- A sum that tells one list from all others. -/
def sumOf (s items : List ManagerItem) : Digest :=
  ⟨replicate 32 (if items = s then 0 else 1), length_replicate⟩

theorem sumOf_inj (h : sumOf s t = sumOf s s) : t = s := by
  by_contra hne
  simp [sumOf, hne] at h

/-- The second call lists entries that tie in another order. -/
theorem not_eachEntryOnce (hsize : entries.length ≤ fileMaximumDirectoryItems)
    (hmore : limit < entries.length)
    (hties : ¬ NoTies (entryLess lib) (entries.map managerItemFromCloudResource)) :
    ¬ EachEntryOnce lib limit entries := by
  intro h
  obtain ⟨s, s', hs, hs', hne, hsort, hsort'⟩ := exists_sort_ne (entryLess_eq lib) hties
  have horder {s : List ManagerItem} (hs : s ~ entries.map managerItemFromCloudResource) :
      ∃ l, s = l.map managerItemFromCloudResource ∧ l ~ entries :=
    (congrFun₂ (eq_map_comp_perm managerItemFromCloudResource) s entries).mpr hs
  obtain ⟨l, rfl, hl⟩ := horder hs
  obtain ⟨l', rfl, hl'⟩ := horder hs'
  let content (k : ℕ) : List CloudResource := if k = 0 then l else l'
  have hcontent (k : ℕ) : content k ~ entries := by
    unfold content
    split_ifs <;> assumption
  have hcall (k : ℕ) : (content k).length ≤ fileMaximumDirectoryItems := by
    rwa [(hcontent k).length_eq]
  have hsum (k : ℕ) : sumOf (l.map managerItemFromCloudResource)
        (sortManagedEntries lib (insertion (entryLess_eq lib)) (content k)) =
      sumOf (l.map managerItemFromCloudResource)
        (sortManagedEntries lib (insertion (entryLess_eq lib)) (content 0)) →
      sortManagedEntries lib (insertion (entryLess_eq lib)) (content k) =
        sortManagedEntries lib (insertion (entryLess_eq lib)) (content 0) := by
    rw [show sortManagedEntries lib _ (content 0) = _ from hsort]
    exact sumOf_inj
  have hdiff : sortManagedEntries lib (insertion (entryLess_eq lib)) (content 1) ≠
      sortManagedEntries lib (insertion (entryLess_eq lib)) (content 0) := by
    rw [show sortManagedEntries lib _ (content 0) = _ from hsort,
      show sortManagedEntries lib _ (content 1) = _ from hsort']
    exact hne.symm
  obtain ⟨n, hn⟩ := Nat.exists_eq_succ_of_ne_zero (Nat.ne_of_gt (Nat.zero_lt_of_lt hmore))
  obtain ⟨pages, e, hrun, hend⟩ := h _ _ content (hcontent 0) hcall hsum
  obtain ⟨page, hrefused⟩ := followPages_refused hcall (by rwa [(hcontent 0).length_eq])
    (fun h => hdiff (hsum 1 h)) n
  rw [hn, hrefused] at hrun
  cases hrun
  rcases hend with ⟨he, -⟩ | ⟨-, hchanged⟩
  · cases he
  · exact hchanged ((hcontent _).trans (hcontent 0).symm)

theorem pages_show_each_entry_once (lib : GoLib) (limit : ℕ) (hlimit : 1 ≤ limit)
    (entries : List CloudResource) (hsize : entries.length ≤ fileMaximumDirectoryItems) :
    EachEntryOnce lib limit entries ↔ entries.length ≤ limit ∨
      NoTies (entryLess lib) (entries.map managerItemFromCloudResource) := by
  constructor
  · intro h
    by_contra hnot
    rw [not_or, not_le] at hnot
    exact not_eachEntryOnce hsize hnot.1 hnot.2 h
  · rintro (hpage | hties)
    · exact eachEntryOnce_of_page hpage
    · exact eachEntryOnce_of_noTies hlimit hties

/-- A sum that tells lists apart by the size of what comes first. -/
def firstSize (items : List ManagerItem) : Digest :=
  ⟨replicate 32 (UInt8.ofNat ((items.head?.map ManagerItem.size).getD 0).toNat), length_replicate⟩

def threeEntries : List CloudResource :=
  [{ path := "/b".toList, name := "b".toList, size := 1 },
    { path := "/d".toList, name := "d".toList, isDir := true },
    { path := "/a".toList, name := "a".toList, size := 2 }]

/-- From the second call on the directory is listed in the other order. -/
def turned (entries : List CloudResource) : ℕ → List CloudResource
  | 0 => entries
  | _ + 1 => entries.reverse

def turnedPages (entries : List CloudResource) (limit : ℕ) :
    Option (List (List ManagerItem) × Option ListError) :=
  followPages asciiLib (insertion (entryLess_eq asciiLib)) firstSize (fun k => some (turned entries k)) limit
    (entries.length + 1) 0 none

theorem three_entries_shown : ∃ pages, turnedPages threeEntries 2 = some (pages, none) ∧
    pages.map (·.map ManagerItem.name) = [["d".toList, "a".toList], ["b".toList]] ∧
    pages.flatten ~ threeEntries.map managerItemFromCloudResource := by
  have hrun : (turnedPages threeEntries 2).map (fun r => (r.1.map (·.map ManagerItem.name), r.2)) =
      some ([["d".toList, "a".toList], ["b".toList]], none) := by
    decide +kernel
  have honce := (pages_show_each_entry_once asciiLib 2 (by decide) threeEntries (by decide)).2
    (.inr (by unfold NoTies; decide))
  obtain ⟨pages, e, hpages, hend⟩ := honce (insertion (entryLess_eq asciiLib)) firstSize
    (turned threeEntries) (.refl _) (fun k => by cases k <;> simp [turned, threeEntries, fileMaximumDirectoryItems])
    fun k _ => by
      cases k with
      | zero => rfl
      | succ k =>
        change sortManagedEntries _ _ threeEntries.reverse = sortManagedEntries _ _ threeEntries
        decide +kernel
  change turnedPages threeEntries 2 = some (pages, e) at hpages
  rw [hpages] at hrun
  simp only [Option.map_some, Option.some.injEq, Prod.mk.injEq] at hrun
  obtain ⟨hnames, rfl⟩ := hrun
  rcases hend with ⟨-, hpos, hflat⟩ | ⟨he, -⟩
  · exact ⟨pages, hpages, hnames, hflat 0 hpos⟩
  · cases he

def tiedEntries : List CloudResource :=
  [{ path := "/a".toList, name := "a".toList, size := 1 },
    { path := "/a".toList, name := "a".toList, size := 2 }]

theorem tied_entries_swapped : (turnedPages tiedEntries 1).map (·.2) = some (some .directoryChanged) ∧
    tiedEntries.reverse ~ tiedEntries := by
  decide +kernel

end Clumoove.Files
