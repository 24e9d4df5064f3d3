import Clumoove.Lib.Cover
import Clumoove.Spec.Queue.Indexer

/-! Overlapping selections of a migration are reduced without loss. A clean path from the root is read
as the names it leads through; a selection covers another if its names are a suffix of the other's. -/

namespace Clumoove.Queue

open GoPath List
open Transfer (Text)

/-! The loop in place. -/

/-- After `i` reads: what is kept stands in front, and what is still to be read is as it was. -/
structure Compacted (candidate : Text) (selected : List Text) (i : ℕ) (c : Compaction) : Prop where
  length : c.selected.length = selected.length
  behind : c.filtered ≤ i
  front : c.selected.take c.filtered = (selected.take i).filter fun existing =>
    isSameOrDescendantPath candidate existing || !isSameOrDescendantPath existing candidate
  rest : c.selected.drop i = selected.drop i
  covered : c.covered = (selected.take i).any (isSameOrDescendantPath candidate)

namespace Compacted

variable {candidate : Text} {selected : List Text} {i : ℕ} {c : Compaction}

theorem next (hi : i < selected.length) (h : Compacted candidate selected i c) :
    Compacted candidate selected (i + 1) (c.next candidate i) := by
  have hget : c.selected[i]? = some selected[i] := by
    have hhead := congrArg head? h.rest
    simpa [head?_drop, hi] using hhead
  have hlt : c.filtered < c.selected.length := by
    have := h.behind
    have := h.length
    omega
  have htake : selected.take (i + 1) = selected.take i ++ [selected[i]] := by
    rw [take_succ_eq_append_getElem hi]
  have hrest : c.selected.drop (i + 1) = selected.drop (i + 1) := by
    rw [← tail_drop, h.rest, tail_drop]
  have hset : (c.selected.set c.filtered selected[i]).take (c.filtered + 1) =
      c.selected.take c.filtered ++ [selected[i]] := by
    rw [take_succ_eq_append_getElem (by simpa using hlt), getElem_set_self,
      take_set_of_le (Nat.le_refl _)]
  have hdrop : (c.selected.set c.filtered selected[i]).drop (i + 1) = selected.drop (i + 1) := by
    rw [drop_set_of_lt (Nat.lt_succ_of_le h.behind), hrest]
  have hkeep (hp : (isSameOrDescendantPath candidate selected[i] ||
      !isSameOrDescendantPath selected[i] candidate) = true) {covered : Bool}
      (hcovered : covered = (selected.take (i + 1)).any (isSameOrDescendantPath candidate)) :
      Compacted candidate selected (i + 1) { c.append selected[i] with covered } := by
    refine ⟨length_set.trans h.length, Nat.succ_le_succ h.behind, ?_, hdrop, hcovered⟩
    rw [htake, filter_append, filter_singleton, hp]
    exact hset.trans (congrArg (· ++ _) h.front)
  unfold Compaction.next
  rw [hget]
  dsimp only
  split_ifs with hcand hexist
  · exact hkeep (by simp [hcand]) (by rw [htake, any_append]; simp [hcand])
  · refine ⟨h.length, Nat.le_succ_of_le h.behind, ?_, hrest, ?_⟩
    · rw [h.front, htake, filter_append, filter_singleton]
      simp [hcand, hexist]
    · rw [h.covered, htake, any_append]
      simp [hcand]
  · apply hkeep (by simp [hexist])
    rw [htake, any_append, ← h.covered]
    simp [hcand]

theorem foldl (hi : i ≤ selected.length) :
    Compacted candidate selected i ((range i).foldl (Compaction.next candidate) { selected }) := by
  induction i with
  | zero => exact ⟨rfl, Nat.le_refl _, rfl, rfl, rfl⟩
  | succ i ih =>
    rw [range_succ, foldl_append]
    exact (ih (Nat.le_of_succ_le hi)).next hi

end Compacted

/-- The selections kept are those of the filter, although the loop overwrites what it reads. -/
theorem compactSelected_eq (selected : List Text) (path : Text) :
    compactSelected selected path = addSelectedPath selected path := by
  have h : Compacted (selectionRoot path) selected selected.length _ :=
    Compacted.foldl (Nat.le_refl selected.length)
  unfold compactSelected addSelectedPath
  dsimp only
  rw [h.front, h.covered, take_length]

/-! Clean paths from the root. -/

def Located (p : Text) : Prop := p = render true (resolve p)

variable {p q : Text} {paths : List Text}

theorem selectionRoot_eq (h : rooted p = true) : selectionRoot p = render true (resolve p) := by
  obtain ⟨rest, rfl⟩ : ∃ rest, p = '/' :: rest := by
    cases p with
    | nil => cases h
    | cons c rest => exact ⟨rest, by simpa [rooted] using h⟩
  unfold selectionRoot
  rw [clean_slash, resolve_slash]
  exact if_neg (by simp [render])

theorem located_render (p : Text) : Located (render true (resolve p)) := by
  rw [Located, resolve_render_top (append_nil _).symm]

theorem isSameOrDescendantPath_iff (hp : Located p) (hq : Located q) :
    isSameOrDescendantPath p q = true ↔ resolve q <:+ resolve p := by
  have hnp : Normal (resolve p) := normal_stack _ _
  have hnq : Normal (resolve q) := normal_stack _ _
  by_cases hroot : resolve q = []
  · have hslash : q = ['/'] := by rw [hq, hroot]; rfl
    simp only [hroot, nil_suffix, iff_true]
    simp [isSameOrDescendantPath, hslash]
  have hlast : q.getLast? ≠ some '/' := by
    rw [hq]
    exact getLast_render hnq (up_not_mem_resolve q) hroot
  have hprefix : q ++ ['/'] <+: p ↔ resolve q <:+ resolve p ∧ p ≠ q := by
    constructor
    · rintro ⟨rest, hrest⟩
      refine ⟨?_, ?_⟩
      · have htext : render true (resolve p) = render true (resolve q) ++ '/' :: rest := by
          rw [← hp, ← hq, ← hrest, append_assoc, singleton_append]
        exact suffix_of_render hnq hnp hroot htext
      · rintro rfl
        simpa using congrArg length hrest
    · rintro ⟨⟨top, htop⟩, hne⟩
      have hnil : top ≠ [] := by
        rintro rfl
        exact hne (by rw [hp, hq, ← htop, nil_append])
      refine ⟨intercalate ['/'] top.reverse, ?_⟩
      rw [hp, ← htop, ← render_append hnil hroot, ← hq, append_assoc]
      rfl
  rw [isSameOrDescendantPath, if_neg hlast]
  simp only [Bool.or_eq_true, decide_eq_true_eq, isPrefixOf_iff_prefix, hprefix]
  constructor
  · rintro ((rfl | rfl) | ⟨h, -⟩)
    · exact suffix_refl _
    · exact absurd rfl hroot
    · exact h
  · intro h
    by_cases heq : p = q
    · exact .inl (.inl heq)
    · exact .inr ⟨h, heq⟩

/-- The entry `p` stands for a location when the selection has an entry `q` above it. -/
def above (q p : Text) : Bool := isSameOrDescendantPath p q

theorem above_order : Cover.Order above Located where
  refl _ hp := (isSameOrDescendantPath_iff hp hp).2 (suffix_refl _)
  trans _ _ _ ha hb hc hab hbc := by
    rw [above, isSameOrDescendantPath_iff hb ha] at hab
    rw [above, isSameOrDescendantPath_iff hc hb] at hbc
    exact (isSameOrDescendantPath_iff hc ha).2 (hab.trans hbc)
  antisymm _ _ ha hb hab hba := by
    rw [above, isSameOrDescendantPath_iff hb ha] at hab
    rw [above, isSameOrDescendantPath_iff ha hb] at hba
    rw [ha, hb, hab.eq_of_length (Nat.le_antisymm hab.length_le hba.length_le)]

theorem deduplicateSelectedPaths_eq (paths : List Text) :
    deduplicateSelectedPaths paths = (paths.map selectionRoot).foldl (Cover.add above) [] := by
  rw [deduplicateSelectedPaths, foldl_map]
  rfl

theorem located_selectionRoot (h : rooted p = true) : Located (selectionRoot p) := by
  rw [selectionRoot_eq h]
  exact located_render p

theorem resolve_selectionRoot (h : rooted p = true) : resolve (selectionRoot p) = resolve p := by
  rw [selectionRoot_eq h, resolve_render_top (append_nil _).symm]

theorem located_given (h : ∀ p ∈ paths, rooted p = true) :
    ∀ e ∈ (paths.map selectionRoot).reverse, Located e := by
  intro e he
  obtain ⟨p, hp, rfl⟩ := mem_map.1 (mem_reverse.1 he)
  exact located_selectionRoot (h p hp)

theorem reduced_deduplicateSelectedPaths (h : ∀ p ∈ paths, rooted p = true) :
    Cover.Reduced above (paths.map selectionRoot).reverse (deduplicateSelectedPaths paths) := by
  have hlocated := fun e he => located_given h e (mem_reverse.2 he)
  have hstart : Cover.Reduced above [] [] := ⟨by simp, by simp, .nil⟩
  have hrun := Cover.reduced_foldl above_order _ hlocated (by simp) hstart
  rwa [append_nil, ← deduplicateSelectedPaths_eq] at hrun

theorem overlapping_selections_reduced (paths : List Text) (h : ∀ p ∈ paths, rooted p = true) :
    paths.foldl compactSelected [] = deduplicateSelectedPaths paths ∧
      (∀ location, (∃ e ∈ deduplicateSelectedPaths paths, resolve e <:+ location) ↔
        ∃ p ∈ paths, resolve p <:+ location) ∧
      (deduplicateSelectedPaths paths).Pairwise (fun e e' =>
        ¬ resolve e <:+ resolve e' ∧ ¬ resolve e' <:+ resolve e) ∧
      ∀ paths', paths' ~ paths → ∀ e,
        e ∈ deduplicateSelectedPaths paths' ↔ e ∈ deduplicateSelectedPaths paths := by
  have hr := reduced_deduplicateSelectedPaths h
  have hgiven : ∀ e ∈ deduplicateSelectedPaths paths, ∃ p ∈ paths, selectionRoot p = e := by
    intro e he
    simpa using hr.subset e he
  have hlocated := fun e he => located_given h e (hr.subset e he)
  refine ⟨?_, ?_, ?_, ?_⟩
  · rw [deduplicateSelectedPaths, funext₂ compactSelected_eq]
  · intro location
    constructor
    · rintro ⟨e, he, hloc⟩
      obtain ⟨p, hp, rfl⟩ := hgiven e he
      exact ⟨p, hp, resolve_selectionRoot (h p hp) ▸ hloc⟩
    · rintro ⟨p, hp, hloc⟩
      obtain ⟨e, he, habove⟩ := hr.cover (selectionRoot p) (by simpa using ⟨p, hp, rfl⟩)
      have hiff := isSameOrDescendantPath_iff (located_selectionRoot (h p hp)) (hlocated e he)
      rw [resolve_selectionRoot (h p hp)] at hiff
      exact ⟨e, he, (hiff.1 habove).trans hloc⟩
  · refine hr.apart.imp_of_mem ?_
    intro e e' he he' hapart
    rw [← isSameOrDescendantPath_iff (hlocated e he) (hlocated e' he'),
      ← isSameOrDescendantPath_iff (hlocated e' he') (hlocated e he)]
    exact ⟨by simpa [above] using hapart.1, by simpa [above] using hapart.2⟩
  · -- what is kept is told by which entries are given, not by their order
    intro paths' hperm e
    have h' : ∀ p ∈ paths', rooted p = true := fun p hp => h p (hperm.mem_iff.1 hp)
    have hmem : ∀ x, x ∈ (paths'.map selectionRoot).reverse ↔
        x ∈ (paths.map selectionRoot).reverse := by
      intro x
      simp [hperm.mem_iff]
    rw [(reduced_deduplicateSelectedPaths h').mem_iff above_order (located_given h'),
      hr.mem_iff above_order (located_given h)]
    simp only [hmem]

theorem overlapping_selections_docs :
    deduplicateSelectedPaths ["/docs/a".toList, "/docs//".toList, "/x/../docs2/.".toList] =
        ["/docs".toList, "/docs2".toList] ∧
      ∀ paths', paths' ~ ["/docs/a".toList, "/docs//".toList, "/x/../docs2/.".toList] → ∀ e,
        e ∈ deduplicateSelectedPaths paths' ↔ e ∈ deduplicateSelectedPaths
            ["/docs/a".toList, "/docs//".toList, "/x/../docs2/.".toList] :=
  ⟨by decide, (overlapping_selections_reduced _ (by decide)).2.2.2⟩

end Clumoove.Queue
