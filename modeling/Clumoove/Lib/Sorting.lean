import Mathlib.Data.List.Sort

/-! Sorting by a comparison. Where neither of two elements is less than the other, a sorting function
may leave them in either order. -/

open List

variable {α β : Type} {less : α → α → Bool}

/-- A function that sorts. -/
structure Sorting (less : α → α → Bool) where
  sort : List α → List α
  perm : ∀ l, sort l ~ l
  sorted : ∀ l, (sort l).Pairwise fun a b => less b a = false

namespace Sorting

/-- Elements of the list that tie are the same. -/
def NoTies (less : α → α → Bool) (l : List α) : Prop :=
  ∀ a ∈ l, ∀ b ∈ l, less a b = false → less b a = false → a = b

theorem sort_eq (s : Sorting less) {l l' : List α} (h : l ~ l') (hties : NoTies less l) :
    s.sort l = s.sort l' := by
  have hperm : s.sort l ~ s.sort l' := (s.perm l).trans (h.trans (s.perm l').symm)
  apply hperm.eq_of_pairwise ?_ (s.sorted l) (s.sorted l')
  intro a b ha hb hba hab
  exact hties a ((s.perm l).mem_iff.1 ha) b (h.mem_iff.2 ((s.perm l').mem_iff.1 hb)) hab hba

/-- Insertion sort: one element after the other moves to the left past those it is less than. -/
def insert (less : α → α → Bool) (l : List α) : List α :=
  (l.reverse.insertionSort fun a b => less a b = false).reverse

theorem insert_perm (less : α → α → Bool) (l : List α) : insert less l ~ l :=
  ((reverse_perm _).trans (perm_insertionSort _ _)).trans (reverse_perm l)

theorem insert_sorted [LinearOrder β] {key : α → β} (h : ∀ a b, less a b = decide (key a < key b))
    (l : List α) : (insert less l).Pairwise fun a b => less b a = false := by
  have hle : (fun a b => less a b = false) = fun a b => key b ≤ key a := by
    funext a b
    simp [h]
  have : Std.Total fun a b => less a b = false := hle ▸ ⟨fun a b => le_total (key b) (key a)⟩
  have : IsTrans α fun a b => less a b = false := hle ▸ ⟨fun _ _ _ hab hbc => hbc.trans hab⟩
  exact pairwise_reverse.2 (pairwise_insertionSort _ _)

def insertion [LinearOrder β] {key : α → β} (h : ∀ a b, less a b = decide (key a < key b)) :
    Sorting less where
  sort := insert less
  perm := insert_perm less
  sorted := insert_sorted h

section Ties

variable [LinearOrder β] {key : α → β} (h : ∀ a b, less a b = decide (key a < key b)) {l : List α}
include h

theorem insertion_sort_eq {s : List α} (hs : (s.map key).Pairwise (· ≤ ·)) : (insertion h).sort s = s := by
  have hrev : s.reverse.Pairwise fun a b => less a b = false := by
    simpa [pairwise_reverse, h, pairwise_map] using hs
  change (s.reverse.insertionSort fun a b => less a b = false).reverse = s
  rw [hrev.insertionSort_eq, reverse_reverse]

theorem exists_sort_ne_of_split {x y z : List α} {a b : α} (hkey : key a = key b) (hne : a ≠ b)
    (hs : insert less l = x ++ a :: (y ++ b :: z)) : ∃ s s', s ~ l ∧ s' ~ l ∧ s ≠ s' ∧
      (insertion h).sort s = s ∧ (insertion h).sort s' = s' := by
  have hsorted : ((insert less l).map key).Pairwise (· ≤ ·) := by
    simpa [h, pairwise_map] using insert_sorted h l
  have hperm : x ++ b :: (y ++ a :: z) ~ insert less l := by
    rw [hs]
    refine Perm.append_left x ?_
    exact ((perm_middle.cons b).trans (.swap a b _)).trans (perm_middle.symm.cons a)
  refine ⟨_, _, insert_perm less l, hperm.trans (insert_perm less l), ?_,
    insertion_sort_eq h hsorted, insertion_sort_eq h ?_⟩
  · rw [hs]
    intro heq
    exact hne (cons.inj (append_cancel_left heq)).1
  · simpa [hs, hkey] using hsorted

/-- Elements that tie can stand in two orders, and what is sorted stays as it is. -/
theorem exists_sort_ne (hties : ¬ NoTies less l) : ∃ s s', s ~ l ∧ s' ~ l ∧ s ≠ s' ∧
    (insertion h).sort s = s ∧ (insertion h).sort s' = s' := by
  simp only [NoTies, not_forall] at hties
  obtain ⟨a, ha, b, hb, hab, hba, hne⟩ := hties
  have hkey : key a = key b := by
    simp only [h, decide_eq_false_iff_not, not_lt] at hab hba
    exact le_antisymm hba hab
  obtain ⟨x, r, hs⟩ := append_of_mem ((insert_perm less l).mem_iff.2 ha)
  have hmem := (insert_perm less l).mem_iff.2 hb
  rw [hs, mem_append, mem_cons] at hmem
  rcases hmem with hmem | rfl | hmem
  · obtain ⟨x, y, rfl⟩ := append_of_mem hmem
    rw [append_assoc, cons_append] at hs
    exact exists_sort_ne_of_split h hkey.symm (Ne.symm hne) hs
  · exact absurd rfl hne
  · obtain ⟨y, z, rfl⟩ := append_of_mem hmem
    exact exists_sort_ne_of_split h hkey hne hs

end Ties

end Sorting
