import Mathlib.Data.List.Pairwise
import Mathlib.Tactic.Common

/-! Reducing a list, entry by entry, to the entries that no other one covers. -/

namespace Cover

open List

variable {α : Type} {covers : α → α → Bool} {D : α → Prop} {given kept : List α} {a b : α}

/-- An entry is dropped if one of those kept covers it, and drops those that it covers. -/
def add (covers : α → α → Bool) (kept : List α) (a : α) : List α :=
  let rest := kept.filter fun b => covers b a || !covers a b
  if kept.any (covers · a) then rest else rest ++ [a]

/-- On the entries with `D`, to cover is an order. -/
structure Order (covers : α → α → Bool) (D : α → Prop) : Prop where
  refl : ∀ a, D a → covers a a = true
  trans : ∀ a b c, D a → D b → D c → covers a b = true → covers b c = true → covers a c = true
  antisymm : ∀ a b, D a → D b → covers a b = true → covers b a = true → a = b

structure Reduced (covers : α → α → Bool) (given kept : List α) : Prop where
  subset : ∀ a ∈ kept, a ∈ given
  cover : ∀ a ∈ given, ∃ b ∈ kept, covers b a = true
  apart : kept.Pairwise fun a b => covers a b = false ∧ covers b a = false

theorem Reduced.eq_of_covers (h : Reduced covers given kept) (ha : a ∈ kept) (hb : b ∈ kept)
    (hab : covers a b = true) : a = b := by
  by_contra hne
  have : Std.Symm fun a b => covers a b = false ∧ covers b a = false := ⟨fun _ _ hxy => hxy.symm⟩
  have hapart := h.apart.forall ha hb hne
  rw [hapart.1] at hab
  cases hab

theorem Reduced.add (ho : Order covers D) (hD : ∀ b ∈ given, D b) (ha : D a)
    (h : Reduced covers given kept) : Reduced covers (a :: given) (Cover.add covers kept a) := by
  unfold Cover.add
  split_ifs with hcovered
  · -- whoever the entry covers is covered by what covers the entry, so nothing is dropped
    obtain ⟨b, hb, hba⟩ := any_eq_true.1 hcovered
    have hall : kept.filter (fun x => covers x a || !covers a x) = kept := by
      apply filter_eq_self.2
      intro x hx
      by_cases hax : covers a x = true
      · have hbx := ho.trans b a x (hD b (h.subset b hb)) ha (hD x (h.subset x hx)) hba hax
        simp [← h.eq_of_covers hb hx hbx, hba]
      · simp [hax]
    rw [hall]
    refine ⟨fun x hx => mem_cons_of_mem _ (h.subset x hx), ?_, h.apart⟩
    intro x hx
    rcases mem_cons.1 hx with rfl | hx
    · exact ⟨b, hb, hba⟩
    · exact h.cover x hx
  · have hnone : ∀ x ∈ kept, covers x a = false := by simpa using hcovered
    refine ⟨?_, ?_, ?_⟩
    · intro x hx
      rcases mem_append.1 hx with hx | hx
      · exact mem_cons_of_mem _ (h.subset x (mem_filter.1 hx).1)
      · exact mem_singleton.1 hx ▸ mem_cons_self
    · intro x hx
      rcases mem_cons.1 hx with rfl | hx
      · exact ⟨x, by simp, ho.refl x ha⟩
      obtain ⟨b, hb, hbx⟩ := h.cover x hx
      by_cases hab : covers a b = true
      · exact ⟨a, by simp, ho.trans a b x ha (hD b (h.subset b hb)) (hD x hx) hab hbx⟩
      · exact ⟨b, mem_append_left _ (mem_filter.2 ⟨hb, by simp [hab]⟩), hbx⟩
    · apply pairwise_append.2
      refine ⟨h.apart.filter _, pairwise_singleton _ _, ?_⟩
      intro x hx y hy
      obtain ⟨hkept, hkeep⟩ := mem_filter.1 hx
      obtain rfl := mem_singleton.1 hy
      have hxa := hnone x hkept
      exact ⟨hxa, by simpa [hxa] using hkeep⟩

theorem reduced_foldl (ho : Order covers D) (l : List α) (hD : ∀ a ∈ l, D a) (hg : ∀ a ∈ given, D a)
    (h : Reduced covers given kept) :
    Reduced covers (l.reverse ++ given) (l.foldl (add covers) kept) := by
  induction l generalizing given kept with
  | nil => exact h
  | cons a l ih =>
    have ha := hD a mem_cons_self
    rw [reverse_cons, append_assoc]
    apply ih (fun b hb => hD b (mem_cons_of_mem _ hb))
    · intro b hb
      rcases mem_cons.1 hb with rfl | hb
      · exact ha
      · exact hg b hb
    · exact h.add ho hg ha

/-- What is kept are the entries that only they themselves cover. -/
theorem Reduced.mem_iff (ho : Order covers D) (hD : ∀ b ∈ given, D b)
    (h : Reduced covers given kept) :
    a ∈ kept ↔ a ∈ given ∧ ∀ b ∈ given, covers b a = true → b = a := by
  constructor
  · intro ha
    refine ⟨h.subset a ha, ?_⟩
    intro b hb hba
    obtain ⟨c, hc, hcb⟩ := h.cover b hb
    have hDa := hD a (h.subset a ha)
    have hca := ho.trans c b a (hD c (h.subset c hc)) (hD b hb) hDa hcb hba
    exact ho.antisymm b a (hD b hb) hDa hba (h.eq_of_covers hc ha hca ▸ hcb)
  · rintro ⟨ha, honly⟩
    obtain ⟨b, hb, hba⟩ := h.cover a ha
    exact honly b (h.subset b hb) hba ▸ hb

end Cover
