import Clumoove.Lib.Table
import Mathlib.Algebra.BigOperators.Group.List.Basic
import Mathlib.Algebra.GroupWithZero.Nat

/-! Sums over the rows of a table that meet a condition, and what an update of the rows does to
them. -/

namespace Table

open List

variable {α : Type} {p q : α → Bool} {w : α → ℕ} {f : α → α} {rows : List α}

/-- Every row has gone on as `R` says. -/
def Moved (R : α → α → Prop) (rows rows' : List α) : Prop := ∃ f, rows' = rows.map f ∧ ∀ a, R a (f a)

section Moved

variable {R : α → α → Prop} (hR : ∀ a, R a a)
include hR

theorem Moved.refl : Moved R rows rows := ⟨id, by simp, hR⟩

theorem Moved.update (h : ∀ a, p a = true → R a (f a)) : Moved R rows (updateWhere p f rows) := by
  refine ⟨fun a => if p a then f a else a, rfl, fun a => ?_⟩
  dsimp only
  split_ifs with hp
  · exact h a hp
  · exact hR a

end Moved

/-- The sum over the rows that meet a condition. -/
def tally (p : α → Bool) (w : α → ℕ) (rows : List α) : ℕ := ((rows.filter p).map w).sum

theorem tally_cons (a : α) : tally p w (a :: rows) = (if p a then w a else 0) + tally p w rows := by
  unfold tally
  rw [filter_cons]
  split_ifs <;> simp

theorem tally_one : tally p (fun _ => 1) rows = (rows.filter p).length := by simp [tally]

theorem tally_append (rows' : List α) :
    tally p w (rows ++ rows') = tally p w rows + tally p w rows' := by
  simp [tally]

theorem tally_none (h : ∀ a ∈ rows, p a = false) : tally p w rows = 0 := by
  have hnone : rows.filter p = [] := filter_eq_nil_iff.2 fun a ha => by simp [h a ha]
  simp [tally, hnone]

theorem tally_mono (h : ∀ a ∈ rows, p a = true → q (f a) = true ∧ w (f a) = w a) :
    tally p w rows ≤ tally q w (rows.map f) := by
  induction rows with
  | nil => exact Nat.le_refl 0
  | cons a rows ih =>
    have hrest := ih fun b hb => h b (mem_cons_of_mem a hb)
    rw [map_cons, tally_cons, tally_cons]
    by_cases hp : p a = true
    · obtain ⟨hq, hw⟩ := h a mem_cons_self hp
      rw [if_pos hp, if_pos hq, hw]
      omega
    · rw [if_neg hp]
      omega

theorem tally_enter {a : α} (ha : a ∈ rows) (hp : p a = false) (hf : p (f a) = true)
    (h : ∀ b, p b = true → p (f b) = true ∧ w (f b) = w b) :
    tally p w rows + w (f a) ≤ tally p w (rows.map f) := by
  induction rows with
  | nil => cases ha
  | cons b rows ih =>
    have hle : tally p w rows ≤ tally p w (rows.map f) := tally_mono fun b _ => h b
    rw [map_cons, tally_cons, tally_cons]
    rcases mem_cons.1 ha with rfl | ha
    · rw [hp, if_pos hf]
      simp only [Bool.false_eq_true, if_false]
      omega
    · have hrest := ih ha
      by_cases hb : p b = true
      · rw [if_pos hb, if_pos (h b hb).1, (h b hb).2]
        omega
      · rw [if_neg hb]
        omega

theorem tally_congr (h : ∀ a ∈ rows, q (f a) = p a ∧ w (f a) = w a) :
    tally q w (rows.map f) = tally p w rows := by
  induction rows with
  | nil => rfl
  | cons a rows ih =>
    obtain ⟨hp, hw⟩ := h a mem_cons_self
    rw [map_cons, tally_cons, tally_cons, hp, hw, ih fun b hb => h b (mem_cons_of_mem a hb)]

theorem tally_filter (h : ∀ a, p a = true → q a = true) :
    tally p w (rows.filter q) = tally p w rows := by
  unfold tally
  rw [List.filter_filter]
  congr 2
  refine filter_congr fun a _ => ?_
  by_cases hp : p a = true
  · simp [hp, h a hp]
  · simp [hp]

theorem tally_le (h : ∀ a, p a = true → q a = true) : tally p w rows ≤ tally q w rows := by
  have hmono : tally p w rows ≤ tally q w (rows.map id) := tally_mono fun a _ hp => ⟨h a hp, rfl⟩
  rwa [List.map_id] at hmono

theorem tally_split (h : ∀ a ∈ rows, (p a = true → q a = true)) :
    tally p w rows + tally (fun a => q a && !p a) w rows = tally q w rows := by
  induction rows with
  | nil => rfl
  | cons a rows ih =>
    have hrest := ih fun b hb => h b (mem_cons_of_mem a hb)
    simp only [tally_cons]
    by_cases hp : p a = true
    · rw [if_pos hp, if_pos (h a mem_cons_self hp), hp]
      simp only [Bool.not_true, Bool.and_false, Bool.false_eq_true, if_false]
      omega
    · simp only [eq_false_of_ne_true hp, Bool.not_false, Bool.and_true,
        Bool.false_eq_true, if_false]
      omega

end Table
