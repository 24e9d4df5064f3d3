import Mathlib.Data.List.Nodup
import Mathlib.Data.List.Perm.Subperm

/-! Texts as lists of characters: the pieces between separators, and a character that a short
text does not use. -/

namespace Text

open List

/-- A character that is not the separator joins the last piece before it and the first piece
after it, whatever the character is. -/
theorem splitOn_insert (sep : Char) (u v : List Char) :
    ∃ before last first after, u.splitOn sep = before ++ [last] ∧ v.splitOn sep = first :: after ∧
      ∀ c, c ≠ sep → (u ++ c :: v).splitOn sep = before ++ (last ++ c :: first) :: after := by
  obtain ⟨first, after, hv⟩ := exists_cons_of_ne_nil (splitOn_ne_nil (a := sep) v)
  induction u with
  | nil =>
    refine ⟨[], [], first, after, rfl, hv, fun c hc => ?_⟩
    rw [nil_append, splitOn_cons_eq_if_modifyHead, hv]
    simp [hc]
  | cons a u ih =>
    obtain ⟨before, last, first', after', hu, hv', hins⟩ := ih
    by_cases ha : a = sep
    · refine ⟨[] :: before, last, first', after', ?_, hv', fun c hc => ?_⟩
      · simp [splitOn_cons_eq_if_modifyHead, hu, ha]
      · simp [splitOn_cons_eq_if_modifyHead, hins c hc, ha]
    · cases before with
      | nil =>
        refine ⟨[], a :: last, first', after', ?_, hv', fun c hc => ?_⟩
        · simp [splitOn_cons_eq_if_modifyHead, hu, ha]
        · simp [splitOn_cons_eq_if_modifyHead, hins c hc, ha]
      | cons b before =>
        refine ⟨(a :: b) :: before, last, first', after', ?_, hv', fun c hc => ?_⟩
        · simp [splitOn_cons_eq_if_modifyHead, hu, ha]
        · simp [splitOn_cons_eq_if_modifyHead, hins c hc, ha]

/-- The Unicode scalar values in order, the surrogate gap left out. -/
def scalar (k : ℕ) : Char := Char.ofNat (if k < 0xd800 then k else k + 0x800)

theorem scalar_val {k : ℕ} (h : k < 0x10f800) :
    (scalar k).toNat = if k < 0xd800 then k else k + 0x800 := by
  have hvalid : Nat.isValidChar (if k < 0xd800 then k else k + 0x800) := by
    split_ifs <;> omega
  rw [scalar, Char.ofNat, dif_pos hvalid]
  rfl

/-- A text shorter than the number of scalar values misses one of them. -/
theorem exists_char_not_mem {l : List Char} (h : l.length < 0x10f800) : ∃ c, c ∉ l := by
  by_contra hall
  have hnodup : ((List.range 0x10f800).map scalar).Nodup := by
    refine List.Nodup.map_on (fun a ha b hb hab => ?_) nodup_range
    have hab := congrArg Char.toNat hab
    rw [scalar_val (mem_range.1 ha), scalar_val (mem_range.1 hb)] at hab
    split_ifs at hab <;> omega
  have hsub : (List.range 0x10f800).map scalar ⊆ l := fun c _ => by
    by_contra hc
    exact hall ⟨c, hc⟩
  have hle := (subperm_of_subset hnodup hsub).length_le
  rw [length_map, length_range] at hle
  omega

end Text
