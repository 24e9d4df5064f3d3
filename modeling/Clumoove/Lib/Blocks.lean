import Clumoove.Lib.Bytes

/-! Data that is written in pieces and worked off in blocks of one size. The writer keeps the block
that is being filled; every full block is committed at once. -/

namespace Blocks

open Bytes List

variable {α σ : Type} {n : ℕ} {commit : σ → List α → σ}

/-- Writes a piece: fills the block, and commits it when it is full. Every round takes at least one
element, so the length of the piece bounds the number of rounds. -/
def fill (n : ℕ) (commit : σ → List α → σ) : ℕ → List α → List α × σ → List α × σ
  | 0, _, s => s
  | fuel + 1, p, (block, s) =>
    if p.isEmpty then (block, s)
    else
      let filled := block ++ p.take (n - block.length)
      let p := p.drop (n - block.length)
      if filled.length = n then fill n commit fuel p ([], commit s filled)
      else fill n commit fuel p (filled, s)

/-- Where a writer is after some data. -/
structure Filled (n : ℕ) (commit : σ → List α → σ) (start : σ) (data : List α) (full : List (List α))
    (s : List α × σ) : Prop where
  data_eq : full.flatten ++ s.1 = data
  size : ∀ b ∈ full, b.length = n
  short : s.1.length < n
  state : s.2 = full.foldl commit start

theorem Filled.fill {start : σ} {data p : List α} {full : List (List α)} {s : List α × σ} {fuel : ℕ}
    (hfuel : p.length ≤ fuel) (h : Filled n commit start data full s) :
    ∃ full', Filled n commit start (data ++ p) full' (fill n commit fuel p s) := by
  induction fuel generalizing p data full s with
  | zero =>
    rw [length_eq_zero_iff.1 (Nat.le_zero.1 hfuel), append_nil]
    exact ⟨full, h⟩
  | succ fuel ih =>
    obtain ⟨block, s⟩ := s
    unfold Blocks.fill
    cases p with
    | nil =>
      rw [append_nil]
      exact ⟨full, h⟩
    | cons a p =>
      have hshort : block.length < n := h.short
      have hrest : ((a :: p).drop (n - block.length)).length ≤ fuel := by
        rw [length_drop]
        omega
      have hdata : full.flatten ++ (block ++ (a :: p).take (n - block.length)) ++
          (a :: p).drop (n - block.length) = data ++ a :: p := by
        rw [← h.data_eq, append_assoc, append_assoc, append_assoc, take_append_drop]
      simp only [isEmpty_cons, Bool.false_eq_true, if_false]
      rw [← hdata]
      generalize hfilled : block ++ (a :: p).take (n - block.length) = filled
      split_ifs with hfull
      · have hnext : Filled n commit start (full.flatten ++ filled) (full ++ [filled])
            ([], commit s filled) := by
          refine ⟨by simp, ?_, Nat.zero_lt_of_lt hshort, by rw [foldl_append, ← h.state]; rfl⟩
          intro b hb
          rcases mem_append.1 hb with hb | hb
          · exact h.size b hb
          · rw [mem_singleton.1 hb, hfull]
        exact ih hrest hnext
      · have hnext : Filled n commit start (full.flatten ++ filled) full (filled, s) := by
          refine ⟨rfl, h.size, ?_, h.state⟩
          rw [← hfilled, length_append, length_take] at hfull ⊢
          omega
        exact ih hrest hnext

/-- Cutting takes one unit of fuel for a piece, so more than the length does not matter. -/
theorem chunksFuel_eq (hn : 0 < n) {l : List α} {fuel : ℕ} (h : l.length ≤ fuel) :
    chunksFuel n fuel l = chunks n l := by
  have hmore : ∀ (f g : ℕ) (l : List α), l.length ≤ f → l.length ≤ g →
      chunksFuel n f l = chunksFuel n g l := by
    intro f
    induction f with
    | zero =>
      intro g l hf _
      rw [length_eq_zero_iff.1 (Nat.le_zero.1 hf)]
      cases g <;> rfl
    | succ f ih =>
      intro g l hf hg
      cases l with
      | nil => cases g <;> rfl
      | cons a l =>
        cases g with
        | zero => simp at hg
        | succ g =>
          have hdrop : ((a :: l).drop n).length ≤ l.length := by
            rw [length_drop, length_cons]
            omega
          rw [length_cons] at hf hg
          simp only [chunksFuel, isEmpty_cons, Bool.false_eq_true, if_false]
          rw [ih g _ (by omega) (by omega)]
  exact hmore _ _ _ h le_rfl

theorem chunks_cons (hn : 0 < n) {l : List α} (hl : l ≠ []) :
    chunks n l = l.take n :: chunks n (l.drop n) := by
  cases l with
  | nil => exact absurd rfl hl
  | cons a l =>
    have hdrop : ((a :: l).drop n).length ≤ l.length := by
      rw [length_drop, length_cons]
      omega
    rw [← chunksFuel_eq hn hdrop]
    rfl

theorem length_chunks_le (n : ℕ) (l : List α) : (chunks n l).length ≤ l.length := by
  have hfuel : ∀ (fuel : ℕ) (l : List α), (chunksFuel n fuel l).length ≤ fuel := by
    intro fuel
    induction fuel with
    | zero => exact fun l => le_rfl
    | succ fuel ih =>
      intro l
      unfold chunksFuel
      split_ifs
      · exact Nat.zero_le _
      · exact Nat.succ_le_succ (ih _)
  exact hfuel _ _

/-- Full blocks and a shorter rest are the pieces of the data they make up. -/
theorem chunks_flatten (hn : 0 < n) {full : List (List α)} (hfull : ∀ b ∈ full, b.length = n)
    {rest : List α} (hrest : rest.length < n) :
    chunks n (full.flatten ++ rest) = full ++ if rest = [] then [] else [rest] := by
  induction full with
  | nil =>
    cases rest with
    | nil => rfl
    | cons a rest =>
      rw [flatten_nil, nil_append, chunks_cons hn (cons_ne_nil _ _), take_of_length_le hrest.le,
        drop_of_length_le hrest.le]
      rfl
  | cons b full ih =>
    have hb : b.length = n := hfull b mem_cons_self
    have hne : (b :: full).flatten ++ rest ≠ [] := by
      intro h
      rw [flatten_cons, append_assoc, append_eq_nil_iff] at h
      rw [h.1] at hb
      exact absurd hb hn.ne
    rw [chunks_cons hn hne, flatten_cons, append_assoc, take_left' hb, drop_left' hb,
      ih fun c hc => hfull c (mem_cons_of_mem b hc), cons_append]

end Blocks
