import Mathlib.Tactic.Common

/-! Numbered things that work once. They are given out under rising numbers, somebody takes one that
is there while nobody else has it, and what has been used is neither there nor taken. -/

structure Once {ι : Type} (live : ℕ → Prop) (held : ι → ℕ → Prop) (spent : ℕ → Prop) (next : ℕ) :
    Prop where
  known : ∀ {n}, (live n ∨ ∃ i, held i n) ∨ spent n → n < next
  alone : ∀ {i j n}, held i n → held j n → i = j
  gone : ∀ {n}, spent n → ¬ live n ∧ ∀ i, ¬ held i n

namespace Once

variable {ι : Type} {live live' spent spent' now : ℕ → Prop} {held held' : ι → ℕ → Prop}
  {next next' : ℕ}

theorem start (hlive : ∀ n, live n → n < next) (hheld : ∀ i n, ¬ held i n) (hspent : ∀ n, ¬ spent n) :
    Once live held spent next := by
  refine ⟨?_, fun hi => absurd hi (hheld _ _), fun hn => absurd hn (hspent _)⟩
  rintro n ((hn | ⟨i, hi⟩) | hn)
  · exact hlive n hn
  · exact absurd hi (hheld i n)
  · exact absurd hn (hspent n)

/-- Nothing is used while less is there and less is taken. -/
theorem mono (h : Once live held spent next) (hlive : ∀ {n}, live' n → live n)
    (hheld : ∀ {i n}, held' i n → held i n) : Once live' held' spent next where
  known hn := h.known (hn.imp_left (.imp hlive fun ⟨i, hi⟩ => ⟨i, hheld hi⟩))
  alone hi hj := h.alone (hheld hi) (hheld hj)
  gone hn := ⟨fun hl => (h.gone hn).1 (hlive hl), fun i hi => (h.gone hn).2 i (hheld hi)⟩

/-- One step: numbers are given out, somebody takes what is there, what was taken may come back, and
what is used now was there or taken and is so no more. -/
theorem step (h : Once live held spent next) (hnext : next ≤ next')
    (hlive : ∀ {n}, live' n → (live n ∨ ∃ i, held i n) ∨ next ≤ n ∧ n < next')
    (hheld : ∀ {i n}, held' i n →
      held i n ∨ (live n ∨ next ≤ n ∧ n < next') ∧ ∀ j, held' j n → j = i)
    (hspent : ∀ {n}, spent' n → now n ∨ spent n)
    (hnow : ∀ {n}, now n → (live n ∨ ∃ i, held i n) ∧ ¬ live' n ∧ ∀ i, ¬ held' i n) :
    Once live' held' spent' next' ∧ ∀ n, now n → ¬ spent n := by
  have hold {n : ℕ} (hn : live' n ∨ ∃ i, held' i n) :
      (live n ∨ ∃ i, held i n) ∨ next ≤ n ∧ n < next' := by
    rcases hn with hn | ⟨i, hn⟩
    · exact hlive hn
    · rcases hheld hn with hn | ⟨hn | hn, -⟩
      · exact .inl (.inr ⟨i, hn⟩)
      · exact .inl (.inl hn)
      · exact .inr hn
  have hunspent {n : ℕ} (hn : live n ∨ ∃ i, held i n) : ¬ spent n := by
    intro hgone
    obtain ⟨hnot, hfree⟩ := h.gone hgone
    rcases hn with hn | ⟨i, hn⟩
    · exact hnot hn
    · exact hfree i hn
  refine ⟨⟨?_, ?_, ?_⟩, fun n hn => hunspent (hnow hn).1⟩
  · intro n hn
    rcases hn with hn | hn
    · rcases hold hn with hn | ⟨-, hlt⟩
      · exact Nat.lt_of_lt_of_le (h.known (.inl hn)) hnext
      · exact hlt
    · rcases hspent hn with hn | hn
      · exact Nat.lt_of_lt_of_le (h.known (.inl (hnow hn).1)) hnext
      · exact Nat.lt_of_lt_of_le (h.known (.inr hn)) hnext
  · intro i j n hi hj
    rcases hheld hi with hi' | ⟨-, hself⟩
    · rcases hheld hj with hj' | ⟨-, hself⟩
      · exact h.alone hi' hj'
      · exact hself i hi
    · exact (hself j hj).symm
  · intro n hn
    rcases hspent hn with hn | hn
    · exact (hnow hn).2
    · have hnot : ¬ (live' n ∨ ∃ i, held' i n) := by
        intro hback
        rcases hold hback with hback | ⟨hge, -⟩
        · exact hunspent hback hn
        · exact absurd (h.known (.inr hn)) (Nat.not_lt.2 hge)
      exact ⟨fun hl => hnot (.inl hl), fun i hi => hnot (.inr ⟨i, hi⟩)⟩

end Once
