import Mathlib.Data.List.Basic

/-! Authenticated encryption with additional data under one key, as an ideal. What was sealed is kept in a
log. Only what is in the log opens, and only with the data it was sealed with. No two boxes of a log look
alike from outside. -/

namespace Aead

variable {N T D P : Type}

structure Box (N T D P : Type) where
  nonce : N
  text : T
  data : D
  plain : P
  deriving DecidableEq

/-- Nonce and ciphertext are those of no box so far. -/
def Fresh (nonce : N) (text : T) (log : List (Box N T D P)) : Prop :=
  ∀ b ∈ log, b.nonce = nonce → b.text ≠ text

/-- A nonce and a ciphertext determine the box. -/
def Distinct (log : List (Box N T D P)) : Prop :=
  ∀ a ∈ log, ∀ b ∈ log, a.nonce = b.nonce → a.text = b.text → a = b

theorem Distinct.cons {b : Box N T D P} {log : List (Box N T D P)} (h : Distinct log)
    (hb : Fresh b.nonce b.text log) :
    Distinct (b :: log) := by
  intro a ha c hc hnonce htext
  rcases List.mem_cons.1 ha with rfl | ha'
  · rcases List.mem_cons.1 hc with rfl | hc'
    · rfl
    · exact absurd htext.symm (hb c hc' hnonce.symm)
  · rcases List.mem_cons.1 hc with rfl | hc'
    · exact absurd htext (hb a ha' hnonce)
    · exact h a ha' c hc' hnonce htext

variable [DecidableEq N] [DecidableEq T] [DecidableEq D]

def unlock (log : List (Box N T D P)) (nonce : N) (text : T) (data : D) : Option P :=
  (log.find? fun b => b.nonce = nonce ∧ b.text = text ∧ b.data = data).map Box.plain

variable {log : List (Box N T D P)} {nonce : N} {text : T} {data : D} {plain : P}

theorem mem_of_unlock (h : unlock log nonce text data = some plain) :
    ⟨nonce, text, data, plain⟩ ∈ log := by
  simp only [unlock, Option.map_eq_some_iff] at h
  obtain ⟨b, hb, rfl⟩ := h
  have hlook := List.find?_some hb
  simp only [decide_eq_true_eq] at hlook
  obtain ⟨rfl, rfl, rfl⟩ := hlook
  exact List.mem_of_find?_eq_some hb

end Aead
