import Mathlib.Data.List.Infix

/-! SQL `LIKE` with the default escape character, as a list of tokens matched against a text.
`%` stands for any text, `_` for any one character, and a backslash takes the next character
literally. PostgreSQL refuses a pattern that ends in a lone backslash; here it stands for
itself, and no pattern of this kind is ever built. -/

namespace Like

open List

inductive Tok
  | any
  | one
  | lit (c : Char)
deriving DecidableEq

variable {p s : List Char} {ts : List Tok} {c : Char}

/-- The token of an unescaped character. -/
def tok (c : Char) : Tok :=
  if c = '%' then .any else if c = '_' then .one else .lit c

def tokens : List Char → List Tok
  | [] => []
  | ['\\'] => [.lit '\\']
  | c :: d :: p => if c = '\\' then .lit d :: tokens p else tok c :: tokens (d :: p)
  | c :: p => tok c :: tokens p

def accepts : List Tok → List Char → Bool
  | [], s => s.isEmpty
  | .any :: p, s => s.tails.any (accepts p)
  | .one :: _, [] => false
  | .one :: p, _ :: s => accepts p s
  | .lit _ :: _, [] => false
  | .lit c :: p, x :: s => x == c && accepts p s

def like (pattern s : List Char) : Bool := accepts (tokens pattern) s

/-- The characters a pattern does not take literally. -/
def special (c : Char) : Bool := c == '%' || c == '_' || c == '\\'

/-- A replacer that puts a backslash before every special character. -/
def escape (p : List Char) : List Char :=
  p.flatMap fun c => if special c then ['\\', c] else [c]

theorem tokens_cons (h : c ≠ '\\') (p : List Char) : tokens (c :: p) = tok c :: tokens p := by
  cases p with
  | nil | cons => simp [tokens, h]

/-- Without an escape character every character is its own token. -/
theorem tokens_append (h : '\\' ∉ p) (q : List Char) : tokens (p ++ q) = p.map tok ++ tokens q := by
  induction p with
  | nil => rfl
  | cons c p ih =>
    simp only [mem_cons, not_or] at h
    rw [cons_append, tokens_cons (Ne.symm h.1), ih h.2]
    rfl

theorem tok_of_not_special (h : special c = false) : tok c = .lit c := by
  simp only [special, Bool.or_eq_false_iff, beq_eq_false_iff_ne] at h
  simp [tok, h.1.1, h.1.2]

theorem tokens_plain (h : ∀ c ∈ p, special c = false) (q : List Char) :
    tokens (p ++ q) = p.map .lit ++ tokens q := by
  have hesc : '\\' ∉ p := fun hm => by simpa [special] using h _ hm
  rw [tokens_append hesc, map_congr_left fun c hc => tok_of_not_special (h c hc)]

theorem tokens_escape (p q : List Char) : tokens (escape p ++ q) = p.map .lit ++ tokens q := by
  induction p with
  | nil => rfl
  | cons c p ih =>
    have hsplit : escape (c :: p) ++ q
        = (if special c then ['\\', c] else [c]) ++ (escape p ++ q) := by
      simp [escape]
    rw [hsplit]
    by_cases hc : special c = true
    · simp [hc, tokens, ih]
    · have hc : special c = false := by simpa using hc
      have hne : c ≠ '\\' := fun h => by simp [h, special] at hc
      simp [hc, tokens_cons hne, tok_of_not_special hc, ih]

theorem accepts_lits :
    accepts (p.map .lit ++ ts) s = true ↔ ∃ t, s = p ++ t ∧ accepts ts t = true := by
  induction p generalizing s with
  | nil => simp
  | cons c p ih =>
    cases s with
    | nil => simp [accepts]
    | cons x s =>
      simp only [map_cons, cons_append, accepts, Bool.and_eq_true, beq_iff_eq, ih, List.cons.injEq]
      exact ⟨fun ⟨hx, t, hs, ht⟩ => ⟨t, ⟨hx, hs⟩, ht⟩, fun ⟨t, ⟨hx, hs⟩, ht⟩ => ⟨hx, t, hs, ht⟩⟩

theorem accepts_any : accepts (.any :: ts) s = true ↔ ∃ u v, s = u ++ v ∧ accepts ts v = true := by
  simp only [accepts, List.any_eq_true, mem_tails]
  refine ⟨fun ⟨v, ⟨u, hu⟩, hv⟩ => ⟨u, v, hu.symm, hv⟩, fun ⟨u, v, hs, hv⟩ => ⟨v, ⟨u, hs.symm⟩, hv⟩⟩

/-- A pattern that ends in `%` after escaped text asks for that text as a beginning. -/
theorem like_escape (p s : List Char) : like (escape p ++ ['%']) s = true ↔ p <+: s := by
  have hany : tokens ['%'] = [.any] := rfl
  rw [like, tokens_escape, hany, accepts_lits]
  refine ⟨fun ⟨t, hs, _⟩ => ⟨t, hs.symm⟩, fun ⟨t, hs⟩ => ⟨t, hs.symm, ?_⟩⟩
  exact accepts_any.2 ⟨t, [], by simp, rfl⟩

/-- So does unescaped text with nothing special in it. -/
theorem like_plain (h : ∀ c ∈ p, special c = false) (s : List Char) :
    like (p ++ ['%']) s = true ↔ p <+: s := by
  have heq : like (p ++ ['%']) s = like (escape p ++ ['%']) s := by
    rw [like, like, tokens_plain h, tokens_escape]
  rw [heq, like_escape]

/-- Whatever a pattern with a plain beginning matches has that beginning. -/
theorem prefix_of_like {p q s : List Char} (h : ∀ c ∈ p, special c = false)
    (hlike : like (p ++ q) s = true) : p <+: s := by
  rw [like, tokens_plain h, accepts_lits] at hlike
  obtain ⟨t, rfl, -⟩ := hlike
  exact prefix_append p t

/-- A character's token accepts that character, and a wildcard's accepts any other. -/
theorem accepts_tok_cons {c x : Char} (hx : x = c ∨ c = '%' ∨ c = '_') (h : accepts ts s = true) :
    accepts (tok c :: ts) (x :: s) = true := by
  by_cases hp : c = '%'
  · rw [tok, if_pos hp]
    exact accepts_any.2 ⟨[x], s, rfl, h⟩
  · by_cases hu : c = '_'
    · simpa [tok, hp, hu, accepts] using h
    · have hxc : x = c := by
        rcases hx with hx | hx | hx
        · exact hx
        · exact absurd hx hp
        · exact absurd hx hu
      simp [tok, hp, hu, accepts, hxc, h]

/-- A text matches its own unescaped pattern. -/
theorem accepts_self (h : accepts ts s = true) : accepts (p.map tok ++ ts) (p ++ s) = true := by
  induction p with
  | nil => exact h
  | cons c p ih => exact accepts_tok_cons (.inl rfl) ih

end Like
