import Mathlib.Data.List.Basic

/-! Byte readers: a stream comes in pieces of any size and ends in one of several ways. Reading a
full buffer hides the pieces, so a loop over full buffers sees the stream and its end only. -/

/-- How a stream ends: properly, cut off, or in some other error. -/
inductive ReadError
  | eof | unexpectedEOF | other
deriving DecidableEq

/-- A stream of bytes as its consumer meets it. -/
structure Reader (α : Type) where
  /-- What the single reads return when the buffer is large enough. -/
  pieces : List (List α)
  ending : ReadError
  /-- Whether the end is reported together with the last piece. -/
  attached : Bool := false

namespace Reader

open List

variable {α : Type}

/-- Everything the reader delivers. -/
def bytes (r : Reader α) : List α := r.pieces.flatten

/-- Reads until `n` bytes have come or a read reports an error. -/
def fill (ending : ReadError) (attached : Bool) :
    ℕ → List (List α) → List α × Option ReadError × List (List α)
  | 0, ps => ([], none, ps)
  | _ + 1, [] => ([], some ending, [])
  | n + 1, p :: ps =>
    if p.length < n + 1 then
      if ps.isEmpty && attached then (p, some ending, [])
      else
        let (rest, err, ps) := fill ending attached (n + 1 - p.length) ps
        (p ++ rest, err, ps)
    else (p.take (n + 1), none, p.drop (n + 1) :: ps)

/-- The error of a full read: an end in the middle of the buffer counts as cut off. -/
def fullError (got : List α) : Option ReadError → Option ReadError
  | some .eof => if got.isEmpty then some .eof else some .unexpectedEOF
  | err => err

/-- `io.ReadFull` into a buffer of `n` bytes. -/
def readFull (n : ℕ) (r : Reader α) : List α × Option ReadError × Reader α :=
  let (got, err, pieces) := fill r.ending r.attached n r.pieces
  (got, fullError got err, { r with pieces := pieces })

theorem fill_bytes (e : ReadError) (a : Bool) (n : ℕ) (ps : List (List α)) :
    (fill e a n ps).1 = ps.flatten.take n ∧ (fill e a n ps).2.2.flatten = ps.flatten.drop n := by
  induction ps generalizing n with
  | nil => cases n <;> simp [fill]
  | cons p ps ih =>
    cases n with
    | zero => simp [fill]
    | succ n =>
      by_cases hp : p.length < n + 1
      · by_cases ha : ps.isEmpty && a
        · obtain ⟨rfl, rfl⟩ : ps = [] ∧ a = true := by simpa using ha
          simp [fill, hp, take_of_length_le (Nat.le_of_lt hp), drop_of_length_le (Nat.le_of_lt hp)]
        · obtain ⟨h₁, h₂⟩ := ih (n + 1 - p.length)
          simp [fill, hp, ha, h₁, h₂, take_append, drop_append,
            take_of_length_le (Nat.le_of_lt hp), drop_of_length_le (Nat.le_of_lt hp)]
      · have hle : n + 1 ≤ p.length := Nat.le_of_not_lt hp
        simp [fill, hp, take_append_of_le_length hle, drop_append_of_le_length hle]

theorem fill_error (e : ReadError) (a : Bool) (n : ℕ) (ps : List (List α)) :
    (fill e a n ps).2.1 = if n ≤ ps.flatten.length then none else some e := by
  induction ps generalizing n with
  | nil => cases n <;> simp [fill]
  | cons p ps ih =>
    cases n with
    | zero => simp [fill]
    | succ n =>
      by_cases hp : p.length < n + 1
      · by_cases ha : ps.isEmpty && a
        · obtain ⟨rfl, rfl⟩ : ps = [] ∧ a = true := by simpa using ha
          have hshort : ¬ n + 1 ≤ [p].flatten.length := by
            rw [flatten_singleton]
            exact Nat.not_le_of_lt hp
          rw [if_neg hshort]
          simp [fill, hp]
        · have hiff : n + 1 - p.length ≤ ps.flatten.length ↔ n + 1 ≤ (p :: ps).flatten.length := by
            simp only [flatten_cons, length_append]
            omega
          simp only [fill, hp, ha, if_true, Bool.false_eq_true, if_false, ih, hiff]
      · have hle : n + 1 ≤ (p :: ps).flatten.length := by
          simp only [flatten_cons, length_append]
          omega
        simp only [fill, hp, if_false, hle, if_true]

/-- A full read takes the next `n` bytes, however the stream is cut into pieces. -/
@[simp] theorem readFull_bytes (n : ℕ) (r : Reader α) : (r.readFull n).1 = r.bytes.take n :=
  (fill_bytes _ _ _ _).1

@[simp] theorem readFull_rest (n : ℕ) (r : Reader α) : (r.readFull n).2.2.bytes = r.bytes.drop n :=
  (fill_bytes _ _ _ _).2

variable {n : ℕ}

/-- A full read reports nothing while the stream fills the buffer. -/
theorem readFull_error_none {r : Reader α} (h : n ≤ r.bytes.length) : (r.readFull n).2.1 = none := by
  have herr := fill_error r.ending r.attached n r.pieces
  rw [show r.pieces.flatten = r.bytes from rfl, if_pos h] at herr
  simp only [readFull, herr, fullError]

theorem readFull_error_some {r : Reader α} (h : r.bytes.length < n) :
    (r.readFull n).2.1 = fullError r.bytes (some r.ending) := by
  have herr := fill_error r.ending r.attached n r.pieces
  rw [show r.pieces.flatten = r.bytes from rfl, if_neg (Nat.not_le_of_lt h)] at herr
  have hgot := (fill_bytes r.ending r.attached n r.pieces).1
  have htake : r.pieces.flatten.take n = r.bytes := take_of_length_le (Nat.le_of_lt h)
  simp only [readFull, herr, hgot, htake]

theorem readFull_full {r : Reader α} (h : n ≤ r.bytes.length) :
    ∃ rest, r.readFull n = (r.bytes.take n, none, rest) ∧ rest.bytes = r.bytes.drop n ∧
      rest.ending = r.ending :=
  ⟨(r.readFull n).2.2, Prod.ext (readFull_bytes n r) (Prod.ext (readFull_error_none h) rfl),
    readFull_rest n r, rfl⟩

theorem readFull_chunk (hn : 0 < n) {r : Reader α} (h : n ≤ r.bytes.length) :
    ∃ b chunk rest, r.readFull n = (b :: chunk, none, rest) ∧ b :: chunk ++ rest.bytes = r.bytes ∧
      chunk.length + 1 = n ∧ rest.ending = r.ending := by
  obtain ⟨rest, hread, hrest, hend⟩ := readFull_full h
  have hlen : (r.bytes.take n).length = n := length_take_of_le h
  cases htake : r.bytes.take n with
  | nil =>
    rw [htake, length_nil] at hlen
    omega
  | cons b chunk =>
    rw [htake] at hread hlen
    refine ⟨b, chunk, rest, hread, ?_, hlen, hend⟩
    rw [← htake, hrest, take_append_drop]

/-- A full read gets a chunk, or it meets the end of the stream. -/
theorem readFull_cases (hn : 0 < n) (r : Reader α) :
    (∃ b chunk rest, r.readFull n = (b :: chunk, none, rest) ∧ b :: chunk ++ rest.bytes = r.bytes ∧
      chunk.length + 1 = n ∧ rest.ending = r.ending) ∨
      ∃ rest, r.readFull n = (r.bytes, fullError r.bytes (some r.ending), rest) ∧ r.bytes.length < n := by
  by_cases h : n ≤ r.bytes.length
  · exact .inl (readFull_chunk hn h)
  · have h := Nat.lt_of_not_le h
    refine .inr ⟨_, Prod.ext ?_ (Prod.ext (readFull_error_some h) rfl), h⟩
    exact (readFull_bytes n r).trans (take_of_length_le (Nat.le_of_lt h))

theorem fullError_other (got : List α) : fullError got (some .other) = some .other := rfl

/-- An end that is not an error of its own is reported as one of the two ends of a stream. -/
theorem fullError_ended {got : List α} {e : ReadError} (h : e ≠ .other) :
    fullError got (some e) = some .eof ∨ fullError got (some e) = some .unexpectedEOF := by
  cases e with
  | eof => cases got <;> simp [fullError]
  | unexpectedEOF => exact .inr rfl
  | other => exact absurd rfl h

end Reader
