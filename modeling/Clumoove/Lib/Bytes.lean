import Mathlib.Data.List.Basic
import Mathlib.Tactic.Ring

/-! Byte streams: big-endian words, and readers over a finite stream held as a list.
A reader returns what it took together with what is left to read. -/

namespace Bytes

open List

/-- The `k` low bytes of `n`, most significant first. -/
def be : ℕ → ℕ → List UInt8
  | 0, _ => []
  | k + 1, n => UInt8.ofNat (n / 256 ^ k % 256) :: be k n

/-- Interpret a byte list as an unsigned big-endian number. -/
def readBE : List UInt8 → ℕ
  | [] => 0
  | b :: bytes => b.toNat * 256 ^ bytes.length + readBE bytes

@[simp] theorem be_length (k n : ℕ) : (be k n).length = k := by
  induction k with
  | zero => rfl
  | succ k ih => simp [be, ih]

theorem readBE_lt (bytes : List UInt8) : readBE bytes < 256 ^ bytes.length := by
  induction bytes with
  | nil => simp [readBE]
  | cons b bytes ih =>
    have hb : b.toNat < 256 := b.toNat_lt
    have hm : (b.toNat + 1) * 256 ^ bytes.length ≤ 256 * 256 ^ bytes.length :=
      Nat.mul_le_mul_right _ hb
    simp only [readBE, length_cons, pow_succ]
    rw [Nat.add_mul] at hm
    omega

theorem readBE_be_mod (k n : ℕ) : readBE (be k n) = n % 256 ^ k := by
  induction k with
  | zero => simp [be, readBE, Nat.mod_one]
  | succ k ih =>
    simp only [be, readBE, be_length, ih]
    rw [UInt8.toNat_ofNat_of_lt' (Nat.mod_lt _ (by decide)), Nat.mod_pow_succ]
    ring

theorem readBE_be {k n : ℕ} (h : n < 256 ^ k) : readBE (be k n) = n := by
  rw [readBE_be_mod, Nat.mod_eq_of_lt h]

/-- Bytes above the `k` written ones do not show. -/
theorem be_mul_add {k j : ℕ} (hk : k ≤ j) (m n : ℕ) : be k (m * 256 ^ j + n) = be k n := by
  induction k with
  | zero => rfl
  | succ k ih =>
    obtain ⟨d, rfl⟩ := Nat.exists_eq_add_of_le hk
    have hsplit : m * 256 ^ (k + 1 + d) = m * 256 ^ d * 256 * 256 ^ k := by ring
    simp only [be]
    rw [ih (by omega), hsplit, Nat.add_comm, Nat.add_mul_div_right _ _ (Nat.pow_pos (by decide)),
      Nat.add_mul_mod_self_right]

/-- A word is the encoding of the number it reads as, so equal-length words that read the
same are the same bytes. -/
theorem be_readBE (bytes : List UInt8) : be bytes.length (readBE bytes) = bytes := by
  induction bytes with
  | nil => rfl
  | cons b bytes ih =>
    have hlt := readBE_lt bytes
    have hdiv : (b.toNat * 256 ^ bytes.length + readBE bytes) / 256 ^ bytes.length = b.toNat := by
      rw [Nat.add_comm, Nat.add_mul_div_right _ _ (Nat.zero_lt_of_lt hlt), Nat.div_eq_of_lt hlt,
        Nat.zero_add]
    have hb : b.toNat % 256 = b.toNat := Nat.mod_eq_of_lt b.toNat_lt
    simp only [length_cons, readBE, be, hdiv, hb]
    rw [be_mul_add le_rfl, ih]
    simp

/-- Why a read of a given number of bytes fell short. -/
inductive ReadErr
  | eof
  | unexpectedEOF
deriving DecidableEq

/-- Read exactly `n` bytes: the stream's end is `eof` only when nothing was read. -/
def readFull (n : ℕ) (stream : List UInt8) : Except ReadErr (List UInt8 × List UInt8) :=
  if n ≤ stream.length then .ok (stream.take n, stream.drop n)
  else if stream.isEmpty then .error .eof
  else .error .unexpectedEOF

/-- Look at the next `n` bytes without consuming them. -/
def peek (n : ℕ) (stream : List UInt8) : Except ReadErr (List UInt8) :=
  if n ≤ stream.length then .ok (stream.take n) else .error .eof

theorem readFull_append {n : ℕ} {a b : List UInt8} (h : a.length = n) :
    readFull n (a ++ b) = .ok (a, b) := by
  simp [readFull, ← h]

theorem readFull_eq_ok {n : ℕ} {stream a b : List UInt8} (h : readFull n stream = .ok (a, b)) :
    stream = a ++ b ∧ a.length = n := by
  unfold readFull at h
  split_ifs at h with hn
  cases h
  exact ⟨(take_append_drop n stream).symm, by simp [hn]⟩

theorem peek_eq_ok {n : ℕ} {stream a : List UInt8} :
    peek n stream = .ok a ↔ a <+: stream ∧ a.length = n := by
  unfold peek
  constructor
  · intro h
    split_ifs at h with hn
    cases h
    exact ⟨List.take_prefix n stream, by simp [hn]⟩
  · rintro ⟨⟨b, rfl⟩, rfl⟩
    simp

/-- The `len` bytes of a stream at an offset. -/
def slice (stream : List UInt8) (offset len : ℕ) : List UInt8 :=
  (stream.drop offset).take len

theorem slice_append (a b c : List UInt8) : slice (a ++ b ++ c) a.length b.length = b := by
  simp [slice]

/-- A list cut into pieces of `n` elements and a shorter last one; each piece takes one unit of
the fuel. -/
def chunksFuel {α : Type} (n : ℕ) : ℕ → List α → List (List α)
  | 0, _ => []
  | fuel + 1, l => if l.isEmpty then [] else l.take n :: chunksFuel n fuel (l.drop n)

def chunks {α : Type} (n : ℕ) (l : List α) : List (List α) := chunksFuel n l.length l

def hexDigit (n : ℕ) : Char := Char.ofNat (if n < 10 then 48 + n else 87 + n)

/-- Lower-case hexadecimal. -/
def hex (bytes : List UInt8) : List Char :=
  bytes.flatMap fun b => [hexDigit (b.toNat / 16), hexDigit (b.toNat % 16)]

def isHex (c : Char) : Bool := c.isDigit || ('a' ≤ c && c ≤ 'f') || ('A' ≤ c && c ≤ 'F')

def hexValue (c : Char) : ℕ :=
  if c.isDigit then c.toNat - '0'.toNat
  else if 'a' ≤ c then c.toNat - 'a'.toNat + 10
  else c.toNat - 'A'.toNat + 10

/-- Hexadecimal of either case, two digits for a byte. -/
def unhex : List Char → Option (List UInt8)
  | [] => some []
  | [_] => none
  | a :: b :: rest =>
    if isHex a ∧ isHex b then (unhex rest).map (UInt8.ofNat (16 * hexValue a + hexValue b) :: ·)
    else none

theorem value_hexDigit : ∀ n < 16, isHex (hexDigit n) = true ∧ hexValue (hexDigit n) = n := by decide

theorem unhex_hex (bytes : List UInt8) : unhex (hex bytes) = some bytes := by
  induction bytes with
  | nil => rfl
  | cons b bytes ih =>
    have hb := b.toNat_lt
    have hhi := value_hexDigit (b.toNat / 16) (by omega)
    have hlo := value_hexDigit (b.toNat % 16) (by omega)
    change unhex (hexDigit (b.toNat / 16) :: hexDigit (b.toNat % 16) :: hex bytes) = _
    rw [unhex, if_pos ⟨hhi.1, hlo.1⟩, ih, hhi.2, hlo.2, Nat.div_add_mod]
    simp

theorem hex_injective {x y : List UInt8} (h : hex x = hex y) : x = y :=
  Option.some.inj (by rw [← unhex_hex, h, unhex_hex])

end Bytes
