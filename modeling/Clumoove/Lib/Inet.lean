import Clumoove.Lib.Bytes

/-! Internet addresses: their bytes, the blocks they belong to, and the texts that name them, as in Go's
package `net`. -/

namespace Inet

open Bytes List

/-- An address has four bytes or sixteen. -/
structure IP where
  bytes : List UInt8
  valid : bytes.length = 4 ∨ bytes.length = 16
  deriving DecidableEq

/-- The first twelve bytes of an IPv4 address that is written with sixteen. -/
def v4InV6Prefix : List UInt8 := [0, 0, 0, 0, 0, 0, 0, 0, 0, 0, 255, 255]

namespace IP

variable (ip : IP)

def to4 : Option (List UInt8) :=
  if ip.bytes.length = 4 then some ip.bytes
  else if ip.bytes.take 12 = v4InV6Prefix then some (ip.bytes.drop 12)
  else none

/-- The same address, whichever way it is written. -/
def equal (ip x : IP) : Bool :=
  if ip.bytes.length = x.bytes.length then ip.bytes = x.bytes
  else if ip.bytes.length = 4 then x.bytes.take 12 = v4InV6Prefix ∧ x.bytes.drop 12 = ip.bytes
  else ip.bytes.take 12 = v4InV6Prefix ∧ ip.bytes.drop 12 = x.bytes

def isUnspecified : Bool :=
  match ip.to4 with
  | some ip4 => ip4 = [0, 0, 0, 0]
  | none => ip.bytes = be 16 0

def isLoopback : Bool :=
  match ip.to4 with
  | some ip4 => ip4[0]? = some 127
  | none => ip.bytes = be 16 1

def isLinkLocalUnicast : Bool :=
  match ip.to4 with
  | some ip4 => ip4[0]? = some 169 ∧ ip4[1]? = some 254
  | none => ip.bytes[0]? = some 0xfe ∧ ip.bytes[1]?.any (· &&& 0xc0 = 0x80)

def isLinkLocalMulticast : Bool :=
  match ip.to4 with
  | some ip4 => ip4[0]? = some 224 ∧ ip4[1]? = some 0 ∧ ip4[2]? = some 0
  | none => ip.bytes[0]? = some 0xff ∧ ip.bytes[1]?.any (· &&& 0x0f = 0x02)

def isPrivate : Bool :=
  match ip.to4 with
  | some ip4 => ip4[0]? = some 10 ∨ ip4[0]? = some 172 ∧ ip4[1]?.any (· &&& 0xf0 = 16) ∨
      ip4[0]? = some 192 ∧ ip4[1]? = some 168
  | none => ip.bytes[0]?.any (· &&& 0xfe = 0xfc)

end IP

/-! Blocks of addresses. -/

/-- The addresses that begin with the first `len` bits of another one. -/
inductive Block
  | v4 (base len : ℕ)
  | v6 (base len : ℕ)
  deriving DecidableEq

/-- The first `len` of `width` bits are those of `base`. -/
def Begins (width base len n : ℕ) : Prop := n / 2 ^ (width - len) = base / 2 ^ (width - len)

instance (width base len n : ℕ) : Decidable (Begins width base len n) :=
  inferInstanceAs (Decidable (_ = _))

/-- An IPv4 address belongs to a block in its IPv4-mapped form as well. -/
def Block.Contains : Block → IP → Prop
  | v4 base len, ip => (ip.bytes.length = 4 ∧ Begins 32 base len (readBE ip.bytes)) ∨
      (ip.bytes.length = 16 ∧ readBE ip.bytes / 2 ^ 32 = 0xffff ∧
        Begins 32 base len (readBE ip.bytes % 2 ^ 32))
  | v6 base len, ip => ip.bytes.length = 16 ∧ Begins 128 base len (readBE ip.bytes)

instance (b : Block) (ip : IP) : Decidable (b.Contains ip) :=
  match b with
  | .v4 _ _ => inferInstanceAs (Decidable (_ ∨ _))
  | .v6 _ _ => inferInstanceAs (Decidable (_ ∧ _))

theorem readBE_append (a b : List UInt8) : readBE (a ++ b) = readBE a * 2 ^ (8 * b.length) + readBE b := by
  rw [pow_mul]
  induction a with
  | nil => simp [readBE]
  | cons x a ih =>
    simp only [cons_append, readBE, length_append, ih, pow_add]
    ring

theorem readBE_inj {a b : List UInt8} (hlength : a.length = b.length) (h : readBE a = readBE b) : a = b := by
  rw [← be_readBE a, ← be_readBE b, hlength, h]

theorem readBE_append_div (a b : List UInt8) : readBE (a ++ b) / 2 ^ (8 * b.length) = readBE a := by
  have hlt : readBE b < 2 ^ (8 * b.length) := by
    rw [pow_mul]
    exact readBE_lt b
  rw [readBE_append, Nat.add_comm, Nat.add_mul_div_right _ _ (Nat.zero_lt_of_lt hlt), Nat.div_eq_of_lt hlt,
    Nat.zero_add]

theorem readBE_append_mod (a b : List UInt8) : readBE (a ++ b) % 2 ^ (8 * b.length) = readBE b := by
  have hlt : readBE b < 2 ^ (8 * b.length) := by
    rw [pow_mul]
    exact readBE_lt b
  rw [readBE_append, Nat.mul_add_mod_self_right, Nat.mod_eq_of_lt hlt]

namespace IP

variable {ip : IP}

theorem to4_length {ip4 : List UInt8} (h : ip.to4 = some ip4) : ip4.length = 4 := by
  unfold to4 at h
  split_ifs at h with h4 h12
  · cases h
    exact h4
  · cases h
    rcases ip.valid with hlength | hlength
    · exact absurd hlength h4
    · simp [hlength]

theorem mapped_iff (h : ip.bytes.length = 16) :
    readBE ip.bytes / 2 ^ 32 = 0xffff ↔ ip.bytes.take 12 = v4InV6Prefix := by
  have hdrop : (ip.bytes.drop 12).length = 4 := by simp [h]
  have hdiv := readBE_append_div (ip.bytes.take 12) (ip.bytes.drop 12)
  rw [take_append_drop, hdrop] at hdiv
  rw [show 2 ^ 32 = 2 ^ (8 * 4) from rfl, hdiv]
  constructor
  · intro hread
    apply readBE_inj
    · simp [h, v4InV6Prefix]
    · rw [hread]
      rfl
  · intro hmapped
    rw [hmapped]
    rfl

theorem contains_v4 {base len : ℕ} :
    (Block.v4 base len).Contains ip ↔ ∃ ip4, ip.to4 = some ip4 ∧ Begins 32 base len (readBE ip4) := by
  simp only [Block.Contains, to4]
  rcases ip.valid with h | h
  · simp [h]
  · have hmapped := mapped_iff h
    have hdrop : (ip.bytes.drop 12).length = 4 := by simp [h]
    have hmod := readBE_append_mod (ip.bytes.take 12) (ip.bytes.drop 12)
    rw [take_append_drop, hdrop] at hmod
    rw [hmapped, hmod]
    by_cases hmapped : ip.bytes.take 12 = v4InV6Prefix
    · simp [h, hmapped]
    · simp [h, hmapped]

theorem length_of_to4_none (h : ip.to4 = none) : ip.bytes.length = 16 := by
  rcases ip.valid with h4 | h16
  · simp [to4, h4] at h
  · exact h16

theorem to4_none_iff (h : ip.bytes.length = 16) : ip.to4 = none ↔ readBE ip.bytes / 2 ^ 32 ≠ 0xffff := by
  rw [Ne, mapped_iff h]
  simp [to4, h]

/-- Blocks of IPv6 addresses that leave the mapped ones out. -/
theorem contains_v6 {base len : ℕ} (hbase : ∀ n, n / 2 ^ 32 = 0xffff → ¬ Begins 128 base len n) :
    (Block.v6 base len).Contains ip ↔ ip.to4 = none ∧ Begins 128 base len (readBE ip.bytes) := by
  constructor
  · rintro ⟨hlength, hbegins⟩
    refine ⟨(to4_none_iff hlength).2 ?_, hbegins⟩
    intro hmapped
    exact hbase _ hmapped hbegins
  · rintro ⟨hnone, hbegins⟩
    exact ⟨length_of_to4_none hnone, hbegins⟩

theorem readBE_four (a b c d : UInt8) :
    readBE [a, b, c, d] = a.toNat * 2 ^ 24 + b.toNat * 2 ^ 16 + c.toNat * 2 ^ 8 + d.toNat := by
  simp only [readBE, length_cons, length_nil]
  ring

theorem eq_be_iff {n : ℕ} (h : ip.bytes.length = 16) (hn : n < 256 ^ 16) :
    ip.bytes = be 16 n ↔ readBE ip.bytes = n := by
  constructor
  · intro heq
    rw [heq, readBE_be hn]
  · intro heq
    rw [← heq, ← h, be_readBE]

theorem exists_four {ip4 : List UInt8} (h : ip.to4 = some ip4) : ∃ a b c d, ip4 = [a, b, c, d] :=
  length_eq_four.1 (to4_length h)

theorem isUnspecified_iff :
    ip.isUnspecified = true ↔ (Block.v4 0 32).Contains ip ∨ (Block.v6 0 128).Contains ip := by
  rw [contains_v4, contains_v6 (by unfold Begins; omega)]
  unfold isUnspecified Begins
  cases hip : ip.to4 with
  | none =>
    have hlength := length_of_to4_none hip
    simp [eq_be_iff hlength]
  | some ip4 =>
    obtain ⟨a, b, c, d, rfl⟩ := exists_four hip
    simp [readBE_four, UInt8.toNat_inj.symm]
    omega

theorem isLoopback_iff :
    ip.isLoopback = true ↔ (Block.v4 (127 * 2 ^ 24) 8).Contains ip ∨ (Block.v6 1 128).Contains ip := by
  rw [contains_v4, contains_v6 (by unfold Begins; omega)]
  unfold isLoopback Begins
  cases hip : ip.to4 with
  | none =>
    have hlength := length_of_to4_none hip
    simp [eq_be_iff hlength]
  | some ip4 =>
    obtain ⟨a, b, c, d, rfl⟩ := exists_four hip
    have hb := b.toNat_lt
    have hc := c.toNat_lt
    have hd := d.toNat_lt
    simp [readBE_four, UInt8.toNat_inj.symm]
    omega

theorem two_bits (b : UInt8) : b &&& 0xc0 = 0x80 ↔ b.toNat / 64 = 2 := by
  have hall : ∀ n : Fin 256, (UInt8.ofNat n &&& 0xc0 = 0x80 ↔ n.val / 64 = 2) := by decide +kernel
  have hb := hall ⟨b.toNat, b.toNat_lt⟩
  rwa [UInt8.ofNat_toNat] at hb

theorem isLinkLocalUnicast_iff :
    ip.isLinkLocalUnicast = true ↔ (Block.v4 (0xa9fe * 2 ^ 16) 16).Contains ip ∨
      (Block.v6 (0xfe80 * 2 ^ 112) 10).Contains ip := by
  rw [contains_v4, contains_v6 (by unfold Begins; omega)]
  unfold isLinkLocalUnicast Begins
  cases hip : ip.to4 with
  | none =>
    have hlength := length_of_to4_none hip
    obtain ⟨a, b, rest, hbytes⟩ : ∃ a b rest, ip.bytes = a :: b :: rest := by
      match hbytes : ip.bytes, hlength with
      | a :: b :: rest, _ => exact ⟨a, b, rest, rfl⟩
    have hrest : rest.length = 14 := by
      rw [hbytes] at hlength
      simpa using hlength
    have hlt := readBE_lt rest
    have hvalue : readBE ip.bytes = (a.toNat * 256 + b.toNat) * 2 ^ 112 + readBE rest := by
      rw [hbytes]
      simp only [readBE, length_cons, hrest]
      ring
    have hb := b.toNat_lt
    rw [hrest] at hlt
    have hfirst : a = 0xfe ↔ a.toNat = 254 := UInt8.toNat_inj.symm
    have hdiv : readBE ip.bytes / 2 ^ 118 = 0xfe80 * 2 ^ 112 / 2 ^ 118 ↔
        a.toNat = 254 ∧ b.toNat / 64 = 2 := by
      omega
    simpa [hbytes, two_bits, hfirst] using hdiv.symm
  | some ip4 =>
    obtain ⟨a, b, c, d, rfl⟩ := exists_four hip
    have hb := b.toNat_lt
    have hc := c.toNat_lt
    have hd := d.toNat_lt
    simp [readBE_four, UInt8.toNat_inj.symm]
    omega

end IP

/-! Texts that name addresses. -/

abbrev Text := List Char

def decValue (s : Text) : ℕ := s.foldl (fun n c => 10 * n + (c.toNat - '0'.toNat)) 0

/-- A number up to 255 without leading zeros. -/
def octet (s : Text) : Option UInt8 :=
  if s ≠ [] ∧ s.all Char.isDigit ∧ (s.head? = some '0' → s.length = 1) ∧ decValue s ≤ 255 then
    some (UInt8.ofNat (decValue s))
  else none

def parseIPv4 (s : Text) : Option (List UInt8) :=
  match (s.splitOn '.').map octet with
  | [some a, some b, some c, some d] => some [a, b, c, d]
  | _ => none

/-- The groups of an IPv6 address, of which `k` may follow. `ip` is what is read, and `ellipsis` is where
zeros are left out. -/
def parseGroups : ℕ → List UInt8 → Option ℕ → Text → Option (List UInt8 × Option ℕ)
  | 0, ip, ellipsis, s => if s = [] then some (ip, ellipsis) else none
  | k + 1, ip, ellipsis, s =>
    let digits := s.takeWhile isHex
    let group := be 2 (digits.foldl (fun n c => 16 * n + hexValue c) 0)
    if digits = [] ∨ 4 < digits.length then none
    else match s.dropWhile isHex with
      -- the last four bytes are an IPv4 address
      | '.' :: _ =>
        if (ellipsis = none ∧ ip.length ≠ 12) ∨ 16 < ip.length + 4 then none
        else (parseIPv4 s).map fun ip4 => (ip ++ ip4, ellipsis)
      | [] => some (ip ++ group, ellipsis)
      | [':'] => none
      | ':' :: ':' :: s' =>
        if ellipsis.isSome then none
        else if s' = [] then some (ip ++ group, some (ip.length + 2))
        else parseGroups k (ip ++ group) (some (ip.length + 2)) s'
      | ':' :: s' => parseGroups k (ip ++ group) ellipsis s'
      | _ => none

/-- The zeros that were left out, one group at least. -/
def expand : List UInt8 × Option ℕ → Option (List UInt8)
  | (ip, none) => if ip.length = 16 then some ip else none
  | (ip, some ellipsis) =>
    if ip.length < 16 then some (ip.take ellipsis ++ List.replicate (16 - ip.length) 0 ++ ip.drop ellipsis)
    else none

def parseIPv6 (s : Text) : Option (List UInt8) :=
  match s with
  | [':', ':'] => some (be 16 0)
  | ':' :: ':' :: s' => (parseGroups 8 [] (some 0) s').bind expand
  | _ => (parseGroups 8 [] none s).bind expand

def parse16 (s : Text) : Option (List UInt8) :=
  match s.find? (fun c => c = '.' ∨ c = ':' ∨ c = '%') with
  | some '.' => (parseIPv4 s).map (v4InV6Prefix ++ ·)
  | some ':' => parseIPv6 s
  | _ => none

theorem expand_length {r : List UInt8 × Option ℕ} {ip : List UInt8} (h : expand r = some ip) :
    ip.length = 16 := by
  obtain ⟨read, ellipsis | ellipsis⟩ := r
  · simp only [expand] at h
    split_ifs at h with hlength
    cases h
    exact hlength
  · simp only [expand] at h
    split_ifs at h with hlength
    cases h
    simp
    omega

theorem parseIPv4_length {s : Text} {ip : List UInt8} (h : parseIPv4 s = some ip) : ip.length = 4 := by
  unfold parseIPv4 at h
  split at h
  · cases h
    rfl
  · cases h

/-- A text that is accepted is an address. -/
theorem parse16_length {s : Text} {ip : List UInt8} (h : parse16 s = some ip) : ip.length = 16 := by
  unfold parse16 at h
  split at h
  · obtain ⟨ip4, hip4, rfl⟩ := Option.map_eq_some_iff.1 h
    simp [v4InV6Prefix, parseIPv4_length hip4]
  · unfold parseIPv6 at h
    split at h
    · cases h
      rfl
    · obtain ⟨r, -, hr⟩ := Option.bind_eq_some_iff.1 h
      exact expand_length hr
    · obtain ⟨r, -, hr⟩ := Option.bind_eq_some_iff.1 h
      exact expand_length hr
  · cases h

/-- `ParseIP`. -/
def parseIP (s : Text) : Option IP :=
  match h : parse16 s with
  | some ip => some ⟨ip, .inr (parse16_length h)⟩
  | none => none

example : (parseIP "127.0.0.1".toList).map (·.bytes) = some (v4InV6Prefix ++ [127, 0, 0, 1]) := by decide

example : (parseIP "::ffff:7f00:1".toList) = parseIP "127.0.0.1".toList := by decide

/-- Why an address to dial is refused. -/
inductive AddrError
  | missingPort
  | missingBracket
  | tooManyColons
  | unexpectedBracket
  deriving DecidableEq

/-- `SplitHostPort`: the host may stand in brackets, the port follows the last colon. -/
def splitHostPort (hostport : Text) : Except AddrError (Text × Text) :=
  if ':' ∉ hostport then .error .missingPort
  else
    let port := (hostport.reverse.takeWhile (· ≠ ':')).reverse
    let front := hostport.take (hostport.length - port.length - 1)
    match hostport with
    | '[' :: inner =>
      if ']' ∉ inner then .error .missingBracket
      else
        let host := inner.takeWhile (· ≠ ']')
        let rest := (inner.dropWhile (· ≠ ']')).drop 1
        if rest = [] then .error .missingPort
        else if front = '[' :: host ++ [']'] then
          if '[' ∈ inner ∨ ']' ∈ rest then .error .unexpectedBracket else .ok (host, port)
        else if rest.head? = some ':' then .error .tooManyColons
        else .error .missingPort
    | _ =>
      if ':' ∈ front then .error .tooManyColons
      else if '[' ∈ hostport ∨ ']' ∈ hostport then .error .unexpectedBracket
      else .ok (front, port)

end Inet
