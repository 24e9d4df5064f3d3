import Clumoove.Spec.Pack
import Clumoove.Lib.Guard

/-! What each stage of the pack codec accepts, as an equation on the bytes it consumed. -/

namespace Clumoove

open Bytes Guard List

variable {es : List Entry} {stream rest : List UInt8} {e : Entry} {offset fuel : ℕ}

theorem packSizes : packPrefixSize = 16 ∧ packFooterSize = 20 ∧ blockSize = 4194304 ∧
    maxPackSize = 67108864 := by decide

@[simp] theorem packMagic_length : packMagic.length = 8 := rfl
@[simp] theorem footerMagic_length : footerMagic.length = 8 := rfl
@[simp] theorem packHeader_length : packHeader.length = packPrefixSize := rfl

@[simp] theorem packFooter_length (count dataEnd : ℕ) :
    (packFooter count dataEnd).length = packFooterSize := by
  simp [packFooter, packFooterSize]

@[simp] theorem encodeEntry_length (e : Entry) : (encodeEntry e).length = entrySize e := by
  simp only [encodeEntry, entrySize, length_append, be_length, e.hash.property]

@[simp] theorem payloadSize_nil : payloadSize [] = 0 := rfl

@[simp] theorem payloadSize_cons (e : Entry) (es : List Entry) :
    payloadSize (e :: es) = entrySize e + payloadSize es := rfl

@[simp] theorem encodeEntries_nil : encodeEntries [] = [] := rfl

@[simp] theorem encodeEntries_cons (e : Entry) (es : List Entry) :
    encodeEntries (e :: es) = encodeEntry e ++ encodeEntries es := rfl

theorem encodeEntries_append (es fs : List Entry) :
    encodeEntries (es ++ fs) = encodeEntries es ++ encodeEntries fs := by
  simp [encodeEntries]

@[simp] theorem encodeEntries_length (es : List Entry) :
    (encodeEntries es).length = payloadSize es := by
  induction es with
  | nil => rfl
  | cons e es ih => simp [ih]

theorem packBytes_length (es : List Entry) :
    (packBytes es).length = packPrefixSize + payloadSize es + packFooterSize := by
  simp only [packBytes, length_append, packHeader_length, encodeEntries_length, packFooter_length]

/-- Every entry costs its header, so a bounded pack has far fewer than `2 ^ 32` entries. -/
theorem length_le_payloadSize (es : List Entry) : es.length ≤ payloadSize es := by
  induction es with
  | nil => simp
  | cons e es ih => simp only [length_cons, payloadSize_cons, entrySize]; omega

variable {sha256 : List UInt8 → Digest}

/-- What `EncodePack` and `ValidatePack` both require of an entry. -/
structure EntryOk (sha256 : List UInt8 → Digest) (e : Entry) : Prop where
  pos : 0 < e.data.length
  le : e.data.length ≤ blockSize
  hash : sha256 e.data = e.hash

theorem checkEntries_eq_ok :
    checkEntries sha256 es = .ok n ↔ (∀ e ∈ es, EntryOk sha256 e) ∧ n = payloadSize es := by
  induction es generalizing n with
  | nil => simp [checkEntries, eq_comm]
  | cons e es ih =>
    unfold checkEntries
    split_ifs with hlen hhash
    · simp only [mem_cons, forall_eq_or_imp, false_iff]
      rintro ⟨⟨he, -⟩, -⟩
      have := he.pos
      have := he.le
      omega
    · simp only [mem_cons, forall_eq_or_imp, false_iff]
      rintro ⟨⟨he, -⟩, -⟩
      exact hhash he.hash
    · simp only [map_eq_ok, ih, mem_cons, forall_eq_or_imp, payloadSize_cons]
      have he : EntryOk sha256 e := ⟨by omega, by omega, by simpa using hhash⟩
      constructor
      · rintro ⟨m, ⟨hes, rfl⟩, rfl⟩
        exact ⟨⟨he, hes⟩, rfl⟩
      · rintro ⟨⟨-, hes⟩, rfl⟩
        exact ⟨_, ⟨hes, rfl⟩, rfl⟩

/-- `EncodePack` accepts exactly the well-hashed blocks that fit, and writes `packBytes`. -/
theorem encodePack_eq_ok : encodePack sha256 es = .ok (pack, bytes) ↔
      (∀ e ∈ es, EntryOk sha256 e) ∧ (packBytes es).length ≤ maxPackSize ∧
        bytes = packBytes es ∧ pack = ⟨sha256 bytes, bytes.length, es.length⟩ := by
  have hcount := length_le_payloadSize es
  have hlen := packBytes_length es
  have hs := packSizes
  unfold encodePack
  cases hc : checkEntries sha256 es with
  | error err =>
    have hbad : ¬ ∀ e ∈ es, EntryOk sha256 e := by
      intro hes
      rw [checkEntries_eq_ok.2 ⟨hes, rfl⟩] at hc
      cases hc
    split_ifs <;> simp [hbad]
  | ok n =>
    obtain ⟨hes, rfl⟩ := checkEntries_eq_ok.1 hc
    by_cases hfit : (packBytes es).length ≤ maxPackSize
    · rw [if_neg (by omega)]
      simp only [if_neg (show ¬ packPrefixSize + packFooterSize + payloadSize es > maxPackSize by
        omega), Except.ok.injEq, Prod.mk.injEq, ← hlen]
      constructor
      · rintro ⟨rfl, rfl⟩
        exact ⟨hes, hfit, rfl, rfl⟩
      · rintro ⟨-, -, rfl, rfl⟩
        exact ⟨rfl, rfl⟩
    · simp only [if_pos (show packPrefixSize + packFooterSize + payloadSize es > maxPackSize by
        omega), hfit, false_and, and_false, iff_false]
      split_ifs <;> simp

theorem eq_of_length_eight (h : l.length = 8) :
    ∃ b₀ b₁ b₂ b₃ b₄ b₅ b₆ b₇, l = [b₀, b₁, b₂, b₃, b₄, b₅, b₆, b₇] :=
  match l, h with
  | [b₀, b₁, b₂, b₃, b₄, b₅, b₆, b₇], _ => ⟨b₀, b₁, b₂, b₃, b₄, b₅, b₆, b₇, rfl⟩

theorem validateHeader_eq_ok : validateHeader stream = .ok rest ↔ stream = packHeader ++ rest := by
  simp only [validateHeader, bind_eq_ok, mapError_eq_ok, ite_throw_eq_ok, throw_bind,
    pure_eq_ok, Prod.exists, ne_eq, not_or, not_not]
  constructor
  · rintro ⟨magic, s₁, h₁, rfl, header, s₂, h₂, ⟨hv, h2, h3, hz⟩, rfl⟩
    obtain ⟨rfl, -⟩ := readFull_eq_ok h₁
    obtain ⟨rfl, hlen⟩ := readFull_eq_ok h₂
    have hhead : header = be 2 formatVersion ++ List.replicate 6 0 := by
      obtain ⟨b₀, b₁, b₂, b₃, b₄, b₅, b₆, b₇, rfl⟩ := eq_of_length_eight hlen
      have hword := be_readBE [b₀, b₁]
      have hzero := be_readBE [b₄, b₅, b₆, b₇]
      simp only [slice, drop_succ_cons, drop_zero, take_succ_cons, take_zero] at hv hz
      rw [hv] at hword
      rw [hz] at hzero
      simp only [List.getElem?_cons_succ, List.getElem?_cons_zero, Option.some.injEq] at h2 h3
      subst h2 h3
      change be 2 formatVersion = _ at hword
      change be 4 0 = _ at hzero
      rw [hword, show List.replicate 6 (0 : UInt8) = 0 :: 0 :: be 4 0 from rfl, hzero]
      rfl
    rw [packHeader, hhead, append_assoc packMagic]
  · rintro rfl
    rw [packHeader, append_assoc packMagic]
    exact ⟨_, _, readFull_append packMagic_length, rfl, _, _, readFull_append rfl, by decide, rfl⟩

theorem validateEntry_eq_ok : validateEntry sha256 stream offset = .ok (e, rest) ↔
      stream = encodeEntry e ++ rest ∧ EntryOk sha256 e ∧
        offset + entrySize e + packFooterSize ≤ maxPackSize := by
  have hs := packSizes
  simp only [validateEntry, bind_eq_ok, mapError_eq_ok, ite_throw_eq_ok, throw_bind,
    pure_eq_ok, Prod.exists, ne_eq, not_or, not_not, Prod.mk.injEq]
  constructor
  · rintro ⟨-, hash, s₁, h₁, len, s₂, h₂, ⟨hpos, hle, hfit⟩, payload, s₃, h₃, rfl, rfl, rfl⟩
    obtain ⟨rfl, -⟩ := readFull_eq_ok h₁
    obtain ⟨rfl, hlen⟩ := readFull_eq_ok h₂
    obtain ⟨rfl, hpay⟩ := readFull_eq_ok h₃
    have hword : be 4 payload.length = len := by rw [hpay, ← hlen, be_readBE]
    refine ⟨by simp [encodeEntry, hword], ⟨by simp only; omega, by simp only; omega, rfl⟩, ?_⟩
    simp only [entrySize]
    omega
  · rintro ⟨rfl, he, hfit⟩
    have hpos := he.pos
    have hle := he.le
    have hread : readBE (be 4 e.data.length) = e.data.length := readBE_be (by omega)
    have hhash : sha256 e.data = e.hash := he.hash
    simp only [entrySize] at hfit
    simp only [encodeEntry, append_assoc]
    refine ⟨by omega, _, _, readFull_append e.hash.property, _, _, readFull_append (be_length ..),
      ?_, _, _, readFull_append hread.symm, ?_, ?_, rfl⟩
    · rw [hread]; omega
    · rw [hhash]
    · rw [hhash]

theorem validateFooter_eq_ok {σ : Type} {s : Scan σ} :
    validateFooter s = .ok size ↔ s.rest = packFooter s.count s.offset ∧ s.count < 2 ^ 32 ∧
      size = s.offset + packFooterSize ∧ size ≤ maxPackSize := by
  have hs := packSizes
  simp only [validateFooter, bind_eq_ok, mapError_eq_ok, ite_throw_eq_ok, throw_bind,
    pure_eq_ok, Prod.exists, ne_eq, not_or, not_not]
  constructor
  · rintro ⟨footer, rest, h₁, ⟨hmagic, hcount, hend⟩, hfit, rfl, rfl⟩
    obtain ⟨hrest, hlen⟩ := readFull_eq_ok h₁
    rw [append_nil] at hrest
    have hc : (slice footer 8 4).length = 4 := by simp [slice, hlen]
    have hd : (footer.drop 12).length = 8 := by simp [hlen]
    have hword := be_readBE (slice footer 8 4)
    have hdword := be_readBE (footer.drop 12)
    have hlt := readBE_lt (slice footer 8 4)
    rw [hc, hcount] at hword hlt
    rw [hd, hend] at hdword
    refine ⟨?_, by omega, rfl, by omega⟩
    have hsplit : footer = slice footer 0 8 ++ (slice footer 8 4 ++ footer.drop 12) := by
      simp only [slice, drop_zero]
      rw [show footer.drop 12 = (footer.drop 8).drop 4 by rw [drop_drop],
        take_append_drop, take_append_drop]
    rw [hrest, hsplit, hmagic, ← hword, ← hdword, packFooter]
  · rintro ⟨hrest, hcount, rfl, hfit⟩
    have hf : (packFooter s.count s.offset).length = 20 := packFooter_length ..
    refine ⟨packFooter s.count s.offset, [], ?_, ⟨rfl, ?_, ?_⟩, by omega, ?_⟩
    · rw [hrest]; simpa using readFull_append (b := []) hf
    · have : slice (packFooter s.count s.offset) 8 4 = be 4 s.count := by
        simpa [packFooter] using slice_append footerMagic (be 4 s.count) (be 8 s.offset)
      rw [this, readBE_be (by omega)]
    · have : (packFooter s.count s.offset).drop 12 = be 8 s.offset := by
        rw [packFooter, ← append_assoc]
        exact drop_left' (by simp)
      rw [this, readBE_be (by omega)]
    · simp

section Loop

variable {σ : Type} {callback : σ → ℕ → Entry → Except String σ}

/-- The entries of a pack paired with the positions of their payloads, the first entry
starting at `offset`. -/
def located : ℕ → List Entry → List (ℕ × Entry)
  | _, [] => []
  | offset, e :: es => (offset + 36, e) :: located (offset + entrySize e) es

def feed (callback : σ → ℕ → Entry → Except String σ) (init : σ) (calls : List (ℕ × Entry)) :
    Except String σ :=
  calls.foldlM (fun state call => callback state call.1 call.2) init

@[simp] theorem feed_nil (init : σ) : feed callback init [] = .ok init := rfl

theorem feed_cons_eq_ok : feed callback init ((offset, e) :: calls) = .ok final ↔
      ∃ state, callback init offset e = .ok state ∧ feed callback state calls = .ok final := by
  simp [feed, foldlM_cons]

theorem validateEntries_footer (h : footerMagic <+: s.rest) :
    validateEntries sha256 callback (fuel + 1) s = .ok s := by
  have hp : peek 8 s.rest = .ok footerMagic := peek_eq_ok.2 ⟨h, rfl⟩
  simp [validateEntries, hp]

theorem validateEntries_entry (h : ¬ footerMagic <+: s.rest) :
    validateEntries sha256 callback (fuel + 1) s = .ok t ↔ ∃ e rest state,
      s.rest = encodeEntry e ++ rest ∧ EntryOk sha256 e ∧
      s.offset + entrySize e + packFooterSize ≤ maxPackSize ∧ s.count ≠ 2 ^ 32 - 1 ∧
      callback s.state (s.offset + 36) e = .ok state ∧
      validateEntries sha256 callback fuel ⟨rest, s.offset + entrySize e, s.count + 1, state⟩
        = .ok t := by
  have hpeek : ∀ {leading}, peek 8 s.rest = .ok leading → leading ≠ footerMagic := by
    rintro leading hp rfl
    exact h (peek_eq_ok.1 hp).1
  constructor
  · intro hv
    simp only [validateEntries] at hv
    split at hv
    · cases hv
    · next leading hp =>
      rw [if_neg (hpeek hp)] at hv
      split at hv
      · cases hv
      · next e rest he =>
        obtain ⟨hrest, hok, hfit⟩ := validateEntry_eq_ok.1 he
        split_ifs at hv with hc
        split at hv
        · cases hv
        · next state hcall => exact ⟨e, rest, state, hrest, hok, hfit, hc, hcall, hv⟩
  · rintro ⟨e, rest, state, hrest, hok, hfit, hc, hcall, hv⟩
    have hlen : 8 ≤ s.rest.length := by
      simp only [hrest, length_append, encodeEntry_length, entrySize]; omega
    have hp : peek 8 s.rest = .ok (s.rest.take 8) :=
      peek_eq_ok.2 ⟨List.take_prefix .., by simp [hlen]⟩
    have he : validateEntry sha256 s.rest s.offset = .ok (e, rest) :=
      validateEntry_eq_ok.2 ⟨hrest, hok, hfit⟩
    simp only [validateEntries, hp, if_neg (hpeek hp), he, if_neg hc, hcall, hv]

/-- An entry list the format can hold and tell apart from a footer. -/
structure Storable (sha256 : List UInt8 → Digest) (es : List Entry) : Prop where
  ok : ∀ e ∈ es, EntryOk sha256 e
  noMagic : ∀ e ∈ es, ¬ footerMagic <+: e.hash.val

theorem storable_cons : Storable sha256 (e :: es) ↔
      EntryOk sha256 e ∧ ¬ footerMagic <+: e.hash.val ∧ Storable sha256 es := by
  constructor
  · rintro ⟨hok, hm⟩
    simp only [mem_cons, forall_eq_or_imp] at hok hm
    exact ⟨hok.1, hm.1, hok.2, hm.2⟩
  · rintro ⟨he, hm, hok, hms⟩
    exact ⟨by simpa using ⟨he, hok⟩, by simpa using ⟨hm, hms⟩⟩

/-- A stream that starts with an entry starts with the footer magic only if the entry's hash
does: the magic is shorter than a hash. -/
theorem magic_prefix_encodeEntry :
    footerMagic <+: encodeEntry e ++ rest ↔ footerMagic <+: e.hash.val := by
  have hpre : e.hash.val <+: encodeEntry e ++ rest := by
    simp only [encodeEntry, append_assoc]
    exact prefix_append _ _
  constructor
  · intro h
    exact prefix_of_prefix_length_le h hpre (by simp [e.hash.property])
  · intro h
    exact h.trans hpre

/-- The entry loop stops at a footer exactly after a storable list of entries, having fed each
to the callback at its payload offset. -/
theorem validateEntries_eq_ok {s t : Scan σ} (hfuel : s.rest.length ≤ fuel)
    (hcount : s.count < 2 ^ 32) (hoff : s.offset + packFooterSize ≤ maxPackSize) :
    validateEntries sha256 callback fuel s = .ok t ↔ ∃ es,
      s.rest = encodeEntries es ++ t.rest ∧ footerMagic <+: t.rest ∧ Storable sha256 es ∧
      s.offset + payloadSize es + packFooterSize ≤ maxPackSize ∧ s.count + es.length < 2 ^ 32 ∧
      t.offset = s.offset + payloadSize es ∧ t.count = s.count + es.length ∧
      feed callback s.state (located s.offset es) = .ok t.state := by
  induction fuel generalizing s with
  | zero =>
    have hnil : s.rest = [] := length_eq_zero_iff.1 (by omega)
    simp only [validateEntries, hnil, reduceCtorEq, false_iff]
    rintro ⟨es, hrest, hmagic, -⟩
    have hlen := hmagic.length_le
    have := congrArg List.length hrest
    simp at this hlen
    omega
  | succ fuel ih =>
    by_cases hm : footerMagic <+: s.rest
    · rw [validateEntries_footer hm, Except.ok.injEq]
      constructor
      · rintro rfl
        exact ⟨[], rfl, hm, ⟨by simp, by simp⟩, by simpa using hoff, by simpa using hcount, rfl,
          rfl, rfl⟩
      · rintro ⟨es, hrest, -, hst, -, -, hto, htc, hfeed⟩
        cases es with
        | nil =>
          cases s; cases t
          simp_all [located]
        | cons e es =>
          rw [encodeEntries_cons, append_assoc] at hrest
          rw [hrest] at hm
          exact absurd (magic_prefix_encodeEntry.1 hm) (storable_cons.1 hst).2.1
    · rw [validateEntries_entry hm]
      constructor
      · rintro ⟨e, rest, state, hrest, hok, hfit, hc, hcall, hv⟩
        have hlen := congrArg List.length hrest
        simp only [length_append, encodeEntry_length, entrySize] at hlen
        obtain ⟨es, hes, hmagic, hst, hsize, hcnt, hto, htc, hfeed⟩ :=
          (ih (by simp only; omega) (by simp only; omega) (by simpa using hfit)).1 hv
        simp only at hes hsize hcnt hto htc hfeed
        refine ⟨e :: es, by simp [hrest, hes], hmagic, storable_cons.2 ⟨hok, ?_, hst⟩, ?_, ?_, ?_,
          ?_, feed_cons_eq_ok.2 ⟨state, hcall, hfeed⟩⟩
        · rw [hrest] at hm
          exact fun h => hm (magic_prefix_encodeEntry.2 h)
        · simp only [payloadSize_cons]; omega
        · simp only [length_cons]; omega
        · simp only [payloadSize_cons]; omega
        · simp only [length_cons]; omega
      · rintro ⟨es, hrest, hmagic, hst, hsize, hcnt, hto, htc, hfeed⟩
        cases es with
        | nil => exact absurd (by simpa [hrest] using hmagic) hm
        | cons e es =>
          simp only [payloadSize_cons, length_cons] at hsize hcnt hto htc
          obtain ⟨hok, -, hst⟩ := storable_cons.1 hst
          obtain ⟨state, hcall, hfeed⟩ := feed_cons_eq_ok.1 hfeed
          rw [encodeEntries_cons, append_assoc] at hrest
          have hlen := congrArg List.length hrest
          simp only [length_append, encodeEntry_length, entrySize] at hlen
          refine ⟨e, encodeEntries es ++ t.rest, state, hrest, hok, by omega, by omega, hcall, ?_⟩
          refine (ih ?_ ?_ ?_).2 ⟨es, rfl, hmagic, hst, ?_, ?_, ?_, ?_, hfeed⟩ <;>
            simp only [length_append] <;> omega

/-- `ValidatePack` accepts exactly the canonical encodings of storable lists under their own
hash, and the callback accepted every payload at its offset. -/
theorem validatePack_eq_ok {id : Digest} :
    validatePack sha256 callback stream id init = .ok (pack, final) ↔ ∃ es,
      Storable sha256 es ∧ stream = packBytes es ∧ stream.length ≤ maxPackSize ∧
      id = sha256 stream ∧ pack = ⟨id, stream.length, es.length⟩ ∧
      feed callback init (located packPrefixSize es) = .ok final := by
  have hs := packSizes
  simp only [validatePack, bind_eq_ok, ite_throw_eq_ok, throw_bind, pure_eq_ok, ne_eq, not_not,
    validateHeader_eq_ok, validateFooter_eq_ok, Prod.mk.injEq]
  constructor
  · rintro ⟨rest, rfl, scan, hscan, size, ⟨hrest, hcount, rfl, hfit⟩, hid, rfl, rfl⟩
    obtain ⟨es, hes, -, hst, -, -, hoff, hcnt, hfeed⟩ :=
      (validateEntries_eq_ok (by simp) (by simp) (by simp only; omega)).1 hscan
    simp only [Nat.zero_add] at hes hoff hcnt hfeed
    have hbytes : packHeader ++ rest = packBytes es := by
      rw [hes, hrest, hcnt, hoff, packBytes, append_assoc]
    have hlen := packBytes_length es
    refine ⟨es, hst, hbytes, by rw [hbytes]; omega, hid.symm, ?_, hfeed⟩
    rw [hbytes, hlen, ← hbytes, hid, hoff, hcnt]
  · rintro ⟨es, hst, rfl, hfit, rfl, rfl, hfeed⟩
    have hlen := packBytes_length es
    have hcount := length_le_payloadSize es
    refine ⟨_, by rw [packBytes, append_assoc],
      ⟨packFooter es.length (packPrefixSize + payloadSize es), packPrefixSize + payloadSize es,
        es.length, final⟩, ?_, _, ⟨rfl, ?_, rfl, ?_⟩, rfl, ?_, rfl⟩
    · refine (validateEntries_eq_ok ?_ (by simp) (by simp only; omega)).2 ⟨es, rfl, ?_, hst, ?_, ?_, rfl, ?_, hfeed⟩
      · simp only [packBytes, length_append]; omega
      · exact prefix_append _ _
      · simp only; omega
      · simp only; omega
      · simp
    · simp only; omega
    · simp only; omega
    · simp only [hlen]

end Loop

@[simp] theorem located_map_snd (offset : ℕ) (es : List Entry) :
    (located offset es).map Prod.snd = es := by
  induction es generalizing offset with
  | nil => rfl
  | cons e es ih => simp [located, ih]

@[simp] theorem located_length (offset : ℕ) (es : List Entry) :
    (located offset es).length = es.length := by
  induction es generalizing offset with
  | nil => rfl
  | cons e es ih => simp [located, ih]

theorem located_getElem? (h : (located offset es)[i]? = some call) :
    es[i]? = some call.2 ∧ call.1 = offset + payloadSize (es.take i) + 36 := by
  induction es generalizing offset i with
  | nil => simp [located] at h
  | cons e es ih =>
    cases i with
    | zero =>
      simp only [located, List.getElem?_cons_zero, Option.some.injEq] at h
      subst h
      simp
    | succ i =>
      obtain ⟨he, hoff⟩ := ih h
      refine ⟨by simpa using he, ?_⟩
      simp only [take_succ_cons, payloadSize_cons]
      omega

theorem slice_packBytes (h : es[i]? = some e) :
    slice (packBytes es) (packPrefixSize + payloadSize (es.take i) + 36) e.data.length = e.data := by
  obtain ⟨hi, rfl⟩ := List.getElem?_eq_some_iff.1 h
  set e := es[i]
  have hes : es = es.take i ++ e :: es.drop (i + 1) := by
    rw [← drop_eq_getElem_cons hi, take_append_drop]
  have hbytes : packBytes es =
      (packHeader ++ encodeEntries (es.take i) ++ (e.hash.val ++ be 4 e.data.length)) ++ e.data ++
        (encodeEntries (es.drop (i + 1)) ++
          packFooter es.length (packPrefixSize + payloadSize es)) := by
    conv_lhs => rw [packBytes, hes, encodeEntries_append, encodeEntries_cons, encodeEntry, ← hes]
    simp only [append_assoc]
  have hlen : (packHeader ++ encodeEntries (es.take i) ++ (e.hash.val ++ be 4 e.data.length)).length
        = packPrefixSize + payloadSize (es.take i) + 36 := by
    simp [e.hash.property, Nat.add_assoc]
  rw [hbytes, ← hlen, slice_append]

/-- Entries followed by a footer parse in one way only, if the second list has no hash that
looks like a footer. -/
theorem encodeEntries_unique (hes : ∀ e ∈ es, EntryOk sha256 e) (hfs : Storable sha256 fs)
    (h : encodeEntries es ++ packFooter a b = encodeEntries fs ++ packFooter c d) : es = fs := by
  have hs := packSizes
  induction es generalizing fs with
  | nil =>
    cases fs with
    | nil => rfl
    | cons f fs =>
      have hm : footerMagic <+: encodeEntry f ++ (encodeEntries fs ++ packFooter c d) := by
        rw [← append_assoc, ← encodeEntries_cons, ← h]
        exact prefix_append _ _
      exact absurd (magic_prefix_encodeEntry.1 hm) (storable_cons.1 hfs).2.1
  | cons e es ih =>
    cases fs with
    | nil =>
      have hlen := congrArg List.length h
      simp only [length_append, encodeEntries_length, payloadSize_cons, packFooter_length,
        payloadSize_nil, entrySize] at hlen
      omega
    | cons f fs =>
      obtain ⟨hf, -, hfs⟩ := storable_cons.1 hfs
      have he := hes e (by simp)
      simp only [encodeEntries_cons, encodeEntry, append_assoc] at h
      obtain ⟨hhash, h⟩ := append_inj h (by simp [e.hash.property, f.hash.property])
      obtain ⟨hword, h⟩ := append_inj h (by simp)
      have hlen : e.data.length = f.data.length := by
        have := he.le
        have := hf.le
        rw [← readBE_be (k := 4) (n := e.data.length) (by omega), hword, readBE_be (by omega)]
      obtain ⟨hdata, h⟩ := append_inj h hlen
      have hef : e = f := by
        cases e; cases f
        simp_all [Subtype.ext_iff]
      rw [hef, ih (fun x hx => hes x (mem_cons_of_mem _ hx)) hfs h]

end Clumoove
