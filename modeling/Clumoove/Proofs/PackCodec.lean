import Clumoove.Sanity.Pack

/-! `ValidatePack` accepts exactly what `EncodePack` writes, apart from packs in which a block
hash begins with the footer magic. -/

namespace Clumoove

open Bytes List

variable {sha256 : List UInt8 → Digest}

def collect (calls : List (ℕ × Entry)) (offset : ℕ) (e : Entry) :
    Except String (List (ℕ × Entry)) :=
  .ok (calls ++ [(offset, e)])

theorem feed_collect (init calls : List (ℕ × Entry)) :
    feed collect init calls = .ok (init ++ calls) := by
  induction calls generalizing init with
  | nil => simp
  | cons call calls ih =>
    obtain ⟨offset, e⟩ := call
    refine feed_cons_eq_ok.2 ⟨init ++ [(offset, e)], rfl, ?_⟩
    simpa using ih (init ++ [(offset, e)])

/-- `ValidatePack` and `EncodePack` agree. It succeeds with a callback sequence exactly when
the encoder writes the stream from those entries, the id is the stream's hash and no hash
begins with the footer magic; offsets, size and count are then those of the stream. An
encoded list round-trips, unless a hash begins with the magic: such a pack is rejected. -/
theorem validatePack_iff_encodePack (sha256 : List UInt8 → Digest) (stream : List UInt8)
    (id : Digest) :
    (∀ es, (∃ pack calls, validatePack sha256 collect stream id [] = .ok (pack, calls) ∧
          calls.map Prod.snd = es) ↔
        (∃ pack, encodePack sha256 es = .ok (pack, stream)) ∧ id = sha256 stream ∧
          ∀ e ∈ es, ¬ footerMagic <+: e.hash.val) ∧
    (∀ pack calls, validatePack sha256 collect stream id [] = .ok (pack, calls) →
        (∀ i offset e, calls[i]? = some (offset, e) →
          offset = packPrefixSize + payloadSize ((calls.map Prod.snd).take i) + 36 ∧
          slice stream offset e.data.length = e.data) ∧
        pack.id = id ∧ pack.size = stream.length ∧ stream.length ≤ maxPackSize ∧
        pack.entryCount = calls.length) ∧ (∀ es pack, encodePack sha256 es = .ok (pack, stream) →
        ((∀ e ∈ es, ¬ footerMagic <+: e.hash.val) → ∃ calls,
          validatePack sha256 collect stream (sha256 stream) [] = .ok (pack, calls) ∧
          calls.map Prod.snd = es) ∧ ((∃ e ∈ es, footerMagic <+: e.hash.val) →
          ∃ err, validatePack sha256 collect stream id [] = .error err)) := by
  refine ⟨fun es => ⟨?_, ?_⟩, ?_, fun es pack henc => ⟨fun hm => ?_, ?_⟩⟩
  · rintro ⟨pack, calls, hv, rfl⟩
    obtain ⟨es, hst, rfl, hfit, rfl, rfl, hfeed⟩ := validatePack_eq_ok.1 hv
    rw [feed_collect, nil_append, Except.ok.injEq] at hfeed
    rw [← hfeed, located_map_snd]
    exact ⟨⟨_, encodePack_eq_ok.2 ⟨hst.ok, hfit, rfl, rfl⟩⟩, rfl, hst.noMagic⟩
  · rintro ⟨⟨pack, henc⟩, hid, hm⟩
    obtain ⟨hok, hfit, rfl, rfl⟩ := encodePack_eq_ok.1 henc
    exact ⟨_, located packPrefixSize es,
      validatePack_eq_ok.2 ⟨es, ⟨hok, hm⟩, rfl, hfit, hid, rfl, feed_collect ..⟩,
      located_map_snd ..⟩
  · intro pack calls hv
    obtain ⟨es, -, rfl, hfit, -, rfl, hfeed⟩ := validatePack_eq_ok.1 hv
    rw [feed_collect, nil_append, Except.ok.injEq] at hfeed
    subst hfeed
    refine ⟨fun i offset e hi => ?_, rfl, rfl, hfit, by simp⟩
    obtain ⟨he, hoff⟩ := located_getElem? hi
    simp only at he hoff
    rw [located_map_snd]
    exact ⟨hoff, by rw [hoff]; exact slice_packBytes he⟩
  · obtain ⟨hok, hfit, rfl, rfl⟩ := encodePack_eq_ok.1 henc
    exact ⟨_, validatePack_eq_ok.2 ⟨es, ⟨hok, hm⟩, rfl, hfit, rfl, rfl, feed_collect ..⟩,
      located_map_snd ..⟩
  · rintro ⟨e, he, hm⟩
    obtain ⟨hok, -, hbytes, -⟩ := encodePack_eq_ok.1 henc
    cases hv : validatePack sha256 collect stream id [] with
    | error err => exact ⟨err, rfl⟩
    | ok res =>
      -- an accepted stream is the encoding of a storable list, which can only be `es`
      obtain ⟨fs, hfs, hstream, -⟩ := validatePack_eq_ok.1 hv
      have heq : packBytes es = packBytes fs := by rw [← hbytes, hstream]
      simp only [packBytes, append_assoc] at heq
      obtain rfl := encodeEntries_unique hok hfs (append_cancel_left heq)
      exact absurd hm (hfs.noMagic e he)

end Clumoove
