import Clumoove.Spec.References

/-! A file reference or a cursor that is accepted was sealed for the user and the profile it is accepted
for, however the text that a client presents was put together. A client may take the prefix off or put one
on, and so choose which data is authenticated; but nothing that was encrypted for a domain opens without
it. -/

namespace Clumoove.Files

open Bytes Aead List

variable {json : Json} {log : Log} {given : List (Issue × Text)}

structure Made (json : Json) (i : Issue) (v : Text) (b : Box (List UInt8) (List UInt8) Text (List UInt8)) :
    Prop where
  allowed : i.Allowed
  domain : i.domain ≠ some []
  nonce : b.nonce.length = gcmNonceSize
  data : b.data = i.domain.getD []
  plain : b.plain = i.plain json
  bytes : i.domain ≠ none → unhex (encoded v) = some (b.nonce ++ b.text)

theorem encoded_envelope (s : Text) : encoded (envelopeV1Prefix ++ s) = s := by
  rw [encoded, if_pos (prefix_append _ _), drop_left]

theorem run_cases (hallowed : i.Allowed)
    (hfits : ∀ d ∈ draw, d.Fits (i.plain json) log) (hrun : i.run json draw log = (.ok v, log')) :
    v = [] ∧ log' = log ∨ ∃ b, log' = b :: log ∧ Fresh b.nonce b.text log ∧ Made json i v b := by
  cases hdomain : i.domain with
  | some domain =>
    have hcall : i.run json draw log = encryptWithDomain (i.plain json) domain draw log := by
      cases i <;> cases hdomain <;> rfl
    rw [hcall] at hrun
    unfold encryptWithDomain at hrun
    split_ifs at hrun with hplain hempty
    · cases hrun
      exact .inl ⟨rfl, rfl⟩
    · cases hrun
    · cases draw with
      | none => cases hrun
      | some d =>
        cases hrun
        obtain ⟨hnonce, -, hfresh⟩ := hfits d rfl
        exact .inr ⟨_, rfl, hfresh, hallowed, by simp [hdomain, hempty], hnonce, by rw [hdomain]; rfl, rfl,
          fun _ => by rw [encoded_envelope, unhex_hex]⟩
  | none =>
    cases i with
    | legacy plain =>
      cases draw with
      | none => cases hrun
      | some d =>
        cases hrun
        obtain ⟨hnonce, -, hfresh⟩ := hfits d rfl
        exact .inr ⟨_, rfl, hfresh, hallowed, by simp [hdomain], hnonce, rfl, rfl, absurd hdomain⟩
    | _ => cases hdomain

/-- The log holds what was issued and nothing else. -/
structure Accounted (json : Json) (given : List (Issue × Text)) (log : Log) : Prop where
  distinct : Distinct log
  source : ∀ b ∈ log, ∃ i v, (i, v) ∈ given ∧ Made json i v b
  kept : ∀ i v, (i, v) ∈ given → v ≠ [] → ∃ b ∈ log, Made json i v b

theorem Issued.accounted (h : Issued json given log) : Accounted json given log := by
  induction h with
  | start => exact ⟨by simp [Distinct], by simp, by simp⟩
  | @issue given log log' i draw v h hallowed hfits hrun ih =>
    have hsource : ∀ b ∈ log, ∃ j w, (j, w) ∈ (i, v) :: given ∧ Made json j w b := fun b hb => by
      obtain ⟨j, w, hw, hmade⟩ := ih.source b hb
      exact ⟨j, w, mem_cons_of_mem _ hw, hmade⟩
    rcases run_cases hallowed hfits hrun with ⟨hv, rfl⟩ | ⟨b, rfl, hfresh, hmade⟩
    · refine ⟨ih.distinct, hsource, fun j w hw hne => ?_⟩
      rcases mem_cons.1 hw with heq | hw
      · cases heq
        exact absurd hv hne
      · exact ih.kept j w hw hne
    · refine ⟨ih.distinct.cons hfresh, forall_mem_cons.2 ⟨⟨i, v, mem_cons_self, hmade⟩, hsource⟩,
        fun j w hw hne => ?_⟩
      rcases mem_cons.1 hw with heq | hw
      · cases heq
        exact ⟨b, mem_cons_self, hmade⟩
      · obtain ⟨c, hc, hmade⟩ := ih.kept j w hw hne
        exact ⟨c, mem_cons_of_mem _ hc, hmade⟩

/-- What decryption answers with is in the log, with the domain if the text has the prefix and with no data
if not. -/
theorem decrypt_cases (h : decryptBytesWithDomain log s domain = .ok plain) :
    s = [] ∧ plain = [] ∨ domain ≠ [] ∧ ∃ b ∈ log, b.plain = plain ∧
      unhex (encoded s) = some (b.nonce ++ b.text) ∧ b.nonce.length = gcmNonceSize ∧
      b.data = if envelopeV1Prefix <+: s then domain else [] := by
  unfold decryptBytesWithDomain at h
  split at h
  · exact .inl ⟨‹_›, by simpa using h.symm⟩
  split at h
  · cases h
  split at h
  · cases h
  split at h
  · cases h
  rename_i hdomain _ _ combined hhex
  split at h
  · cases h
  dsimp only at h
  split at h
  · cases h
  · rename_i hlen _ _ hunlock
    cases h
    refine .inr ⟨hdomain, _, mem_of_unlock hunlock, rfl, ?_, ?_, rfl⟩
    · rw [hhex, take_append_drop]
    · rw [length_take]
      omega

/-- Texts that hold the bytes of one envelope decrypt with the prefix and for its domain, or not at all. -/
theorem Accounted.decrypt (h : Accounted json given log)
    (hv : (i, v) ∈ given) (hne : v ≠ []) (hdomain : i.domain = some domain)
    (hs : unhex (encoded s) = unhex (encoded v)) (hdecrypt : decryptBytesWithDomain log s other = .ok plain) :
    envelopeV1Prefix <+: s ∧ other = domain ∧ plain = i.plain json := by
  obtain ⟨b, hb, hmade⟩ := h.kept i v hv hne
  have hbytes := hmade.bytes (by simp [hdomain])
  have hdata : b.data = domain := by rw [hmade.data, hdomain]; rfl
  rcases decrypt_cases hdecrypt with ⟨rfl, -⟩ | ⟨-, c, hc, rfl, hhex, hnonce, hframe⟩
  · rw [hbytes] at hs
    have hnil := append_eq_nil_iff.1 (Option.some.inj hs).symm
    exact absurd hmade.nonce (by simp [hnil.1, gcmNonceSize])
  · rw [hs, hbytes, Option.some.injEq] at hhex
    obtain ⟨hn, ht⟩ := append_inj hhex (hmade.nonce.trans hnonce.symm)
    obtain rfl := h.distinct b hb c hc hn ht
    rw [hdata] at hframe
    split_ifs at hframe with htag
    · exact ⟨htag, hframe.symm, hmade.plain⟩
    · exact absurd (hdomain.trans (congrArg some hframe)) hmade.domain

/-- A record that is accepted was issued for the domain, unless it lies in an envelope of old. -/
theorem Accounted.opened (h : Accounted json given log) {α : Type} {ids : α → Text × Text}
    {codec : Codec α ids} {valid : α → Bool} {a : α}
    (hlegacy : ∀ plain v, (.legacy plain, v) ∈ given → ∀ a ∈ codec.unmarshal plain, valid a = false)
    (hopen : openRecord codec domain valid log value u p = .ok a) :
    ids a = (u, p) ∧ ∃ i v, (i, v) ∈ given ∧ i.Allowed ∧ i.domain = some domain ∧
      unhex (encoded value) = unhex (encoded v) ∧ codec.unmarshal (i.plain json) = some a := by
  unfold openRecord at hopen
  split at hopen
  · cases hopen
  · rename_i plain hdecrypt
    split at hopen
    · cases hopen
    · rename_i a' hdecode
      split_ifs at hopen with hvalid
      cases hopen
      refine ⟨hvalid.1, ?_⟩
      rcases decrypt_cases hdecrypt with ⟨-, rfl⟩ | ⟨hdomain, b, hb, rfl, hhex, -, hframe⟩
      · rw [codec.unmarshal_nil] at hdecode
        cases hdecode
      · obtain ⟨i, v, hv, hmade⟩ := h.source b hb
        have hdata := hmade.data
        rw [hmade.plain] at hdecode
        cases hi : i.domain with
        | none =>
          cases i with
          | legacy plain => exact absurd hvalid.2 (by simp [hlegacy plain v hv a hdecode])
          | _ => cases hi
        | some d =>
          rw [hi, Option.getD_some, hframe] at hdata
          have hd : d ≠ [] := fun h => hmade.domain (hi.trans (congrArg some h))
          split_ifs at hdata
          · exact ⟨i, v, hv, hmade.allowed, hi.trans (congrArg some hdata.symm),
              hhex.trans (hmade.bytes (by simp [hi])).symm, hdecode⟩
          · exact absurd hdata.symm hd

/-- Whatever was issued under the key, if no envelope of old holds a valid reference or cursor: a text is
accepted as a reference or as a cursor only if it holds the bytes of one that was sealed for the same user
and profile; and no text with the bytes of an envelope of one domain decrypts for another domain or without
the prefix. -/
theorem references_are_not_transplanted (h : Issued json given log)
    (hlegacy : ∀ plain v, (.legacy plain, v) ∈ given →
      (∀ r ∈ json.reference.unmarshal plain, r.valid = false) ∧
      ∀ c ∈ json.cursor.unmarshal plain, c.valid = false) :
    (∀ value u p ref, openFileReference json log value u p = .ok ref →
      ∃ r v, (.reference r, v) ∈ given ∧ r.userID = u ∧ r.profileID = p ∧
        unhex (encoded value) = unhex (encoded v) ∧
        json.reference.unmarshal (json.reference.marshal r) = some ref) ∧
    (∀ value u p cur, openFileCursor json log value u p = .ok cur →
      ∃ c v, (.cursor c, v) ∈ given ∧ c.userID = u ∧ c.profileID = p ∧
        unhex (encoded value) = unhex (encoded v) ∧
        json.cursor.unmarshal (json.cursor.marshal c) = some cur) ∧
    ∀ i v domain, (i, v) ∈ given → v ≠ [] → i.domain = some domain →
      ∀ s other plain, unhex (encoded s) = unhex (encoded v) →
        decryptBytesWithDomain log s other = .ok plain →
        envelopeV1Prefix <+: s ∧ other = domain ∧ plain = i.plain json := by
  have hacc := h.accounted
  refine ⟨fun value u p ref hopen => ?_, fun value u p cur hopen => ?_,
    fun i v domain hv hne hdomain s other plain hs => hacc.decrypt hv hne hdomain hs⟩
  · obtain ⟨hids, i, v, hv, hallowed, hdomain, hbytes, hplain⟩ :=
      hacc.opened (fun plain v hv => (hlegacy plain v hv).1) hopen
    cases i with
    | reference r =>
      have hr := json.reference.ids_unmarshal hplain
      rw [hids, FileReference.ids, Prod.mk.injEq] at hr
      exact ⟨r, v, hv, hr.1.symm, hr.2.symm, hbytes, hplain⟩
    | cursor c => exact absurd (Option.some.inj hdomain) (by decide)
    | secret d plain => exact absurd (Option.some.inj hdomain) hallowed.1
    | legacy plain => cases hdomain
  · obtain ⟨hids, i, v, hv, hallowed, hdomain, hbytes, hplain⟩ :=
      hacc.opened (fun plain v hv => (hlegacy plain v hv).2) hopen
    cases i with
    | reference r => exact absurd (Option.some.inj hdomain) (by decide)
    | cursor c =>
      have hc := json.cursor.ids_unmarshal hplain
      rw [hids, FileCursor.ids, Prod.mk.injEq] at hc
      exact ⟨c, v, hv, hc.1.symm, hc.2.symm, hbytes, hplain⟩
    | secret d plain => exact absurd (Option.some.inj hdomain) hallowed.2
    | legacy plain => cases hdomain

/-- The records of a table, each under its text. -/
def tableCodec {α : Type} [DecidableEq α] (ids : α → Text × Text) (table : List (List UInt8 × α))
    (hne : ∀ x ∈ table, x.1 ≠ [])
    (hids : ∀ x ∈ table, ∀ y ∈ table, x.1 = y.1 → ids x.2 = ids y.2) : Codec α ids where
  marshal a := ((table.find? (·.2 = a)).map Prod.fst).getD []
  unmarshal bytes := (table.find? (·.1 = bytes)).map Prod.snd
  unmarshal_nil := by simpa using fun bytes a => hne (bytes, a)
  ids_unmarshal {a b} h := by
    obtain ⟨y, hy, rfl⟩ := Option.map_eq_some_iff.1 h
    have htext := find?_some hy
    simp only [decide_eq_true_eq] at htext
    cases hx : table.find? (·.2 = a) with
    | none =>
      rw [hx] at htext
      exact absurd htext (hne y (mem_of_find?_eq_some hy))
    | some x =>
      rw [hx] at htext
      have hrecord := find?_some hx
      simp only [decide_eq_true_eq] at hrecord
      rw [← hrecord]
      exact hids y (mem_of_find?_eq_some hy) x (mem_of_find?_eq_some hx) htext

def utf8 (s : String) : List UInt8 := s.toList.map fun c => .ofNat c.toNat

/-- The root directory of a user's profile. -/
def rootReference (userID : Text) : FileReference where
  userID := userID
  profileID := ['p']
  resourceType := "files".toList
  kind := "directory".toList
  locator := { path := ['/'] }

def rootJson : Json where
  reference := tableCodec _
    [(utf8 "\x7b\"user_id\":\"u\",\"profile_id\":\"p\",\"locator\":\x7b\"path\":\"/\"\x7d\x7d", rootReference ['u']),
      (utf8 "\x7b\"user_id\":\"w\",\"profile_id\":\"p\",\"locator\":\x7b\"path\":\"/\"\x7d\x7d", rootReference ['w'])]
    (by decide +kernel) (by decide +kernel)
  cursor := tableCodec _ [] (by simp) (by simp)

/-- A password of an older version, and the references of two users. -/
def rootIssues : List (Issue × UInt8) :=
  [(.reference (rootReference ['w']), 3), (.reference (rootReference ['u']), 2), (.legacy (utf8 "secret"), 1)]

def rootDraw (i : Issue) (n : UInt8) : Draw :=
  ⟨replicate gcmNonceSize n, replicate ((i.plain rootJson).length + gcmOverhead) n⟩

def rootGiven : List (Issue × UInt8) → List (Issue × Text) × Log
  | [] => ([], [])
  | (i, n) :: issues =>
    let (given, log) := rootGiven issues
    let (v, log) := i.run rootJson (some (rootDraw i n)) log
    ((i, v.toOption.getD []) :: given, log)

theorem sealed_reference_opens :
    let sealed := rootGiven rootIssues
    ∃ v, openFileReference rootJson sealed.2 v ['u'] ['p'] = .ok (rootReference ['u']) ∧
      openFileReference rootJson sealed.2 v ['w'] ['p'] = .error .invalid ∧
      ∃ r w, (.reference r, w) ∈ sealed.1 ∧ r.userID = ['u'] ∧ r.profileID = ['p'] ∧
        unhex (encoded v) = unhex (encoded w) ∧
        rootJson.reference.unmarshal (rootJson.reference.marshal r) = some (rootReference ['u']) := by
  intro sealed
  have hgiven : Issued rootJson sealed.1 sealed.2 := by
    have hissue := fun i n given log v log' => @Issued.issue rootJson given log log' i (some (rootDraw i n)) v
    refine hissue _ 3 _ _ _ _ (hissue _ 2 _ _ _ _ (hissue _ 1 _ _ _ _ .start trivial ?_ rfl) trivial ?_ rfl)
      trivial ?_ rfl
    all_goals
      rintro d ⟨⟩
      exact ⟨length_replicate, length_replicate, by unfold Fresh; decide +kernel⟩
  have hlegacy : ∀ plain v, (.legacy plain, v) ∈ sealed.1 →
      rootJson.reference.unmarshal plain = none ∧ rootJson.cursor.unmarshal plain = none := by
    intro plain v hv
    simp only [sealed, rootGiven, rootIssues, mem_cons, not_mem_nil, or_false, Prod.mk.injEq, reduceCtorEq, false_and,
      false_or, Issue.legacy.injEq] at hv
    rw [hv.1]
    decide +kernel
  have hopen : openFileReference rootJson sealed.2 ((sealed.1.map Prod.snd).getD 1 []) ['u'] ['p'] =
      .ok (rootReference ['u']) := by
    decide +kernel
  exact ⟨_, hopen, by decide +kernel, (references_are_not_transplanted hgiven fun plain v hv => by
    simp [hlegacy plain v hv]).1 _ _ _ _ hopen⟩

end Clumoove.Files
