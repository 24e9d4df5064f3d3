import Clumoove.Proofs.IncompleteSource

/-! A chunked upload that reports success has stored its stream, provided that what the server had
before cannot be taken for it: OneDrive starts a session of its own, Seafile goes on after whatever
an earlier upload of the same name left, and Nextcloud believes in any object of the right size
after a gateway error. -/

namespace Clumoove.Upload

open Reader List

variable {r : Reader UInt8} {s : Server} {size : ℕ} {stream : Bytes}

/-- If the upload reported success then the object is the stream. -/
def Stored (stream : Bytes) (result : Result) : Prop :=
  result.1 = none → result.2.store.object = some stream

theorem stored_error : Stored stream (some e, s) := nofun

theorem Refused.stored (h : Refused o result) : Stored stream result := by
  obtain ⟨⟨e, -, he⟩, -⟩ := h
  intro hnone
  rw [hnone] at he
  cases he

theorem stored_of_parent {upload : Server → Result}
    (h : ∀ t, t.store = s.store → Stored stream (upload t)) :
    Stored stream (match createParentDirectories s with
      | (some e, s) => (some e, s)
      | (none, s) => upload s) := by
  cases hd : createParentDirectories s with
  | mk e t =>
    cases e with
    | none => exact h t (createParentDirectories_store hd)
    | some e => exact stored_error

theorem stored_plainUpload : Stored r.bytes (plainUpload n r s) := by
  unfold plainUpload body
  split_ifs with h
  · simp only
    split
    · rename_i ht
      intro _
      rw [request_ok ht]
    · exact stored_error
  · exact stored_error

/-! OneDrive. -/

theorem stored_oneDriveLoop (hc : 0 < chunkSize)
    (hdone : done ++ r.bytes = stream) (hsize : stream.length = size) (hoff : done.length = offset)
    (hs : s.store.session = done) (hend : offset = size → s.store.object = some stream) :
    Stored stream (oneDriveLoop size chunkSize fuel offset r s) := by
  induction fuel generalizing offset done r s with
  | zero => exact stored_error
  | succ fuel ih =>
    have hlen : offset + r.bytes.length = size := by
      rw [← hsize, ← hdone, length_append, hoff]
    unfold oneDriveLoop
    by_cases hlt : offset < size
    · rw [if_pos hlt]
      obtain ⟨b, chunk, rest, hread, hrest, -⟩ :=
        readFull_chunk (n := min chunkSize (size - offset)) (r := r) (by omega) (by omega)
      rw [hread]
      simp only
      split
      · exact stored_error
      · rename_i t hr
        obtain ⟨a, ha, ⟨rfl, -⟩ | ⟨-, he⟩⟩ := oneDriveChunk_cases hr
        · -- the session has the chunk after one application and keeps it under more
          have hput := retried_ok (P := fun u => u.session = done)
            (Q := fun u => u.session = done ++ b :: chunk ∧
              (offset + (b :: chunk).length = size → u.object = some (done ++ b :: chunk)))
            (fun u hu => by
              rw [Store.putRange, hu, ← hoff, writeAt_append]
              exact ⟨rfl, fun h => by rw [if_pos h]⟩)
            (fun u hu => by
              rw [Store.putRange, hu.1, ← hoff, writeAt_again]
              exact ⟨rfl, fun h => by rw [if_pos h]⟩)
            (.inl hs) ha
          have hstream : (done ++ b :: chunk) ++ rest.bytes = stream := by
            rw [append_assoc, hrest, hdone]
          refine ih hstream (by rw [length_append, hoff]) hput.1 fun h => ?_
          rw [hput.2 h]
          have hnil : rest.bytes = [] := by
            have := congrArg List.length hstream
            rw [length_append, length_append, hsize] at this
            exact length_eq_zero_iff.1 (by omega)
          rw [← hstream, hnil, append_nil]
        · cases he
    · rw [if_neg hlt, if_pos (by omega)]
      exact fun _ => hend (by omega)

theorem stored_oneDriveUpload (h : r.bytes.length = size) :
    Stored r.bytes (oneDriveUpload size r s) := by
  refine stored_of_parent fun t _ => ?_
  split
  · exact stored_plainUpload
  · unfold sessionUpload
    split
    · rename_i u hu
      have hempty : u.store.session = [] := by rw [request_ok hu]
      refine stored_oneDriveLoop (by decide) (nil_append _) h rfl hempty fun h0 => ?_
      omega
    · exact stored_error

/-! Nextcloud. -/

theorem davAwait_store : (davAwait size s answers).2.store = s.store := by
  induction answers with
  | nil => rfl
  | cons a rest ih =>
    unfold davAwait
    split_ifs
    · rfl
    · exact ih

theorem davAwait_none (h : (davAwait size s answers).1 = none) :
    ∃ o, s.store.object = some o ∧ o.length = size := by
  induction answers with
  | nil => cases h
  | cons a rest ih =>
    unfold davAwait at h
    split_ifs at h with ha
    · simpa [Option.any_eq_true] using ha.2
    · exact ih h

/-- An object that was there before cannot pass for the upload of another stream. -/
def Distinct (size : ℕ) (stream : Bytes) (o : Option Bytes) : Prop :=
  ∀ content, o = some content → content.length = size → content = stream

theorem stored_davAwait (h : t.store.object = some stream) :
    Stored stream (davAwait size t t.answers) := by
  intro _
  rw [davAwait_store, h]

theorem stored_davCommit (hd : Distinct size stream s.store.object) (hfolder : s.store.folder.flatten = stream) :
    Stored stream (davCommit size s) := by
  unfold davCommit
  cases hr : request (fun s => { s with object := some s.folder.flatten, folder := [] }) s with
  | mk a t =>
    have hput : a.applied = true → t.store.object = some stream := by
      intro ha
      rw [request_applied hr ha, ← hfolder]
    cases a with
    | ok => exact stored_davAwait (hput rfl)
    | gateway applied =>
      cases applied with
      | true => exact stored_davAwait (hput rfl)
      | false =>
        intro hnone
        obtain ⟨o, ho, hlen⟩ := davAwait_none hnone
        rw [davAwait_store, ho, hd o (request_unapplied hr rfl ▸ ho) hlen]
    | unauthorized | rejected | unavailable _ | lost _ => exact stored_error

theorem stored_davLoop (hc : 0 < chunkSize) (hd : Distinct size stream s.store.object)
    (hdone : s.store.folder.flatten ++ r.bytes = stream) (hindex : s.store.folder.length = index) :
    Stored stream (davLoop size chunkSize fuel index r s) := by
  induction fuel generalizing index r s with
  | zero => exact stored_error
  | succ fuel ih =>
    have hput : ∀ (chunk : Bytes) (t : Server),
        retried Answer.davAgain (davPut index chunk) 2 s = (.ok, t) →
        t.store.object = s.store.object ∧ t.store.folder = s.store.folder ++ [chunk] := by
      intro chunk t ht
      refine ⟨retried_frame (f := Store.object) ht fun _ => rfl, ?_⟩
      refine retried_ok (P := fun u => u.folder = s.store.folder)
        (Q := fun u => u.folder = s.store.folder ++ [chunk]) ?_ ?_ (.inl rfl) ht
      · intro u hu
        simp [davPut, hu, ← hindex]
      · intro u hu
        simp [davPut, hu, ← hindex]
    unfold davLoop
    split
    · exact stored_error
    · rcases readFull_cases hc r with ⟨b, chunk, rest, hread, hrest, -⟩ | ⟨rest, hread, -⟩
      · rw [hread]
        simp only
        split
        · rename_i t ht
          obtain ⟨hobject, hfolder⟩ := hput _ _ ht
          refine ih (hobject.symm ▸ hd) ?_ ?_
          · rw [← hrest] at hdone
            simpa [hfolder] using hdone
          · rw [hfolder, length_append, hindex]
            rfl
        · exact stored_error
      · rw [hread]
        cases hb : r.bytes with
        | nil =>
          rw [hb, append_nil] at hdone
          cases r.ending with
          | other => exact stored_error
          | eof | unexpectedEOF => exact stored_davCommit hd hdone
        | cons b chunk =>
          rw [hb] at hdone
          cases r.ending with
          | other => exact stored_error
          | eof | unexpectedEOF =>
            simp only [fullError, isEmpty_cons, Bool.false_eq_true, if_false,
              Option.isSome_some, if_true]
            split
            · rename_i t ht
              obtain ⟨hobject, hfolder⟩ := hput _ _ ht
              refine stored_davCommit (hobject.symm ▸ hd) ?_
              rw [hfolder]
              simpa using hdone
            · exact stored_error

theorem stored_davUpload (hd : disableChunkedUpload = false → Distinct size r.bytes s.store.object) :
    Stored r.bytes (davUpload disableChunkedUpload threads size r s) := by
  refine stored_of_parent fun t ht => ?_
  cases disableChunkedUpload with
  | true => exact stored_plainUpload
  | false =>
    simp only [Bool.false_eq_true, if_false]
    split
    · rename_i u hu
      have hobject : u.store.object = t.store.object := request_frame (f := Store.object) hu fun _ => rfl
      refine stored_davLoop (davChunkSize_pos threads) ?_ ?_ ?_
      · rw [hobject, ht]
        exact hd rfl
      · rw [request_ok hu]
        rfl
      · rw [request_ok hu]
        rfl
    · exact stored_error

/-! Seafile. -/

theorem stored_seafileLoop (hc : 0 < chunkSize)
    (hdone : done ++ r.bytes = stream) (hsize : stream.length = size) (hoff : done.length = offset)
    (hs : offset < size → s.store.uploaded = done)
    (hend : offset = size → s.store.object = some stream) :
    Stored stream (seafileLoop size chunkSize fuel offset r s) := by
  induction fuel generalizing offset done r s with
  | zero => exact stored_error
  | succ fuel ih =>
    have hlen : offset + r.bytes.length = size := by
      rw [← hsize, ← hdone, length_append, hoff]
    unfold seafileLoop
    by_cases hlt : offset < size
    · rw [if_pos hlt]
      obtain ⟨b, chunk, rest, hread, hrest, hcl, -⟩ :=
        readFull_chunk (n := min chunkSize (size - offset)) (r := r) (by omega) (by omega)
      simp only [hread, Option.isSome_none, Bool.false_eq_true, false_and, if_false]
      split
      · rename_i t ht
        have hstream : (done ++ b :: chunk) ++ rest.bytes = stream := by
          rw [append_assoc, hrest, hdone]
        have hlen' := congrArg List.length hstream
        rw [length_append, length_append, hsize, hoff, length_cons, hcl] at hlen'
        have hput := request_ok ht
        rw [Store.putResumable, hs hlt, ← hoff, writeAt_append, hoff] at hput
        refine ih hstream (by rw [length_append, hoff, length_cons, hcl]) ?_ ?_
        · intro hmore
          rw [hput, if_neg (by simpa using Nat.ne_of_lt hmore)]
        · intro hall
          rw [hput, if_pos (by simpa using hall)]
          have hnil : rest.bytes = [] := length_eq_zero_iff.1 (by omega)
          rw [← hstream, hnil, append_nil]
      · exact stored_error
    · rw [if_neg hlt]
      exact fun _ => hend (by omega)

theorem stored_seafilePlain : Stored r.bytes (seafilePlain r s) := by
  unfold seafilePlain
  split
  · exact stored_plainUpload
  · exact stored_error

theorem stored_seafileUpload {supportsResumable : Bool}
    (hup : supportsResumable = true → r.bytes.length < s.store.uploaded.length ∨
      if s.store.uploaded.length = r.bytes.length then s.store.object = some r.bytes
      else s.store.uploaded <+: r.bytes) :
    Stored r.bytes (seafileUpload supportsResumable r.bytes.length r s) := by
  unfold seafileUpload
  split
  · exact stored_error
  · rename_i a t _ ht
    have hst : t.store = s.store := request_frame (f := id) ht fun _ => rfl
    simp only [hst]
    split_ifs with hresume hover
    · exact stored_error
    · obtain ⟨rest, hread, hrest, -⟩ := readFull_full (Nat.not_lt.1 hover)
      rw [hread]
      simp only
      split
      · rename_i u hu
        have hsame : u.store = s.store := (request_ok hu).trans hst
        have hfresh := (hup hresume.2).resolve_left hover
        split_ifs at hfresh with hall
        · rw [seafileLoop, if_neg (by omega)]
          exact fun _ => hsame ▸ hfresh
        · obtain ⟨tail, htail⟩ := hfresh
          refine stored_seafileLoop (by decide) ?_ rfl rfl (fun _ => by rw [hsame]) (absurd · hall)
          rw [hrest, ← htail, drop_left]
      · exact stored_error
    · exact stored_seafilePlain

/-- What was on the server cannot be taken for a part of another stream: what an earlier upload of
the name left on Seafile begins the stream or is too much, and an object of Nextcloud of the size is
the stream, if the commit is reached. -/
def ChunkedUpload.Fresh (size : ℕ) (r : Reader UInt8) (st : Store) : ChunkedUpload → Prop
  | .seafile true => size < st.uploaded.length ∨
      if st.uploaded.length = size then st.object = some r.bytes else st.uploaded <+: r.bytes
  | .nextcloud false threads =>
    r.ending = .other ∨ davMaxChunks * davChunkSize threads ≤ r.bytes.length ∨
      Distinct size r.bytes st.object
  | .seafile false | .nextcloud true _ | .oneDrive => True

/-- Then every reported success has stored the stream, whatever the requests meet. -/
theorem reported_success_has_stored_stream (p : ChunkedUpload) (size : ℕ) (r : Reader UInt8)
    (s : Server) (hsize : r.bytes.length = size) (hs : p.Fresh size r s.store) :
    (p.run size r s).1 = none → (p.run size r s).2.store.object = some r.bytes := by
  subst hsize
  cases p with
  | seafile supportsResumable =>
    refine stored_seafileUpload fun h => ?_
    subst h
    exact hs
  | nextcloud disableChunkedUpload threads =>
    cases disableChunkedUpload with
    | true => exact stored_davUpload nofun
    | false =>
      rcases hs with hend | hmany | hsame
      · exact (refused_davUpload (.inl hend)).stored
      · exact (refused_davUpload (.inr hmany)).stored
      · exact stored_davUpload fun _ => hsame
  | oneDrive => exact stored_oneDriveUpload rfl

/-- Two bytes, the second of which an earlier attempt did not get through. -/
def twoBytes : Reader UInt8 := { pieces := [[1, 2]], ending := .eof }

theorem resumed_upload_has_stored_stream : (ChunkedUpload.run 2 twoBytes (.seafile true)
        { store := { uploaded := [1] }, answers := [.ok, .ok, .ok] }).1 = none ∧
    (ChunkedUpload.run 2 twoBytes (.seafile true)
        { store := { uploaded := [1] }, answers := [.ok, .ok, .ok] }).2.store.object =
      some twoBytes.bytes := by
  have hnone : (ChunkedUpload.run 2 twoBytes (.seafile true)
      { store := { uploaded := [1] }, answers := [.ok, .ok, .ok] }).1 = none := by decide +kernel
  exact ⟨hnone, reported_success_has_stored_stream (.seafile true) 2 twoBytes _ rfl (.inr ⟨[2], rfl⟩) hnone⟩

/-- Seafile goes on after the byte of another file, and Nextcloud takes the old object of the same
size for the one a refused commit should have made. -/
theorem reported_success_stores_other_bytes : ChunkedUpload.run 2 twoBytes (.seafile true)
        { store := { object := some [7], uploaded := [9] }, answers := [.ok, .ok, .ok] } =
      (none, { store := { object := some [9, 2] }, answers := [] }) ∧
    ChunkedUpload.run 2 twoBytes (.nextcloud false 4)
        { store := { object := some [7, 7] }, answers := [.ok, .ok, .ok, .gateway false, .ok] } =
      (none, { store := { object := some [7, 7], folder := [[1, 2]] }, answers := [] }) := by
  decide +kernel

end Clumoove.Upload
