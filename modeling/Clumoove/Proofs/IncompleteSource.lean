import Clumoove.Sanity.Transfer.Requests

/-! A source that ends before its declared size does not reach the target. The loops of OneDrive
and HiDrive count what they have sent; those of Dropbox and Nextcloud take every end of the stream
that is not an error of its own for the end of the file. -/

namespace Clumoove.Upload

open Reader List

variable {r : Reader UInt8} {s : Server} {size : ℕ}

/-- The upload failed and left the object under the target path as it was. -/
def Refused (o : Option Bytes) (result : Result) : Prop :=
  (∃ e, e ≠ .stalled ∧ result.1 = some e) ∧ result.2.store.object = o

theorem Refused.intro (he : e ≠ .stalled) (hs : s.store.object = o) : Refused o (some e, s) :=
  ⟨⟨e, he, rfl⟩, hs⟩

theorem body_of_differs (h : r.bytes.length ≠ size) (hr : r.ending = .eof → size ≠ 0) :
    body size r = none := by
  unfold body
  rw [if_neg]
  rintro ⟨hend, h0 | hsize⟩
  · exact hr hend h0
  · exact h hsize

theorem refused_plainUpload (h : r.bytes.length ≠ size) (hr : r.ending = .eof → size ≠ 0) :
    Refused s.store.object (plainUpload size r s) := by
  unfold plainUpload
  rw [body_of_differs h hr]
  exact .intro (by simp) rfl

theorem dropboxChunkSize_pos : 0 < dropboxChunkSize := by decide

theorem refused_dropboxAppend (hc : 0 < chunkSize)
    (hend : r.ending = .other) (hfuel : r.bytes.length < fuel) :
    Refused s.store.object (dropboxAppend chunkSize fuel offset r s) := by
  induction fuel generalizing offset r s with
  | zero => omega
  | succ fuel ih =>
    unfold dropboxAppend
    rcases readFull_cases hc r with ⟨b, chunk, rest, hread, hrest, -, hend'⟩ | ⟨rest, hread, -⟩
    · rw [hread]
      simp only
      split
      · rename_i t ht
        rw [← retried_frame (f := Store.object) ht fun _ => rfl]
        refine ih (hend'.trans hend) ?_
        simp [← hrest] at hfuel
        omega
      · rename_i ht
        exact .intro (by simp) (retried_frame (f := Store.object) ht fun _ => rfl)
    · rw [hread, hend, fullError_other]
      exact .intro (by simp) rfl

theorem refused_of_parent {upload : Server → Result}
    (h : ∀ t, t.store = s.store → (s.Acknowledges → t.Acknowledges) →
      Refused s.store.object (upload t)) :
    Refused s.store.object (match createParentDirectories s with
      | (some e, s) => (some e, s)
      | (none, s) => upload s) := by
  cases hd : createParentDirectories s with
  | mk e t =>
    have ht := createParentDirectories_store hd
    cases e with
    | none => exact h t ht fun hs => createParentDirectories_acknowledges hs hd
    | some e => exact .intro (createParentDirectories_error hd) (congrArg Store.object ht)

theorem refused_dropboxUpload (hend : r.ending = .other) :
    Refused s.store.object (dropboxUpload r s) := by
  refine refused_of_parent fun t ht _ => ?_
  rw [← ht]
  rcases readFull_cases dropboxChunkSize_pos r with
    ⟨b, chunk, rest, hread, -, -, hend'⟩ | ⟨rest, hread, -⟩
  · rw [hread]
    simp only
    split
    · rename_i u hu
      rw [← retried_frame (f := Store.object) hu fun _ => rfl]
      exact refused_dropboxAppend dropboxChunkSize_pos (hend'.trans hend) (Nat.lt_succ_self _)
    · rename_i hu
      exact .intro (by simp) (retried_frame (f := Store.object) hu fun _ => rfl)
  · rw [hread, hend, fullError_other]
    exact .intro (by simp) rfl

theorem refused_oneDriveLoop (hc : 0 < chunkSize)
    (hlt : offset + r.bytes.length < size) (hfuel : r.bytes.length < fuel) :
    Refused s.store.object (oneDriveLoop size chunkSize fuel offset r s) := by
  induction fuel generalizing offset r s with
  | zero => omega
  | succ fuel ih =>
    unfold oneDriveLoop
    rw [if_pos (by omega)]
    have hn : 0 < min chunkSize (size - offset) := by omega
    rcases readFull_cases hn r with ⟨b, chunk, rest, hread, hrest, -⟩ | ⟨rest, hread, -⟩
    · have hlen := congrArg List.length hrest
      rw [length_append] at hlen
      rw [hread]
      simp only
      split
      · rename_i e t ht
        obtain ⟨hobject, he⟩ := oneDriveChunk_object (by omega) ht
        exact .intro (by simpa using he) hobject
      · rename_i t ht
        rw [← (oneDriveChunk_object (by omega) ht).1]
        rw [length_cons] at hlen ⊢
        exact ih (by omega) (by omega)
    · rw [hread]
      cases hb : r.bytes with
      | nil => cases r.ending <;> exact .intro (by simp) rfl
      | cons b chunk =>
        rw [hb] at hlt
        cases r.ending with
        | other => exact .intro (by simp) rfl
        | eof | unexpectedEOF =>
          simp only [fullError, isEmpty_cons, Bool.false_eq_true, if_false,
            Option.isSome_some, if_true]
          split
          · rename_i e t ht
            obtain ⟨hobject, he⟩ := oneDriveChunk_object (by omega) ht
            exact .intro (by simpa using he) hobject
          · rename_i t ht
            rw [if_neg (by omega)]
            exact .intro (by simp) (oneDriveChunk_object (by omega) ht).1

theorem refused_sessionUpload (h : r.bytes.length < size) :
    Refused s.store.object (sessionUpload size r s) := by
  unfold sessionUpload
  split
  · rename_i u hu
    rw [← request_frame (f := Store.object) hu fun _ => rfl]
    exact refused_oneDriveLoop (by decide) (by omega) (by omega)
  · rename_i hu
    exact .intro (by simp) (request_frame (f := Store.object) hu fun _ => rfl)

theorem hiDriveCreate_cases (hs : s.Acknowledges)
    (h : hiDriveCreate content s = (a, t)) : t.Acknowledges ∧
      (a ≠ .ok → t.store.object = s.store.object) ∧ (a = .ok → s.store.object = none) := by
  unfold hiDriveCreate at h
  split at h
  · cases h
    refine ⟨fun b hb => hs b (mem_of_mem_tail hb), fun _ => rfl, nofun⟩
  · rename_i hnone
    obtain ⟨ht, hsame⟩ := hs.request h
    exact ⟨ht, fun ha => congrArg Store.object (hsame ha), fun _ => by simpa using hnone⟩

/-- What was at the path is there, or was nothing if a failure removes the object of this upload. -/
def Restores (o : Option Bytes) (created : Bool) (s : Server) : Prop :=
  if created then o = none else s.store.object = o

theorem Restores.refused {created : Bool} (h : Restores o created s) (he : e ≠ .stalled) :
    Refused o (hiDriveFail created e s) := by
  cases created with
  | false => exact .intro he h
  | true => exact .intro he (Eq.symm h)

/-- The first chunk may be refused and otherwise proves that there was no object. -/
theorem Restores.put {created : Bool} (h : Restores o created s) (hs : s.Acknowledges)
    (hcreated : created = decide (uploaded ≠ 0))
    (hput : (if uploaded = 0 then hiDriveCreate chunk s else hiDrivePatch chunk uploaded s) = (a, t)) :
    t.Acknowledges ∧ (a = .ok → o = none) ∧ (a ≠ .ok → Restores o created t) := by
  subst hcreated
  split_ifs at hput with h0
  · subst h0
    obtain ⟨hack, hne, hok⟩ := hiDriveCreate_cases hs hput
    exact ⟨hack, fun ha => Eq.trans (Eq.symm h) (hok ha), fun ha => (hne ha).trans h⟩
  · rw [decide_eq_true h0] at h ⊢
    exact ⟨(hs.request hput).1, fun _ => h, fun _ => h⟩

theorem refused_hiDriveLoop {created : Bool} (hc : 0 < chunkSize) (hs : s.Acknowledges)
    (hne : uploaded + r.bytes.length ≠ size)
    (hlt : uploaded + r.bytes.length / chunkSize * chunkSize < size) (hfuel : size < fuel + uploaded)
    (hcreated : created = decide (uploaded ≠ 0)) (h : Restores o created s) :
    Refused o (hiDriveLoop size chunkSize fuel uploaded index created r s) := by
  induction fuel generalizing uploaded index created r s with
  | zero => omega
  | succ fuel ih =>
    have hmade : (created || decide (uploaded = 0)) = true := by
      rw [hcreated]
      by_cases h0 : uploaded = 0 <;> simp [h0]
    unfold hiDriveLoop
    rw [if_pos (by omega)]
    rcases readFull_cases hc r with ⟨b, chunk, rest, hread, hrest, hchunk, -⟩ | ⟨rest, hread, -⟩
    · have hlen := congrArg List.length hrest
      rw [length_append, length_cons, hchunk] at hlen
      rw [← hlen, Nat.add_div_left _ hc, Nat.succ_mul] at hlt
      rw [hread]
      simp only
      split
      · rename_i t ht
        obtain ⟨hack, hok, -⟩ := h.put hs hcreated ht
        rw [length_cons, hchunk, hmade]
        exact ih hack (by omega) (by omega) (by omega) (decide_eq_true (by omega)).symm (hok rfl)
      · rename_i a t ha ht
        exact ((h.put hs hcreated ht).2.2 fun h => by simp [h] at ha).refused (by simp)
    · rw [hread]
      by_cases hend : r.ending = .other
      · rw [hend, fullError_other]
        exact h.refused (by simp)
      · rcases fullError_ended hend with he | he
        all_goals
          rw [he]
          simp only [Option.isSome_some, if_true, hne, if_false, hmade]
          split
          · rename_i t ht
            exact @Restores.refused _ _ _ true ((h.put hs hcreated ht).2.1 rfl) (by simp)
          · rename_i a t ha ht
            exact ((h.put hs hcreated ht).2.2 fun h => by simp [h] at ha).refused (by simp)

theorem refused_davLoop (hc : 0 < chunkSize) (hfuel : r.bytes.length < fuel)
    (hr : r.ending = .other ∨ davMaxChunks * chunkSize ≤ index * chunkSize + r.bytes.length) :
    Refused s.store.object (davLoop size chunkSize fuel index r s) := by
  induction fuel generalizing index r s with
  | zero => omega
  | succ fuel ih =>
    unfold davLoop
    split
    · exact .intro (by simp) rfl
    · rename_i hindex
      rcases readFull_cases hc r with ⟨b, chunk, rest, hread, hrest, hchunk, hend⟩ | ⟨rest, hread, hshort⟩
      · have hlen := congrArg List.length hrest
        rw [length_append, length_cons, hchunk] at hlen
        rw [hread]
        simp only
        split
        · rename_i t ht
          rw [← retried_frame (f := Store.object) ht fun _ => rfl]
          refine ih (by omega) (hr.imp hend.trans fun hmany => ?_)
          rw [Nat.succ_mul]
          omega
        · rename_i ht
          exact .intro (by simp) (retried_frame (f := Store.object) ht fun _ => rfl)
      · rcases hr with hend | hmany
        · rw [hread, hend, fullError_other]
          exact .intro (by simp) rfl
        · have hlt : davMaxChunks * chunkSize < (index + 1) * chunkSize := by
            rw [Nat.succ_mul]
            omega
          exact absurd (Nat.le_of_lt_succ (Nat.lt_of_mul_lt_mul_right hlt)) hindex

theorem refused_davUpload {threads : ℕ}
    (hr : r.ending = .other ∨ davMaxChunks * davChunkSize threads ≤ r.bytes.length) :
    Refused s.store.object (davUpload false threads size r s) := by
  refine refused_of_parent fun t ht _ => ?_
  rw [← ht]
  simp only [Bool.false_eq_true, if_false]
  split
  · rename_i u hu
    rw [← request_frame (f := Store.object) hu fun _ => rfl]
    refine refused_davLoop (davChunkSize_pos threads) (Nat.lt_succ_self _) ?_
    rwa [Nat.zero_mul, Nat.zero_add]
  · rename_i hu
    exact .intro (by simp) (request_frame (f := Store.object) hu fun _ => rfl)

/-- What makes each upload notice that a stream is not of the declared size. -/
def Provider.Detects (size : ℕ) (r : Reader UInt8) : Provider → Prop
  | .dropbox => r.ending = .other
  | .oneDrive =>
    if size ≤ oneDriveSimpleUploadLimit then r.ending = .eof → size ≠ 0 else r.bytes.length < size
  | .hiDrive =>
    if size ≤ hiDriveChunkSize then r.ending = .eof → size ≠ 0
    -- what the full chunks of the stream come to
    else r.bytes.length / hiDriveChunkSize * hiDriveChunkSize < size
  | .nextcloud true _ => r.ending = .eof → size ≠ 0
  | .nextcloud false threads =>
    r.ending = .other ∨ davMaxChunks * davChunkSize threads ≤ r.bytes.length

/-- Then every source that does not have the declared size is refused. -/
theorem incomplete_source_is_refused (p : Provider) (size : ℕ) (r : Reader UInt8) (s : Server)
    (hs : s.Acknowledges) (hr : p.Detects size r) (h : r.bytes.length ≠ size) :
    Refused s.store.object (p.upload size r s) := by
  cases p with
  | dropbox => exact refused_dropboxUpload hr
  | oneDrive =>
    refine refused_of_parent fun t ht _ => ?_
    rw [← ht]
    simp only [Provider.Detects] at hr
    split_ifs at hr ⊢
    · exact refused_plainUpload h hr
    · exact refused_sessionUpload hr
  | hiDrive =>
    refine refused_of_parent fun t ht hack => ?_
    simp only [Provider.Detects] at hr
    split_ifs at hr ⊢
    · rw [body_of_differs h hr]
      exact .intro (by simp) (congrArg Store.object ht)
    · refine refused_hiDriveLoop (by decide) (hack hs) ?_ ?_ (by omega) rfl (congrArg Store.object ht)
      · rwa [Nat.zero_add]
      · rwa [Nat.zero_add]
  | nextcloud disableChunkedUpload threads =>
    cases disableChunkedUpload with
    | false => exact refused_davUpload hr
    | true =>
      refine refused_of_parent fun t ht _ => ?_
      rw [← ht]
      exact refused_plainUpload h hr

/-- A download that breaks off after one of two bytes. -/
def brokenDownload : Reader UInt8 := { pieces := [[1]], ending := .other }

theorem broken_download_is_refused : brokenDownload.bytes.length ≠ 2 ∧
      Refused (some [7]) (Provider.dropbox.upload 2 brokenDownload
        { store := { object := some [7] }, answers := [.ok, .ok, .ok, .ok] }) :=
  ⟨by decide, incomplete_source_is_refused .dropbox 2 brokenDownload _ (by decide) rfl (by decide)⟩

/-- A download of two bytes that ends after one, as `expectedSizeReader` reports it. -/
def truncatedDownload : Reader UInt8 := { pieces := [[1]], ending := .unexpectedEOF }

/-- Dropbox stores the truncated download and reports success; Nextcloud stores it and reports an
error only afterwards. -/
theorem truncated_download_replaces_target : Provider.dropbox.upload 2 truncatedDownload
        { store := { object := some [7] }, answers := [.ok, .ok, .ok] } =
      (none, { store := { object := some [1], session := [1] }, answers := [] }) ∧
    Provider.upload 2 truncatedDownload (.nextcloud false 4)
        { store := { object := some [7] }, answers := [.ok, .ok, .ok, .ok, .ok] } =
      (some .verificationTimedOut, { store := { object := some [1] }, answers := [] }) := by
  decide +kernel

end Clumoove.Upload
