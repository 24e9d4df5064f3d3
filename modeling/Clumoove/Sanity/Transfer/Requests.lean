import Clumoove.Spec.Transfer.Upload

/-! What single requests, and requests that are repeated, do to the server. -/

namespace Clumoove.Upload

open List

variable {β : Type} {effect : Store → Store} {again : Answer → Bool} {s s' : Server} {a : Answer}

variable {e : Option UploadError} {chunk : Bytes} {n : ℕ}

/-- Every request the server carries out is acknowledged. -/
def Server.Acknowledges (s : Server) : Prop := ∀ a ∈ s.answers, a.applied = true → a = .ok

instance : Decidable s.Acknowledges :=
  inferInstanceAs (Decidable (∀ a ∈ s.answers, a.applied = true → a = .ok))

theorem request_applied (h : request effect s = (a, s')) (ha : a.applied = true) :
    s'.store = effect s.store := by
  unfold request at h
  split at h
  · cases h
    cases ha
  · cases h
    simp [ha]

theorem request_ok (h : request effect s = (.ok, s')) : s'.store = effect s.store :=
  request_applied h rfl

theorem request_unapplied (h : request effect s = (a, s')) (ha : a.applied = false) :
    s'.store = s.store := by
  unfold request at h
  split at h
  · cases h
    rfl
  · cases h
    simp [ha]

theorem request_mem (h : request effect s = (a, s')) (ha : a ≠ .lost false) : a ∈ s.answers := by
  unfold request at h
  split at h
  · cases h
    exact absurd rfl ha
  · rename_i hb
    cases h
    rw [hb]
    exact mem_cons_self

theorem request_frame {f : Store → β} (h : request effect s = (a, s'))
    (hf : ∀ t, f (effect t) = f t) : f s'.store = f s.store := by
  cases ha : a.applied with
  | true => rw [request_applied h ha, hf]
  | false => rw [request_unapplied h ha]

theorem retried_frame {f : Store → β} (h : retried again effect n s = (a, s'))
    (hf : ∀ t, f (effect t) = f t) : f s'.store = f s.store := by
  induction n generalizing s with
  | zero => exact request_frame h hf
  | succ n ih =>
    unfold retried at h
    cases hr : request effect s with
    | mk b t =>
      simp only [hr] at h
      have ht := request_frame hr hf
      split at h
      · exact (ih h).trans ht
      · cases h
        exact ht

/-- What one application of a request achieves and further ones keep, a repeated request that is
acknowledged has achieved. -/
theorem retried_ok {P Q : Store → Prop} (hP : ∀ t, P t → Q (effect t))
    (hQ : ∀ t, Q t → Q (effect t)) (hs : P s.store ∨ Q s.store)
    (h : retried again effect n s = (.ok, s')) : Q s'.store := by
  have heffect : ∀ t, P t ∨ Q t → Q (effect t) := fun t ht => ht.elim (hP t) (hQ t)
  induction n generalizing s with
  | zero =>
    rw [request_ok h]
    exact heffect _ hs
  | succ n ih =>
    unfold retried at h
    cases hr : request effect s with
    | mk b t =>
      simp only [hr] at h
      split at h
      · refine ih ?_ h
        cases hb : b.applied with
        | true =>
          rw [request_applied hr hb]
          exact .inr (heffect _ hs)
        | false => rwa [request_unapplied hr hb]
      · cases h
        rw [request_ok hr]
        exact heffect _ hs

theorem request_answers (h : request effect s = (a, s')) : s'.answers ⊆ s.answers := by
  unfold request at h
  split at h
  · cases h
    exact List.Subset.refl _
  · rename_i hb
    cases h
    rw [hb]
    exact subset_cons_self _ _

theorem Server.Acknowledges.request (hs : s.Acknowledges) (h : request effect s = (a, s')) :
    s'.Acknowledges ∧ (a ≠ .ok → s'.store = s.store) := by
  refine ⟨fun c hc => hs c (request_answers h hc), fun hne => ?_⟩
  cases ha : a.applied with
  | true =>
    have hlost : a ≠ .lost false := by
      rintro rfl
      cases ha
    exact absurd (hs a (request_mem h hlost) ha) hne
  | false => exact request_unapplied h ha

theorem createParentDirectories_store
    (h : createParentDirectories s = (e, s')) : s'.store = s.store := by
  unfold createParentDirectories at h
  split at h
  all_goals
    rename_i hr
    cases h
    exact request_frame (f := fun t => t) hr fun _ => rfl

theorem createParentDirectories_error {e : UploadError}
    (h : createParentDirectories s = (some e, s')) : e ≠ .stalled := by
  unfold createParentDirectories at h
  split at h
  all_goals cases h
  simp

theorem createParentDirectories_acknowledges (hs : s.Acknowledges)
    (h : createParentDirectories s = (e, s')) : s'.Acknowledges := by
  unfold createParentDirectories at h
  split at h
  all_goals
    rename_i hr
    cases h
    exact (hs.request hr).1

theorem oneDriveChunk_cases (h : oneDriveChunk chunk offset total s = (e, s')) :
    ∃ a, retried Answer.transient (Store.putRange chunk offset total) 2 s = (a, s') ∧
      (a = .ok ∧ e = none ∨ a ≠ .ok ∧ e = some (.uploadChunk offset)) := by
  unfold oneDriveChunk at h
  cases hr : retried Answer.transient (Store.putRange chunk offset total) 2 s with
  | mk a t =>
    rw [hr] at h
    cases a with
    | ok =>
      cases h
      exact ⟨.ok, rfl, .inl ⟨rfl, rfl⟩⟩
    | unauthorized | rejected | gateway _ | unavailable _ | lost _ =>
      cases h
      exact ⟨_, rfl, .inr ⟨by simp, rfl⟩⟩

/-- A chunk that does not complete the size does not commit the object. -/
theorem oneDriveChunk_object (hne : offset + chunk.length ≠ total)
    (h : oneDriveChunk chunk offset total s = (e, s')) :
    s'.store.object = s.store.object ∧ e ≠ some .stalled := by
  obtain ⟨a, ha, he⟩ := oneDriveChunk_cases h
  refine ⟨retried_frame (f := Store.object) ha fun t => ?_, ?_⟩
  · rw [Store.putRange, if_neg hne]
  · rcases he with ⟨-, rfl⟩ | ⟨-, rfl⟩ <;> simp

/-! Chunks at their offsets. -/

theorem davChunkSize_pos (threads : ℕ) : 0 < davChunkSize threads := by
  unfold davChunkSize
  omega

theorem writeAt_append : writeAt done done.length chunk = done ++ chunk := by
  simp [writeAt, drop_of_length_le (Nat.le_add_right _ _)]

theorem writeAt_again : writeAt (done ++ chunk) done.length chunk = done ++ chunk := by
  have hlen : done.length + chunk.length = (done ++ chunk).length := by simp
  rw [writeAt, hlen, drop_length, take_left, append_nil]

end Clumoove.Upload
