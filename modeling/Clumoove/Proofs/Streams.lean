import Mathlib.Data.List.Perm.Subperm
import Clumoove.Spec.Streams

/-! At most so many streams of a kind run at once, as long as each of them renews its slot in time. What
counts is the time for which slots of the kind are acquired: the last script decides when the key expires,
and it may be one that acquires. -/

namespace Clumoove.Files

open Table List

variable {kind : StreamKind} {w w' : Streams} {s : SlotSet} {r : Stream} {id now ttl : ℕ}

/-- Whoever acquires a slot finds that all who run have renewed theirs. -/
def renewsInTime (kind : StreamKind) (w : Streams) : StreamEvent → Bool
  | .acquire _ _ => w.running.all fun r => w.now < r.renewedAt + kind.ttl
  | _ => true

/-- The stream has its slot for as long as slots of the kind are acquired for, and the key is there. -/
structure SlotSet.Has (s : SlotSet) (ttl : ℕ) (r : Stream) : Prop where
  member : ∃ m ∈ s.members, m.1 = r.id ∧ r.renewedAt + ttl ≤ m.2
  key : r.renewedAt + ttl ≤ s.expiresAt

namespace SlotSet.Has

theorem prune (h : s.Has ttl r) (hnow : now < r.renewedAt + ttl) : (s.prune now).Has ttl r := by
  obtain ⟨⟨m, hm, hid, hle⟩, hkey⟩ := h
  refine ⟨⟨m, ?_, hid, hle⟩, hkey⟩
  rw [SlotSet.prune, if_pos (by omega)]
  exact mem_filter.2 ⟨hm, decide_eq_true (by omega)⟩

theorem put (h : s.Has ttl r) (htill : r.renewedAt + ttl ≤ till) : (s.put id till).Has ttl r := by
  obtain ⟨⟨m, hm, hid, hle⟩, -⟩ := h
  refine ⟨?_, htill⟩
  by_cases hne : m.1 = id
  · exact ⟨(id, till), mem_cons_self, hne.symm.trans hid, htill⟩
  · exact ⟨m, mem_cons_of_mem _ (mem_filter.2 ⟨hm, decide_eq_true hne⟩), hid, hle⟩

theorem remove (h : s.Has ttl r) (hne : r.id ≠ id) : (s.remove id).Has ttl r := by
  obtain ⟨⟨m, hm, hid, hle⟩, hkey⟩ := h
  exact ⟨⟨m, mem_filter.2 ⟨hm, decide_eq_true (hid ▸ hne)⟩, hid, hle⟩, hkey⟩

end SlotSet.Has

theorem StreamKind.ttl_le (kind : StreamKind) : kind.ttl ≤ fileStreamLease := by
  cases kind <;> decide

namespace Streams

/-- What is known while the streams renew their slots in time. -/
structure Fair (kind : StreamKind) (w : Streams) : Prop where
  distinct : (w.running.map (·.id)).Nodup
  few : w.running.length ≤ fileMaxStreamsPerUser
  past : ∀ r ∈ w.running, r.renewedAt ≤ w.now
  held : ∀ r ∈ w.running, w.now < r.renewedAt + kind.ttl → w.slots.Has kind.ttl r

theorem Fair.keep (h : w.Fair kind) (hnow : w'.now = w.now) (hrunning : w'.running.Sublist w.running)
    (hslots : ∀ r ∈ w'.running, w.now < r.renewedAt + kind.ttl → w.slots.Has kind.ttl r →
      w'.slots.Has kind.ttl r) : w'.Fair kind where
  distinct := (hrunning.map _).nodup h.distinct
  few := Nat.le_trans hrunning.length_le h.few
  past r hr := hnow ▸ h.past r (hrunning.subset hr)
  held r hr hlive := by
    rw [hnow] at hlive
    exact hslots r hr hlive (h.held r (hrunning.subset hr) hlive)

theorem Fair.crash (h : w.Fair kind) : (w.crash id).Fair kind :=
  h.keep rfl filter_sublist fun _ _ _ hhas => hhas

theorem Fair.release (h : w.Fair kind) : (w.releaseFileStream id).Fair kind := by
  refine h.keep rfl filter_sublist fun r hr _ hhas => hhas.remove ?_
  exact of_decide_eq_true (mem_filter.1 hr).2

theorem Fair.length_le (h : w.Fair kind) (htime : ∀ r ∈ w.running, w.now < r.renewedAt + kind.ttl) :
    w.running.length ≤ (w.slots.prune w.now).members.length := by
  have hsub : w.running.map (·.id) ⊆ (w.slots.prune w.now).members.map (·.1) := by
    intro id hid
    obtain ⟨r, hr, rfl⟩ := List.mem_map.1 hid
    obtain ⟨m, hm, hmid, -⟩ := ((h.held r hr (htime r hr)).prune (htime r hr)).member
    exact List.mem_map.2 ⟨m, hm, hmid⟩
  simpa using (List.Nodup.subperm h.distinct hsub).length_le

theorem Fair.put {running : List Stream} (h : w.Fair kind) (httl : kind.ttl ≤ ttl)
    (hdistinct : (running.map (·.id)).Nodup) (hfew : running.length ≤ fileMaxStreamsPerUser)
    (hrunning : ∀ r ∈ running, (r.id = id ∧ r.renewedAt = w.now) ∨ r ∈ w.running) :
    Fair kind { w with slots := (w.slots.prune w.now).put id (w.now + ttl), running } where
  distinct := hdistinct
  few := hfew
  past r hr := by
    rcases hrunning r hr with ⟨-, heq⟩ | hr
    · exact Nat.le_of_eq heq
    · exact h.past r hr
  held r hr hlive := by
    rcases hrunning r hr with ⟨hid, heq⟩ | hr
    · have htill : r.renewedAt + kind.ttl ≤ w.now + ttl := by omega
      exact ⟨⟨_, mem_cons_self, hid.symm, htill⟩, htill⟩
    · exact ((h.held r hr hlive).prune hlive).put (Nat.add_le_add (h.past r hr) httl)

theorem Fair.prune (h : w.Fair kind) : Fair kind { w with slots := w.slots.prune w.now } :=
  h.keep rfl (List.Sublist.refl _) fun _ _ hlive hhas => hhas.prune hlive

theorem Fair.acquire (h : w.Fair kind) (hnew : ∀ r ∈ w.running, r.id ≠ id)
    (htime : ∀ r ∈ w.running, w.now < r.renewedAt + kind.ttl) :
    (w.acquireFileStream kind id answered).Fair kind := by
  have hfull := h.length_le htime
  unfold acquireFileStream SlotSet.acquireFileStreamScript
  split_ifs with hlimit
  · exact h.prune
  · cases answered with
    | false => exact h.put (Nat.le_refl _) h.distinct h.few fun r hr => .inr hr
    | true =>
      apply h.put (Nat.le_refl _)
      · refine nodup_cons.2 ⟨?_, h.distinct⟩
        intro hid
        obtain ⟨r, hr, hrid⟩ := List.mem_map.1 hid
        exact hnew r hr hrid
      · rw [Bool.and_self, if_pos rfl, length_cons]
        omega
      · intro r hr
        rcases mem_cons.1 hr with rfl | hr
        · exact .inl ⟨rfl, rfl⟩
        · exact .inr hr

theorem Fair.renew (h : w.Fair kind) : (w.renewFileStream id answered).2.Fair kind := by
  unfold renewFileStream SlotSet.renewFileStreamScript
  split_ifs
  · cases answered with
    | false => exact h.put kind.ttl_le h.distinct h.few fun r hr => .inr hr
    | true =>
      apply h.put kind.ttl_le
      · rw [updateWhere, List.map_map]
        refine (map_congr_left fun r _ => ?_) ▸ h.distinct
        simp only [Function.comp]
        split_ifs <;> rfl
      · simpa [updateWhere] using h.few
      · intro r hr
        obtain ⟨before, hbefore, rfl⟩ := mem_updateWhere.1 hr
        split_ifs with hid
        · exact .inl ⟨of_decide_eq_true hid, rfl⟩
        · exact .inr hbefore
  · exact h.prune

theorem Fair.step (h : w.Fair kind) (htime : renewsInTime kind w e = true)
    (hstep : w.step kind e = some w') : w'.Fair kind := by
  cases e with
  | pass d =>
    cases hstep
    exact ⟨h.distinct, h.few, fun r hr => Nat.le_add_right_of_le (h.past r hr),
      fun r hr hlive => h.held r hr (Nat.lt_of_le_of_lt (Nat.le_add_right _ d) hlive)⟩
  | acquire id answered =>
    simp only [Streams.step] at hstep
    split_ifs at hstep with hany
    cases hstep
    refine h.acquire (by simpa using hany) ?_
    simpa [renewsInTime] using htime
  | redeem id answered =>
    simp only [Streams.step] at hstep
    split_ifs at hstep
    have hrenew : (w.renewFileStream id answered).2.Fair kind := h.renew
    split at hstep <;> rename_i heq <;> cases hstep <;> rw [heq] at hrenew
    · exact hrenew
    · exact hrenew.release
  | renew id answered =>
    simp only [Streams.step] at hstep
    split_ifs at hstep
    cases hstep
    exact h.renew
  | release id =>
    cases hstep
    exact h.release
  | crash id =>
    cases hstep
    exact h.crash

theorem Fair.run (h : w.Fair kind)
    (hrun : w.run kind (renewsInTime kind) events = some w') : w'.Fair kind := by
  induction events generalizing w with
  | nil =>
    cases hrun
    exact h
  | cons e events ih =>
    simp only [Streams.run] at hrun
    split_ifs at hrun with htime
    obtain ⟨v, hstep, hrest⟩ := Option.bind_eq_some_iff.1 hrun
    exact ih (h.step htime hstep) hrest

/-- Wherever a run gets to in which every stream has renewed its slot in time when another one is acquired:
no more streams run than are allowed. -/
theorem streams_within_limit (hw : w.running = []) {events : List StreamEvent}
    (hrun : w.run kind (renewsInTime kind) events = some w') :
    w'.running.length ≤ fileMaxStreamsPerUser := by
  have hfair : w.Fair kind := by constructor <;> simp [hw]
  exact (hfair.run hrun).few

def fiveUploads : List StreamEvent :=
  [0, 1, 2, 3].map (.acquire · true) ++ [.pass 60000, .renew 0 true, .acquire 4 true]

theorem fifth_upload_refused :
    ∃ w', Streams.run .upload (renewsInTime .upload) fiveUploads {} = some w' ∧
      w'.running.map (·.id) = [3, 2, 1, 0] ∧ w'.running.length ≤ fileMaxStreamsPerUser := by
  have hids : (Streams.run .upload (renewsInTime .upload) fiveUploads {}).map (·.running.map (·.id)) =
      some [3, 2, 1, 0] := by decide
  obtain ⟨w', hrun, hids⟩ := Option.map_eq_some_iff.1 hids
  exact ⟨w', hrun, hids, streams_within_limit rfl hrun⟩

/-- Four archives take longer than their leases, and a fifth is begun. -/
theorem five_archives_at_once : ((Streams.run .archive (fun _ _ => true)
      ([0, 1, 2, 3].flatMap (fun id => [.acquire id true, .redeem id true]) ++
        [.pass fileStreamLease, .acquire 4 true, .redeem 4 true]) {}).map (·.running.length)) = some 5 ∧
      fileMaxStreamsPerUser < 5 := by
  decide

end Streams

end Clumoove.Files
