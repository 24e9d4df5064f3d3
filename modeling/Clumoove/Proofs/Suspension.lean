import Clumoove.Spec.Suspension

/-! Suspending and reactivating an account leaves its schedules as they were, if all of them were
active: the reactivation does not know which were, and makes all of them so. -/

namespace Clumoove.Users.Tables

open Table List

variable {t u : Tables} {id j : ℕ} {b : Bool}

def off (s : Schedule) : Schedule := { s with isActive := false }

theorem schedulesOf_setSchedules : (u.setSchedules j b).schedulesOf id =
    if j = id then (u.schedulesOf id).map ({ · with isActive := b }) else u.schedulesOf id := by
  have hmine : (u.setSchedules j b).schedulesOf id =
      updateWhere (·.userID = j) ({ · with isActive := b }) (u.schedulesOf id) :=
    filter_updateWhere fun _ => rfl
  rw [hmine]
  split_ifs with h
  · refine map_congr_left fun s hs => ?_
    have hid : s.userID = id := by simpa using (mem_filter.1 hs).2
    simp [hid, h]
  · refine updateWhere_none fun s hs => ?_
    have hid : s.userID = id := by simpa using (mem_filter.1 hs).2
    simp [hid, Ne.symm h]

theorem isActive_of_setActive (hj : j ≠ id) (h : (u.setActive j b).isActive id = true) :
    u.isActive id = true := by
  simp only [isActive, setActive, Change.apply, List.any_eq_true, mem_updateWhere] at h ⊢
  obtain ⟨a, ⟨a', ha', rfl⟩, h⟩ := h
  split_ifs at h
  · simp_all
  · exact ⟨a', ha', h⟩

theorem isActive_setActive_off : (u.setActive id false).isActive id = false := by
  rw [Bool.eq_false_iff]
  intro h
  simp only [isActive, setActive, Change.apply, List.any_eq_true, mem_updateWhere] at h
  obtain ⟨a, ⟨a', -, rfl⟩, h⟩ := h
  split_ifs at h <;> simp_all

/-- The schedules of the user are as they were, or they are all off and so is the account. -/
def Restorable (id : ℕ) (t u : Tables) : Prop :=
  u.schedulesOf id = t.schedulesOf id ∨
    u.schedulesOf id = (t.schedulesOf id).map off ∧ u.isActive id = false

theorem Restorable.setActive (h : Restorable id t u) (hj : j ≠ id) :
    Restorable id t (u.setActive j b) := by
  refine h.imp_right fun ⟨hs, hoff⟩ => ⟨hs, Bool.eq_false_iff.2 fun hon => ?_⟩
  exact Bool.eq_false_iff.1 hoff (isActive_of_setActive hj hon)

theorem Restorable.setSchedules (h : Restorable id t u) (hj : j ≠ id) :
    Restorable id t (u.setSchedules j b) := by
  unfold Restorable
  rw [schedulesOf_setSchedules, if_neg hj]
  exact h

theorem Restorable.suspendUser (h : Restorable id t u) (reach : Reach) :
    Restorable id t (u.suspendUser j reach).2 := by
  unfold Tables.suspendUser
  split
  · exact h
  · by_cases hj : j = id
    · subst hj
      refine .inr ⟨?_, isActive_setActive_off⟩
      rw [schedulesOf_setSchedules, if_pos rfl]
      change (u.schedulesOf j).map off = _
      -- switching off twice is switching off once
      rcases h with h | ⟨h, -⟩ <;> simp [h, off, Function.comp_def]
    · exact (h.setActive hj).setSchedules hj
  · exact h

theorem Restorable.updateUserActive (h : Restorable id t u)
    (hactive : ∀ s ∈ t.schedulesOf id, s.isActive = true)
    (hwhole : j = id → reach ≠ .first) : Restorable id t (u.updateUserActive j active reach).2 := by
  unfold Tables.updateUserActive
  split
  · exact h
  · cases reach with
    | nothing => exact h
    | first => exact h.setActive fun hj => hwhole hj rfl
    | all =>
      by_cases hj : j = id
      · subst hj
        left
        rw [schedulesOf_setSchedules, if_pos rfl]
        change (u.schedulesOf j).map ({ · with isActive := true }) = _
        have hon : ∀ s ∈ t.schedulesOf j, ({ s with isActive := true } : Schedule) = s :=
          fun s hs => by rw [← hactive s hs]
        rcases h with h | ⟨h, -⟩ <;> rw [h]
        · exact (map_congr_left hon).trans (List.map_id _)
        · rw [List.map_map]
          exact (map_congr_left hon).trans (List.map_id _)
      · exact (h.setActive hj).setSchedules hj

/-- Whatever calls are made, if the account's schedules were all active, no reactivation of it breaks
off between its statements and the account is active in the end, then its schedules are as before. -/
theorem suspension_keeps_schedules (hactive : ∀ s ∈ t.schedulesOf id, s.isActive = true)
    {calls : List Switch} (hwhole : ∀ active, .updateUserActive id active .first ∉ calls)
    (hend : (t.runAll calls).isActive id = true) :
    (t.runAll calls).schedulesOf id = t.schedulesOf id := by
  have hrun : ∀ (calls : List Switch) (u : Tables),
      (∀ active, .updateUserActive id active .first ∉ calls) → Restorable id t u →
      Restorable id t (u.runAll calls) := by
    intro calls
    induction calls with
    | nil => exact fun u _ h => h
    | cons c calls ih =>
      intro u hwhole h
      simp only [mem_cons, not_or] at hwhole
      refine ih (c.run u) (fun active => (hwhole active).2) ?_
      cases c with
      | suspendUser j reach => exact h.suspendUser reach
      | updateUserActive j active reach =>
        refine h.updateUserActive hactive fun hj hfirst => (hwhole active).1 ?_
        rw [hj, hfirst]
  refine (hrun calls t hwhole (.inl rfl)).resolve_right fun ⟨_, hoff⟩ => ?_
  rw [hend] at hoff
  cases hoff

def oneSchedule (isActive : Bool) : Tables where
  users := [{ id := 1, role := .user }]
  schedules := [{ id := 1, userID := 1, isActive, nextRunAt := some 100 }]

def offAndOn : List Switch := [.suspendUser 1 .all, .suspendUser 1 .all, .updateUserActive 1 true .all]

theorem active_schedule_stays_active :
    ((oneSchedule true).runAll offAndOn).schedulesOf 1 = (oneSchedule true).schedulesOf 1 :=
  suspension_keeps_schedules (by decide) (by decide) (by decide)

theorem inactive_schedule_becomes_active : ((oneSchedule false).runAll offAndOn).isActive 1 = true ∧
    ((oneSchedule false).schedulesOf 1).map Schedule.isActive = [false] ∧
    (((oneSchedule false).runAll offAndOn).schedulesOf 1).map Schedule.isActive = [true] := by
  decide

end Clumoove.Users.Tables
