import Mathlib.Data.List.Induction
import Mathlib.Tactic.Common
import Clumoove.Spec.KeyedMutexes

/-! The keyed locks exclude each other and clean up. The reference count of a mutex in the map is the number
of the calls for its key, so that an entry goes with the last of them, and all of them have one mutex. -/

namespace Clumoove.Processor.KeyedMutexes

open List GoMap Function

variable {ι : Type} [DecidableEq ι] {s s' : KeyedMutexes ι} {i : ι} {c d : LockCall} {k key : String}
  {p : ℕ} {r : RefMutex} {calls : GoMap ι LockCall}

def isFor (k : String) (e : ι × LockCall) : Bool := e.2.key = k

def holds (k : String) (e : ι × LockCall) : Bool := e.2.key = k ∧ e.2.phase = .holding

structure Accounted (s : KeyedMutexes ι) : Prop where
  distinct : s.calls.keys.Nodup
  mapped : ∀ {i c}, s.calls.get i = some c → s.m.get c.key = some c.mutex
  counts : ∀ {k p}, s.m.get k = some p →
    (s.heap p).count = s.calls.countP (isFor k) ∧ (s.heap p).locked.toNat = s.calls.countP (holds k)
  injective : ∀ {k k' p}, s.m.get k = some p → s.m.get k' = some p → k = k'
  known : ∀ {k p}, s.m.get k = some p → p < s.next

theorem get_of_isFor (h : s.calls.keys.Nodup) (hpos : 0 < s.calls.countP (isFor k)) :
    ∃ i c, s.calls.get i = some c ∧ c.key = k := by
  obtain ⟨e, he, hfor⟩ := countP_pos_iff.1 hpos
  exact ⟨e.1, e.2, GoMap.get_of_mem h he, of_decide_eq_true hfor⟩

/-- Moreover no entry stays behind. -/
structure Kept (s : KeyedMutexes ι) : Prop extends s.Accounted where
  needed : ∀ {k p}, s.m.get k = some p → 0 < (s.heap p).count

namespace Accounted

theorem get_make (h : s.Accounted) (hp : (s.make key).m.get k = some p) :
    k = key ∧ p = s.next ∨ s.m.get k = some p ∧ p < s.next := by
  rw [KeyedMutexes.make, get_set] at hp
  split_ifs at hp with hk
  · exact .inl ⟨hk, (Option.some.inj hp).symm⟩
  · exact .inr ⟨hp, h.known hp⟩

theorem make (h : s.Accounted) (hnone : s.m.get key = none) : (s.make key).Accounted := by
  have hkeys {i c} (hc : s.calls.get i = some c) : c.key ≠ key := by
    intro heq
    have hmapped := h.mapped hc
    rw [heq, hnone] at hmapped
    cases hmapped
  have hzero {q : ι × LockCall → Bool} (hq : ∀ e, q e = true → e.2.key = key) : s.calls.countP q = 0 := by
    rw [countP_eq_zero]
    intro e he hqe
    exact hkeys (GoMap.get_of_mem h.distinct he) (hq e hqe)
  refine ⟨h.distinct, ?_, ?_, ?_, ?_⟩
  · intro i c hc
    rw [KeyedMutexes.make, get_set, if_neg (hkeys hc)]
    exact h.mapped hc
  · intro k p hp
    dsimp only [KeyedMutexes.make]
    rcases h.get_make hp with ⟨rfl, rfl⟩ | ⟨hp, hlt⟩
    · rw [update_self, hzero (q := isFor k) (by simp [isFor]), hzero (q := holds k) (by simp +contextual [holds])]
      exact ⟨rfl, rfl⟩
    · rw [update_of_ne (Nat.ne_of_lt hlt)]
      exact h.counts hp
  · intro k k' p hp hp'
    rcases h.get_make hp with ⟨rfl, rfl⟩ | ⟨hp, hlt⟩ <;> rcases h.get_make hp' with ⟨rfl, h'⟩ | ⟨hp', hlt'⟩
    · rfl
    · omega
    · omega
    · exact h.injective hp hp'
  · intro k p hp
    dsimp only [KeyedMutexes.make]
    rcases h.get_make hp with ⟨-, rfl⟩ | ⟨-, hlt⟩ <;> omega

theorem find (h : s.Kept) (key : String) :
    (s.find key).2.Accounted ∧ (s.find key).2.m.get key = some (s.find key).1 ∧
      (s.find key).2.calls = s.calls ∧ ∀ {k p}, (s.find key).2.m.get k = some p → p ≠ (s.find key).1 →
        0 < ((s.find key).2.heap p).count := by
  unfold KeyedMutexes.find
  cases hget : s.m.get key with
  | none =>
    refine ⟨h.make hget, by simp [KeyedMutexes.make, get_set], rfl, ?_⟩
    intro k p hp hne
    rcases h.get_make hp with ⟨-, rfl⟩ | ⟨hp, -⟩
    · exact absurd rfl hne
    · dsimp only [KeyedMutexes.make]
      rw [update_of_ne hne]
      exact h.needed hp
  | some mutex => exact ⟨h.toAccounted, hget, rfl, fun hp _ => h.needed hp⟩

/-- The calls for one key change, and its mutex with them. -/
theorem change (h : s.Accounted) (hp : s.m.get key = some p) (hdistinct : calls.keys.Nodup)
    (hmapped : ∀ {i c}, calls.get i = some c → s.m.get c.key = some c.mutex)
    (hother : ∀ q : ι × LockCall → Bool, (∀ e, e.2.key = key → q e = false) →
      calls.countP q = s.calls.countP q)
    (hcounts : r.count = calls.countP (isFor key) ∧ r.locked.toNat = calls.countP (holds key)) :
    Accounted { s with heap := update s.heap p r, calls := calls } := by
  refine ⟨hdistinct, hmapped, ?_, h.injective, h.known⟩
  intro k p' hk
  dsimp only at hk ⊢
  by_cases heq : k = key
  · subst heq
    obtain rfl := Option.some.inj (hk.symm.trans hp)
    rw [update_self]
    exact hcounts
  · have hne : p' ≠ p := by
      rintro rfl
      exact heq (h.injective hk hp)
    rw [update_of_ne hne, hother (isFor k), hother (holds k)]
    · exact h.counts hk
    · intro e he
      simp [holds, he, Ne.symm heq]
    · intro e he
      simp [isFor, he, Ne.symm heq]

theorem put (h : s.Accounted) (hc : s.m.get c.key = some c.mutex)
    (hold : ∀ d ∈ s.calls.get i, d.key = c.key)
    (hcount : (s.calls.get i).toList.length + r.count = (s.heap c.mutex).count + 1)
    (hlocked : (s.calls.get i).toList.countP (·.phase = .holding) + r.locked.toNat =
      (s.heap c.mutex).locked.toNat + if c.phase = .holding then 1 else 0) : (s.put i c r).Accounted := by
  have hsplit := countP_erase h.distinct i
  apply h.change hc (keys_set_nodup h.distinct)
  · intro j d hd
    rw [get_set] at hd
    split_ifs at hd
    · obtain rfl := Option.some.inj hd
      exact hc
    · exact h.mapped hd
  · intro q hq
    rw [GoMap.set, countP_cons, ← hsplit q, hq _ rfl]
    cases hget : s.calls.get i with
    | none => simp
    | some d => simp [hq (i, d) (hold d hget)]
  · rw [(h.counts hc).1, ← hsplit] at hcount
    rw [(h.counts hc).2, ← hsplit] at hlocked
    rw [GoMap.set, countP_cons, countP_cons]
    cases hget : s.calls.get i with
    | none =>
      simp [hget, isFor, holds] at hcount hlocked ⊢
      omega
    | some d =>
      simp [hget, isFor, holds, hold d hget] at hcount hlocked ⊢
      omega

theorem take (h : s.Accounted) (hc : s.calls.get i = some c) (hphase : c.phase ≠ .holding) :
    let r := s.heap c.mutex
    Accounted { s with
      heap := update s.heap c.mutex { r with count := r.count - 1 }
      calls := s.calls.erase i } := by
  have hsplit := countP_erase h.distinct i
  have hp := h.mapped hc
  apply h.change hp (keys_erase_nodup h.distinct)
  · intro j d hd
    rw [get_erase] at hd
    split_ifs at hd
    exact h.mapped hd
  · intro q hq
    rw [← hsplit q, hc]
    simp [hq (i, c) rfl]
  · dsimp only
    rw [(h.counts hp).1, (h.counts hp).2, ← hsplit, ← hsplit (holds c.key), hc]
    simp [isFor, holds, hphase]

theorem drop (h : s.Accounted) (hp : s.m.get key = some p) (hzero : (s.heap p).count = 0) :
    Accounted { s with m := s.m.erase key } := by
  have hget {k p} (hk : (s.m.erase key).get k = some p) : s.m.get k = some p := by
    rw [get_erase] at hk
    split_ifs at hk
    exact hk
  refine ⟨h.distinct, ?_, fun hk => h.counts (hget hk), fun hk hk' => h.injective (hget hk) (hget hk'),
    fun hk => h.known (hget hk)⟩
  intro i c hc
  rw [(h.counts hp).1, countP_eq_zero] at hzero
  have hne : c.key ≠ key := fun heq => hzero (i, c) (mem_of_get hc) (decide_eq_true heq)
  rw [get_erase, if_neg hne]
  exact h.mapped hc

end Accounted

namespace Kept

theorem put (h : (s.put i c r).Accounted) (hpos : 0 < r.count)
    (hothers : ∀ {k p}, s.m.get k = some p → p ≠ c.mutex → 0 < (s.heap p).count) : (s.put i c r).Kept := by
  refine ⟨h, ?_⟩
  intro k p hp
  dsimp only [KeyedMutexes.put]
  by_cases heq : p = c.mutex
  · rw [heq, update_self]
    exact hpos
  · rw [update_of_ne heq]
    exact hothers hp heq

theorem enter (h : s.Kept) (hnew : s.calls.get i = none) (key : String) : (s.enter i key).Kept := by
  obtain ⟨hfind, hkey, hcalls, hothers⟩ := Accounted.find h key
  rw [← hcalls] at hnew
  apply put _ (Nat.succ_pos _) hothers
  exact hfind.put hkey (by simp [hnew]) (by simp [hnew]) (by simp [hnew])

/-- The call goes on with its mutex locked or unlocked. -/
theorem goOn (h : s.Kept) (hc : s.calls.get i = some c) (phase : LockPhase) (locked : Bool)
    (hlocked : (if c.phase = .holding then 1 else 0) + locked.toNat =
      (s.heap c.mutex).locked.toNat + if phase = .holding then 1 else 0) :
    (s.put i { c with phase } ⟨locked, (s.heap c.mutex).count⟩).Kept := by
  have hp := h.mapped hc
  refine put ?_ (h.needed hp) fun hk _ => h.needed hk
  refine h.toAccounted.put hp ?_ ?_ ?_
  · simp [hc]
  · simp [hc, Nat.add_comm]
  · simpa [hc, countP_cons] using hlocked

theorem finish (h : s.Kept) (hc : s.calls.get i = some c) (hstep : s.finish i c = some s') : s'.Kept := by
  unfold KeyedMutexes.finish at hstep
  split_ifs at hstep with hphase
  obtain rfl := Option.some.inj hstep
  have hp := h.mapped hc
  have htake := h.take hc (by simp [hphase])
  split_ifs with hzero
  · refine ⟨htake.drop hp (by simpa using hzero), ?_⟩
    intro k p hk
    rw [get_erase] at hk
    split_ifs at hk with hkey
    have hne : p ≠ c.mutex := by
      rintro rfl
      exact hkey (h.injective hk hp)
    dsimp only
    rw [update_of_ne hne]
    exact h.needed hk
  · refine ⟨htake, ?_⟩
    intro k p hk
    dsimp only at hk ⊢
    by_cases heq : p = c.mutex
    · rw [heq, update_self]
      exact Nat.pos_of_ne_zero hzero
    · rw [update_of_ne heq]
      exact h.needed hk

protected theorem step (h : s.Kept) {e : LockEvent ι} (hstep : s.step e = some s') : s'.Kept := by
  cases e with
  | enter i key =>
    simp only [KeyedMutexes.step] at hstep
    split_ifs at hstep with hnew
    obtain rfl := Option.some.inj hstep
    exact h.enter (by simpa using hnew) key
  | acquire i =>
    obtain ⟨c, hc, hstep⟩ := Option.bind_eq_some_iff.1 hstep
    simp only [acquire] at hstep
    split_ifs at hstep with hif
    obtain rfl := Option.some.inj hstep
    exact h.goOn hc _ true (by simp [hif])
  | unlock i =>
    obtain ⟨c, hc, hstep⟩ := Option.bind_eq_some_iff.1 hstep
    simp only [unlock] at hstep
    split_ifs at hstep with hif
    obtain rfl := Option.some.inj hstep
    exact h.goOn hc _ false (by simp [hif])
  | finish i =>
    obtain ⟨c, hc, hstep⟩ := Option.bind_eq_some_iff.1 hstep
    exact h.finish hc hstep

theorem run {events : List (LockEvent ι)} (h : s.Kept) (hrun : events.foldlM step s = some s') :
    s'.Kept := by
  induction events generalizing s with
  | nil =>
    obtain rfl := Option.some.inj hrun
    exact h
  | cons e events ih =>
    rw [foldlM_cons] at hrun
    obtain ⟨t, ht, hrun⟩ := Option.bind_eq_some_iff.1 hrun
    exact ih (h.step ht) hrun

theorem start : ({} : KeyedMutexes ι).Kept :=
  ⟨⟨nodup_nil, nofun, nofun, nofun, nofun⟩, nofun⟩

end Kept

/-- Whatever the calls do: one of them holds a key's lock, an entry is there for as long as a call needs it,
and all calls for a key have the same mutex. -/
theorem keyedMutexes_exclude (events : List (LockEvent ι)) {s : KeyedMutexes ι}
    (hrun : events.foldlM step ({} : KeyedMutexes ι) = some s) :
    (∀ i j c d, s.calls.get i = some c → s.calls.get j = some d → c.key = d.key → c.phase = .holding →
      d.phase = .holding → i = j) ∧
    (∀ k, (∃ p, s.m.get k = some p) ↔ ∃ i c, s.calls.get i = some c ∧ c.key = k) ∧
    ∀ i j c d, s.calls.get i = some c → s.calls.get j = some d → c.key = d.key → c.mutex = d.mutex := by
  have h := Kept.start.run hrun
  refine ⟨?_, ?_, ?_⟩
  · intro i j c d hc hd hkey hholdc hholdd
    by_contra hne
    have hle : s.calls.countP (holds c.key) ≤ 1 := by
      rw [← (h.counts (h.mapped hc)).2]
      exact Bool.toNat_le _
    have hsplit := countP_erase h.distinct i (holds c.key)
    have hpos : 0 < (s.calls.erase i).countP (holds c.key) := by
      apply countP_pos_iff.2
      refine ⟨(j, d), mem_of_get ?_, by simp [holds, hkey, hholdd]⟩
      rw [get_erase, if_neg (Ne.symm hne), hd]
    simp [hc, holds, hholdc] at hsplit
    omega
  · intro k
    constructor
    · rintro ⟨p, hp⟩
      have hpos := h.needed hp
      rw [(h.counts hp).1] at hpos
      exact get_of_isFor h.distinct hpos
    · rintro ⟨i, c, hc, rfl⟩
      exact ⟨c.mutex, h.mapped hc⟩
  · intro i j c d hc hd hkey
    have hmapped := h.mapped hc
    rw [hkey, h.mapped hd] at hmapped
    exact (Option.some.inj hmapped).symm

/-- Two calls for one key, of which the first holds it: the entry is there. -/
theorem keyedMutexes_exclude_two : ∃ s : KeyedMutexes ℕ,
    [.enter 0 "a", .enter 1 "a", .acquire 0].foldlM step {} = some s ∧ ∃ p, s.m.get "a" = some p := by
  refine ⟨_, rfl, ?_⟩
  apply ((keyedMutexes_exclude [.enter 0 "a", .enter 1 "a", .acquire 0] rfl).2.1 "a").2
  exact ⟨1, _, rfl, rfl⟩

theorem Accounted.step_unlock (h : s.Accounted) (hc : s.calls.get i = some c) (hphase : c.phase = .holding) :
    (s.step (.unlock i)).isSome := by
  have hpos : 0 < s.calls.countP (holds c.key) :=
    countP_pos_iff.2 ⟨(i, c), mem_of_get hc, by simp [holds, hphase]⟩
  rw [← (h.counts (h.mapped hc)).2] at hpos
  cases hlocked : (s.heap c.mutex).locked with
  | true => simp [step, hc, unlock, hphase, hlocked]
  | false => simp [hlocked] at hpos

/-- What keeps a call from its next step is one for the same key that has the lock and can give it back. -/
theorem keyedMutexes_go_on (events : List (LockEvent ι)) {s : KeyedMutexes ι}
    (hrun : events.foldlM step ({} : KeyedMutexes ι) = some s) (i : ι) (c : LockCall)
    (hc : s.calls.get i = some c) :
    (∃ e ∈ [LockEvent.acquire i, .unlock i, .finish i], (s.step e).isSome) ∨
      c.phase = .waiting ∧ ∃ j d, s.calls.get j = some d ∧ d.key = c.key ∧ d.phase = .holding ∧
        (s.step (.unlock j)).isSome := by
  have h := Kept.start.run hrun
  cases hphase : c.phase with
  | holding => exact .inl ⟨.unlock i, by simp, h.step_unlock hc hphase⟩
  | releasing => exact .inl ⟨.finish i, by simp, by simp [step, hc, finish, hphase]⟩
  | waiting =>
    cases hlocked : (s.heap c.mutex).locked with
    | false => exact .inl ⟨.acquire i, by simp, by simp [step, hc, acquire, hphase, hlocked]⟩
    | true =>
      have hcount := (h.counts (h.mapped hc)).2
      rw [hlocked] at hcount
      obtain ⟨⟨j, d⟩, hmem, hholds⟩ := countP_pos_iff.1 (Nat.le_of_eq hcount)
      obtain ⟨hkey, hhold⟩ := of_decide_eq_true hholds
      have hd := GoMap.get_of_mem h.distinct hmem
      exact .inr ⟨rfl, j, d, hd, hkey, hhold, h.step_unlock hd hhold⟩

theorem keyedMutexes_go_on_two : ∃ (s : KeyedMutexes ℕ) (d : LockCall),
    [.enter 0 "a", .enter 1 "a", .acquire 0].foldlM step {} = some s ∧ d.key = "a" ∧ d.phase = .holding := by
  obtain ⟨e, he, hstep⟩ | ⟨-, j, d, -, hkey, hhold, -⟩ :=
    keyedMutexes_go_on [.enter 0 "a", .enter 1 "a", .acquire 0] rfl 1 _ rfl
  · simp only [mem_cons, not_mem_nil, or_false] at he
    rcases he with rfl | rfl | rfl <;> cases hstep
  · exact ⟨_, d, rfl, hkey, hhold⟩

end Clumoove.Processor.KeyedMutexes
