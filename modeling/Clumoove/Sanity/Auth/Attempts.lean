import Clumoove.Spec.Auth.Account

/-! Attempts on a secret with a lockout, whatever the secret is. An attempt reads the row, compares,
and counts a failure afterwards, so any number of them may be between the read and the count. The
failures stay within the maximum as long as an attempt reads the row only where there is room for one
more failure. -/

namespace Clumoove.Auth

open List

inductive Secret
  | password
  | code
  deriving DecidableEq

def Secret.lockout : Secret → User → Lockout
  | password, u => u.login
  | code, u => u.totp

def Secret.maxAttempts : Secret → ℕ
  | password => loginMaxAttempts
  | code => totpMaxAttempts

/-- Where an attempt stands. A password is compared first, and then the row is looked at; with a code
it is the other way round. -/
inductive Standing
  | away
  | read (u : User)
  | passed
  | wrong (u : User)
  | counting
  deriving DecidableEq

inductive Event
  | read (u : User)
  | time (n : ℕ)
  | compare (right : Bool)
  | count
  | reset
  | other
  deriving DecidableEq

namespace Standing

def reads : Standing → Bool
  | read _ | passed => true
  | _ => false

def pends : Standing → Bool
  | wrong _ | counting => true
  | _ => false

def next (k : Secret) : Standing → Event → Standing
  | _, .read u => read u
  | read u, .time n => if (k.lockout u).inForce n then read u else passed
  | wrong u, .time n => if u.active ∧ ¬ (k.lockout u).inForce n then counting else away
  | _, .compare true => away
  | read u, .compare false => wrong u
  | passed, .compare false => counting
  | _, .count => away
  | _, .reset => away
  | f, _ => f

variable {k : Secret} {f : Standing}

@[simp] theorem next_read : f.next k (.read u) = read u := by cases f <;> rfl
@[simp] theorem next_compare : f.next k (.compare true) = away := by cases f <;> rfl
@[simp] theorem next_count : f.next k .count = away := by cases f <;> rfl
@[simp] theorem next_reset : f.next k .reset = away := by cases f <;> rfl
@[simp] theorem next_other : f.next k .other = f := by cases f <;> rfl
@[simp] theorem pends_away : away.pends = false := rfl
@[simp] theorem pends_read : (read u).pends = false := rfl
@[simp] theorem pends_passed : passed.pends = false := rfl

end Standing

/-- An observer's record of the attempts under way, and of the present period: the wrong secrets that
were compared, and whether one was compared under a lock. -/
structure Attempts (ι : Type) where
  standing : ι → Standing := fun _ => .away
  reading : List ι := []
  pending : List ι := []
  wrong : ℕ := 0
  late : Bool := false

variable {ι : Type} [DecidableEq ι]

def shift (i : ι) : Bool → Bool → List ι → List ι
  | false, true, l => i :: l
  | true, false, l => l.erase i
  | _, _, l => l

namespace Attempts

def move (i : ι) (f : Standing) (h : Attempts ι) : Attempts ι :=
  { h with
    standing := fun j => if j = i then f else h.standing j
    reading := shift i (h.standing i).reads f.reads h.reading
    pending := shift i (h.standing i).pends f.pends h.pending }

/-- A period ends with a success, or as a lock expires; one that is set too late has expired at
once. -/
def lapsed (e : Event) (l l' : Lockout) (now now' : ℕ) : Bool :=
  match e with
  | .reset => true
  | .count => l'.failedAttempts = 0 ∧ ¬ l'.inForce now'
  | _ => l.inForce now ∧ ¬ l'.inForce now'

/-- A call of a member, and what becomes of the lockout and of the time. -/
def note (k : Secret) (i : ι) (e : Event) (l l' : Lockout) (now now' : ℕ) (h : Attempts ι) :
    Attempts ι :=
  { h.move i ((h.standing i).next k e) with
    wrong := if lapsed e l l' now now' then 0 else if e = .compare false then h.wrong + 1 else h.wrong
    late := h.late || (e = .compare false && l.inForce now) }

def room (k : Secret) (l : Lockout) (h : Attempts ι) : Bool :=
  l.failedAttempts + h.reading.length + h.pending.length < k.maxAttempts

end Attempts

/-- What a call does to the lockout, and what time it is afterwards. -/
inductive Effect (k : Secret) : Event → Lockout → ℕ → Lockout → ℕ → Prop
  | read {u now} : Effect k (.read u) (k.lockout u) now (k.lockout u) now
  | time {l now} : Effect k (.time now) l now l now
  | compare {l now} (right : Bool) : Effect k (.compare right) l now l now
  | count {l now} (lockUntil : ℕ) : Effect k .count l now (l.increment k.maxAttempts lockUntil) now
  | reset {l now} : Effect k .reset l now {} now
  | other {l now now'} : now ≤ now' → Effect k .other l now l now'

def Permitted (k : Secret) (e : Event) (i : ι) (l : Lockout) (now : ℕ) (h : Attempts ι) : Prop :=
  match e with
  | .read u => (h.standing i).pends = false ∧ ((h.standing i).reads = true ∨ h.room k l = true) ∧
      (k = .password → u.active = true ∧ (k.lockout u).inForce now = false)
  | .compare _ =>
    match k with
    | .password => ∃ u, h.standing i = .read u
    | .code => h.standing i = .passed
  | .count => h.standing i = .counting
  | _ => True

/-- The failures that are counted and the attempts under way stay within the maximum; while a lock is
in force nobody compares. -/
structure Bounded (k : Secret) (l : Lockout) (now : ℕ) (h : Attempts ι) : Prop where
  room : l.failedAttempts + h.reading.length + h.pending.length ≤ k.maxAttempts
  below : l.failedAttempts < k.maxAttempts
  reading : ∀ i, (h.standing i).reads = true → i ∈ h.reading
  pending : ∀ i, (h.standing i).pends = true → i ∈ h.pending
  locked : l.inForce now = true → h.pending = [] ∧ ∀ i, (h.standing i).reads = true →
    k = .code ∧ ∃ u, h.standing i = .read u ∧ (k.lockout u).lockedUntil = l.lockedUntil
  unlocked : l.inForce now = false → h.wrong ≤ l.failedAttempts + h.pending.length
  fair : ∀ i u, (k = .password ∧ h.standing i = .read u) ∨ h.standing i = .wrong u →
    u.active = true ∧ (k.lockout u).inForce now = false
  wrong : h.wrong ≤ k.maxAttempts
  late : h.late = false

theorem Lockout.inForce_of_lockedUntil {l l' : Lockout}
    (h : l.lockedUntil = l'.lockedUntil) : l.inForce now = l'.inForce now := by
  simp only [Lockout.inForce, h]

theorem Lockout.inForce_mono {l : Lockout} (hle : now ≤ now')
    (h : l.inForce now = false) : l.inForce now' = false := by
  unfold Lockout.inForce at h ⊢
  cases hl : l.lockedUntil with
  | none => rfl
  | some t =>
    rw [hl] at h
    have ht : ¬ now < t := of_decide_eq_false h
    exact decide_eq_false (by omega)

section Shift

variable {i j : ι} {before after : Bool}

theorem mem_shift {p : ι → Bool} (hl : ∀ j, p j = true → j ∈ l)
    (hj : (if j = i then after else p j) = true) : j ∈ shift i (p i) after l := by
  by_cases hji : j = i
  · subst hji
    rw [if_pos rfl] at hj
    subst hj
    cases hb : p j with
    | false => exact mem_cons_self
    | true => exact hl j hb
  · rw [if_neg hji] at hj
    have hmem := hl j hj
    cases p i <;> cases after
    · exact hmem
    · exact mem_cons_of_mem _ hmem
    · exact (mem_erase_of_ne hji).2 hmem
    · exact hmem

theorem length_shift (hi : before = true → i ∈ l) :
    (shift i before after l).length + before.toNat = l.length + after.toNat := by
  cases before <;> cases after
  · rfl
  · rfl
  · have hlength := length_erase_of_mem (hi rfl)
    have hpos := length_pos_of_mem (hi rfl)
    simp only [shift, Bool.toNat_true, Bool.toNat_false, hlength]
    omega
  · rfl

end Shift

variable {k : Secret} {l l' : Lockout} {now now' : ℕ} {h : Attempts ι} {i : ι} {f : Standing}

theorem Attempts.note_eq {wrong : ℕ} {late : Bool} (hnext : (h.standing i).next k e = f)
    (hwrong : (if lapsed e l l' now now' then 0 else if e = .compare false then h.wrong + 1 else h.wrong) =
      wrong) (hlate : (h.late || (e = .compare false && l.inForce now)) = late) :
    h.note k i e l l' now now' = { h.move i f with wrong, late } := by
  simp only [note, hnext, hwrong, hlate]

theorem Attempts.note_quiet {e : Event} (hnext : (h.standing i).next k e = f)
    (he : e ≠ .compare false) (hover : lapsed e l l' now now' = false) :
    h.note k i e l l' now now' = { h.move i f with wrong := h.wrong, late := h.late } :=
  note_eq hnext (by simp [hover, he]) (by simp [he])

namespace Bounded

section

variable (hb : Bounded k l now h)
include hb

theorem mem_reading (j : ι)
    (hj : ((h.move i f).standing j).reads = true) : j ∈ (h.move i f).reading := by
  apply mem_shift (p := fun j => (h.standing j).reads) hb.reading
  simp only [Attempts.move] at hj
  split_ifs at hj ⊢ <;> exact hj

theorem mem_pending (j : ι)
    (hj : ((h.move i f).standing j).pends = true) : j ∈ (h.move i f).pending := by
  apply mem_shift (p := fun j => (h.standing j).pends) hb.pending
  simp only [Attempts.move] at hj
  split_ifs at hj ⊢ <;> exact hj

theorem length_reading :
    (h.move i f).reading.length + (h.standing i).reads.toNat = h.reading.length + f.reads.toNat :=
  length_shift (hb.reading i)

theorem length_pending :
    (h.move i f).pending.length + (h.standing i).pends.toNat = h.pending.length + f.pends.toNat :=
  length_shift (hb.pending i)

/-- The standing of one member changes, and the period goes on or ends. What is left to show is about
the lock, and that the numbers fit. -/
theorem moved {wrong : ℕ} {late : Bool}
    (hroom : l'.failedAttempts + (h.move i f).reading.length + (h.move i f).pending.length ≤
      k.maxAttempts) (hbelow : l'.failedAttempts < k.maxAttempts)
    (hlocked : l'.inForce now' = true → (h.move i f).pending = [] ∧
      ∀ j, ((h.move i f).standing j).reads = true → k = .code ∧
        ∃ u, (h.move i f).standing j = .read u ∧ (k.lockout u).lockedUntil = l'.lockedUntil)
    (hunlocked : l'.inForce now' = false →
      wrong ≤ l'.failedAttempts + (h.move i f).pending.length) (hnow : now ≤ now')
    (hfair : ∀ u, (k = .password ∧ f = .read u) ∨ f = .wrong u →
      u.active = true ∧ (k.lockout u).inForce now' = false)
    (hwrong : wrong ≤ k.maxAttempts) (hlate : late = false) :
    Bounded k l' now' { h.move i f with wrong, late } where
  room := hroom
  below := hbelow
  reading := hb.mem_reading
  pending := hb.mem_pending
  locked := hlocked
  unlocked := hunlocked
  fair j u hu := by
    simp only [Attempts.move] at hu
    split_ifs at hu with hj
    · exact hfair u hu
    · obtain ⟨hactive, hforce⟩ := hb.fair j u hu
      exact ⟨hactive, Lockout.inForce_mono hnow hforce⟩
  wrong := hwrong
  late := hlate

theorem locked_others (hforce : l.inForce now = true) (hself : f.reads = true →
      k = .code ∧ ∃ u, f = .read u ∧ (k.lockout u).lockedUntil = l.lockedUntil) (j : ι)
    (hj : ((h.move i f).standing j).reads = true) :
    k = .code ∧ ∃ u, (h.move i f).standing j = .read u ∧
      (k.lockout u).lockedUntil = l.lockedUntil := by
  simp only [Attempts.move] at hj ⊢
  split_ifs at hj ⊢
  · exact hself hj
  · exact (hb.locked hforce).2 j hj

end

theorem pending_unchanged (hf : (h.standing i).pends = f.pends) :
    (h.move i f).pending = h.pending := by
  simp only [Attempts.move, hf]
  cases f.pends <;> rfl

theorem read (hb : Bounded k (k.lockout u) now h)
    (hp : Permitted k (.read u) i (k.lockout u) now h) :
    Bounded k (k.lockout u) now (h.note k i (.read u) (k.lockout u) (k.lockout u) now now) := by
  obtain ⟨hpends, hroom, hfair⟩ := hp
  have hpending : (h.move i (.read u)).pending = h.pending := pending_unchanged hpends
  have hreading := hb.length_reading (i := i) (f := .read u)
  rw [Attempts.note_quiet Standing.next_read nofun (by simp [Attempts.lapsed])]
  refine hb.moved ?_ hb.below ?_ ?_ (Nat.le_refl now) ?_ hb.wrong hb.late
  · rw [hpending]
    have hbefore := hb.room
    rcases hroom with hreads | hroom
    · rw [hreads] at hreading
      simp only [Standing.reads] at hreading
      omega
    · have hroom := of_decide_eq_true hroom
      simp only [Standing.reads, Bool.toNat_true] at hreading
      omega
  · intro hforce
    rw [hpending]
    refine ⟨(hb.locked hforce).1, hb.locked_others hforce ?_⟩
    intro _
    refine ⟨?_, u, rfl, rfl⟩
    cases k with
    | code => rfl
    | password =>
      rw [(hfair rfl).2] at hforce
      cases hforce
  · rw [hpending]
    exact hb.unlocked
  · intro v hv
    rcases hv with ⟨hk, hv⟩ | hv
    · cases hv
      exact hfair hk
    · cases hv

theorem restand (hb : Bounded k l now h) (hreads : f.reads = true → (h.standing i).reads = true)
    (hpends : (h.standing i).pends = f.pends) (hlocked : l.inForce now = true → f.reads = true →
      k = .code ∧ ∃ u, f = .read u ∧ (k.lockout u).lockedUntil = l.lockedUntil)
    (hfair : ∀ u, (k = .password ∧ f = .read u) ∨ f = .wrong u →
      u.active = true ∧ (k.lockout u).inForce now = false) :
    Bounded k l now { h.move i f with wrong := h.wrong, late := h.late } := by
  have hpending : (h.move i f).pending = h.pending := pending_unchanged hpends
  have hreading := hb.length_reading (i := i) (f := f)
  have hle : f.reads.toNat ≤ (h.standing i).reads.toNat := by
    cases hf : f.reads with
    | false => exact Nat.zero_le _
    | true => simp [hreads hf]
  refine hb.moved ?_ hb.below ?_ ?_ (Nat.le_refl now) hfair hb.wrong hb.late
  · have hbefore := hb.room
    rw [hpending]
    omega
  · intro hforce
    rw [hpending]
    exact ⟨(hb.locked hforce).1, hb.locked_others hforce (hlocked hforce)⟩
  · rw [hpending]
    exact hb.unlocked

theorem time (hb : Bounded k l now h) : Bounded k l now (h.note k i (.time now) l l now now) := by
  have hover : Attempts.lapsed (.time now) l l now now = false := by simp [Attempts.lapsed]
  have hnote {f : Standing} (hf : (h.standing i).next k (.time now) = f) :
      h.note k i (.time now) l l now now = { h.move i f with wrong := h.wrong, late := h.late } :=
    Attempts.note_quiet hf nofun hover
  have hsame (hnext : (h.standing i).next k (.time now) = h.standing i) :
      Bounded k l now (h.note k i (.time now) l l now now) := by
    rw [hnote hnext]
    exact hb.restand (fun hreads => hreads) rfl (fun hforce => (hb.locked hforce).2 i) (hb.fair i)
  cases hstanding : h.standing i with
  | away | passed | counting =>
    apply hsame
    rw [hstanding]
    rfl
  | read u =>
    cases hforce : (k.lockout u).inForce now with
    | true =>
      apply hsame
      simp [hstanding, Standing.next, hforce]
    | false =>
      have hnext : (h.standing i).next k (.time now) = .passed := by
        simp [hstanding, Standing.next, hforce]
      rw [hnote hnext]
      refine hb.restand (fun _ => by rw [hstanding]; rfl) (by rw [hstanding]; rfl) ?_ nofun
      -- the row that was read is not the one of a lock in force
      intro hl _
      obtain ⟨-, v, hv, hsame⟩ := (hb.locked hl).2 i (by rw [hstanding]; rfl)
      rw [hstanding] at hv
      cases hv
      rw [Lockout.inForce_of_lockedUntil hsame, hl] at hforce
      cases hforce
  | wrong u =>
    obtain ⟨hactive, hforce⟩ := hb.fair i u (.inr hstanding)
    have hnext : (h.standing i).next k (.time now) = .counting := by
      simp [hstanding, Standing.next, hforce, hactive]
    rw [hnote hnext]
    exact hb.restand nofun (by rw [hstanding]; rfl) nofun (by simp)

omit [DecidableEq ι] in
theorem unlocked_of_compare (hb : Bounded k l now h) (hp : Permitted k (.compare right) i l now h) :
    (h.standing i).reads = true ∧ (h.standing i).pends = false ∧ l.inForce now = false := by
  cases k with
  | password =>
    obtain ⟨u, hu⟩ := hp
    refine ⟨by rw [hu]; rfl, by rw [hu]; rfl, ?_⟩
    by_contra hforce
    obtain ⟨hk, -⟩ := (hb.locked (by simpa using hforce)).2 i (by rw [hu]; rfl)
    cases hk
  | code =>
    have hpassed : h.standing i = .passed := hp
    refine ⟨by rw [hpassed]; rfl, by rw [hpassed]; rfl, ?_⟩
    by_contra hforce
    obtain ⟨-, u, hu, -⟩ := (hb.locked (by simpa using hforce)).2 i (by rw [hpassed]; rfl)
    rw [hpassed] at hu
    cases hu

section

variable (hb : Bounded k l now h)
include hb

theorem compare_wrong (hp : Permitted k (.compare false) i l now h) :
    Bounded k l now (h.note k i (.compare false) l l now now) := by
  obtain ⟨hreads, hpends, hfree⟩ := hb.unlocked_of_compare hp
  have hnext : ∃ f : Standing, (h.standing i).next k (.compare false) = f ∧ f.reads = false ∧
      f.pends = true ∧ ∀ u, (k = .password ∧ f = .read u) ∨ f = .wrong u →
        u.active = true ∧ (k.lockout u).inForce now = false := by
    cases k with
    | password =>
      obtain ⟨u, hu⟩ := hp
      refine ⟨.wrong u, by rw [hu]; rfl, rfl, rfl, ?_⟩
      intro v hv
      rcases hv with ⟨-, hv⟩ | hv
      · cases hv
      · cases hv
        exact hb.fair i u (.inl ⟨rfl, hu⟩)
    | code =>
      have hpassed : h.standing i = .passed := hp
      exact ⟨.counting, by rw [hpassed]; rfl, rfl, rfl, by simp⟩
  obtain ⟨f, hf, hfreads, hfpends, hfair⟩ := hnext
  have hreading := hb.length_reading (i := i) (f := f)
  have hpending := hb.length_pending (i := i) (f := f)
  rw [hreads, hfreads] at hreading
  rw [hpends, hfpends] at hpending
  simp only [Bool.toNat_true, Bool.toNat_false] at hreading hpending
  have hroom := hb.room
  have hwrong := hb.unlocked hfree
  rw [Attempts.note_eq hf (by simp [Attempts.lapsed]; rfl) (by simp [hb.late, hfree]; rfl)]
  refine hb.moved (by omega) hb.below ?_ (fun _ => by omega) (Nat.le_refl now) hfair (by omega) rfl
  intro hforce
  rw [hfree] at hforce
  cases hforce

theorem depart (hpends : (h.standing i).pends = false) : Bounded k l now (h.move i .away) :=
  hb.restand nofun hpends nofun (by simp)

theorem compare_right (hp : Permitted k (.compare true) i l now h) :
    Bounded k l now (h.note k i (.compare true) l l now now) := by
  obtain ⟨-, hpends, -⟩ := hb.unlocked_of_compare hp
  rw [Attempts.note_quiet Standing.next_compare nofun (by simp [Attempts.lapsed])]
  exact hb.depart hpends

/-- A failure is counted. The last one that there is room for locks the account, and nobody else is
under way then. -/
theorem count (hcounting : h.standing i = .counting) (lockUntil : ℕ) :
    Bounded k (l.increment k.maxAttempts lockUntil) now
      (h.note k i .count l (l.increment k.maxAttempts lockUntil) now now) := by
  have hpends : (h.standing i).pends = true := by rw [hcounting]; rfl
  have hmem := hb.pending i hpends
  have hfree : l.inForce now = false := by
    by_contra hforce
    rw [(hb.locked (by simpa using hforce)).1] at hmem
    cases hmem
  have hreading := hb.length_reading (i := i) (f := .away)
  have hpending := hb.length_pending (i := i) (f := .away)
  rw [hcounting] at hreading hpending
  simp only [Standing.reads, Standing.pends, Bool.toNat_true, Bool.toNat_false] at hreading hpending
  have hroom := hb.room
  have hwrong := hb.unlocked hfree
  have hbelow := hb.below
  unfold Lockout.increment
  split_ifs with hmax
  · -- the account is locked
    have hnone : (h.move i .away).pending = [] := length_eq_zero_iff.1 (by omega)
    have hnobody : (h.move i .away).reading = [] := length_eq_zero_iff.1 (by omega)
    rw [Attempts.note_eq Standing.next_count rfl (by simp [hb.late]; rfl)]
    refine hb.moved ?_ (Nat.zero_lt_of_lt hbelow) ?_ ?_ (Nat.le_refl now) (by simp) ?_ rfl
    · simp [hnone, hnobody]
    · intro _
      refine ⟨hnone, ?_⟩
      intro j hj
      have hmem := hb.mem_reading j hj
      rw [hnobody] at hmem
      cases hmem
    · intro hforce
      simp [Attempts.lapsed, hforce]
    · simp only [reduceCtorEq, if_false]
      split_ifs <;> omega
  · have hover : Attempts.lapsed .count l { l with failedAttempts := l.failedAttempts + 1 } now now =
        false := by
      simp [Attempts.lapsed]
    rw [Attempts.note_quiet Standing.next_count nofun hover]
    refine hb.moved ?_ ?_ ?_ ?_ (Nat.le_refl now) (by simp) hb.wrong hb.late
    · simp only
      omega
    · simp only
      omega
    · intro hforce
      have hforce : l.inForce now = true := hforce
      rw [hfree] at hforce
      cases hforce
    · intro _
      simp only
      omega

theorem reset : Bounded k {} now (h.note k i .reset l {} now now) := by
  have hreading := hb.length_reading (i := i) (f := .away)
  have hpending := hb.length_pending (i := i) (f := .away)
  simp only [Standing.reads, Standing.pends, Bool.toNat_false] at hreading hpending
  have hroom := hb.room
  have hbelow := hb.below
  rw [Attempts.note_eq Standing.next_reset (by simp [Attempts.lapsed]; rfl) (by simp [hb.late]; rfl)]
  refine hb.moved ?_ ?_ nofun (fun _ => Nat.zero_le _) (Nat.le_refl now) (by simp) (Nat.zero_le _) rfl
  · simp only
    omega
  · simp only
    omega

theorem other (hnow : now ≤ now') : Bounded k l now' (h.note k i .other l l now now') := by
  have hreading := hb.length_reading (i := i) (f := h.standing i)
  have hpending : (h.move i (h.standing i)).pending = h.pending := pending_unchanged rfl
  have hroom := hb.room
  rw [Attempts.note_eq Standing.next_other rfl (by simp [hb.late]; rfl)]
  have hfair : ∀ u, (k = .password ∧ h.standing i = .read u) ∨ h.standing i = .wrong u →
      u.active = true ∧ (k.lockout u).inForce now' = false := by
    intro u hu
    obtain ⟨hactive, hforce⟩ := hb.fair i u hu
    exact ⟨hactive, Lockout.inForce_mono hnow hforce⟩
  refine hb.moved ?_ hb.below ?_ ?_ hnow hfair ?_ rfl
  · rw [hpending]
    omega
  · intro hforce
    rw [hpending]
    have hbefore : l.inForce now = true := by
      by_contra hfree
      rw [Lockout.inForce_mono hnow (by simpa using hfree)] at hforce
      cases hforce
    exact ⟨(hb.locked hbefore).1, hb.locked_others hbefore ((hb.locked hbefore).2 i)⟩
  · intro hafter
    rw [hpending]
    cases hbefore : l.inForce now with
    | true => simp [Attempts.lapsed, hbefore, hafter]
    | false => simpa [Attempts.lapsed, hbefore] using hb.unlocked hbefore
  · have hwrong := hb.wrong
    simp only [reduceCtorEq, if_false]
    split_ifs <;> omega

theorem event (hp : Permitted k e i l now h)
    (heffect : Effect k e l now l' now') : Bounded k l' now' (h.note k i e l l' now now') := by
  cases heffect with
  | read => exact hb.read hp
  | time => exact hb.time
  | compare right =>
    cases right with
    | true => exact hb.compare_right hp
    | false => exact hb.compare_wrong hp
  | count lockUntil => exact hb.count hp lockUntil
  | reset => exact hb.reset
  | other hnow => exact hb.other hnow

end

end Bounded

end Clumoove.Auth
