import Clumoove.Lib.Prog
import Mathlib.Algebra.GroupWithZero.Nat

/-! Members of a crew that run their programs side by side over one world. A member may begin its
program again and again; an attempt ends where the program ends or breaks off at any point. The
proof rule asks of every program that it keeps what the others rely on. -/

namespace Crew

open Prog Option

variable {ι Op : Type} {Res : Op → Type} {W O : Type} [DecidableEq ι]

/-- The parts of a crew. `O` labels the outcomes of an operation; one that is not possible now has
no result. -/
structure Parts (ι Op : Type) (Res : Op → Type) (W O : Type) where
  /-- Whether a member may begin an attempt. -/
  ready : ι → W → Bool
  program : ι → Prog Op Res Unit
  exec : ι → (op : Op) → O → W → Option (Res op × W)
  /-- What the end of an attempt does, however it comes about. -/
  leave : ι → W → W

structure Config (ι Op : Type) (Res : Op → Type) (W : Type) where
  world : W
  running : ι → Option (Prog Op Res Unit) := fun _ => none

inductive Label (ι O : Type)
  | start (i : ι)
  | exec (i : ι) (o : O)
  | finish (i : ι)
  | stop (i : ι)
  deriving DecidableEq

variable {c c' : Config ι Op Res W} {ls : List (Label ι O)} {p : Option (Prog Op Res Unit)}
  {P : W → Prop} {test : W → Label ι O → Bool} {α : Type} {i : ι} {w : W} {op : Op}
  {f : Config ι Op Res W → α} {x : α}

/-- A member's program is replaced, the others go on. -/
def Config.set (c : Config ι Op Res W) (w : W) (i : ι) (p : Option (Prog Op Res Unit)) :
    Config ι Op Res W where
  world := w
  running j := if j = i then p else c.running j

variable (M : Parts ι Op Res W O)

def step (c : Config ι Op Res W) : Label ι O → Option (Config ι Op Res W)
  | .start i =>
    match c.running i with
    | none => if M.ready i c.world then some (c.set c.world i (some (M.program i))) else none
    | some _ => none
  | .exec i o =>
    match c.running i with
    | some (.call op k) => (M.exec i op o c.world).map fun (r, w) => c.set w i (some (k r))
    | _ => none
  | .finish i =>
    match c.running i with
    | some (.ret _) => some (c.set (M.leave i c.world) i none)
    | _ => none
  | .stop i =>
    match c.running i with
    | some _ => some (c.set (M.leave i c.world) i none)
    | none => none

def run : List (Label ι O) → Config ι Op Res W → Option (Config ι Op Res W)
  | [], c => some c
  | l :: ls, c => (step M c l).bind (run ls)

/-- The states a run reaches whose steps all meet a condition on the world they start from. -/
inductive Reach (ok : W → Label ι O → Prop) (init : W → Prop) : Config ι Op Res W → Prop
  | start {w : W} : init w → Reach ok init { world := w }
  | step {c c' : Config ι Op Res W} {l : Label ι O} : Reach ok init c → ok c.world l →
      step M c l = some c' → Reach ok init c'

variable {M} {ok : W → Label ι O → Prop} {init : W → Prop}

/-- What a step can be: a member begins, makes a call, or leaves. -/
theorem step_cases {l : Label ι O} (h : step M c l = some c') :
    (∃ i, l = .start i ∧ c.running i = none ∧ M.ready i c.world = true ∧
      c' = c.set c.world i (some (M.program i))) ∨
    (∃ i o op k r w, l = .exec i o ∧ c.running i = some (.call op k) ∧
      M.exec i op o c.world = some (r, w) ∧ c' = c.set w i (some (k r))) ∨
    (∃ i p, (l = .finish i ∨ l = .stop i) ∧ c.running i = some p ∧
      c' = c.set (M.leave i c.world) i none) := by
  cases l with
  | start i =>
    simp only [step] at h
    split at h
    · split_ifs at h with hready
      cases h
      exact .inl ⟨i, rfl, ‹_›, hready, rfl⟩
    · cases h
  | exec i o =>
    simp only [step] at h
    split at h
    · obtain ⟨⟨r, w⟩, hx, rfl⟩ := map_eq_some_iff.1 h
      exact .inr (.inl ⟨i, o, _, _, r, w, rfl, ‹_›, hx, rfl⟩)
    · cases h
  | finish i | stop i =>
    simp only [step] at h
    split at h
    · cases h
      exact .inr (.inr ⟨i, _, by simp, ‹_›, rfl⟩)
    · cases h

theorem Config.set_running {i j : ι} {q : Prog Op Res Unit} (h : (c.set w i p).running j = some q) :
    (j = i ∧ p = some q) ∨ (j ≠ i ∧ c.running j = some q) := by
  by_cases hj : j = i
  · exact .inl ⟨hj, by simpa [Config.set, hj] using h⟩
  · exact .inr ⟨hj, by simpa [Config.set, hj] using h⟩

/-- A run that stops where a step does not meet the condition. -/
def runIf (M : Parts ι Op Res W O) (ok : W → Label ι O → Bool) :
    List (Label ι O) → Config ι Op Res W → Option (Config ι Op Res W)
  | [], c => some c
  | l :: ls, c => if ok c.world l then (step M c l).bind (runIf M ok ls) else none

theorem Reach.runIf (htest : ∀ w l, test w l = true → ok w l) (h : Reach M ok init c)
    (hrun : Crew.runIf M test ls c = some c') : Reach M ok init c' := by
  induction ls generalizing c with
  | nil =>
    cases hrun
    exact h
  | cons l ls ih =>
    simp only [Crew.runIf] at hrun
    split_ifs at hrun with hok
    obtain ⟨d, hd, hrest⟩ := bind_eq_some_iff.1 hrun
    exact ih (h.step (htest _ _ hok) hd) hrest

/-- A schedule that can be run reaches a state, and what it computes of it is so. -/
theorem Reach.runIf_map (htest : ∀ w l, test w l = true → ok w l)
    (hw : P w) (h : (Crew.runIf M test ls { world := w }).map f = some x) :
    ∃ c, Reach M ok P c ∧ f c = x := by
  obtain ⟨c, hc, hf⟩ := map_eq_some_iff.1 h
  exact ⟨c, (Reach.start hw).runIf htest hc, hf⟩

theorem runIf_true (ls : List (Label ι O)) (c : Config ι Op Res W) :
    runIf M (fun _ _ => true) ls c = run M ls c := by
  induction ls generalizing c with
  | nil => rfl
  | cons l ls ih =>
    exact congrArg (Option.bind _) (funext ih)

/-- A schedule that can be run with one more step, and what it computes before and after that
step. -/
theorem Reach.run_step_map (M : Parts ι Op Res W O)
    (f : Config ι Op Res W → α) {x y : α} (hw : P w) (ls : List (Label ι O)) (l : Label ι O)
    (h : ((Crew.run M ls { world := w }).bind fun c => (Crew.step M c l).map fun c' => (f c, f c')) =
      some (x, y)) :
    ∃ c c', Reach M (fun _ _ => True) P c ∧ Crew.step M c l = some c' ∧ f c = x ∧ f c' = y := by
  obtain ⟨c, hc, hstep⟩ := bind_eq_some_iff.1 h
  obtain ⟨c', hc', hxy⟩ := map_eq_some_iff.1 hstep
  obtain ⟨hx, hy⟩ := Prod.mk.inj hxy
  rw [← runIf_true] at hc
  exact ⟨c, c', (Reach.start hw).runIf (fun _ _ _ => trivial) hc, hc', hx, hy⟩

theorem Reach.run_map (hw : P w) (h : (Crew.run M ls { world := w }).map f = some x) :
    ∃ c, Reach M (fun _ _ => True) P c ∧ f c = x := by
  rw [← runIf_true] at h
  exact Reach.runIf_map (fun _ _ _ => trivial) hw h

/-- The members act only where a condition on the operation and the world it meets holds. -/
def Parts.restrict (M : Parts ι Op Res W O) (may : ι → Op → W → Bool) : Parts ι Op Res W O :=
  { M with exec := fun i op o w => if may i op w then M.exec i op o w else none }

omit [DecidableEq ι] in
theorem Parts.exec_restrict {may : ι → Op → W → Bool} {o : O} {w w' : W} {r : Res op} :
    (M.restrict may).exec i op o w = some (r, w') ↔
      may i op w = true ∧ M.exec i op o w = some (r, w') := by
  by_cases h : may i op w = true <;> simp [Parts.restrict, h]

/-- A crew under watch: a record is kept of the operations and of the members that leave. It has no
effect on what the members do. -/
def Parts.watched {H : Type} (M : Parts ι Op Res W O)
    (note : ι → (op : Op) → Res op → W → W → H → H) (forget : ι → H → H) :
    Parts ι Op Res (W × H) O where
  ready i w := M.ready i w.1
  program := M.program
  exec i op o w := (M.exec i op o w.1).map fun (r, w') => (r, w', note i op r w.1 w' w.2)
  leave i w := (M.leave i w.1, forget i w.2)

omit [DecidableEq ι] in
theorem Parts.exec_watched {H : Type} {note : ι → (op : Op) → Res op → W → W → H → H}
    {forget : ι → H → H} {o : O} {w w' : W × H} {r : Res op} :
    (M.watched note forget).exec i op o w = some (r, w') ↔
      M.exec i op o w.1 = some (r, w'.1) ∧ w'.2 = note i op r w.1 w'.1 w.2 := by
  constructor
  · intro h
    obtain ⟨⟨r, v⟩, hx, hv⟩ := map_eq_some_iff.1 h
    cases hv
    exact ⟨hx, rfl⟩
  · rintro ⟨hx, hnote⟩
    exact map_eq_some_iff.2 ⟨(r, w'.1), hx, Prod.ext rfl (Prod.ext rfl hnote.symm)⟩

section World

variable (hexec : ∀ {i op o w r w'}, M.exec i op o w = some (r, w') → P w → P w')
  (hleave : ∀ i {w}, P w → P (M.leave i w))
include hexec hleave

/-- What every operation and the end of an attempt keep is kept by every step. -/
theorem step_world {l : Label ι O} (hs : step M c l = some c') (h : P c.world) : P c'.world := by
  rcases step_cases hs with ⟨i, -, -, -, rfl⟩ | ⟨i, o, op, k, r, w, -, -, hx, rfl⟩ |
    ⟨i, p, -, -, rfl⟩
  · exact h
  · exact hexec hx h
  · exact hleave i h

theorem run_world (hrun : run M ls c = some c') (h : P c.world) : P c'.world := by
  induction ls generalizing c with
  | nil =>
    cases hrun
    exact h
  | cons l ls ih =>
    obtain ⟨d, hd, hrest⟩ := bind_eq_some_iff.1 hrun
    exact ih hrest (step_world hexec hleave hd h)

theorem Reach.world (hinit : ∀ w, init w → P w) (h : Reach M ok init c) : P c.world := by
  induction h with
  | start hw => exact hinit _ hw
  | step _ _ hs ih => exact step_world hexec hleave hs ih

end World

theorem step_finish (h : step M c (.finish i) = some c') : ∃ a, c.running i = some (.ret a) := by
  simp only [step] at h
  split at h
  · exact ⟨_, ‹_›⟩
  · cases h

/-- Members whose programs keep to a protocol, each from an idle state to one where it may end, and an
invariant of the world that the calls they are allowed keep. The world knows the states of their
protocols. -/
structure Session (M : Parts ι Op Res W O) (ok : W → Label ι O → Prop) (S : Type) where
  T : ι → Protocol Op Res S
  state : ι → W → S
  idle : ι → S → Prop
  ended : ι → S → Prop := idle
  inv : W → Prop
  program : ∀ i s, idle i s → (M.program i).Follows (T i) (fun _ => ended i) s
  answers : ∀ {i op o w r w'}, ok w (.exec i o) → inv w → (T i).allowed (state i w) op →
    M.exec i op o w = some (r, w') → (T i).answers op r
  next : ∀ {i op o w r w'}, M.exec i op o w = some (r, w') →
    state i w' = (T i).next (state i w) op r ∧ ∀ j, j ≠ i → state j w' = state j w
  keep : ∀ {i op o w r w'}, ok w (.exec i o) → inv w → (T i).allowed (state i w) op →
    (T i).answers op r → M.exec i op o w = some (r, w') → inv w'
  finish : ∀ i w, ended i (state i w) → idle i (state i (M.leave i w))
  stop : ∀ i w, ok w (.stop i) → idle i (state i (M.leave i w))
  others : ∀ i j w, j ≠ i → state j (M.leave i w) = state j w
  leave : ∀ i w, ended i (state i w) ∨ ok w (.stop i) → inv w → inv (M.leave i w)

namespace Session

variable {S : Type} (P : Session M ok S)

structure Holds (c : Config ι Op Res W) : Prop where
  inv : P.inv c.world
  resting : ∀ i, c.running i = none → P.idle i (P.state i c.world)
  running : ∀ i p, c.running i = some p → p.Follows (P.T i) (fun _ => P.ended i) (P.state i c.world)

variable {P} {c c' : Config ι Op Res W} {l : Label ι O}

/-- A member that leaves has ended, or is stopped where it may be. -/
theorem Holds.ends (h : P.Holds c) (hok : ok c.world l) (hl : l = .finish i ∨ l = .stop i)
    (hs : step M c l = some c') : P.ended i (P.state i c.world) ∨ ok c.world (.stop i) := by
  rcases hl with rfl | rfl
  · obtain ⟨a, ha⟩ := step_finish hs
    exact .inl (h.running i _ ha)
  · exact .inr hok

/-- One member goes on or leaves, and the others stand where they stood. -/
theorem Holds.set {j : ι} {q : Option (Prog Op Res Unit)} (h : P.Holds c) (hinv : P.inv w)
    (hothers : ∀ i, i ≠ j → P.state i w = P.state i c.world)
    (hresting : q = none → P.idle j (P.state j w))
    (hrunning : ∀ p, q = some p → p.Follows (P.T j) (fun _ => P.ended j) (P.state j w)) :
    P.Holds (c.set w j q) where
  inv := hinv
  resting i hi := by
    by_cases hij : i = j
    · subst hij
      exact hresting (by simpa [Config.set] using hi)
    · simp only [Config.set, if_neg hij] at hi ⊢
      rw [hothers i hij]
      exact h.resting i hi
  running i p hp := by
    by_cases hij : i = j
    · subst hij
      exact hrunning p (by simpa [Config.set] using hp)
    · simp only [Config.set, if_neg hij] at hp ⊢
      rw [hothers i hij]
      exact h.running i p hp

theorem Holds.step (h : P.Holds c) (hok : ok c.world l) (hs : step M c l = some c') :
    P.Holds c' := by
  rcases step_cases hs with ⟨j, -, hidle, -, rfl⟩ | ⟨j, o, op, k, r, w, rfl, hrun, hx, rfl⟩ |
    ⟨j, p, hl, hrun, rfl⟩
  · refine h.set h.inv (fun _ _ => rfl) nofun ?_
    intro q hq
    cases hq
    exact P.program j _ (h.resting j hidle)
  · obtain ⟨hallowed, hcont⟩ := h.running j _ hrun
    have hans := P.answers hok h.inv hallowed hx
    obtain ⟨hself, hothers⟩ := P.next hx
    refine h.set (P.keep hok h.inv hallowed hans hx) hothers nofun ?_
    intro q hq
    cases hq
    rw [hself]
    exact hcont r hans
  · have hends := h.ends hok hl hs
    refine h.set (P.leave j _ hends h.inv) (fun i hi => P.others j i _ hi) ?_ nofun
    intro _
    rcases hends with hended | hstop
    · exact P.finish j _ hended
    · exact P.stop j _ hstop

theorem sound (hinv : ∀ w, init w → P.inv w) (hidle : ∀ i w, init w → P.idle i (P.state i w))
    (h : Reach M ok init c) : P.Holds c := by
  induction h with
  | start hw => exact ⟨hinv _ hw, fun i _ => hidle i _ hw, nofun⟩
  | step _ hok hs ih => exact ih.step hok hs

end Session

/-- Members whose programs keep to a protocol in any state. -/
theorem Reach.follows {S : Type} (T : ι → Protocol Op Res S) (state : ι → W → S)
    (hprogram : ∀ i s, (M.program i).Follows (T i) (fun _ _ => True) s)
    (hexec : ∀ {i op o w r w'}, M.exec i op o w = some (r, w') → (T i).answers op r ∧
      state i w' = (T i).next (state i w) op r ∧ ∀ j, j ≠ i → state j w' = state j w)
    (hleave : ∀ i j w, j ≠ i → state j (M.leave i w) = state j w)
    (h : Reach M ok init c) {p : Prog Op Res Unit} (hp : c.running i = some p) :
    p.Follows (T i) (fun _ _ => True) (state i c.world) :=
  let P : Session M ok S :=
    { T, state
      idle := fun _ _ => True
      inv := fun _ => True
      program := fun i s _ => hprogram i s
      answers := fun _ _ _ hx => (hexec hx).1
      next := fun hx => (hexec hx).2
      keep := fun _ _ _ _ _ => trivial
      finish := fun _ _ _ => trivial
      stop := fun _ _ _ => trivial
      others := hleave
      leave := fun _ _ _ _ => trivial }
  (P.sound (fun _ _ => trivial) (fun _ _ _ => trivial) h).running i p hp

/-- Members make no calls but those of their programs. -/
theorem Reach.allowed {A : ι → Op → Prop} (hprogram : ∀ i, (M.program i).Uses (A i)) (h : Reach M ok init c)
    {k : Res op → Prog Op Res Unit}
    (hp : c.running i = some (.call op k)) : A i op := by
  have hfollows := h.follows (fun i => { next := fun _ _ _ => (), allowed := fun _ => A i })
    (fun _ _ => ()) ?_ (fun _ => ⟨trivial, rfl, fun _ _ => rfl⟩) (fun _ _ _ _ => rfl) hp
  · exact hfollows.1
  · intro i s
    exact ((hprogram i).follows (fun _ hop => hop) fun _ _ _ => rfl).mono fun _ _ _ => trivial

/-- What a proof about a crew provides: an invariant of the world, what each member relies on, what
every single step does, and that every program keeps all of this. -/
structure Proof (M : Parts ι Op Res W O) (ok : W → Label ι O → Prop) where
  inv : W → Prop
  rely : ι → W → W → Prop
  guar : W → W → Prop
  rely_refl : ∀ i w, rely i w w
  rely_trans : ∀ {i a b c}, rely i a b → rely i b c → rely i a c
  guar_refl : ∀ w, guar w w
  leave : ∀ {i l w}, (l = .finish i ∨ l = .stop i) → inv w → ok w l → inv (M.leave i w) ∧
    guar w (M.leave i w) ∧ ∀ j, j ≠ i → rely j w (M.leave i w)
  program : ∀ {i w}, inv w → ok w (.start i) → M.ready i w = true → (M.program i).wp
      { inv, rely := rely i, guar := fun w w' => guar w w' ∧ ∀ j, j ≠ i → rely j w w'
        exec := fun op w r w' => ∃ o, ok w (.exec i o) ∧ M.exec i op o w = some (r, w')
        rely_refl := rely_refl i, rely_trans } (fun _ _ => True) w

/-- The logic of one member's program. -/
def Proof.logic (P : Proof M ok) (i : ι) : Logic Op Res W where
  inv := P.inv
  rely := P.rely i
  guar w w' := P.guar w w' ∧ ∀ j, j ≠ i → P.rely j w w'
  exec op w r w' := ∃ o, ok w (.exec i o) ∧ M.exec i op o w = some (r, w')
  rely_refl := P.rely_refl i
  rely_trans := P.rely_trans

structure Proof.Holds (P : Proof M ok) (c : Config ι Op Res W) : Prop where
  inv : P.inv c.world
  running : ∀ i p, c.running i = some p → p.wp (P.logic i) (fun _ _ => True) c.world

/-- A step by one member leaves the others where they are. -/
theorem Proof.Holds.set {P : Proof M ok} (h : P.Holds c) (hi : P.inv w) (hr : ∀ j, j ≠ i → P.rely j c.world w)
    (hp : ∀ q, p = some q → q.wp (P.logic i) (fun _ _ => True) w) : P.Holds (c.set w i p) := by
  refine ⟨hi, fun j q hq => ?_⟩
  rcases Config.set_running hq with ⟨rfl, hnew⟩ | ⟨hj, hq⟩
  · exact hp q hnew
  · exact wp_rely (fun _ _ _ _ _ _ => trivial) (h.running j q hq) (hr j hj) hi

/-- One step keeps what holds, and does nothing but what the proof says. -/
theorem Proof.Holds.step {P : Proof M ok} {l : Label ι O}
    (h : P.Holds c) (hok : ok c.world l) (hs : Crew.step M c l = some c') :
    P.Holds c' ∧ P.guar c.world c'.world := by
  rcases step_cases hs with ⟨i, rfl, -, hready, rfl⟩ | ⟨i, o, op, k, r, w, rfl, hrun, hx, rfl⟩ |
    ⟨i, p, hl, -, rfl⟩
  · refine ⟨h.set h.inv (fun j _ => P.rely_refl j _) fun q hq => ?_, P.guar_refl _⟩
    cases hq
    exact P.program h.inv hok hready
  · obtain ⟨⟨hg, hr⟩, hi, hk⟩ :=
      h.running i _ hrun c.world (P.rely_refl i _) h.inv r w ⟨o, hok, hx⟩
    refine ⟨h.set hi hr fun q hq => ?_, hg⟩
    cases hq
    exact hk
  · obtain ⟨hi, hg, hr⟩ := P.leave hl h.inv hok
    exact ⟨h.set hi hr nofun, hg⟩

/-- A proof about a crew holds in every state its runs reach. -/
theorem Proof.sound (P : Proof M ok) (hinit : ∀ w, init w → P.inv w)
    (h : Reach M ok init c) : P.Holds c := by
  induction h with
  | start hw => exact ⟨hinit _ hw, nofun⟩
  | step _ hok hs ih => exact (ih.step hok hs).1

end Crew
