import Clumoove.Lib.Prog

/-! Workers that queue for one lock. A worker polls for a piece of work and gets a ticket,
waits for the lock, and then runs the ticket's program to its end while everybody else goes on.
It may crash at any point; a crash releases the lock. -/

namespace Machine

open Prog List

variable {Op : Type} {Res : Op → Type} {W T E O : Type}

/-- The parts of a machine. `E` labels the moves of the environment, `O` the outcomes of an
operation. -/
structure Parts (Op : Type) (Res : Op → Type) (W T E O : Type) where
  env : E → W → W → Prop
  poll : T → W → W → Prop
  program : T → Prog Op Res Unit
  /-- What a worker still does when it cannot get the lock. -/
  giveUp : T → Op
  exec : (op : Op) → W → O → Res op → W → Prop

/-- A state of the machine: the worker that has the lock, and those that wait for it. -/
structure Config (Op : Type) (Res : Op → Type) (W T : Type) where
  world : W
  holder : Option (T × Prog Op Res Unit) := none
  waiting : List T := []

inductive Label (T E O : Type)
  | env (e : E)
  | poll (t : T)
  | drop (t : T)
  | giveUp (t : T) (o : O)
  | acquire (t : T)
  | exec (o : O)
  | finish
  | crash

variable (M : Parts Op Res W T E O)

inductive Step : Config Op Res W T → Label T E O → Config Op Res W T → Prop
  | env {c : Config Op Res W T} {e : E} {w : W} : M.env e c.world w →
      Step c (.env e) { c with world := w }
  | poll {c : Config Op Res W T} {t : T} {w : W} : M.poll t c.world w →
      Step c (.poll t) { c with world := w, waiting := c.waiting ++ [t] }
  | drop {c : Config Op Res W T} {t : T} {l₁ l₂ : List T} : c.waiting = l₁ ++ t :: l₂ →
      Step c (.drop t) { c with waiting := l₁ ++ l₂ }
  | giveUp {c : Config Op Res W T} {t : T} {l₁ l₂ : List T} {o : O} {r : Res (M.giveUp t)} {w : W} :
      c.waiting = l₁ ++ t :: l₂ → M.exec (M.giveUp t) c.world o r w →
      Step c (.giveUp t o) { c with world := w, waiting := l₁ ++ l₂ }
  | acquire {c : Config Op Res W T} {t : T} {l₁ l₂ : List T} : c.holder = none →
      c.waiting = l₁ ++ t :: l₂ →
      Step c (.acquire t) { c with holder := some (t, M.program t), waiting := l₁ ++ l₂ }
  | exec {c : Config Op Res W T} {t : T} {op : Op} {k : Res op → Prog Op Res Unit} {o : O}
      {r : Res op} {w : W} : c.holder = some (t, .call op k) → M.exec op c.world o r w →
      Step c (.exec o) { c with world := w, holder := some (t, k r) }
  | finish {c : Config Op Res W T} {t : T} : c.holder = some (t, .ret ()) →
      Step c .finish { c with holder := none }
  | crash {c : Config Op Res W T} {t : T} {p : Prog Op Res Unit} : c.holder = some (t, p) →
      Step c .crash { c with holder := none }

/-- The states a run reaches whose steps all meet a condition on the state they start from. -/
inductive Reach (ok : Config Op Res W T → Label T E O → Prop) (init : W → Prop) :
    Config Op Res W T → Prop
  | start {w : W} : init w → Reach ok init { world := w }
  | step {c c' : Config Op Res W T} {l : Label T E O} : Reach ok init c → ok c l → Step M c l c' →
      Reach ok init c'

variable {M} {ok : Config Op Res W T → Label T E O → Prop} {init : W → Prop}

theorem Reach.invariant {I : Config Op Res W T → Prop} (hinit : ∀ w, init w → I { world := w })
    (hstep : ∀ c l c', I c → ok c l → Step M c l c' → I c') (h : Reach M ok init c) : I c := by
  induction h with
  | start hw => exact hinit _ hw
  | step _ hok hs ih => exact hstep _ _ _ ih hok hs

/-- What a proof about a machine provides: a logic for the worker that has the lock, what holds
whenever nobody has it, and what a ticket stands for while its worker waits. -/
structure Proof (M : Parts Op Res W T E O) (ok : Config Op Res W T → Label T E O → Prop) where
  logic : Logic Op Res W
  idle : W → Prop
  ticket : T → W → Prop
  idle_stable : logic.Stable idle
  ticket_stable : ∀ t, logic.Stable (ticket t)
  guar_refl : ∀ w, logic.guar w w
  env : ∀ {c e w}, logic.inv c.world → ok c (.env e) → M.env e c.world w →
    logic.guar c.world w ∧ logic.inv w ∧ logic.rely c.world w
  poll : ∀ {c t w}, logic.inv c.world → ok c (.poll t) → M.poll t c.world w →
    logic.guar c.world w ∧ logic.inv w ∧ logic.rely c.world w ∧ ticket t w
  giveUp : ∀ {c t o r w}, logic.inv c.world → ticket t c.world → ok c (.giveUp t o) →
    M.exec (M.giveUp t) c.world o r w →
    logic.guar c.world w ∧ logic.inv w ∧ logic.rely c.world w
  exec : ∀ {c t op k o r w}, logic.inv c.world → c.holder = some (t, .call op k) →
    ok c (.exec o) → M.exec op c.world o r w → logic.exec op c.world r w
  /-- A worker's own steps do not spoil the tickets of the others. -/
  guarantee : ∀ {op w r w' t}, logic.inv w → logic.exec op w r w' → ticket t w → ticket t w'
  program : ∀ {t w}, logic.inv w → idle w → ticket t w → (M.program t).wp logic (fun _ => idle) w
  crash : ∀ {c}, logic.inv c.world → ok c .crash → idle c.world

variable {c c' : Config Op Res W T} {P : Proof M ok}

/-- Everything such a proof maintains along a run. -/
structure Proof.Holds (P : Proof M ok) (c : Config Op Res W T) : Prop where
  inv : P.logic.inv c.world
  tickets : ∀ t ∈ c.waiting, P.ticket t c.world
  free : c.holder = none → P.idle c.world
  held : ∀ t p, c.holder = some (t, p) → p.wp P.logic (fun _ => P.idle) c.world

theorem Proof.Holds.rely (h : P.Holds c) {w : W}
    (hi : P.logic.inv w) (hr : P.logic.rely c.world w) : P.Holds { c with world := w } where
  inv := hi
  tickets t ht := P.ticket_stable t (h.tickets t ht) hr hi
  free hf := P.idle_stable (h.free hf) hr hi
  held t p hp := wp_rely (fun _ => P.idle_stable) (h.held t p hp) hr hi

theorem Proof.Holds.waiting (h : P.Holds c)
    {l : List T} (hl : ∀ t ∈ l, P.ticket t c.world) : P.Holds { c with waiting := l } :=
  ⟨h.inv, hl, h.free, h.held⟩

theorem Proof.Holds.step {l : Label T E O}
    (h : P.Holds c) (hok : ok c l) (hs : Step M c l c') : P.Holds c' := by
  cases hs with
  | env he =>
    obtain ⟨-, hi, hr⟩ := P.env h.inv hok he
    exact h.rely hi hr
  | @poll t w hp =>
    obtain ⟨-, hi, hr, ht⟩ := P.poll h.inv hok hp
    refine (h.rely hi hr).waiting fun t' ht' => ?_
    rcases mem_append.1 ht' with ht' | ht'
    · exact P.ticket_stable t' (h.tickets t' ht') hr hi
    · rw [mem_singleton.1 ht']
      exact ht
  | @drop t l₁ l₂ hw =>
    refine h.waiting fun t' ht' => h.tickets t' ?_
    rw [hw]
    rcases mem_append.1 ht' with ht' | ht' <;> simp [ht']
  | @giveUp t l₁ l₂ o r w hw hx =>
    obtain ⟨-, hi, hr⟩ := P.giveUp h.inv (h.tickets t (by rw [hw]; simp)) hok hx
    refine (h.rely hi hr).waiting fun t' ht' => ?_
    refine P.ticket_stable t' (h.tickets t' ?_) hr hi
    rw [hw]
    rcases mem_append.1 ht' with ht' | ht' <;> simp [ht']
  | @acquire t l₁ l₂ hf hw =>
    have hmem : ∀ t' ∈ l₁ ++ l₂, P.ticket t' c.world := fun t' ht' => by
      refine h.tickets t' ?_
      rw [hw]
      rcases mem_append.1 ht' with ht' | ht' <;> simp [ht']
    refine ⟨h.inv, hmem, nofun, fun t' p hp => ?_⟩
    cases hp
    exact P.program h.inv (h.free hf) (h.tickets t (by rw [hw]; simp))
  | @exec t op k o r w hh hx =>
    have hx := P.exec h.inv hh hok hx
    obtain ⟨-, hi, hk⟩ := h.held t _ hh c.world (P.logic.rely_refl _) h.inv r w hx
    refine ⟨hi, fun t' ht' => P.guarantee h.inv hx (h.tickets t' ht'), nofun, fun t' p hp => ?_⟩
    cases hp
    exact hk
  | finish hh => exact ⟨h.inv, h.tickets, fun _ => h.held _ _ hh, nofun⟩
  | crash hh => exact ⟨h.inv, h.tickets, fun _ => P.crash (c := c) h.inv hok, nofun⟩

theorem Proof.Holds.guar {l : Label T E O}
    (h : P.Holds c) (hok : ok c l) (hs : Step M c l c') : P.logic.guar c.world c'.world := by
  cases hs with
  | env he => exact (P.env h.inv hok he).1
  | poll hp => exact (P.poll h.inv hok hp).1
  | giveUp hw hx => exact (P.giveUp h.inv (h.tickets _ (by rw [hw]; simp)) hok hx).1
  | exec hh hx =>
    exact (h.held _ _ hh c.world (P.logic.rely_refl _) h.inv _ _ (P.exec h.inv hh hok hx)).1
  | drop | acquire | finish | crash => exact P.guar_refl _

/-- A proof about a machine holds in every state its runs reach. -/
theorem Proof.sound (P : Proof M ok) (hinit : ∀ w, init w → P.logic.inv w ∧ P.idle w)
    (h : Reach M ok init c) : P.Holds c := by
  refine h.invariant (fun w hw => ?_) fun c l c' hc hok hs => hc.step hok hs
  obtain ⟨hi, hf⟩ := hinit w hw
  exact ⟨hi, nofun, fun _ => hf, nofun⟩

end Machine
