import Clumoove.Spec.Egress

/-! Where providers are connected to: only the configured host, and never the machine itself or its
link-local network, unless a name resolves to the unspecified address or that is the host. -/

namespace Clumoove.Egress

open Inet List

variable {P : Dial → Prop}

/-- What the operating system delivers to the machine itself or to its link-local network. -/
def localBlocks : List Block :=
  [.v4 (127 * 2 ^ 24) 8, .v6 1 128, .v4 0 32, .v6 0 128, .v4 (0xa9fe * 2 ^ 16) 16,
    .v6 (0xfe80 * 2 ^ 112) 10]

def Local (ip : IP) : Prop := ∃ b ∈ localBlocks, b.Contains ip

instance (ip : IP) : Decidable (Local ip) := inferInstanceAs (Decidable (∃ b ∈ localBlocks, _))

theorem local_iff :
    Local ip ↔ ip.isLoopback = true ∨ ip.isUnspecified = true ∨ ip.isLinkLocalUnicast = true := by
  rw [IP.isLoopback_iff, IP.isUnspecified_iff, IP.isLinkLocalUnicast_iff]
  simp [Local, localBlocks, or_assoc]

/-- A connection for the configured host: to the address that it is, or to one that it resolves to. -/
def ConnectsTo (cfg : Settings) (net : Net) (host : Text) (d : Dial) : Prop :=
  parseIP host = some d.ip ∨
    (cfg.equalFold d.host host = true ∧ ∃ n ips, net.lookup n d.host = some ips ∧ d.ip ∈ ips)

/-- For the configured host, and to somewhere else than here. -/
structure Permitted (cfg : Settings) (net : Net) (host : Text) (d : Dial) : Prop where
  host : ConnectsTo cfg net host d
  foreign : ¬ Local d.ip

section

variable {cfg : Settings} {net : Net} {host : Text} {ip : IP}

theorem not_local (hblocked : isBlockedIP cfg ip = none) (hunspecified : ip.isUnspecified = false) :
    ¬ Local ip := by
  intro hlocal
  unfold isBlockedIP at hblocked
  rcases local_iff.1 hlocal with h | h | h
  · rw [if_pos h] at hblocked
    cases hblocked
  · rw [hunspecified] at h
    cases h
  · split_ifs at hblocked with _ hlink
    exact hlink (Bool.or_eq_true_iff.2 (.inl h))

theorem mem_sortIPsIPv4First (h : ip ∈ sortIPsIPv4First ips) : ip ∈ ips := by
  rcases mem_append.1 h with h | h
  · exact (mem_filter.1 h).1
  · exact (mem_filter.1 h).1

/-! What a program dials. -/

/-- All that a program dials has a property, and what it returns another. -/
def Dials (net : Net) (P : Dial → Prop) {α : Type} (x : NetM α) (Q : α → Prop) : Prop :=
  ∀ t, (∀ d ∈ (x net t).2.dials, d ∈ t.dials ∨ P d) ∧ Q (x net t).1

namespace Dials

variable {P P' : Dial → Prop}

theorem pure (h : Q a) : Dials net P (Pure.pure a) Q := fun _ => ⟨fun _ => .inl, h⟩

theorem bind (hx : Dials net P x Q)
    (hf : ∀ a, Q a → Dials net P (f a) R) : Dials net P (x >>= f) R := by
  intro t
  obtain ⟨hdials, ha⟩ := hx t
  obtain ⟨hmore, hb⟩ := hf _ ha (x net t).2
  refine ⟨?_, hb⟩
  intro d hd
  rcases hmore d hd with hd | hd
  · exact hdials d hd
  · exact .inr hd

theorem mono (hx : Dials net P x Q) (h : ∀ d, P d → P' d) : Dials net P' x Q := by
  intro t
  exact ⟨fun d hd => ((hx t).1 d hd).imp_right (h d), (hx t).2⟩

theorem ask : Dials net P (ask f) fun a => ∃ n, f net n = a :=
  fun t => ⟨fun _ => .inl, t.time, rfl⟩

theorem ite {p : Prop} [Decidable p] (hx : p → Dials net P x Q)
    (hy : ¬ p → Dials net P y Q) : Dials net P (if p then x else y) Q := by
  split_ifs with hp
  · exact hx hp
  · exact hy hp

theorem dialContext (hd : P d) : Dials net P (dialContext d) fun _ => True := by
  intro t
  refine ⟨?_, trivial⟩
  intro d' hd'
  rcases mem_cons.1 hd' with rfl | hd'
  · exact .inr hd
  · exact .inl hd'

theorem all (hx : Dials net P x Q) :
    ∀ d ∈ (x net { time := n }).2.dials, P d := by
  intro d hd
  exact ((hx _).1 d hd).resolve_left nofun

end Dials

theorem resolve_dials : Dials net P (resolveEgressIPs host)
      fun r => ∀ ips, r = some ips → ∃ n addresses, net.lookup n host = some addresses ∧
        ∀ ip ∈ ips, ip ∈ addresses := by
  apply Dials.bind Dials.ask
  rintro r ⟨n, hn⟩
  cases r with
  | none => exact Dials.pure nofun
  | some addresses =>
    apply Dials.pure
    rintro ips ⟨⟩
    exact ⟨n, addresses, hn, fun ip => mem_sortIPsIPv4First⟩

theorem dialAddresses_dials
    (hP : ∀ d : Dial, d.host = h → d.ip ∈ ips → isBlockedIP cfg d.ip = none → P d) :
    ∀ attempts, Dials net P (dialAddresses cfg h port ips attempts) fun _ => True := by
  induction ips with
  | nil =>
    intro attempts
    exact Dials.ite (fun _ => Dials.pure trivial) fun _ => Dials.pure trivial
  | cons ip ips ih =>
    intro attempts
    have hrest := ih fun d hd hmem => hP d hd (mem_cons_of_mem ip hmem)
    unfold dialAddresses
    cases hblocked : isBlockedIP cfg ip with
    | some reason => exact hrest _
    | none =>
      apply Dials.bind (Dials.dialContext (hP _ rfl mem_cons_self hblocked))
      intro connected _
      exact Dials.ite (fun _ => Dials.pure trivial) fun _ => hrest _

/-- A literal is dialed as it is configured, and a name is resolved anew. -/
theorem egressDialer_cases (hliteral : ∀ d : Dial, parseIP host = some d.ip → P d)
    (hname : ∀ (d : Dial) n ips, cfg.equalFold d.host host = true → net.lookup n d.host = some ips →
      d.ip ∈ ips → isBlockedIP cfg d.ip = none → P d) (network : Network) (addr : Text) :
    Dials net P (egressDialer cfg host network addr) fun _ => True := by
  unfold egressDialer
  cases splitHostPort addr with
  | error e => exact Dials.pure trivial
  | ok hostport =>
    obtain ⟨h, port⟩ := hostport
    dsimp only
    cases hip : parseIP h with
    | some ip =>
      cases hconfigured : parseIP host with
      | none => exact Dials.pure trivial
      | some configuredIP =>
        apply Dials.ite (fun _ => Dials.pure trivial)
        intro _
        apply Dials.bind (Dials.dialContext (hliteral _ hconfigured))
        intro connected _
        exact Dials.ite (fun _ => Dials.pure trivial) fun _ => Dials.pure trivial
    | none =>
      apply Dials.ite (fun _ => Dials.pure trivial)
      intro hfold
      apply Dials.bind resolve_dials
      intro r hr
      cases r with
      | none => exact Dials.pure trivial
      | some ips =>
        obtain ⟨n, addresses, hn, hmem⟩ := hr ips rfl
        apply dialAddresses_dials
        rintro d rfl hd hblocked
        exact hname d n addresses (not_not.1 hfold) hn (hmem _ (mem_sortIPsIPv4First hd)) hblocked

theorem egressDialer_dials (hlookup : ∀ n h ips, net.lookup n h = some ips →
      ∀ ip ∈ ips, ip.isUnspecified = false)
    (hhost : ∀ ip, parseIP host = some ip → ip.isUnspecified = false ∧ isBlockedIP cfg ip = none) :
    ∀ network addr, Dials net (Permitted cfg net host) (egressDialer cfg host network addr) fun _ => True := by
  apply egressDialer_cases
  · intro d hd
    obtain ⟨hunspecified, hblocked⟩ := hhost _ hd
    exact ⟨.inl hd, not_local hblocked hunspecified⟩
  · intro d n ips hfold hn hd hblocked
    exact ⟨.inr ⟨hfold, n, ips, hn, hd⟩, not_local hblocked (hlookup n _ _ hn _ hd)⟩

/-- Whatever a client does about redirects, the requests that they lead to are dialed the same way. -/
theorem roundTrips_dials {c : Client}
    (hdial : ∀ addr, Dials net P (egressDialer cfg c.dialHost .tcp addr) fun _ => True) :
    ∀ k addr, Dials net P (c.roundTrips cfg k addr) fun _ => True := by
  -- a request, if those that it is redirected to are as they should be
  have hone (k : ℕ) (hnext : ∀ j, k = j + 1 → ∀ addr, Dials net P (c.roundTrips cfg j addr) fun _ => True)
      (addr : Text) : Dials net P (c.roundTrips cfg k addr) fun _ => True := by
    unfold Client.roundTrips
    apply Dials.bind (hdial addr)
    intro r _
    cases r with
    | error e => exact Dials.pure trivial
    | ok d =>
      apply Dials.bind Dials.ask
      intro location _
      split
      · exact Dials.pure trivial
      · split
        · exact Dials.pure trivial
        · exact Dials.pure trivial
        · exact hnext _ rfl _
  intro k
  induction k with
  | zero => exact hone 0 nofun
  | succ k ih =>
    apply hone
    rintro j ⟨⟩
    exact ih

theorem requests_dials {c : Client}
    (hdial : ∀ addr, Dials net P (egressDialer cfg c.dialHost .tcp addr) fun _ => True)
    (addrs : List Text) : Dials net P (c.requests cfg addrs) fun _ => True := by
  induction addrs with
  | nil => exact Dials.pure trivial
  | cons addr addrs ih =>
    have hrequest : Dials net P (c.request cfg addr) fun _ => True := by
      unfold Client.request
      cases c.checkRedirect with
      | useLastResponse => exact roundTrips_dials hdial 0 addr
      | follow limit => exact roundTrips_dials hdial limit addr
    exact Dials.bind hrequest fun _ _ => ih

theorem checkHostEgress_dials : Dials net P (checkHostEgress cfg host)
      fun r => r = .ok () → ∀ ip, parseIP host = some ip → isBlockedIP cfg ip = none := by
  unfold checkHostEgress
  cases hip : parseIP host with
  | some ip =>
    dsimp only
    cases hblocked : isBlockedIP cfg ip with
    | some reason => exact Dials.pure nofun
    | none =>
      apply Dials.pure
      rintro - _ ⟨⟩
      exact hblocked
  | none =>
    apply Dials.bind resolve_dials
    intro r _
    split
    · exact Dials.pure nofun
    · exact Dials.pure nofun
    · split <;> exact Dials.pure nofun

/-- A client that is made dials the host that it was made for, and that was checked. -/
theorem newClient_dials : Dials net P (newClient cfg timeout responseHeaderTimeout u)
      fun r => ∀ c, r = .ok c → u = some c.dialHost ∧
        ∀ ip, parseIP c.dialHost = some ip → isBlockedIP cfg ip = none := by
  unfold newClient
  cases u with
  | none => exact Dials.pure nofun
  | some host =>
    simp only [parseEgressURL]
    split_ifs
    · exact Dials.pure nofun
    · apply Dials.bind checkHostEgress_dials
      intro r hr
      cases r with
      | error e => exact Dials.pure nofun
      | ok _ =>
        apply Dials.pure
        rintro c ⟨⟩
        exact ⟨rfl, hr rfl⟩

theorem session_cases (hdial : ∀ host, u = some host →
      (∀ ip, parseIP host = some ip → isBlockedIP cfg ip = none) → ∀ addr,
        Dials net P (egressDialer cfg host .tcp addr) fun _ => True) (addrs : List Text) :
    Dials net P (session cfg (newClient cfg timeout responseHeaderTimeout u) addrs) fun _ => True := by
  apply Dials.bind newClient_dials
  intro r hr
  cases r with
  | error e => exact Dials.pure trivial
  | ok c =>
    obtain ⟨hu, hblocked⟩ := hr c rfl
    exact requests_dials (hdial _ hu hblocked) addrs

theorem session_dials (hlookup : ∀ n h ips, net.lookup n h = some ips →
      ∀ ip ∈ ips, ip.isUnspecified = false)
    (hu : ∀ host ip, u = some host → parseIP host = some ip → ip.isUnspecified = false) :
    ∀ addrs, Dials net (fun d => ∃ host, u = some host ∧ Permitted cfg net host d)
      (session cfg (newClient cfg timeout responseHeaderTimeout u) addrs) fun _ => True := by
  apply session_cases
  intro host hhost hblocked addr
  have hdial := egressDialer_dials hlookup (fun ip hip => ⟨hu _ ip hhost hip, hblocked ip hip⟩) .tcp addr
  exact hdial.mono fun d hd => ⟨host, hhost, hd⟩

end

/-- No address that is refused is ever dialed, also where a name resolves to others than when it was checked. -/
theorem blocked_never_dialed (cfg : Settings) (net : Net) (u : Option Text) (addrs : List Text) :
    (∀ d ∈ (session cfg (newEgressHTTPClient cfg u) addrs net {}).2.dials, isBlockedIP cfg d.ip = none) ∧
      ∀ d ∈ (session cfg (newEgressStreamingHTTPClient cfg u) addrs net {}).2.dials,
        isBlockedIP cfg d.ip = none := by
  constructor
  all_goals
    refine (session_cases (P := fun d => isBlockedIP cfg d.ip = none) ?_ addrs).all
    intro host _ hblocked
    exact egressDialer_cases (fun d => hblocked d.ip) (fun _ _ _ _ _ _ h => h) .tcp

/-- Unless a name resolves to the unspecified address or that is the host itself, every connection is for
the configured host, and to an address elsewhere. A dialer that is used without one of the constructors
is, moreover, not made for an address that they refuse. -/
theorem egress_stays_outside {cfg : Settings} {net : Net}
    (hlookup : ∀ n h ips, net.lookup n h = some ips → ∀ ip ∈ ips, ip.isUnspecified = false) :
    (∀ u, (∀ host ip, u = some host → parseIP host = some ip → ip.isUnspecified = false) → ∀ addrs,
      (∀ d ∈ (session cfg (newEgressHTTPClient cfg u) addrs net {}).2.dials,
        ∃ host, u = some host ∧ Permitted cfg net host d) ∧
      ∀ d ∈ (session cfg (newEgressStreamingHTTPClient cfg u) addrs net {}).2.dials,
        ∃ host, u = some host ∧ Permitted cfg net host d) ∧
    ∀ host, (∀ ip, parseIP host = some ip → ip.isUnspecified = false ∧ isBlockedIP cfg ip = none) →
      (∀ n network addr, ∀ d ∈ (egressDialer cfg host network addr net { time := n }).2.dials,
        Permitted cfg net host d) ∧
      ∀ (c : Client) addrs, c.dialHost = host → ∀ d ∈ (c.requests cfg addrs net {}).2.dials,
        Permitted cfg net host d := by
  constructor
  · intro u hu addrs
    exact ⟨(session_dials hlookup hu addrs).all, (session_dials hlookup hu addrs).all⟩
  · intro host hhost
    constructor
    · intro n network addr
      exact (egressDialer_dials hlookup hhost network addr).all
    · rintro c addrs rfl
      exact (requests_dials (egressDialer_dials hlookup hhost .tcp) addrs).all

/-- Names that resolve to one address each, connections that come about, and no redirects. -/
def resolving (ip : IP) : Net where
  lookup _ _ := some [ip]
  connects _ := true
  redirect _ := none

def anyCase : Settings where
  blockPrivateEgress := true
  equalFold a b := a.map Char.toLower = b.map Char.toLower

def outsideAddress : IP := ⟨[192, 0, 2, 1], .inl rfl⟩

theorem provider_is_outside :
    (session anyCase (newEgressHTTPClient anyCase (some "cloud.example".toList))
      ["cloud.example:443".toList] (resolving outsideAddress) {}).2.dials =
        [⟨"cloud.example".toList, .tcp4, outsideAddress, "443".toList⟩] ∧
      ∀ d ∈ (session anyCase (newEgressHTTPClient anyCase (some "cloud.example".toList))
        ["cloud.example:443".toList] (resolving outsideAddress) {}).2.dials,
        ∃ host, some "cloud.example".toList = some host ∧
          Permitted anyCase (resolving outsideAddress) host d := by
  refine ⟨by decide +kernel, ?_⟩
  have hlookup : ∀ n h ips, (resolving outsideAddress).lookup n h = some ips →
      ∀ ip ∈ ips, ip.isUnspecified = false := by
    rintro n h ips ⟨⟩ ip hip
    cases mem_singleton.1 hip
    decide
  refine ((@egress_stays_outside anyCase _ hlookup).1 (some "cloud.example".toList) ?_ _).1
  rintro host ip ⟨⟩ hip
  have hnone : parseIP "cloud.example".toList = none := by decide +kernel
  cases hnone.symm.trans hip

/-- The unspecified address is dialed, as the host and as what a name resolves to; and a dialer alone
dials a loopback address that it is made for. -/
theorem local_machine_is_dialed :
    (∃ d ∈ (session anyCase (newEgressHTTPClient anyCase (some "0.0.0.0".toList)) ["0.0.0.0:80".toList]
      (resolving outsideAddress) {}).2.dials, Local d.ip) ∧
    (∃ d ∈ (session anyCase (newEgressStreamingHTTPClient anyCase (some "cloud.example".toList))
      ["cloud.example:80".toList] (resolving ⟨Bytes.be 16 0, .inr rfl⟩) {}).2.dials, Local d.ip) ∧
    ∃ d ∈ (egressDialer anyCase "127.0.0.1".toList .tcp "127.0.0.1:80".toList
      (resolving outsideAddress) {}).2.dials, Local d.ip := by
  decide +kernel

end Clumoove.Egress
