import Clumoove.Lib.Inet

/-! Connections to providers: `ssrf.go`. A host is checked when a client is made for it, and its addresses
are looked up and checked again at every connection. -/

namespace Clumoove.Egress

open Inet

/-- The process: its environment variable, and the comparison that ignores case. -/
structure Settings where
  blockPrivateEgress : Bool
  equalFold : Text → Text → Bool

inductive Reason
  | loopback
  | linkLocal
  | privateNetwork
  deriving DecidableEq

inductive EgressError
  | invalidURL
  | noHost
  | notAllowed (host : Text) (ip : IP) (reason : Reason)
  | lookup (host : Text)
  | noAddresses (host : Text)
  | invalidDialAddress (addr : Text) (e : AddrError)
  | literalMismatch (host : Text)
  | literalForbidden (host configuredHost : Text)
  | hostMismatch (host configuredHost : Text)
  | connection
  /-- Each address was blocked, for a reason, or could not be reached. -/
  | failed (host : Text) (attempts : List (IP × Option Reason))
  | notDialable (host : Text)
  | tooManyRedirects
  deriving DecidableEq

inductive Network
  | tcp
  | tcp4
  | tcp6
  deriving DecidableEq

/-- A connection that is opened, or tried: the host that was asked for and the address that is dialed. -/
structure Dial where
  host : Text
  network : Network
  ip : IP
  port : Text
  deriving DecidableEq

/-- The surroundings, which may act anew every time: the answer to a lookup, whether a connection comes
about, and where a response redirects to, as the address to dial. -/
structure Net where
  lookup : ℕ → Text → Option (List IP)
  connects : ℕ → Bool
  redirect : ℕ → Option Text

/-- How often the surroundings were asked, and what was dialed, the last connection first. -/
structure Trace where
  time : ℕ := 0
  dials : List Dial := []
  deriving DecidableEq

abbrev NetM := ReaderT Net (StateM Trace)

def ask {α : Type} (f : Net → ℕ → α) : NetM α := fun net t => (f net t.time, { t with time := t.time + 1 })

/-- `Dialer.DialContext` with an address, not a name. -/
def dialContext (d : Dial) : NetM Bool := fun net t =>
  (net.connects t.time, { time := t.time + 1, dials := d :: t.dials })

section

variable (cfg : Settings)

def isBlockedIP (ip : IP) : Option Reason :=
  if ip.isLoopback then some .loopback
  else if ip.isLinkLocalUnicast || ip.isLinkLocalMulticast then some .linkLocal
  else if cfg.blockPrivateEgress && ip.isPrivate then some .privateNetwork
  else none

def sortIPsIPv4First (ips : List IP) : List IP :=
  ips.filter (·.to4.isSome) ++ ips.filter (·.to4.isNone)

def resolveEgressIPs (host : Text) : NetM (Option (List IP)) := do
  match ← ask (·.lookup · host) with
  | some addresses => return some (sortIPsIPv4First addresses)
  | none => return none

def firstBlocked : List IP → Option (IP × Reason)
  | [] => none
  | ip :: ips =>
    match isBlockedIP cfg ip with
    | some reason => some (ip, reason)
    | none => firstBlocked ips

def checkHostEgress (host : Text) : NetM (Except EgressError Unit) :=
  match parseIP host with
  | some ip =>
    match isBlockedIP cfg ip with
    | some reason => return .error (.notAllowed host ip reason)
    | none => return .ok ()
  | none => do
    match ← resolveEgressIPs host with
    | none => return .error (.lookup host)
    | some [] => return .error (.noAddresses host)
    | some ips =>
      match firstBlocked cfg ips with
      | some (ip, reason) => return .error (.notAllowed host ip reason)
      | none => return .ok ()

/-- `u` is the host of the URL, if that is one. -/
def parseEgressURL : Option Text → Except EgressError Text
  | none => .error .invalidURL
  | some host => if host = [] then .error .noHost else .ok host

def dialAddresses (host port : Text) :
    List IP → List (IP × Option Reason) → NetM (Except EgressError Dial)
  | [], attempts =>
    if attempts = [] then return .error (.notDialable host) else return .error (.failed host attempts)
  | ip :: ips, attempts =>
    match isBlockedIP cfg ip with
    | some reason => dialAddresses host port ips (attempts ++ [(ip, some reason)])
    | none => do
      let d : Dial := { host, network := if ip.to4.isSome then .tcp4 else .tcp6, ip, port }
      if ← dialContext d then return .ok d
      else dialAddresses host port ips (attempts ++ [(ip, none)])

def egressDialer (configuredHost : Text) (network : Network) (addr : Text) :
    NetM (Except EgressError Dial) :=
  match splitHostPort addr with
  | .error e => return .error (.invalidDialAddress addr e)
  | .ok (host, port) =>
    match parseIP host with
    | some ip =>
      match parseIP configuredHost with
      | some configuredIP =>
        if ¬ configuredIP.equal ip then return .error (.literalMismatch host)
        else do
          let d : Dial := { host, network, ip := configuredIP, port }
          if ← dialContext d then return .ok d else return .error .connection
      | none => return .error (.literalForbidden host configuredHost)
    | none =>
      if ¬ cfg.equalFold host configuredHost then return .error (.hostMismatch host configuredHost)
      else do
        match ← resolveEgressIPs host with
        | none => return .error (.lookup host)
        | some ips => dialAddresses cfg host port (sortIPsIPv4First ips) []

/-! Clients. -/

/-- What a client does about a redirect: it returns the response, or it follows a number of them. -/
inductive CheckRedirect
  | useLastResponse
  | follow (limit : ℕ)
  deriving DecidableEq

/-- Timeouts in seconds, where there are any. -/
structure Client where
  dialHost : Text
  checkRedirect : CheckRedirect
  timeout : Option ℕ
  responseHeaderTimeout : Option ℕ
  deriving DecidableEq

def rejectEgressRedirect : CheckRedirect := .useLastResponse

def newClient (timeout responseHeaderTimeout : Option ℕ) (u : Option Text) :
    NetM (Except EgressError Client) :=
  match parseEgressURL u with
  | .error e => return .error e
  | .ok host => do
    match ← checkHostEgress cfg host with
    | .error e => return .error e
    | .ok _ =>
      return .ok { dialHost := host, checkRedirect := rejectEgressRedirect, timeout, responseHeaderTimeout }

def newEgressHTTPClient : Option Text → NetM (Except EgressError Client) := newClient cfg (some 15) none

def newEgressStreamingHTTPClient : Option Text → NetM (Except EgressError Client) :=
  newClient cfg none (some 300)

/-- A request, and those that it is redirected to while `k` more may be followed. A connection that is
kept alive would be used again; here each request opens its own. -/
def Client.roundTrips (c : Client) : ℕ → Text → NetM (Except EgressError Dial)
  | k, addr => do
    match ← egressDialer cfg c.dialHost .tcp addr with
    | .error e => return .error e
    | .ok d =>
      match ← ask (·.redirect ·) with
      | none => return .ok d
      | some location =>
        match c.checkRedirect, k with
        | .useLastResponse, _ => return .ok d
        | .follow _, 0 => return .error .tooManyRedirects
        | .follow _, k + 1 => c.roundTrips k location

def Client.request (c : Client) (addr : Text) : NetM (Except EgressError Dial) :=
  match c.checkRedirect with
  | .useLastResponse => c.roundTrips cfg 0 addr
  | .follow limit => c.roundTrips cfg limit addr

def Client.requests (c : Client) : List Text → NetM Unit
  | [] => return ()
  | addr :: addrs => do
    let _ ← c.request cfg addr
    c.requests addrs

def session (new : NetM (Except EgressError Client)) (addrs : List Text) : NetM Unit := do
  match ← new with
  | .error _ => return ()
  | .ok c => c.requests cfg addrs

end

end Clumoove.Egress
