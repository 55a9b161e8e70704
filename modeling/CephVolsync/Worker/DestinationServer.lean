import CephVolsync.Basic
import CephVolsync.Library.TransitionSystem

/-! The destination process as its clients see it (`internal/worker/common`: `destination.go`,
`grpc.go`, `direct_listener.go`, `tls.go`). `RunDestinationServer` serves calls behind stunnel; an
`ExchangeCerts` call opens a second server with direct TLS that pins the certificate of the
caller, and `Done` makes the process stop both. A gRPC handler runs as a goroutine of its own, so
calls interleave. `GracefulStop` returns when no handler of its server is left; connections that
it still drains may bring further calls until then. -/

namespace CephVolsync.Worker

/-- What the exchange of certificates rests on: `pem.Decode`, as far as the bytes of the first
block, and `sha256.Sum256`. -/
structure Crypto (FP : Type) where
  decode : GoString → Option GoString
  sum256 : GoString → FP

structure EphemeralCert {FP : Type} (c : Crypto FP) where
  certPEM : GoString
  tlsCert : GoString
  decodes : c.decode certPEM = some tlsCert

inductive TlsErr where
  | decodePEM
  | noPeerCertificate
  | fingerprintMismatch
  deriving DecidableEq, Repr

/-- `tls.Config`; `peerFP` is what its `VerifyPeerCertificate` expects. -/
structure TlsConfig (FP : Type) where
  certificates : List GoString
  requireAnyClientCert : Bool
  peerFP : FP
  deriving DecidableEq

variable {FP : Type} [DecidableEq FP] {c : Crypto FP}

def peerFingerprint (c : Crypto FP) (certPEM : GoString) : Except TlsErr FP :=
  match c.decode certPEM with
  | none => .error .decodePEM
  | some der => .ok (c.sum256 der)

def fingerprintVerifier (c : Crypto FP) (expected : FP) : List GoString → Except TlsErr Unit
  | [] => .error .noPeerCertificate
  | der :: _ => if c.sum256 der = expected then .ok () else .error .fingerprintMismatch

def newServerTLSConfig (serverCert : EphemeralCert c) (clientCertPEM : GoString) :
    Except TlsErr (TlsConfig FP) :=
  (peerFingerprint c clientCertPEM).map fun peerFP => ⟨[serverCert.tlsCert], true, peerFP⟩

def newClientTLSConfig (clientCert : EphemeralCert c) (serverCertPEM : GoString) :
    Except TlsErr (TlsConfig FP) :=
  (peerFingerprint c serverCertPEM).map fun peerFP => ⟨[clientCert.tlsCert], false, peerFP⟩

/-- What a server with this configuration makes of the certificates of a client: it asks for one,
and runs the verifier on what it gets. -/
def TlsConfig.admits (c : Crypto FP) (config : TlsConfig FP) (rawCerts : List GoString) : Bool :=
  if rawCerts = [] then !config.requireAnyClientCert
  else (fingerprintVerifier c config.peerFP rawCerts).toBool

/-- The server of a call: the one behind stunnel, or a direct TLS listener. -/
inductive Via where
  | stunnel
  | direct (n : ℕ)
  deriving DecidableEq, Repr

inductive Request where
  | stream
  | done
  | exchangeCerts (clientCertPem : GoString)
  deriving DecidableEq, Repr

/-- The handler of a call. `stream` is a handler of `Write`, `Delete` or `Commit`; the others are
places in `Done` and `ExchangeCerts`: in front of `mu.Lock`, behind it, in `directListener.Stop`,
in front of the certificate, of `net.Listen`, of `PeerFingerprint`, and in `dl.Stop`. -/
inductive CallPC (c : Crypto FP) where
  | stream
  | done
  | exchange (pem : GoString)
  | locked (pem : GoString)
  | stop (pem : GoString) (n : ℕ)
  | generate (pem : GoString)
  | start (pem : GoString) (cert : EphemeralCert c) (config : TlsConfig FP)
  | pin (pem : GoString) (cert : EphemeralCert c) (n : ℕ)
  | undo (pem : GoString) (err : TlsErr) (n : ℕ)

def Request.pc : Request → CallPC c
  | .stream => .stream
  | .done => .done
  | .exchangeCerts pem => .exchange pem

structure Call (c : Crypto FP) where
  client : ℕ
  via : Via
  pc : CallPC c

/-- A `DirectTLSListener` with its server; `accepting` until its `GracefulStop` returns. -/
structure DirectTLSListener (FP : Type) where
  config : TlsConfig FP
  accepting : Bool
  deriving DecidableEq

inductive ExchangeErr where
  | clientFingerprint (err : TlsErr)
  | serverCert
  | serverTLSConfig (err : TlsErr)
  | listen
  | pinning (err : TlsErr)
  deriving DecidableEq, Repr

structure ExchangeCertsResponse where
  serverCertPem : GoString
  directTlsPort : ℤ
  deriving DecidableEq, Repr

/-- What happened so far: the certificates that `ExchangeCerts` requests carried, its answers, and
the calls of `Done`. The process reads none of it. -/
inductive Event where
  | announced (pem : GoString)
  | answered (pem : GoString) (answer : Except ExchangeErr ExchangeCertsResponse)
  | done
  deriving DecidableEq

inductive Holder (N : ℕ) where
  | call (i : Fin N)
  | runner
  deriving DecidableEq, Repr

inductive RunResult where
  | ctxErr
  | serverErr
  | done
  deriving DecidableEq, Repr

/-- `RunDestinationServer`: in its `select`, in `server.GracefulStop`, in front of the lock of
`StopDirectTLS`, in `directListener.Stop` behind it. -/
inductive RunnerPC where
  | select
  | stopServer (result : RunResult)
  | lock (result : RunResult)
  | stopDirect (result : RunResult) (n : ℕ)
  | returned (result : RunResult)
  deriving DecidableEq, Repr

/-- The process with room for `N` calls at a time. `accepting` is the server behind stunnel. The
listeners are all that were ever opened, and `mu`, `serverCert`, `directListener` and
`pinnedClientFP` are the fields of `CertExchangeHandler`. -/
structure Destination (c : Crypto FP) (N : ℕ) where
  accepting : Bool
  listeners : List (DirectTLSListener FP)
  calls : Fin N → Option (Call c)
  mu : Option (Holder N)
  serverCert : Option (EphemeralCert c)
  directListener : Option ℕ
  pinnedClientFP : FP
  shutdownChan : Bool
  serverErr : Bool
  ctxDone : Bool
  runner : RunnerPC
  events : List Event

inductive CallAction (c : Crypto FP) where
  | finish
  | done
  | lock
  | check
  | stopped
  | generate (cert : Option (EphemeralCert c))
  | listen (ok : Bool)
  | pin
  | undone

inductive RunAction where
  | ctxDone
  | serverErr
  | shutdown
  | serverStopped
  | lock
  | directStopped
  deriving DecidableEq, Repr

inductive ServerAction (c : Crypto FP) (N : ℕ) where
  | arrive (i : Fin N) (client : ℕ) (via : Via) (request : Request)
  | call (i : Fin N) (action : CallAction c)
  | run (action : RunAction)
  | cancel
  | serveFails

def directTLSPort : ℤ := 8081

namespace Destination

variable {N : ℕ}

@[simps! directListener events]
def set (s : Destination c N) (i : Fin N) (call : Option (Call c)) : Destination c N :=
  { s with calls := Function.update s.calls i call }

@[simps! calls directListener events runner]
def at_ (s : Destination c N) (i : Fin N) (call : Call c) (pc : CallPC c) : Destination c N :=
  s.set i (some { call with pc := pc })

@[simps! calls directListener events]
def refuse (s : Destination c N) (n : ℕ) : Destination c N :=
  { s with listeners := s.listeners.modify n fun l => { l with accepting := false } }

@[simps! directListener events listeners mu runner]
def answer (s : Destination c N) (i : Fin N) (pem : GoString)
    (result : Except ExchangeErr ExchangeCertsResponse) : Destination c N :=
  { s.set i none with mu := none, events := s.events ++ [.answered pem result] }

def idle (s : Destination c N) (via : Via) : Bool :=
  decide (∀ i, (s.calls i).all (fun call => call.via ≠ via) = true)

/-- A server takes a call; a direct one only from clients that its configuration admits. -/
def takes (s : Destination c N) (cert : EphemeralCert c) : Via → Bool
  | .stunnel => s.accepting
  | .direct n =>
    match s.listeners[n]? with
    | none => false
    | some l => l.accepting && l.config.admits c [cert.tlsCert]

/-- `ExchangeCerts` from the lock to its answer, to `directListener.Stop` or to the generation of
a certificate. -/
def check (s : Destination c N) (i : Fin N) (call : Call c) (pem : GoString) : Destination c N :=
  match s.directListener with
  | none => s.at_ i call (.generate pem)
  | some n =>
    match peerFingerprint c pem with
    | .error err => s.answer i pem (.error (.clientFingerprint err))
    | .ok newFP =>
      if newFP = s.pinnedClientFP then
        s.answer i pem (.ok ⟨(s.serverCert.map (·.certPEM)).getD [], directTLSPort⟩)
      else s.at_ i call (.stop pem n)

def callStep (s : Destination c N) (i : Fin N) (call : Call c) (action : CallAction c) :
    Option (Destination c N) :=
  match call.pc, action with
  | .stream, .finish => some (s.set i none)
  | .done, .done =>
    -- the channel has room for one signal, and a further one is dropped
    some { s.set i none with shutdownChan := true, events := s.events ++ [.done] }
  | .exchange pem, .lock =>
    if s.mu = none then some { s.at_ i call (.locked pem) with mu := some (.call i) } else none
  | .locked pem, .check => some (s.check i call pem)
  | .stop pem n, .stopped =>
    if s.idle (.direct n) then
      some { (s.refuse n).at_ i call (.generate pem) with directListener := none }
    else none
  | .generate pem, .generate none => some (s.answer i pem (.error .serverCert))
  | .generate pem, .generate (some cert) =>
    match newServerTLSConfig cert pem with
    | .error err => some (s.answer i pem (.error (.serverTLSConfig err)))
    | .ok config => some (s.at_ i call (.start pem cert config))
  | .start pem _ _, .listen false => some (s.answer i pem (.error .listen))
  | .start pem cert config, .listen true =>
    some { s.at_ i call (.pin pem cert s.listeners.length) with
      listeners := s.listeners ++ [⟨config, true⟩] }
  | .pin pem cert n, .pin =>
    match peerFingerprint c pem with
    | .error err => some (s.at_ i call (.undo pem err n))
    | .ok clientFP => some { s.answer i pem (.ok ⟨cert.certPEM, directTLSPort⟩) with
        serverCert := some cert, directListener := some n, pinnedClientFP := clientFP }
  | .undo pem err n, .undone =>
    if s.idle (.direct n) then some ((s.refuse n).answer i pem (.error (.pinning err))) else none
  | _, _ => none

def runStep (s : Destination c N) (action : RunAction) : Option (Destination c N) :=
  match s.runner, action with
  | .select, .ctxDone =>
    if s.ctxDone then some { s with runner := .stopServer .ctxErr } else none
  | .select, .serverErr =>
    if s.serverErr then some { s with runner := .lock .serverErr, serverErr := false } else none
  | .select, .shutdown =>
    if s.shutdownChan then some { s with runner := .stopServer .done, shutdownChan := false }
    else none
  | .stopServer r, .serverStopped =>
    if s.idle .stunnel then some { s with runner := .lock r, accepting := false } else none
  | .lock r, .lock =>
    if s.mu = none then
      match s.directListener with
      | none => some { s with runner := .returned r }
      | some n => some { s with mu := some .runner, runner := .stopDirect r n }
    else none
  | .stopDirect r n, .directStopped =>
    if s.idle (.direct n) then some { s.refuse n with mu := none, runner := .returned r } else none
  | _, _ => none

end Destination

open Destination

/-- One step of the process; `certs` are the certificates of its clients. -/
def serverStep (certs : ℕ → EphemeralCert c) {N : ℕ} (s : Destination c N) :
    ServerAction c N → Option (Destination c N)
  | .arrive i client via request =>
    match s.calls i with
    | some _ => none
    | none =>
      if s.takes (certs client) via then
        some { s.set i (some ⟨client, via, request.pc⟩) with
          events := match request with
            | .exchangeCerts pem => s.events ++ [.announced pem]
            | _ => s.events }
      else none
  | .call i action =>
    match s.calls i with
    | none => none
    | some call => s.callStep i call action
  | .run action => s.runStep action
  | .cancel => some { s with ctxDone := true }
  | .serveFails => if s.accepting then some { s with serverErr := true } else none

def serverInit (c : Crypto FP) [Inhabited FP] (N : ℕ) : Destination c N :=
  ⟨true, [], fun _ => none, none, none, none, default, false, false, false, .select, []⟩

section Inversion

variable {certs : ℕ → EphemeralCert c} {N : ℕ} {s : Destination c N}

/-- What a step does. The answers that carry an error without an effect on the listeners are one
case. -/
inductive ServerStep (certs : ℕ → EphemeralCert c) (s : Destination c N) :
    ServerAction c N → Destination c N → Prop
  | arrive (i : Fin N) (client : ℕ) (via : Via) (request : Request) (free : s.calls i = none)
      (takes : s.takes (certs client) via = true) :
      ServerStep certs s (.arrive i client via request)
        { s.set i (some ⟨client, via, request.pc⟩) with
          events := match request with
            | .exchangeCerts pem => s.events ++ [.announced pem]
            | _ => s.events }
  | finish (i : Fin N) (call : Call c) (here : s.calls i = some call) (pc : call.pc = .stream) :
      ServerStep certs s (.call i .finish) (s.set i none)
  | done (i : Fin N) (call : Call c) (here : s.calls i = some call) (pc : call.pc = .done) :
      ServerStep certs s (.call i .done)
        { s.set i none with shutdownChan := true, events := s.events ++ [.done] }
  | lock (i : Fin N) (call : Call c) (here : s.calls i = some call) (pem : GoString)
      (pc : call.pc = .exchange pem) (free : s.mu = none) :
      ServerStep certs s (.call i .lock)
        { s.at_ i call (.locked pem) with mu := some (.call i) }
  | reject (i : Fin N) (call : Call c) (here : s.calls i = some call) (pem : GoString)
      (pc : (call.pc = .locked pem ∧ ∀ fp, peerFingerprint c pem ≠ .ok fp) ∨
        call.pc = .generate pem ∨ ∃ cert config, call.pc = .start pem cert config)
      (action : CallAction c) (err : ExchangeErr) :
      ServerStep certs s (.call i action) (s.answer i pem (.error err))
  | repeated (i : Fin N) (call : Call c) (here : s.calls i = some call) (pem : GoString)
      (pc : call.pc = .locked pem) (n : ℕ) (listens : s.directListener = some n)
      (same : peerFingerprint c pem = .ok s.pinnedClientFP) :
      ServerStep certs s (.call i .check)
        (s.answer i pem (.ok ⟨(s.serverCert.map (·.certPEM)).getD [], directTLSPort⟩))
  | repin (i : Fin N) (call : Call c) (here : s.calls i = some call) (pem : GoString)
      (pc : call.pc = .locked pem) (n : ℕ) (listens : s.directListener = some n) (newFP : FP)
      (given : peerFingerprint c pem = .ok newFP) (other : newFP ≠ s.pinnedClientFP) :
      ServerStep certs s (.call i .check) (s.at_ i call (.stop pem n))
  | fresh (i : Fin N) (call : Call c) (here : s.calls i = some call) (pem : GoString)
      (pc : call.pc = .locked pem) (unlistened : s.directListener = none) :
      ServerStep certs s (.call i .check) (s.at_ i call (.generate pem))
  | stopped (i : Fin N) (call : Call c) (here : s.calls i = some call) (pem : GoString) (n : ℕ)
      (pc : call.pc = .stop pem n) (idle : s.idle (.direct n) = true) :
      ServerStep certs s (.call i .stopped)
        { (s.refuse n).at_ i call (.generate pem) with directListener := none }
  | generated (i : Fin N) (call : Call c) (here : s.calls i = some call) (pem : GoString)
      (pc : call.pc = .generate pem) (cert : EphemeralCert c) (config : TlsConfig FP)
      (made : newServerTLSConfig cert pem = .ok config) :
      ServerStep certs s (.call i (.generate (some cert))) (s.at_ i call (.start pem cert config))
  | listening (i : Fin N) (call : Call c) (here : s.calls i = some call) (pem : GoString)
      (cert : EphemeralCert c) (config : TlsConfig FP) (pc : call.pc = .start pem cert config) :
      ServerStep certs s (.call i (.listen true))
        { s.at_ i call (.pin pem cert s.listeners.length) with
          listeners := s.listeners ++ [⟨config, true⟩] }
  | pinned (i : Fin N) (call : Call c) (here : s.calls i = some call) (pem : GoString)
      (cert : EphemeralCert c) (n : ℕ) (pc : call.pc = .pin pem cert n) (clientFP : FP)
      (given : peerFingerprint c pem = .ok clientFP) :
      ServerStep certs s (.call i .pin)
        { s.answer i pem (.ok ⟨cert.certPEM, directTLSPort⟩) with
          serverCert := some cert, directListener := some n, pinnedClientFP := clientFP }
  | unpinned (i : Fin N) (call : Call c) (here : s.calls i = some call) (pem : GoString)
      (cert : EphemeralCert c) (n : ℕ) (pc : call.pc = .pin pem cert n) (err : TlsErr)
      (failed : peerFingerprint c pem = .error err) :
      ServerStep certs s (.call i .pin) (s.at_ i call (.undo pem err n))
  | undone (i : Fin N) (call : Call c) (here : s.calls i = some call) (pem : GoString)
      (err : TlsErr) (n : ℕ) (pc : call.pc = .undo pem err n)
      (idle : s.idle (.direct n) = true) :
      ServerStep certs s (.call i .undone) ((s.refuse n).answer i pem (.error (.pinning err)))
  | runCtx (runner : s.runner = .select) (signal : s.ctxDone = true) :
      ServerStep certs s (.run .ctxDone) { s with runner := .stopServer .ctxErr }
  | runErr (runner : s.runner = .select) (signal : s.serverErr = true) :
      ServerStep certs s (.run .serverErr)
        { s with runner := .lock .serverErr, serverErr := false }
  | runDone (runner : s.runner = .select) (signal : s.shutdownChan = true) :
      ServerStep certs s (.run .shutdown)
        { s with runner := .stopServer .done, shutdownChan := false }
  | serverStopped (r : RunResult) (runner : s.runner = .stopServer r)
      (idle : s.idle .stunnel = true) :
      ServerStep certs s (.run .serverStopped) { s with runner := .lock r, accepting := false }
  | unlistened (r : RunResult) (runner : s.runner = .lock r) (free : s.mu = none)
      (absent : s.directListener = none) :
      ServerStep certs s (.run .lock) { s with runner := .returned r }
  | stopDirect (r : RunResult) (runner : s.runner = .lock r) (free : s.mu = none) (n : ℕ)
      (listens : s.directListener = some n) :
      ServerStep certs s (.run .lock) { s with mu := some .runner, runner := .stopDirect r n }
  | directStopped (r : RunResult) (n : ℕ) (runner : s.runner = .stopDirect r n)
      (idle : s.idle (.direct n) = true) :
      ServerStep certs s (.run .directStopped)
        { s.refuse n with mu := none, runner := .returned r }
  | cancel : ServerStep certs s .cancel { s with ctxDone := true }
  | serveFails (accepting : s.accepting = true) :
      ServerStep certs s .serveFails { s with serverErr := true }

theorem check_cases {i : Fin N} {call : Call c} {pem : GoString} (here : s.calls i = some call)
    (pc : call.pc = .locked pem) :
    ServerStep certs s (.call i .check) (s.check i call pem) := by
  unfold Destination.check
  cases listens : s.directListener with
  | none => exact .fresh i call here pem pc listens
  | some n =>
    cases given : peerFingerprint c pem with
    | error err => exact .reject i call here pem (.inl ⟨pc, by simp [given]⟩) .check _
    | ok newFP =>
      by_cases same : newFP = s.pinnedClientFP
      · simp only [if_pos same]
        exact .repeated i call here pem pc n listens (by rw [given, same])
      · simp only [if_neg same]
        exact .repin i call here pem pc n listens newFP given same

theorem callStep_cases {s' : Destination c N} {i : Fin N} {call : Call c} {a : CallAction c}
    (here : s.calls i = some call) (h : s.callStep i call a = some s') :
    ServerStep certs s (.call i a) s' := by
  cases pc : call.pc with
  | stream =>
    cases a with
    | finish =>
      simp only [callStep, pc, Option.some.injEq] at h
      subst h
      exact .finish i call here pc
    | _ => simp [callStep, pc] at h
  | done =>
    cases a with
    | done =>
      simp only [callStep, pc, Option.some.injEq] at h
      subst h
      exact .done i call here pc
    | _ => simp [callStep, pc] at h
  | exchange pem =>
    cases a with
    | lock =>
      simp only [callStep, pc, Option.ite_none_right_eq_some, Option.some.injEq] at h
      obtain ⟨free, rfl⟩ := h
      exact .lock i call here pem pc free
    | _ => simp [callStep, pc] at h
  | locked pem =>
    cases a with
    | check =>
      simp only [callStep, pc, Option.some.injEq] at h
      subst h
      exact check_cases here pc
    | _ => simp [callStep, pc] at h
  | stop pem n =>
    cases a with
    | stopped =>
      simp only [callStep, pc, Option.ite_none_right_eq_some, Option.some.injEq] at h
      obtain ⟨idle, rfl⟩ := h
      exact .stopped i call here pem n pc idle
    | _ => simp [callStep, pc] at h
  | generate pem =>
    cases a with
    | generate cert =>
      cases cert with
      | none =>
        simp only [callStep, pc, Option.some.injEq] at h
        subst h
        exact .reject i call here pem (.inr (.inl pc)) _ _
      | some cert =>
        cases made : newServerTLSConfig cert pem with
        | error err =>
          simp only [callStep, pc, made, Option.some.injEq] at h
          subst h
          exact .reject i call here pem (.inr (.inl pc)) _ _
        | ok config =>
          simp only [callStep, pc, made, Option.some.injEq] at h
          subst h
          exact .generated i call here pem pc cert config made
    | _ => simp [callStep, pc] at h
  | start pem cert config =>
    cases a with
    | listen ok =>
      cases ok with
      | false =>
        simp only [callStep, pc, Option.some.injEq] at h
        subst h
        exact .reject i call here pem (.inr (.inr ⟨cert, config, pc⟩)) _ _
      | true =>
        simp only [callStep, pc, Option.some.injEq] at h
        subst h
        exact .listening i call here pem cert config pc
    | _ => simp [callStep, pc] at h
  | pin pem cert n =>
    cases a with
    | pin =>
      cases given : peerFingerprint c pem with
      | error err =>
        simp only [callStep, pc, given, Option.some.injEq] at h
        subst h
        exact .unpinned i call here pem cert n pc err given
      | ok clientFP =>
        simp only [callStep, pc, given, Option.some.injEq] at h
        subst h
        exact .pinned i call here pem cert n pc clientFP given
    | _ => simp [callStep, pc] at h
  | undo pem err n =>
    cases a with
    | undone =>
      simp only [callStep, pc, Option.ite_none_right_eq_some, Option.some.injEq] at h
      obtain ⟨idle, rfl⟩ := h
      exact .undone i call here pem err n pc idle
    | _ => simp [callStep, pc] at h

theorem runStep_cases {s' : Destination c N} {a : RunAction} (h : s.runStep a = some s') :
    ServerStep certs s (.run a) s' := by
  cases runner : s.runner with
  | select =>
    cases a with
    | ctxDone =>
      simp only [runStep, runner, Option.ite_none_right_eq_some, Option.some.injEq] at h
      obtain ⟨signal, rfl⟩ := h
      exact .runCtx runner signal
    | serverErr =>
      simp only [runStep, runner, Option.ite_none_right_eq_some, Option.some.injEq] at h
      obtain ⟨signal, rfl⟩ := h
      exact .runErr runner signal
    | shutdown =>
      simp only [runStep, runner, Option.ite_none_right_eq_some, Option.some.injEq] at h
      obtain ⟨signal, rfl⟩ := h
      exact .runDone runner signal
    | _ => simp [runStep, runner] at h
  | stopServer r =>
    cases a with
    | serverStopped =>
      simp only [runStep, runner, Option.ite_none_right_eq_some, Option.some.injEq] at h
      obtain ⟨idle, rfl⟩ := h
      exact .serverStopped r runner idle
    | _ => simp [runStep, runner] at h
  | lock r =>
    cases a with
    | lock =>
      simp only [runStep, runner, Option.ite_none_right_eq_some] at h
      obtain ⟨free, h⟩ := h
      split at h
      next listens =>
        cases h
        exact .unlistened r runner free listens
      next n listens =>
        cases h
        exact .stopDirect r runner free n listens
    | _ => simp [runStep, runner] at h
  | stopDirect r n =>
    cases a with
    | directStopped =>
      simp only [runStep, runner, Option.ite_none_right_eq_some, Option.some.injEq] at h
      obtain ⟨idle, rfl⟩ := h
      exact .directStopped r n runner idle
    | _ => simp [runStep, runner] at h
  | returned r => simp [runStep, runner] at h

theorem serverStep_cases {s' : Destination c N} {a : ServerAction c N}
    (h : serverStep certs s a = some s') : ServerStep certs s a s' := by
  cases a with
  | arrive i client via request =>
    cases here : s.calls i with
    | some call => simp [serverStep, here] at h
    | none =>
      simp only [serverStep, here, Option.ite_none_right_eq_some, Option.some.injEq] at h
      obtain ⟨takes, rfl⟩ := h
      exact .arrive i client via request here takes
  | call i action =>
    cases here : s.calls i with
    | none => simp [serverStep, here] at h
    | some call => exact callStep_cases here (by simpa [serverStep, here] using h)
  | run action => exact runStep_cases h
  | cancel =>
    simp only [serverStep, Option.some.injEq] at h
    subst h
    exact .cancel
  | serveFails =>
    simp only [serverStep, Option.ite_none_right_eq_some, Option.some.injEq] at h
    obtain ⟨accepting, rfl⟩ := h
    exact .serveFails accepting

end Inversion

end CephVolsync.Worker
