import CephVolsync.Library.IndexedFamily
import CephVolsync.Worker.DestinationServer

/-! Who is served by the destination. The mutex of the certificate exchange is held while the
listener of one client is stopped and that of another one is opened, and `GracefulStop` waits for
the running calls, so the direct servers of two clients never run at a time. -/

namespace CephVolsync.Worker

open TransitionSystem IndexedFamily

variable {FP : Type} {c : Crypto FP} {N : ℕ} {certs : ℕ → EphemeralCert c}

def CallPC.critical : CallPC c → Bool
  | .stream | .done | .exchange _ => false
  | .locked _ | .stop .. | .generate _ | .start .. | .pin .. | .undo .. => true

def holds (call : Option (Call c)) : Bool := call.any (·.pc.critical)

@[simp] theorem holds_none : holds (none : Option (Call c)) = false := rfl

@[simp] theorem holds_some (call : Call c) : holds (some call) = call.pc.critical := rfl

namespace Destination

variable {s s' : Destination c N} {a : ServerAction c N}

/-- `mu` is held by the call that is between its lock and its unlock, or by `StopDirectTLS`. -/
structure Locked (s : Destination c N) : Prop where
  calls : ∀ i, holds (s.calls i) = true ↔ s.mu = some (.call i)
  runner : (∃ r n, s.runner = .stopDirect r n) ↔ s.mu = some .runner

theorem Locked.keep (h : s.Locked) {i : Fin N} {x : Option (Call c)}
    (calls : s'.calls = Function.update s.calls i x) (mu : s'.mu = s.mu)
    (runner : s'.runner = s.runner)
    (same : holds x = holds (s.calls i)) : s'.Locked := by
  refine ⟨?_, by rw [runner, mu]; exact h.runner⟩
  rw [calls, mu]
  refine forall_update (P := fun j x => holds x = true ↔ s.mu = some (.call j)) ?_
    fun j _ => h.calls j
  rw [same]
  exact h.calls i

theorem Locked.leave (h : s.Locked) {i : Fin N} {call : Call c} (here : s.calls i = some call)
    (critical : call.pc.critical = true) (calls : s'.calls = Function.update s.calls i none)
    (mu : s'.mu = none) (runner : s'.runner = s.runner) : s'.Locked := by
  have held : s.mu = some (.call i) := (h.calls i).mp (by simp [here, critical])
  constructor
  · rw [calls, mu]
    refine forall_update (P := fun j x => holds x = true ↔ none = some (Holder.call j))
      (by simp) fun j other => ?_
    have := h.calls j
    rw [held] at this
    simpa [Ne.symm other] using this
  · rw [runner, mu, h.runner, held]
    simp

theorem Locked.run (h : s.Locked) (calls : s'.calls = s.calls)
    (mu : s'.mu = s.mu) (before : ∀ r n, s.runner ≠ .stopDirect r n)
    (after : ∀ r n, s'.runner ≠ .stopDirect r n) : s'.Locked := by
  refine ⟨by rw [calls, mu]; exact h.calls, ?_⟩
  rw [mu, ← h.runner]
  simp [before, after]

theorem Locked.alone (h : s.Locked) {i j : Fin N} {call other : Call c}
    (here : s.calls i = some call) (critical : call.pc.critical = true)
    (there : s.calls j = some other) (critical' : other.pc.critical = true) : j = i := by
  have held : s.mu = some (.call i) := (h.calls i).mp (by simp [here, critical])
  have held' : s.mu = some (.call j) := (h.calls j).mp (by simp [there, critical'])
  rw [held] at held'
  cases held'
  rfl

theorem Locked.free (h : s.Locked) (free : s.mu = none ∨ s.mu = some .runner) {i : Fin N}
    {call : Call c} (here : s.calls i = some call) : call.pc.critical = false := by
  by_contra critical
  have held : s.mu = some (.call i) := (h.calls i).mp (by simpa [here] using critical)
  rcases free with free | free <;> rw [free] at held <;> cases held

variable [DecidableEq FP]

theorem Locked.step (h : s.Locked) (step : ServerStep certs s a s') : s'.Locked := by
  cases step with
  | arrive i client via request free _ =>
    refine h.keep (i := i) rfl rfl rfl ?_
    cases request <;> simp [free, Request.pc, CallPC.critical]
  | finish i call here pc | done i call here pc | repin i call here _ pc | fresh i call here _ pc
  | stopped i call here _ _ pc | generated i call here _ pc | listening i call here _ _ _ pc
  | unpinned i call here _ _ _ pc =>
    exact h.keep rfl rfl rfl (by simp [here, pc, CallPC.critical])
  | lock i call here pem pc free =>
    have nobody := h.calls
    rw [free] at nobody
    constructor
    · refine forall_update (P := fun j x => holds x = true ↔ some (Holder.call i) = some (.call j))
        (by simp [CallPC.critical]) fun j other => ?_
      simpa [Ne.symm other] using nobody j
    · have := h.runner
      rw [free] at this
      simpa using this
  | reject i call here pem pc action err =>
    refine h.leave here ?_ rfl rfl rfl
    obtain ⟨pc, -⟩ | pc | ⟨cert, config, pc⟩ := pc <;> rw [pc] <;> rfl
  | repeated i call here _ pc | pinned i call here _ _ _ pc | undone i call here _ _ _ pc =>
    exact h.leave here (by rw [pc]; rfl) rfl rfl rfl
  | runCtx runner | runErr runner | runDone runner | serverStopped _ runner
  | unlistened _ runner =>
    exact h.run rfl rfl (by simp [runner]) (by simp)
  | stopDirect r runner free n listens =>
    have nobody := h.calls
    rw [free] at nobody
    refine ⟨fun i => ?_, by simp⟩
    simpa using nobody i
  | directStopped r n runner idle =>
    have held : s.mu = some .runner := h.runner.mp ⟨r, n, runner⟩
    have nobody := h.calls
    rw [held] at nobody
    refine ⟨fun i => ?_, by simp⟩
    simpa using nobody i
  | cancel | serveFails => exact ⟨h.calls, h.runner⟩

end Destination

theorem ServerStep.origin [DecidableEq FP] {s s' : Destination c N} {a : ServerAction c N}
    (step : ServerStep certs s a s') {i : Fin N} {call : Call c} (here : s'.calls i = some call) :
    (∃ old, s.calls i = some old ∧ old.client = call.client ∧ old.via = call.via) ∨
      s.takes (certs call.client) call.via = true := by
  have changed {k : Fin N} {x : Option (Call c)} (calls : s'.calls = Function.update s.calls k x)
      (self : ∀ new, x = some new → (∃ old, s.calls k = some old ∧ old.client = new.client ∧
        old.via = new.via) ∨ s.takes (certs new.client) new.via = true) :
      (∃ old, s.calls i = some old ∧ old.client = call.client ∧ old.via = call.via) ∨
        s.takes (certs call.client) call.via = true := by
    rw [calls] at here
    exact forall_update (P := fun j x => ∀ new, x = some new → (∃ old, s.calls j = some old ∧
      old.client = new.client ∧ old.via = new.via) ∨ s.takes (certs new.client) new.via = true)
      self (fun j _ new there => .inl ⟨new, there, rfl, rfl⟩) i call here
  have moved {k : Fin N} {old : Call c} {pc : CallPC c} (there : s.calls k = some old)
      (calls : s'.calls = Function.update s.calls k (some { old with pc := pc })) :
      (∃ old, s.calls i = some old ∧ old.client = call.client ∧ old.via = call.via) ∨
        s.takes (certs call.client) call.via = true :=
    changed calls fun new same => by cases same; exact .inl ⟨old, there, rfl, rfl⟩
  cases step with
  | arrive k client via request free takes =>
    exact changed rfl fun new same => by cases same; exact .inr takes
  | finish k | done k | reject k | repeated k | pinned k | undone k =>
    exact changed (k := k) rfl fun new same => by cases same
  | lock k old there | repin k old there | fresh k old there | stopped k old there
    | generated k old there | listening k old there | unpinned k old there =>
    exact moved there rfl
  | _ => exact .inl ⟨call, here, rfl, rfl⟩

theorem ServerStep.config [DecidableEq FP] {s s' : Destination c N} {a : ServerAction c N}
    (step : ServerStep certs s a s') {n : ℕ} {l : DirectTLSListener FP}
    (here : s.listeners[n]? = some l) :
    ∃ l', s'.listeners[n]? = some l' ∧ l'.config = l.config := by
  have refused (m : ℕ) : ∃ l', (s.refuse m).listeners[n]? = some l' ∧ l'.config = l.config := by
    simp only [Destination.refuse, List.getElem?_modify, here]
    split_ifs
    · exact ⟨_, rfl, rfl⟩
    · exact ⟨_, rfl, rfl⟩
  cases step with
  | stopped | undone | directStopped => exact refused _
  | listening =>
    refine ⟨l, ?_, rfl⟩
    change (s.listeners ++ _)[n]? = some l
    rw [List.getElem?_append_left (List.getElem?_eq_some_iff.mp here).1, here]
  | _ => exact ⟨l, here, rfl⟩

/-- The listener that the call has opened and not handed to `CertExchangeHandler`. -/
def CallPC.opened : CallPC c → Option ℕ
  | .pin _ _ n | .undo _ _ n => some n
  | _ => none

theorem CallPC.critical_of_opened {pc : CallPC c} {n : ℕ} (h : pc.opened = some n) :
    pc.critical = true := by
  cases pc <;> first | rfl | cases h

namespace Destination

def Live (s : Destination c N) (n : ℕ) : Prop :=
  (∃ l, s.listeners[n]? = some l ∧ l.accepting = true) ∨
    ∃ i call, s.calls i = some call ∧ call.via = .direct n

/-- Listener `n` is the one of `CertExchangeHandler`, or of a call that has just opened it. -/
def Current (s : Destination c N) (n : ℕ) : Prop :=
  s.directListener = some n ∨ ∃ i call, s.calls i = some call ∧ call.pc.opened = some n

variable {s s' : Destination c N}

theorem Live.of_refuse {n m : ℕ} (h : (s.refuse n).Live m) : s.Live m := by
  rcases h with ⟨l, here, accepting⟩ | inside
  · left
    simp only [refuse, List.getElem?_modify, Option.map_eq_map] at here
    split_ifs at here
    · obtain ⟨old, -, rfl⟩ := Option.map_eq_some_iff.mp here
      cases accepting
    · exact ⟨l, by simpa using here, accepting⟩
  · exact .inr inside

theorem refuse_not_live {n : ℕ} (idle : s.idle (.direct n) = true) : ¬(s.refuse n).Live n := by
  rintro (⟨l, here, accepting⟩ | ⟨i, call, here, direct⟩)
  · simp only [refuse, List.getElem?_modify, if_true, Option.map_eq_map] at here
    obtain ⟨old, -, rfl⟩ := Option.map_eq_some_iff.mp here
    cases accepting
  · have := of_decide_eq_true idle i
    simp [show s.calls i = some call from here, direct] at this

theorem refuse_ended {n : ℕ} (idle : s.idle (.direct n) = true) (only : ∀ m, s.Live m → m = n)
    (m : ℕ) : ¬(s.refuse n).Live m := by
  intro live
  obtain rfl := only m live.of_refuse
  exact refuse_not_live idle live

theorem Live.of_update {i : Fin N} {call : Call c} {x : Option (Call c)} {n : ℕ}
    (h : s'.Live n) (listeners : s'.listeners = s.listeners)
    (here : s.calls i = some call) (calls : s'.calls = Function.update s.calls i x)
    (via : ∀ new, x = some new → new.via = call.via) : s.Live n := by
  rcases h with ⟨l, accepting⟩ | ⟨j, new, there, direct⟩
  · exact .inl ⟨l, listeners ▸ accepting⟩
  · right
    rw [calls] at there
    by_cases same : j = i
    · subst same
      rw [Function.update_self] at there
      exact ⟨j, call, here, (via new there).symm.trans direct⟩
    · rw [Function.update_of_ne same] at there
      exact ⟨j, new, there, direct⟩

def Fits (s : Destination c N) : CallPC c → Prop
  | .stream | .done | .exchange _ | .locked _ => True
  | .stop _ n => s.directListener = some n
  | .generate _ => s.directListener = none
  | .start pem cert config => s.directListener = none ∧ newServerTLSConfig cert pem = .ok config
  | .pin pem cert n => s.directListener = none ∧ ∃ l, s.listeners[n]? = some l ∧
      newServerTLSConfig cert pem = .ok l.config ∧ l.accepting = true
  | .undo _ _ _ => s.directListener = none

theorem fits_of_outside {pc : CallPC c} (h : pc.critical = false) : s.Fits pc := by
  cases pc <;> trivial

theorem fits_congr {pc : CallPC c} (listeners : s'.listeners = s.listeners)
    (direct : s'.directListener = s.directListener) (h : s.Fits pc) : s'.Fits pc := by
  have same : s'.Fits pc = s.Fits pc := by
    cases pc <;> simp only [Fits, listeners, direct]
  exact same.mpr h

structure Exclusive (s : Destination c N) : Prop where
  current : ∀ n, s.Live n → s.Current n
  fits : ∀ i call, s.calls i = some call → s.Fits call.pc

theorem Exclusive.known (h : s.Exclusive) (lock : s.Locked) {i : Fin N} {call : Call c}
    (here : s.calls i = some call) (critical : call.pc.critical = true) {n : ℕ} (live : s.Live n) :
    s.directListener = some n ∨ call.pc.opened = some n := by
  rcases h.current n live with direct | ⟨j, other, there, opened⟩
  · exact .inl direct
  · obtain rfl := lock.alone here critical there (CallPC.critical_of_opened opened)
    rw [here] at there
    cases there
    exact .inr opened

theorem Exclusive.listens (h : s.Exclusive) (lock : s.Locked) {i : Fin N} {call : Call c}
    (here : s.calls i = some call) (critical : call.pc.critical = true)
    (unopened : call.pc.opened = none) {n : ℕ} (live : s.Live n) : s.directListener = some n :=
  (h.known lock here critical live).resolve_right (by simp [unopened])

theorem Exclusive.unlocked (h : s.Exclusive) (lock : s.Locked)
    (free : s.mu = none ∨ s.mu = some .runner) {n : ℕ} (live : s.Live n) :
    s.directListener = some n := by
  rcases h.current n live with direct | ⟨j, other, there, opened⟩
  · exact direct
  · have outside := lock.free free there
    rw [CallPC.critical_of_opened opened] at outside
    cases outside

theorem Exclusive.inside (lock : s.Locked) {i : Fin N} {call : Call c}
    (here : s.calls i = some call) (critical : call.pc.critical = true) {x : Option (Call c)}
    (calls : s'.calls = Function.update s.calls i x)
    (fits : ∀ new, x = some new → s'.Fits new.pc)
    (current : ∀ n, s'.Live n → s'.Current n) : s'.Exclusive := by
  refine ⟨current, ?_⟩
  rw [calls]
  refine forall_update (P := fun _ x => ∀ new : Call c, x = some new → s'.Fits new.pc)
    fits fun j other new there => fits_of_outside ?_
  by_contra inside
  exact other (lock.alone here critical there (by simpa using inside))

theorem Exclusive.advance (h : s.Exclusive) (lock : s.Locked) {i : Fin N} {call : Call c}
    (here : s.calls i = some call) (critical : call.pc.critical = true)
    (unopened : call.pc.opened = none) {x : Option (Call c)}
    (calls : s'.calls = Function.update s.calls i x)
    (via : ∀ new, x = some new → new.via = call.via) (listeners : s'.listeners = s.listeners)
    (direct : s'.directListener = s.directListener)
    (fits : ∀ new, x = some new → s'.Fits new.pc) : s'.Exclusive :=
  .inside lock here critical calls fits fun _ live => .inl (direct.trans
    (h.listens lock here critical unopened (live.of_update listeners here calls via)))

theorem Exclusive.listening (h : s.Exclusive) (lock : s.Locked) {i : Fin N} {call : Call c}
    (here : s.calls i = some call) {pem : GoString} {cert : EphemeralCert c}
    {config : TlsConfig FP} (pc : call.pc = .start pem cert config) :
    Exclusive { s.at_ i call (.pin pem cert s.listeners.length) with
      listeners := s.listeners ++ [⟨config, true⟩] } := by
  have fits := h.fits i call here
  rw [pc] at fits
  have none (m : ℕ) : ¬s.Live m := fun live => by
    have listens := h.listens lock here (by rw [pc]; rfl) (by rw [pc]; rfl) live
    rw [fits.1] at listens
    cases listens
  refine .inside lock here (by rw [pc]; rfl) rfl (fun new same => ?_) fun m live => .inr ?_
  · cases same
    exact ⟨fits.1, ⟨config, true⟩, by simp, fits.2, rfl⟩
  · refine ⟨i, { call with pc := .pin pem cert s.listeners.length }, by simp, ?_⟩
    rcases live with ⟨l, at_, accepting⟩ | inside
    · -- only the new listener accepts
      change (s.listeners ++ _)[m]? = some l at at_
      rcases lt_or_ge m s.listeners.length with old | new
      · rw [List.getElem?_append_left old] at at_
        exact absurd (.inl ⟨l, at_, accepting⟩) (none m)
      · have bound := (List.getElem?_eq_some_iff.mp at_).1
        simp only [List.length_append, List.length_singleton] at bound
        exact congrArg some (by omega)
    · have old : (s.at_ i call (.pin pem cert s.listeners.length)).Live m := .inr inside
      exact (none m (old.of_update rfl here rfl (by simp))).elim

theorem Exclusive.outside (h : s.Exclusive) {i : Fin N} {x : Option (Call c)}
    (listeners : s'.listeners = s.listeners) (direct : s'.directListener = s.directListener)
    (calls : s'.calls = Function.update s.calls i x) (before : holds (s.calls i) = false)
    (after : ∀ new, x = some new → s.Fits new.pc) (live : ∀ n, s'.Live n → s.Live n) :
    s'.Exclusive := by
  refine ⟨fun n here => ?_, ?_⟩
  · rcases h.current n (live n here) with current | ⟨j, call, there, opened⟩
    · exact .inl (direct.trans current)
    · have other : j ≠ i := by
        rintro rfl
        rw [there, holds_some, CallPC.critical_of_opened opened] at before
        cases before
      exact .inr ⟨j, call, by rw [calls, Function.update_of_ne other, there], opened⟩
  · rw [calls]
    exact forall_update (P := fun _ x => ∀ new : Call c, x = some new → s'.Fits new.pc)
      (fun new same => fits_congr listeners direct (after new same))
      fun j _ new there => fits_congr listeners direct (h.fits j new there)

variable [DecidableEq FP] {a : ServerAction c N}

theorem live_of_takes {n : ℕ} {cert : EphemeralCert c} (h : s.takes cert (.direct n) = true) :
    ∃ l, s.listeners[n]? = some l ∧ l.accepting = true ∧
      l.config.admits c [cert.tlsCert] = true := by
  unfold takes at h
  cases here : s.listeners[n]? with
  | none => simp [here] at h
  | some l => exact ⟨l, rfl, by simpa [here] using h⟩

theorem Live.of_arrive {i : Fin N} {call : Call c} {cert : EphemeralCert c} {n : ℕ}
    (h : s'.Live n) (listeners : s'.listeners = s.listeners)
    (calls : s'.calls = Function.update s.calls i (some call))
    (takes : s.takes cert call.via = true) : s.Live n := by
  rcases h with ⟨l, accepting⟩ | ⟨j, new, there, direct⟩
  · exact .inl ⟨l, listeners ▸ accepting⟩
  · rw [calls] at there
    by_cases same : j = i
    · subst same
      rw [Function.update_self, Option.some.injEq] at there
      rw [there, direct] at takes
      obtain ⟨l, here, accepting, -⟩ := live_of_takes takes
      exact .inl ⟨l, here, accepting⟩
    · rw [Function.update_of_ne same] at there
      exact .inr ⟨j, new, there, direct⟩

theorem Exclusive.step (h : s.Exclusive) (lock : s.Locked) (step : ServerStep certs s a s') :
    s'.Exclusive := by
  cases step with
  | arrive i client via request free takes =>
    refine h.outside rfl rfl rfl (by simp [free]) (fun new same => ?_) fun n live => ?_
    · cases same
      refine fits_of_outside ?_
      cases request <;> rfl
    · exact live.of_arrive rfl rfl takes
  | finish i call here pc | done i call here pc =>
    exact h.outside rfl rfl rfl (by simp [here, pc, CallPC.critical]) (by simp)
      fun n live => live.of_update rfl here rfl (by simp)
  | lock i call here pem pc free =>
    refine h.outside rfl rfl rfl (by simp [here, pc, CallPC.critical]) (fun new same => ?_)
      fun n live => live.of_update rfl here rfl (by simp)
    cases same
    trivial
  | reject i call here pem pc action err =>
    have stands : call.pc.critical = true ∧ call.pc.opened = none := by
      obtain ⟨pc, -⟩ | pc | ⟨cert, config, pc⟩ := pc <;> rw [pc] <;> exact ⟨rfl, rfl⟩
    exact h.advance lock here stands.1 stands.2 rfl (by simp) rfl rfl (by simp)
  | repeated i call here pem pc =>
    exact h.advance lock here (by rw [pc]; rfl) (by rw [pc]; rfl) rfl (by simp) rfl rfl (by simp)
  | repin i call here pem pc n fits | fresh i call here pem pc fits =>
    refine h.advance lock here (by rw [pc]; rfl) (by rw [pc]; rfl) rfl (by simp) rfl rfl
      fun new same => ?_
    cases same
    exact fits
  | generated i call here pem pc cert config made =>
    have fits := h.fits i call here
    rw [pc] at fits
    refine h.advance lock here (by rw [pc]; rfl) (by rw [pc]; rfl) rfl (by simp) rfl rfl
      fun new same => ?_
    cases same
    exact ⟨fits, made⟩
  | stopped i call here pem n pc idle =>
    have fits : s.Fits (.stop pem n) := pc ▸ h.fits i call here
    have ended := refuse_ended idle fun m live => Option.some.inj
      ((h.listens lock here (by rw [pc]; rfl) (by rw [pc]; rfl) live).symm.trans fits)
    refine .inside lock here (by rw [pc]; rfl) rfl (fun new same => ?_)
      fun m live => (ended m (live.of_update rfl here rfl (by simp))).elim
    cases same
    rfl
  | listening i call here pem cert config pc => exact h.listening lock here pc
  | pinned i call here pem cert n pc clientFP given =>
    have fits := h.fits i call here
    rw [pc] at fits
    refine .inside lock here (by rw [pc]; rfl) rfl (by simp) fun m live => .inl ?_
    have known := h.known lock here (by rw [pc]; rfl) (live.of_update rfl here rfl (by simp))
    simpa [pc, CallPC.opened, fits.1] using known
  | unpinned i call here pem cert n pc err failed =>
    have fits := h.fits i call here
    rw [pc] at fits
    refine .inside lock here (by rw [pc]; rfl) rfl (fun new same => ?_) fun m live => .inr ?_
    · cases same
      exact fits.1
    · have known := h.known lock here (by rw [pc]; rfl) (live.of_update rfl here rfl (by simp))
      simp only [fits.1, reduceCtorEq, pc, CallPC.opened, Option.some.injEq, false_or] at known
      exact ⟨i, { call with pc := .undo pem err n }, by simp, by simp [CallPC.opened, known]⟩
  | undone i call here pem err n pc idle =>
    have fits : s.Fits (.undo pem err n) := pc ▸ h.fits i call here
    have ended := refuse_ended idle fun m live => by
      have known := h.known lock here (by rw [pc]; rfl) live
      rw [show s.directListener = none from fits, pc] at known
      simpa [CallPC.opened, eq_comm] using known
    exact .inside lock here (by rw [pc]; rfl) rfl (by simp)
      fun m live => (ended m (live.of_update rfl here rfl (by simp))).elim
  | directStopped r n runner idle =>
    have held : s.mu = some .runner := lock.runner.mp ⟨r, n, runner⟩
    refine ⟨fun m live => .inl ?_, fun i call here => fits_of_outside (lock.free (.inr held) here)⟩
    have old : s.Live m := Live.of_refuse (n := n) live
    exact h.unlocked lock (.inr held) old
  | _ => exact ⟨h.current, h.fits⟩

def Admitted (certs : ℕ → EphemeralCert c) (s : Destination c N) : Prop :=
  ∀ i call n, s.calls i = some call → call.via = .direct n →
    ∃ l, s.listeners[n]? = some l ∧ l.config.admits c [(certs call.client).tlsCert] = true

theorem Admitted.step (h : s.Admitted certs) (step : ServerStep certs s a s') :
    s'.Admitted certs := by
  intro i call n here direct
  have admitted : ∃ l, s.listeners[n]? = some l ∧
      l.config.admits c [(certs call.client).tlsCert] = true := by
    rcases step.origin here with ⟨old, there, client, via⟩ | takes
    · obtain ⟨l, listener, admits⟩ := h i old n there (via.trans direct)
      exact ⟨l, listener, client ▸ admits⟩
    · rw [direct] at takes
      obtain ⟨l, listener, -, admits⟩ := live_of_takes takes
      exact ⟨l, listener, admits⟩
  obtain ⟨l, listener, admits⟩ := admitted
  obtain ⟨l', listener', config⟩ := step.config listener
  exact ⟨l', listener', config ▸ admits⟩

end Destination

def CallPC.pem : CallPC c → Option GoString
  | .stream | .done => none
  | .exchange pem | .locked pem | .stop pem _ | .generate pem | .start pem _ _ | .pin pem _ _
    | .undo pem _ _ => some pem

namespace Destination

variable {s s' : Destination c N} {a : ServerAction c N}

structure Announced (s : Destination c N) : Prop where
  calls : ∀ i call pem, s.calls i = some call → call.pc.pem = some pem →
    .announced pem ∈ s.events
  listeners : ∀ l ∈ s.listeners, ∃ pem cert, .announced pem ∈ s.events ∧
    newServerTLSConfig (c := c) cert pem = .ok l.config

theorem Announced.moved (h : s.Announced) {i : Fin N} {x : Option (Call c)}
    (calls : s'.calls = Function.update s.calls i x)
    (events : ∀ e ∈ s.events, e ∈ s'.events)
    (pem : ∀ new pem, x = some new → new.pc.pem = some pem → .announced pem ∈ s'.events)
    (listeners : ∀ l ∈ s'.listeners, (∃ l' ∈ s.listeners, l'.config = l.config) ∨
      ∃ pem cert, .announced pem ∈ s'.events ∧
        newServerTLSConfig (c := c) cert pem = .ok l.config) : s'.Announced := by
  refine ⟨fun j => ?_, fun l here => ?_⟩
  · rw [calls]
    exact forall_update (P := fun _ x => ∀ new pem, x = some new → new.pc.pem = some pem →
      .announced pem ∈ s'.events) pem
      (fun j _ new pem there carries => events _ (h.calls j new pem there carries)) j
  · rcases listeners l here with ⟨l', there, config⟩ | new
    · obtain ⟨pem, cert, announced, made⟩ := h.listeners l' there
      exact ⟨pem, cert, events _ announced, config ▸ made⟩
    · exact new

theorem mem_refuse {n : ℕ} {l : DirectTLSListener FP} (h : l ∈ (s.refuse n).listeners) :
    ∃ l' ∈ s.listeners, l'.config = l.config := by
  obtain ⟨m, at_⟩ := List.mem_iff_getElem?.mp h
  simp only [refuse, List.getElem?_modify, Option.map_eq_map] at at_
  obtain ⟨old, there, changed⟩ := Option.map_eq_some_iff.mp at_
  refine ⟨old, List.mem_of_getElem? there, ?_⟩
  rw [← changed]
  split_ifs <;> rfl

variable [DecidableEq FP]

theorem Announced.step (h : s.Announced) (exclusive : s.Exclusive)
    (step : ServerStep certs s a s') : s'.Announced := by
  have old (l : DirectTLSListener FP) (here : l ∈ s.listeners) :
      (∃ l' ∈ s.listeners, l'.config = l.config) ∨ ∃ pem cert, .announced pem ∈ s'.events ∧
        newServerTLSConfig (c := c) cert pem = .ok l.config := .inl ⟨l, here, rfl⟩
  -- a call inside of `ExchangeCerts` goes on with the certificate of its request
  have carried {i : Fin N} {call : Call c} {pem : GoString} {pc : CallPC c}
      (here : s.calls i = some call) (before : call.pc.pem = some pem) (after : pc.pem = some pem)
      (new : Call c) (pem' : GoString) (same : some { call with pc := pc } = some new)
      (carries : new.pc.pem = some pem') : .announced pem' ∈ s.events := by
    cases same
    rw [show pc.pem = some pem' from carries] at after
    cases after
    exact h.calls i call _ here before
  cases step with
  | arrive i client via request free takes =>
    cases request with
    | exchangeCerts pem =>
      refine h.moved rfl (fun e => List.mem_append_left _) (fun new pem' same carries => ?_) old
      cases same
      cases carries
      simp
    | stream | done =>
      refine h.moved rfl (fun e he => he) (fun new pem' same carries => ?_) old
      cases same
      cases carries
  | finish i call here pc => exact h.moved rfl (fun e he => he) (by simp) old
  | done i | reject i | repeated i | pinned i =>
    exact h.moved (i := i) rfl (fun e => List.mem_append_left _) (by simp) old
  | lock i call here _ pc | repin i call here _ pc | fresh i call here _ pc
  | generated i call here _ pc | unpinned i call here _ _ _ pc =>
    exact h.moved rfl (fun e he => he) (carried here (by rw [pc]; rfl) rfl) old
  | stopped i call here pem n pc idle =>
    exact h.moved rfl (fun e he => he) (carried here (by rw [pc]; rfl) rfl)
      fun l here => .inl (mem_refuse here)
  | listening i call here pem cert config pc =>
    refine h.moved rfl (fun e he => he) (carried here (by rw [pc]; rfl) rfl) fun l there => ?_
    rcases List.mem_append.mp there with before | new
    · exact old l before
    · have fits := exclusive.fits i call here
      rw [pc] at fits
      rw [List.mem_singleton.mp new]
      exact .inr ⟨pem, cert, h.calls i call pem here (by rw [pc]; rfl), fits.2⟩
  | undone i call here pem err n pc idle =>
    exact h.moved (i := i) rfl (fun e => List.mem_append_left _) (by simp)
      fun l here => .inl (mem_refuse here)
  | directStopped r n runner idle =>
    refine ⟨h.calls, fun l here => ?_⟩
    obtain ⟨l', there, config⟩ := mem_refuse here
    exact config ▸ h.listeners l' there
  | _ => exact ⟨h.calls, h.listeners⟩

end Destination

theorem newServerTLSConfig_eq_ok {cert : EphemeralCert c} {pem : GoString} {config : TlsConfig FP} :
    newServerTLSConfig cert pem = .ok config ↔
      ∃ fp, peerFingerprint c pem = .ok fp ∧ config = ⟨[cert.tlsCert], true, fp⟩ := by
  unfold newServerTLSConfig
  cases peerFingerprint c pem with
  | error err => simp [Except.map]
  | ok fp => simp [Except.map, eq_comm]

theorem admits_iff [DecidableEq FP] {config : TlsConfig FP} {tlsCert : GoString} :
    config.admits c [tlsCert] = true ↔ c.sum256 tlsCert = config.peerFP := by
  by_cases same : c.sum256 tlsCert = config.peerFP <;>
    simp [TlsConfig.admits, fingerprintVerifier, same, Except.toBool]

namespace Destination

variable {s s' : Destination c N} {a : ServerAction c N}

/-- The listener of `CertExchangeHandler` shows `serverCert` and expects `pinnedClientFP`. -/
def Pinned (s : Destination c N) : Prop :=
  ∀ n, s.directListener = some n → ∃ cert l, s.serverCert = some cert ∧
    s.listeners[n]? = some l ∧ l.config = ⟨[cert.tlsCert], true, s.pinnedClientFP⟩ ∧
    (l.accepting = true ∨ ∃ r, s.runner = .returned r)

theorem Pinned.vacant (absent : s.directListener = none) : s.Pinned := by
  intro n listens
  rw [absent] at listens
  cases listens

variable [DecidableEq FP]

theorem Pinned.step (h : s.Pinned) (exclusive : s.Exclusive)
    (step : ServerStep certs s a s') : s'.Pinned := by
  have same := step
  cases step with
  | stopped => exact .vacant rfl
  | listening i call here pem cert config pc =>
    have fits := exclusive.fits i call here
    rw [pc] at fits
    exact .vacant fits.1
  | undone i call here pem err n pc idle =>
    have fits := exclusive.fits i call here
    rw [pc] at fits
    exact .vacant fits
  | pinned i call here pem cert n pc clientFP given =>
    have fits := exclusive.fits i call here
    rw [pc] at fits
    obtain ⟨-, l, listener, made, accepting⟩ := fits
    obtain ⟨fp, given', config⟩ := newServerTLSConfig_eq_ok.mp made
    rw [given] at given'
    cases given'
    intro m listens
    cases listens
    exact ⟨cert, l, rfl, listener, config, .inl accepting⟩
  | directStopped r n runner idle =>
    intro m listens
    obtain ⟨cert, l, made, listener, config, -⟩ := h m listens
    obtain ⟨l', listener', same⟩ := same.config listener
    exact ⟨cert, l', made, listener', same.trans config, .inr ⟨r, rfl⟩⟩
  | unlistened r runner free absent => exact .vacant absent
  | runCtx runner | runErr runner | runDone runner | serverStopped _ runner
    | stopDirect _ runner =>
    intro m listens
    obtain ⟨cert, l, made, listener, config, serves⟩ := h m listens
    refine ⟨cert, l, made, listener, config, serves.imp_right ?_⟩
    rintro ⟨r, returned⟩
    rw [runner] at returned
    cases returned
  | _ => exact h

end Destination

section Reachable

variable [DecidableEq FP] [Inhabited FP] {s : Destination c N}
  (h : Reach (serverStep certs) (serverInit c N) s)

include h

theorem reach_locked : s.Locked :=
  h.invariant ⟨by simp [serverInit], by simp [serverInit]⟩ fun _ _ _ _ hs next =>
    hs.step (serverStep_cases next)

theorem reach_exclusive : s.Exclusive := by
  refine h.invariant ⟨?_, by simp [serverInit]⟩ fun _ _ _ reached hs next =>
    hs.step (reach_locked reached) (serverStep_cases next)
  rintro n (⟨l, here, -⟩ | ⟨i, call, here, -⟩)
  · simp [serverInit] at here
  · cases here

theorem reach_admitted : s.Admitted certs :=
  h.invariant (P := fun s => s.Admitted certs) (by simp [Destination.Admitted, serverInit])
    fun _ _ _ _ hs next => hs.step (serverStep_cases next)

theorem reach_announced : s.Announced :=
  h.invariant ⟨by simp [serverInit], by simp [serverInit]⟩ fun _ _ _ reached hs next =>
    hs.step (reach_exclusive reached) (serverStep_cases next)

theorem reach_pinned : s.Pinned :=
  h.invariant (P := fun s => s.Pinned) (.vacant rfl) fun _ _ _ reached hs next =>
    hs.step (reach_exclusive reached) (serverStep_cases next)

end Reachable

theorem Destination.Current.unique {s : Destination c N} (lock : s.Locked) (exclusive : s.Exclusive)
    {n m : ℕ} (hn : s.Current n) (hm : s.Current m) : n = m := by
  have vacant {i : Fin N} {call : Call c} {k : ℕ} (here : s.calls i = some call)
      (opened : call.pc.opened = some k) : s.directListener = none := by
    have fits := exclusive.fits i call here
    cases hpc : call.pc with
    | pin => rw [hpc] at fits; exact fits.1
    | undo => rw [hpc] at fits; exact fits
    | _ => rw [hpc] at opened; cases opened
  rcases hn with direct | ⟨i, call, here, opened⟩ <;>
    rcases hm with direct' | ⟨j, other, there, opened'⟩
  · exact Option.some.inj (direct.symm.trans direct')
  · rw [vacant there opened'] at direct; cases direct
  · rw [vacant here opened] at direct'; cases direct'
  · have same := lock.alone here (CallPC.critical_of_opened opened) there
      (CallPC.critical_of_opened opened')
    subst same
    rw [here] at there
    cases there
    exact Option.some.inj (opened.symm.trans opened')

variable [DecidableEq FP]

theorem ServerStep.answered {s s' : Destination c N} {a : ServerAction c N}
    (step : ServerStep certs s a s') {pem : GoString} {response : ExchangeCertsResponse}
    (answered : s'.events = s.events ++ [.answered pem (.ok response)]) :
    ∃ n, s'.directListener = some n ∧ peerFingerprint c pem = .ok s'.pinnedClientFP ∧
      response = ⟨(s'.serverCert.map (·.certPEM)).getD [], directTLSPort⟩ := by
  cases step with
  | arrive i client via request => cases request <;> simp at answered
  | repeated i call here told pc n listens same =>
    simp only [Destination.answer_events, List.append_cancel_left_eq, List.cons.injEq,
      Event.answered.injEq, Except.ok.injEq, and_true] at answered
    obtain ⟨rfl, rfl⟩ := answered
    exact ⟨n, listens, same, rfl⟩
  | pinned i call here told cert n pc clientFP given =>
    simp only [Destination.answer_events, List.append_cancel_left_eq, List.cons.injEq,
      Event.answered.injEq, Except.ok.injEq, and_true] at answered
    obtain ⟨rfl, rfl⟩ := answered
    exact ⟨n, rfl, given, rfl⟩
  | _ => simp at answered

def plainCrypto : Crypto GoString := ⟨some, id⟩

def plainCert (byte : UInt8) : EphemeralCert plainCrypto := ⟨[byte], [byte], rfl⟩

def plainCerts (client : ℕ) : EphemeralCert plainCrypto := plainCert (UInt8.ofNat client)

def exchangeSchedule : List (ServerAction plainCrypto 3) :=
  [.arrive 0 1 .stunnel (.exchangeCerts [1]), .call 0 .lock, .call 0 .check,
    .call 0 (.generate (some (plainCert 9))), .call 0 (.listen true)]

/-- Client 1 has two calls in flight over direct TLS when client 2 exchanges certificates. -/
def repinSchedule : List (ServerAction plainCrypto 3) :=
  exchangeSchedule ++ [.call 0 .pin, .arrive 0 1 (.direct 0) .stream,
    .arrive 1 1 (.direct 0) .stream, .arrive 2 2 .stunnel (.exchangeCerts [2]), .call 2 .lock,
    .call 2 .check]

variable [Inhabited FP]

/-- All calls in flight over direct TLS come from clients with one fingerprint, and an
`ExchangeCerts` request has carried a certificate with it. -/
theorem direct_calls_of_one_client (c : Crypto FP) (certs : ℕ → EphemeralCert c) (N : ℕ)
    (s : Destination c N) (reached : Reach (serverStep certs) (serverInit c N) s) :
    ∃ fp, ∀ i call n, s.calls i = some call → call.via = .direct n →
      c.sum256 (certs call.client).tlsCert = fp ∧
      ∃ pem, .announced pem ∈ s.events ∧ peerFingerprint c pem = .ok fp := by
  have lock := reach_locked reached
  have exclusive := reach_exclusive reached
  have announced (i : Fin N) (call : Call c) (n : ℕ) (here : s.calls i = some call)
      (direct : call.via = .direct n) : ∃ l, s.listeners[n]? = some l ∧
        c.sum256 (certs call.client).tlsCert = l.config.peerFP ∧
        ∃ pem, .announced pem ∈ s.events ∧ peerFingerprint c pem = .ok l.config.peerFP := by
    obtain ⟨l, listener, admits⟩ := reach_admitted reached i call n here direct
    obtain ⟨pem, cert, told, made⟩ :=
      (reach_announced reached).listeners l (List.mem_of_getElem? listener)
    obtain ⟨fp, given, config⟩ := newServerTLSConfig_eq_ok.mp made
    exact ⟨l, listener, admits_iff.mp admits, pem, told, by rw [given, config]⟩
  by_cases quiet : ∃ i call n, s.calls i = some call ∧ call.via = .direct n
  · obtain ⟨i, call, n, here, direct⟩ := quiet
    obtain ⟨l, listener, -⟩ := announced i call n here direct
    refine ⟨l.config.peerFP, fun j other m there direct' => ?_⟩
    obtain ⟨l', listener', shown, told⟩ := announced j other m there direct'
    obtain rfl : n = m := Destination.Current.unique lock exclusive
      (exclusive.current n (.inr ⟨i, call, here, direct⟩))
      (exclusive.current m (.inr ⟨j, other, there, direct'⟩))
    rw [listener] at listener'
    cases listener'
    exact ⟨shown, told⟩
  · exact ⟨default, fun i call n here direct => absurd ⟨i, call, n, here, direct⟩ quiet⟩

theorem direct_calls_of_one_client_repin : ∃ (s : Destination plainCrypto 3) (fp : GoString),
    (∃ call other, s.calls 0 = some call ∧ call.via = .direct 0 ∧ s.calls 1 = some other ∧
      other.via = .direct 0 ∧ plainCrypto.sum256 (plainCerts other.client).tlsCert = fp) ∧
    ∃ pem, .announced pem ∈ s.events ∧ peerFingerprint plainCrypto pem = .ok fp := by
  have run : (exec (serverStep plainCerts) (serverInit plainCrypto 3) repinSchedule).any (fun s =>
      (s.calls 0).any (fun call => call.via = .direct 0) ∧
        (s.calls 1).any (fun call => call.via = .direct 0)) = true := by
    decide +kernel
  obtain ⟨s, reached, hs⟩ := Reach.of_exec_any run
  obtain ⟨first, second⟩ := of_decide_eq_true hs
  obtain ⟨call, here, direct⟩ := (Option.any_eq_true _ _).mp first
  obtain ⟨other, there, direct'⟩ := (Option.any_eq_true _ _).mp second
  have direct := of_decide_eq_true direct
  have direct' := of_decide_eq_true direct'
  obtain ⟨fp, one⟩ := direct_calls_of_one_client plainCrypto plainCerts 3 s reached
  obtain ⟨shown, told⟩ := one 1 other 0 there direct'
  exact ⟨s, fp, ⟨call, other, here, direct, there, direct', shown⟩, told⟩

end CephVolsync.Worker
