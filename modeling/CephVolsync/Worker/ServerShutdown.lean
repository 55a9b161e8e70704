import CephVolsync.Worker.ServerSafety

/-! How the destination comes to its end: what is left when `RunDestinationServer` has returned,
and a call that keeps it from returning. -/

namespace CephVolsync.Worker

open TransitionSystem IndexedFamily

variable {FP : Type} {c : Crypto FP} {N : ℕ} {certs : ℕ → EphemeralCert c}

/-- How `RunDestinationServer` will return, once it has left its `select`. -/
def RunnerPC.result : RunnerPC → Option RunResult
  | .select => none
  | .stopServer r | .lock r | .stopDirect r _ | .returned r => some r

def RunnerPC.stopped : RunnerPC → Bool
  | .select | .stopServer _ => false
  | .lock r | .stopDirect r _ | .returned r => r ≠ .serverErr

namespace Destination

variable {s s' : Destination c N} {a : ServerAction c N}

structure Stopping (s : Destination c N) : Prop where
  refused : s.runner.stopped = true → s.accepting = false ∧ s.idle .stunnel = true
  direct : ∀ r n, s.runner = .stopDirect r n → s.directListener = some n
  ended : ∀ r, s.runner = .returned r → r ≠ .serverErr → ∀ n, ¬s.Live n
  signalled : s.shutdownChan = true ∨ s.runner.result = some .done → .done ∈ s.events

theorem idle_iff {via : Via} :
    s.idle via = true ↔ ∀ i call, s.calls i = some call → call.via ≠ via := by
  unfold idle
  rw [decide_eq_true_iff]
  refine forall_congr' fun i => ?_
  cases s.calls i <;> simp

theorem Stopping.calls (h : s.Stopping) {r : RunResult} (returned : s.runner = .returned r)
    (fine : r ≠ .serverErr) (i : Fin N) : s.calls i = none := by
  have stopped := (h.refused (by simp [returned, RunnerPC.stopped, fine])).2
  cases here : s.calls i with
  | none => rfl
  | some call =>
    cases via : call.via with
    | stunnel => exact absurd via (idle_iff.mp stopped i call here)
    | direct n => exact absurd (.inr ⟨i, call, here, via⟩) (h.ended r returned fine n)

variable [DecidableEq FP]

theorem Stopping.served (h : s.Stopping) (lock : s.Locked) (step : ServerStep certs s a s')
    (runner : s'.runner = s.runner) (accepting : s'.accepting = s.accepting)
    (direct : s.mu = some .runner → s'.directListener = s.directListener)
    (ended : (∀ i, s.calls i = none) → ∀ n, s'.Live n → s.Live n)
    (signalled : s'.shutdownChan = true → s.shutdownChan = true ∨ .done ∈ s'.events)
    (events : ∀ e ∈ s.events, e ∈ s'.events) : s'.Stopping := by
  refine ⟨fun stopped => ?_, fun r n at_ => ?_, fun r returned fine n live => ?_, ?_⟩
  · rw [runner] at stopped
    obtain ⟨refused, idle⟩ := h.refused stopped
    refine ⟨accepting.trans refused, idle_iff.mpr fun i call here via => ?_⟩
    rcases step.origin here with ⟨old, there, -, same⟩ | takes
    · exact idle_iff.mp idle i old there (same.trans via)
    · rw [via] at takes
      rw [show s.accepting = true from takes] at refused
      cases refused
  · rw [runner] at at_
    exact (direct (lock.runner.mp ⟨r, n, at_⟩)).trans (h.direct r n at_)
  · rw [runner] at returned
    exact h.ended r returned fine n (ended (h.calls returned fine) n live)
  · rintro (signal | result)
    · rcases signalled signal with before | now
      · exact events _ (h.signalled (.inl before))
      · exact now
    · exact events _ (h.signalled (.inr (runner ▸ result)))

theorem Stopping.step (h : s.Stopping) (lock : s.Locked) (exclusive : s.Exclusive)
    (step : ServerStep certs s a s') : s'.Stopping := by
  -- a process that has returned has no call that could make a step
  have gone {i : Fin N} {call : Call c} (here : s.calls i = some call) {P : Prop}
      (none : ∀ i, s.calls i = none) : P := by
    rw [none i] at here
    cases here
  have locked {i : Fin N} {call : Call c} (here : s.calls i = some call)
      (critical : call.pc.critical = true) {P : Prop} (held : s.mu = some .runner) : P := by
    have outside := lock.free (.inr held) here
    rw [critical] at outside
    cases outside
  have same := step
  cases step with
  | arrive i client via request free takes =>
    refine h.served lock same rfl rfl (fun _ => rfl) (fun _ n live => live.of_arrive rfl rfl takes)
      .inl (fun e he => ?_)
    cases request with
    | exchangeCerts pem => exact List.mem_append_left _ he
    | stream | done => exact he
  | finish i call here | lock i call here | repin i call here | fresh i call here
  | generated i call here | listening i call here | unpinned i call here =>
    exact h.served lock same rfl rfl (fun _ => rfl) (gone here) .inl (fun _ he => he)
  | done i call here pc =>
    exact h.served lock same rfl rfl (fun _ => rfl) (gone here) (fun _ => .inr (by simp))
      (fun _ => List.mem_append_left _)
  | reject i call here | repeated i call here | undone i call here =>
    exact h.served lock same rfl rfl (fun _ => rfl) (gone here) .inl
      (fun _ => List.mem_append_left _)
  | stopped i call here pem n pc idle =>
    exact h.served lock same rfl rfl (locked here (by rw [pc]; rfl)) (gone here) .inl
      (fun _ he => he)
  | pinned i call here pem cert n pc clientFP given =>
    exact h.served lock same rfl rfl (locked here (by rw [pc]; rfl)) (gone here) .inl
      (fun _ => List.mem_append_left _)
  | cancel | serveFails => exact ⟨h.refused, h.direct, h.ended, h.signalled⟩
  | runCtx runner signal | runErr runner signal =>
    exact ⟨by simp [RunnerPC.stopped], by simp, by simp,
      fun why => h.signalled (.inl (by simpa [RunnerPC.result] using why))⟩
  | runDone runner signal =>
    exact ⟨by simp [RunnerPC.stopped], by simp, by simp, fun _ => h.signalled (.inl signal)⟩
  | serverStopped r runner idle =>
    refine ⟨fun _ => ⟨rfl, idle⟩, by simp, by simp, fun why => h.signalled ?_⟩
    rw [runner]
    exact why
  | unlistened r runner free absent =>
    refine ⟨fun stopped => h.refused (by rw [runner]; exact stopped), by simp,
      fun r' returned fine n live => ?_, fun why => h.signalled (by rw [runner]; exact why)⟩
    have listens := exclusive.unlocked lock (.inl free) (n := n) live
    rw [absent] at listens
    cases listens
  | stopDirect r runner free n listens =>
    refine ⟨fun stopped => h.refused (by rw [runner]; exact stopped), fun r' n' at_ => ?_, by simp,
      fun why => h.signalled (by rw [runner]; exact why)⟩
    cases at_
    exact listens
  | directStopped r n runner idle =>
    refine ⟨fun stopped => h.refused (by rw [runner]; exact stopped), by simp,
      fun r' returned fine m live => ?_, fun why => h.signalled (by rw [runner]; exact why)⟩
    have old : (s.refuse n).Live m := live
    have listens := exclusive.unlocked lock (.inr (lock.runner.mp ⟨r, n, runner⟩)) old.of_refuse
    rw [h.direct r n runner] at listens
    cases listens
    exact refuse_not_live idle old

end Destination

/-- Call `i` came from this client over direct server `n`, and its `ExchangeCerts` is not beyond
`directListener.Stop`. -/
def Destination.Waits (s : Destination c N) (i : Fin N) (client n : ℕ) (pem : GoString) : Prop :=
  ∃ pc, s.calls i = some ⟨client, .direct n, pc⟩ ∧
    (pc = .exchange pem ∨ pc = .locked pem ∨ pc = .stop pem n)

variable [DecidableEq FP]

theorem reach_stopping [Inhabited FP] {s : Destination c N}
    (h : Reach (serverStep certs) (serverInit c N) s) : s.Stopping :=
  h.invariant ⟨by simp [serverInit, RunnerPC.stopped], by simp [serverInit], by simp [serverInit],
    by simp [serverInit, RunnerPC.result]⟩ fun _ _ _ reached hs next =>
    hs.step (reach_locked reached) (reach_exclusive reached) (serverStep_cases next)

/-- When `RunDestinationServer` has returned because of its context or of `Done`, no call is in
flight and no server takes one; it returns nil only behind a call of `Done`. -/
theorem destination_returns_idle [Inhabited FP] (c : Crypto FP) (certs : ℕ → EphemeralCert c)
    (N : ℕ) (s : Destination c N) (reached : Reach (serverStep certs) (serverInit c N) s)
    (r : RunResult) (returned : s.runner = .returned r) (fine : r ≠ .serverErr) :
    (∀ i, s.calls i = none) ∧ s.accepting = false ∧
      (∀ l ∈ s.listeners, l.accepting = false) ∧ (r = .done → .done ∈ s.events) := by
  have stopping := reach_stopping reached
  refine ⟨stopping.calls returned fine, ?_, fun l here => ?_, fun done => ?_⟩
  · exact (stopping.refused (by simp [returned, RunnerPC.stopped, fine])).1
  · obtain ⟨n, listener⟩ := List.mem_iff_getElem?.mp here
    by_contra accepting
    exact stopping.ended r returned fine n (.inl ⟨l, listener, by simpa using accepting⟩)
  · exact stopping.signalled (.inr (by simp [returned, RunnerPC.result, done]))

def doneSchedule : List (ServerAction plainCrypto 3) :=
  exchangeSchedule ++ [.call 0 .pin, .arrive 0 1 (.direct 0) .stream, .arrive 1 1 (.direct 0) .done,
    .call 1 .done, .run .shutdown, .run .serverStopped, .run .lock, .call 0 .finish,
    .run .directStopped]

theorem destination_returns_idle_done : ∃ s : Destination plainCrypto 3,
    s.runner = .returned .done ∧ (∀ i, s.calls i = none) ∧ Event.done ∈ s.events := by
  have run : (exec (serverStep plainCerts) (serverInit plainCrypto 3) doneSchedule).any (fun s =>
      s.runner = .returned .done) = true := by
    decide +kernel
  obtain ⟨s, reached, hs⟩ := Reach.of_exec_any run
  have returned := of_decide_eq_true hs
  obtain ⟨calls, -, -, done⟩ :=
    destination_returns_idle plainCrypto plainCerts 3 s reached .done returned (by simp)
  exact ⟨s, returned, calls, done rfl⟩

theorem shown_of_listens {s : Destination c N} (admitted : s.Admitted certs) (pinned : s.Pinned)
    {i : Fin N} {call : Call c} {n : ℕ} (here : s.calls i = some call)
    (direct : call.via = .direct n) (listens : s.directListener = some n) :
    c.sum256 (certs call.client).tlsCert = s.pinnedClientFP := by
  obtain ⟨l, listener, admits⟩ := admitted i call n here direct
  obtain ⟨cert, l', -, listener', config, -⟩ := pinned n listens
  rw [listener] at listener'
  cases listener'
  rw [config] at admits
  exact admits_iff.mp admits

section Waits

variable {s s' : Destination c N} {a : ServerAction c N} {i : Fin N} {client n : ℕ}
  {pem : GoString}

theorem ServerStep.waits (step : ServerStep certs s a s') (lock : s.Locked)
    (exclusive : s.Exclusive) (stopping : s.Stopping) (waits : s.Waits i client n pem) {fp : FP}
    (given : peerFingerprint c pem = .ok fp)
    (other : s.directListener = some n → fp ≠ s.pinnedClientFP) :
    s'.Waits i client n pem ∧ ∀ r, s'.runner = .returned r → s.runner = .returned r := by
  obtain ⟨pc, here, at_⟩ := waits
  have live : s.Live n := .inr ⟨i, _, here, rfl⟩
  have busy : ¬s.idle (.direct n) = true := fun idle => Destination.idle_iff.mp idle i _ here rfl
  have listens (critical : pc.critical = true) : s.directListener = some n :=
    exclusive.listens lock here critical (by rcases at_ with rfl | rfl | rfl <;> rfl) live
  have elsewhere {k : Fin N} {x : Option (Call c)} (apart : k ≠ i)
      (calls : s'.calls = Function.update s.calls k x) (runner : s'.runner = s.runner) :
      s'.Waits i client n pem ∧ ∀ r, s'.runner = .returned r → s.runner = .returned r :=
    ⟨⟨pc, by rw [calls, Function.update_of_ne apart.symm, here], at_⟩,
      fun r returned => runner ▸ returned⟩
  have own {k : Fin N} {call : Call c} (there : s.calls k = some call) (same : k = i) :
      call = ⟨client, .direct n, pc⟩ := by
    rw [same, here] at there
    cases there
    rfl
  have apart {k : Fin N} {call : Call c} {pc' : CallPC c} (there : s.calls k = some call)
      (stands : call.pc = pc') (ne : pc' ≠ .exchange pem ∧ pc' ≠ .locked pem ∧ pc' ≠ .stop pem n) :
      k ≠ i := by
    intro same
    rw [own there same] at stands
    subst stands
    exact at_.elim ne.1 fun at_ => at_.elim ne.2.1 ne.2.2
  cases step with
  | arrive k client via request free takes =>
    refine elsewhere (k := k) ?_ rfl rfl
    rintro rfl
    rw [here] at free
    cases free
  | finish k call there stands | done k call there stands | generated k call there _ stands
  | listening k call there _ _ _ stands | pinned k call there _ _ _ stands
  | unpinned k call there _ _ _ stands | undone k call there _ _ _ stands =>
    exact elsewhere (apart there stands (by simp)) rfl rfl
  | lock k call there pem' stands free =>
    by_cases same : k = i
    · rw [own there same] at stands ⊢
      rcases at_ with rfl | rfl | rfl <;> cases stands
      subst same
      exact ⟨⟨_, by simp, .inr (.inl rfl)⟩, fun r returned => returned⟩
    · exact elsewhere same rfl rfl
  | reject k call there pem' stands =>
    rcases stands with ⟨stands, failed⟩ | stands | ⟨cert, config, stands⟩
    · refine elsewhere (k := k) (fun same => ?_) rfl rfl
      rw [own there same] at stands
      rcases at_ with rfl | rfl | rfl <;> cases stands
      exact failed fp given
    · exact elsewhere (apart there stands (by simp)) rfl rfl
    · exact elsewhere (apart there stands (by simp)) rfl rfl
  | repeated k call there pem' stands m _ told =>
    refine elsewhere (k := k) (fun same => ?_) rfl rfl
    rw [own there same] at stands
    rcases at_ with rfl | rfl | rfl <;> cases stands
    rw [given] at told
    exact other (listens rfl) (Except.ok.inj told)
  | repin k call there pem' stands m current =>
    by_cases same : k = i
    · rw [own there same] at stands ⊢
      rcases at_ with rfl | rfl | rfl <;> cases stands
      rw [listens rfl] at current
      cases current
      subst same
      exact ⟨⟨_, by simp, .inr (.inr rfl)⟩, fun r returned => returned⟩
    · exact elsewhere same rfl rfl
  | fresh k call there pem' stands absent =>
    refine elsewhere (k := k) (fun same => ?_) rfl rfl
    rw [own there same] at stands
    rcases at_ with rfl | rfl | rfl <;> cases stands
    rw [listens rfl] at absent
    cases absent
  | stopped k call there pem' m stands idle =>
    refine elsewhere (k := k) (fun same => ?_) rfl rfl
    rw [own there same] at stands
    rcases at_ with rfl | rfl | rfl <;> cases stands
    exact busy idle
  | unlistened r runner free absent =>
    rw [exclusive.unlocked lock (.inl free) live] at absent
    cases absent
  | directStopped r m runner idle =>
    have current := exclusive.unlocked lock (.inr (lock.runner.mp ⟨r, m, runner⟩)) live
    rw [stopping.direct r m runner] at current
    cases current
    exact absurd idle busy
  | runCtx | runErr | runDone | serverStopped | stopDirect => exact ⟨⟨pc, here, at_⟩, by simp⟩
  | cancel | serveFails => exact ⟨⟨pc, here, at_⟩, fun r returned => returned⟩

end Waits

/-- A call of `ExchangeCerts` over direct TLS with another certificate than its client shows there
stops the server that runs it, and waits for its own end. It never returns, and
`RunDestinationServer` does not return any more. -/
theorem exchange_over_direct_blocks [Inhabited FP] (c : Crypto FP) (certs : ℕ → EphemeralCert c)
    (N : ℕ) (s s' : Destination c N) (reached : Reach (serverStep certs) (serverInit c N) s)
    (i : Fin N) (client n : ℕ) (pem : GoString)
    (here : s.calls i = some ⟨client, .direct n, .exchange pem⟩) (fp : FP)
    (given : peerFingerprint c pem = .ok fp) (other : fp ≠ c.sum256 (certs client).tlsCert)
    (later : Reach (serverStep certs) s s') :
    s'.Waits i client n pem ∧ ∀ r, s'.runner = .returned r → s.runner = .returned r := by
  refine later.invariant (P := fun s' => s'.Waits i client n pem ∧
    ∀ r, s'.runner = .returned r → s.runner = .returned r)
    ⟨⟨_, here, .inl rfl⟩, fun r returned => returned⟩ ?_
  intro before a after sofar ⟨waits, runner⟩ next
  have reached := reached.trans sofar
  obtain ⟨pc, there, -⟩ := id waits
  obtain ⟨still, returns⟩ := (serverStep_cases next).waits (reach_locked reached)
    (reach_exclusive reached) (reach_stopping reached) waits given fun listens same =>
      other (same.trans (shown_of_listens (reach_admitted reached) (reach_pinned reached) there rfl
        listens).symm)
  exact ⟨still, fun r returned => runner r (returns r returned)⟩

/-- Client 1 has exchanged certificates and asks over direct TLS for another one. -/
def selfStopSchedule : List (ServerAction plainCrypto 3) :=
  exchangeSchedule ++ [.call 0 .pin, .arrive 0 1 (.direct 0) (.exchangeCerts [2])]

def selfStopCancelled : List (ServerAction plainCrypto 3) :=
  [.call 0 .lock, .call 0 .check, .cancel, .run .ctxDone, .run .serverStopped]

theorem exchange_over_direct_blocks_cancelled : ∃ s : Destination plainCrypto 3,
    s.mu = some (.call 0) ∧ s.runner = .lock .ctxErr ∧ s.Waits 0 1 0 [2] := by
  have asked : (exec (serverStep plainCerts) (serverInit plainCrypto 3) selfStopSchedule).bind
      (fun s => s.calls 0) = some ⟨1, .direct 0, .exchange [2]⟩ := rfl
  have run : ((exec (serverStep plainCerts) (serverInit plainCrypto 3) selfStopSchedule).bind
      fun s => exec (serverStep plainCerts) s selfStopCancelled).any
      (fun s => s.mu = some (.call 0) ∧ s.runner = .lock .ctxErr) = true := by
    decide +kernel
  obtain ⟨s, ran, here⟩ := Option.bind_eq_some_iff.mp asked
  rw [ran, Option.bind_some] at run
  obtain ⟨s', later, hs⟩ := Reach.of_exec_any run
  obtain ⟨held, runner⟩ := of_decide_eq_true hs
  exact ⟨s', held, runner, (exchange_over_direct_blocks plainCrypto plainCerts 3 s s' (.of_exec ran)
    0 1 0 [2] here [2] rfl (by decide) later).1⟩

end CephVolsync.Worker
