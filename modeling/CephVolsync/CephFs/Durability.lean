import CephVolsync.CephFs.HandleSafety

/-! Durability at the destination. A written block is durable, or the stream that wrote it
has still to sync its file. A commit that finds an entry syncs the file itself; one that
finds none comes after the last stream, or after another commit of the same path. Either
way all blocks of the path are durable when the commit is answered. -/

namespace CephVolsync.CephFs

open Function IndexedFamily Pipeline RefTable TransitionSystem

def Store.Settled (st : Store) (p : GoString) : Prop :=
  p ∈ st.begun ∧ ∀ b ∈ st.written, b.filePath = p → b ∈ st.durable

def SyncPC.covers (b : ChangedBlock) : SyncPC → Prop
  | .sync _ => True
  | .syncing _ covered => b ∈ covered
  | _ => False

def Stream.unsynced (w : Stream) (b : ChangedBlock) : Prop :=
  match w.pc with
  | .cleanup todo _ => b.filePath ∈ todo
  | .release path pc todo _ => b.filePath ∈ todo ∨ (path = b.filePath ∧ pc.covers b)
  | .returned _ => False
  | _ => b.filePath ∈ w.files.map Prod.fst

def StreamPC.Reported (written : List ChangedBlock) : StreamPC → Prop
  | .blocks todo req => ∀ b ∈ req, b ∈ todo ∨ b ∈ written
  | .write _ c todo req => ∀ b ∈ req, b ∈ c :: todo ∨ b ∈ written
  | .send req => ∀ b ∈ req, b ∈ written
  | _ => True

def CommitPC.Sound (st : Store) : CommitPC → Prop
  | .entries _ paths | .send paths => ∀ p ∈ paths, st.Settled p
  | .sync path pc _ paths =>
    (∀ p ∈ paths, st.Settled p) ∧
      match pc with
      | .sync _ => True
      | .syncing _ covered => ∀ b ∈ st.written, b.filePath = path → b ∈ covered
      | _ => st.Settled path
  | _ => True

section Steps

variable {st st' : Store}

theorem Stream.unsynced_refs {w : Stream} {b : ChangedBlock} (h : w.unsynced b) :
    0 < w.refs b.filePath := by
  unfold Stream.unsynced at h
  unfold Stream.refs
  cases hpc : w.pc with
  | cleanup todo err =>
    rw [hpc] at h
    exact List.count_pos_iff.mpr h
  | release path pc todo err =>
    rw [hpc] at h
    rcases h with mem | ⟨rfl, covers⟩
    · exact Nat.add_pos_left (List.count_pos_iff.mpr mem) _
    · simp only [if_true]
      cases pc <;> first | exact covers.elim | simp [SyncPC.owns]
  | returned err =>
    rw [hpc] at h
    exact h.elim
  | _ =>
    rw [hpc] at h
    exact List.count_pos_iff.mpr h

theorem SyncStep.durable_subset {path : GoString} {ok : Bool} {pc pc' : SyncPC}
    (h : SyncStep st path ok pc st' pc') : st.durable ⊆ st'.durable := by
  cases h with
  | synced => exact List.subset_append_left _ _
  | _ => exact List.Subset.refl _

theorem StreamStep.durable_subset {w w' : Stream} {a : StreamAction}
    (h : StreamStep st w a st' w') : st.durable ⊆ st'.durable := by
  cases h with
  | sync hpc step => exact step.durable_subset
  | _ => exact List.Subset.refl _

theorem CommitStep.durable_subset {c c' : CommitPC} {a : CommitAction}
    (h : CommitStep st c a st' c') : st.durable ⊆ st'.durable := by
  cases h with
  | sync hpc step => exact step.durable_subset
  | _ => exact List.Subset.refl _

theorem CommitStep.written_eq {c c' : CommitPC} {a : CommitAction}
    (h : CommitStep st c a st' c') : st'.written = st.written ∧ st'.acked = st.acked := by
  cases h with
  | sync hpc step => exact ⟨step.frame.2.2.2.1, step.frame.2.2.2.2⟩
  | _ => exact ⟨rfl, rfl⟩

theorem StreamStep.written_cases {w w' : Stream} {a : StreamAction} (h : StreamStep st w a st' w') :
    st'.written = st.written ∨ ∃ f b todo req, w.pc = .write f b todo req ∧
      st'.written = st.written ++ [b] ∧ w' = { w with pc := .blocks todo req } := by
  cases h with
  | sync hpc step => exact .inl step.frame.2.2.2.1
  | written hpc => exact .inr ⟨_, _, _, _, hpc, rfl, rfl⟩
  | _ => exact .inl rfl

theorem StreamStep.acked_cases {w w' : Stream} {a : StreamAction} (h : StreamStep st w a st' w') :
    st'.acked = st.acked ∨ ∃ req, w.pc = .send req ∧ st'.acked = st.acked ++ req := by
  cases h with
  | sync hpc step => exact .inl step.frame.2.2.2.2
  | acked hpc => exact .inr ⟨_, hpc, rfl⟩
  | _ => exact .inl rfl

theorem Store.Settled.stream {p : GoString} (h : st.Settled p) {w w' : Stream} {a : StreamAction}
    (step : StreamStep st w a st' w') (pending : ∀ q ∈ w.pending, q ∉ st.begun) :
    st'.Settled p := by
  refine ⟨step.frame.1 ▸ h.1, fun b hb hp => step.durable_subset ?_⟩
  rcases step.written_cases with same | ⟨f, c, todo, req, hpc, more, -⟩
  · exact h.2 b (same ▸ hb) hp
  · rw [more, List.mem_append, List.mem_singleton] at hb
    rcases hb with hb | rfl
    · exact h.2 b hb hp
    · exact absurd h.1 (hp ▸ pending _ (by simp [Stream.pending, hpc]))

theorem Store.Settled.commit {p : GoString} (h : st.Settled p) {c c' : CommitPC} {a : CommitAction}
    (step : CommitStep st c a st' c') : st'.Settled p :=
  ⟨step.begun_subset h.1, fun b hb hp =>
    step.durable_subset (h.2 b (step.written_eq.1 ▸ hb) hp)⟩

theorem StreamStep.unsynced {w w' : Stream} {a : StreamAction} (h : StreamStep st w a st' w')
    (ok : ∀ path file covered todo err, w.pc = .release path (.syncing file covered) todo err →
      a ≠ .next false) {b : ChangedBlock} (hb : b ∈ st.written) (before : w.unsynced b) :
    w'.unsynced b ∨ b ∈ st'.durable ∨ st.cache.files b.filePath = none := by
  unfold Stream.unsynced at before ⊢
  cases h with
  | recv hpc | cached hpc | written hpc | acked hpc =>
    rw [hpc] at before
    exact .inl before
  | sent hpc next =>
    rw [hpc] at before
    rcases next with rfl | rfl <;> exact .inl before
  | acquired hpc | opened hpc =>
    rw [hpc] at before
    exact .inl (List.mem_cons_of_mem _ before)
  | finish active =>
    refine .inl ?_
    cases hpc : w.pc <;> rw [hpc] at before active <;> first | exact before | cases active
  | @entered _ path todo err e hpc mem entry =>
    rw [hpc] at before
    by_cases hp : path = b.filePath
    · exact .inl (.inr ⟨hp, trivial⟩)
    · exact .inl (.inl ((List.mem_erase_of_ne (Ne.symm hp)).mpr before))
  | @missed _ path todo err hpc mem absent =>
    rw [hpc] at before
    by_cases hp : path = b.filePath
    · exact .inr (.inr (hp ▸ absent))
    · exact .inl ((List.mem_erase_of_ne (Ne.symm hp)).mpr before)
  | sync hpc step =>
    rw [hpc] at before
    rcases before with mem | ⟨path, covers⟩
    · exact .inl (.inl mem)
    · cases step with
      | sync => exact .inl (.inr ⟨path, hb⟩)
      | synced =>
        refine .inr (.inl (List.mem_append_right _ (List.mem_filter.mpr ⟨covers, ?_⟩)))
        exact decide_eq_true path.symm
      | failed => exact absurd rfl (ok _ _ _ _ _ hpc)
      | releaseGuard | releaseRef => exact covers.elim
  | left hpc =>
    rw [hpc] at before
    exact .inl (before.resolve_right fun h => h.2)
  | returned hpc =>
    rw [hpc] at before
    cases before

theorem StreamStep.reported {w w' : Stream} {a : StreamAction} (h : StreamStep st w a st' w')
    (before : w.pc.Reported st.written) : w'.pc.Reported st'.written := by
  cases h with
  | recv hpc => exact fun b hb => .inl hb
  | sent hpc next =>
    rw [hpc] at before
    rcases next with rfl | rfl
    · exact fun b hb => (before b hb).resolve_left (List.not_mem_nil)
    · trivial
  | cached hpc | acquired hpc | opened hpc =>
    rw [hpc] at before
    exact before
  | written hpc =>
    rw [hpc] at before
    intro b hb
    rcases before b hb with mem | mem
    · rcases List.mem_cons.mp mem with rfl | mem
      · exact .inr (List.mem_append_right _ (List.mem_singleton_self _))
      · exact .inl mem
    · exact .inr (List.mem_append_left _ mem)
  | _ => trivial

theorem StreamPC.Reported.mono {pc : StreamPC} {written more : List ChangedBlock}
    (h : pc.Reported written) (sub : written ⊆ more) : pc.Reported more := by
  cases pc with
  | blocks | write => exact fun b hb => (h b hb).imp_right fun mem => sub mem
  | send => exact fun b hb => sub (h b hb)
  | _ => trivial

theorem CommitPC.Sound.mono {c : CommitPC} (h : c.Sound st)
    (settled : ∀ p, st.Settled p → st'.Settled p)
    (written : ∀ path pc todo paths, c = .sync path pc todo paths →
      ∀ b ∈ st'.written, b.filePath = path → b ∈ st.written) : c.Sound st' := by
  cases c with
  | recv | returned => trivial
  | entries todo paths | send paths => exact fun p hp => settled p (h p hp)
  | sync path pc todo paths =>
    refine ⟨fun p hp => settled p (h.1 p hp), ?_⟩
    have stage := h.2
    cases pc with
    | sync => trivial
    | syncing file covered =>
      exact fun b hb hp => stage b (written path _ todo paths rfl b hb hp) hp
    | releaseGuard | releaseRef | done => exact settled path stage

theorem CommitStep.sound {c c' : CommitPC} {a : CommitAction} (h : CommitStep st c a st' c')
    (before : c.Sound st) (begun : ∀ path pc todo paths, c = .sync path pc todo paths →
      path ∈ st.begun)
    (ok : ∀ path file covered todo paths, c = .sync path (.syncing file covered) todo paths →
      a ≠ .next false)
    (missing : ∀ p, st.cache.files p = none → ∀ b ∈ st.written, b.filePath = p → b ∈ st.durable) :
    c'.Sound st' ∧ (∀ p ∈ st'.committed, p ∈ st.committed ∨ st'.Settled p) ∧
      ∀ p ∈ st'.answered, p ∈ st.answered ∨ st'.Settled p := by
  have settled : ∀ p, st.Settled p → st'.Settled p := fun p hp => hp.commit h
  have grown : ∀ {paths : List GoString} {path : GoString}, (∀ p ∈ paths, st.Settled p) →
      st'.Settled path → ∀ p ∈ paths ++ [path], st'.Settled p := by
    intro paths path all one p hp
    rw [List.mem_append, List.mem_singleton] at hp
    rcases hp with hp | rfl
    · exact settled p (all p hp)
    · exact one
  cases h with
  | recv => exact ⟨fun p hp => absurd hp List.not_mem_nil, fun p => .inl, fun p => .inl⟩
  | finish | failed => exact ⟨trivial, fun p => .inl, fun p => .inl⟩
  | responds => exact ⟨before, fun p => .inl, fun p => .inl⟩
  | entered => exact ⟨⟨fun p hp => settled p (before p hp), trivial⟩, fun p => .inl, fun p => .inl⟩
  | missed absent =>
    refine ⟨grown before ⟨?_, missing _ absent⟩, fun p => .inl, fun p => .inl⟩
    exact List.mem_append_right _ (List.mem_singleton_self _)
  | sync hpc step =>
    refine ⟨⟨fun p hp => settled p (before.1 p hp), ?_⟩, fun p hp => .inl ?_, fun p hp => .inl ?_⟩
    · cases step with
      | sync => exact fun b hb _ => hb
      | synced =>
        refine ⟨begun _ _ _ _ rfl, fun b hb hp => ?_⟩
        have covered := before.2 b hb hp
        exact List.mem_append_right _ (List.mem_filter.mpr ⟨covered, decide_eq_true hp⟩)
      | failed => exact absurd rfl (ok _ _ _ _ _ rfl)
      | releaseGuard => exact settled _ before.2
      | releaseRef => exact absurd rfl (hpc _)
    · rw [← step.frame.2.1]
      exact hp
    · rw [← step.frame.2.2.1]
      exact hp
  | releaseRef =>
    have one := settled _ before.2
    refine ⟨⟨fun p hp => settled p (before.1 p hp), one⟩, fun p hp => ?_, fun p => .inl⟩
    rw [List.mem_append, List.mem_singleton] at hp
    rcases hp with hp | rfl
    · exact .inl hp
    · exact .inr one
  | left => exact ⟨grown before.1 (settled _ before.2), fun p => .inl, fun p => .inl⟩
  | answered =>
    refine ⟨trivial, fun p => .inl, fun p hp => ?_⟩
    exact (List.mem_append.mp hp).imp_right fun mem => settled p (before p mem)

end Steps

namespace Destination

variable {W C : Type} [Fintype W] [DecidableEq W] [Fintype C] [DecidableEq C]

/-- No `Sync` fails. -/
def syncs (s : Destination W C) : DestinationAction W C → Bool
  | .stream i (.next ok) =>
    match (s.streams i).pc with
    | .release _ (.syncing ..) _ _ => ok
    | _ => true
  | .commit j (.next ok) =>
    match s.commits j with
    | .sync _ (.syncing ..) _ _ => ok
    | _ => true
  | _ => true

/-- Every written block is durable or waits for a sync, and what is committed or answered is
durable. -/
structure Durable (s : Destination W C) : Prop where
  blocks : ∀ b ∈ s.store.written, b ∈ s.store.durable ∨ ∃ i, (s.streams i).unsynced b
  committed : ∀ p ∈ s.store.committed, s.store.Settled p
  commits : ∀ j, (s.commits j).Sound s.store
  answered : ∀ p ∈ s.store.answered, s.store.Settled p
  reported : ∀ i, (s.streams i).pc.Reported s.store.written
  acked : ∀ b ∈ s.store.acked, b ∈ s.store.written

variable {s s' : Destination W C}

omit [DecidableEq W] [DecidableEq C] in
theorem Durable.missing (h : s.Durable) (acc : s.Accounts) {b : ChangedBlock}
    (hb : b ∈ s.store.written) (absent : s.store.cache.files b.filePath = none) :
    b ∈ s.store.durable := by
  rcases h.blocks b hb with durable | ⟨i, waits⟩
  · exact durable
  · have refs := (Stream.unsynced_refs waits).trans_le (s.stream_refs_le i b.filePath)
    have balance := acc.balanced b.filePath
    rw [absent, BalancedAt] at balance
    have mem : b.filePath ∈ s.store.committed :=
      List.count_pos_iff.mp (refs.trans_le balance)
    exact (h.committed _ mem).2 b hb rfl

omit [Fintype C] [DecidableEq C] [Fintype W] [DecidableEq W] in
theorem syncs_stream {i : W} {a : StreamAction} (h : s.syncs (.stream i a) = true) :
    ∀ path file covered todo err, (s.streams i).pc = .release path
      (.syncing file covered) todo err →
      a ≠ .next false := by
  rintro path file covered todo err hpc rfl
  simp [syncs, hpc] at h

omit [Fintype C] [DecidableEq C] [Fintype W] [DecidableEq W] in
theorem syncs_commit {j : C} {a : CommitAction} (h : s.syncs (.commit j a) = true) :
    ∀ path file covered todo paths, s.commits j = .sync path (.syncing file covered) todo paths →
      a ≠ .next false := by
  rintro path file covered todo paths hc rfl
  simp [syncs, hc] at h

omit [DecidableEq C] in
theorem Durable.stream (h : s.Durable) (acc : s.Accounts) (held : s.Held) {i : W} {a : StreamAction}
    {st : Store} {w : Stream} (step : StreamStep s.store (s.streams i) a st w)
    (allowed : s.syncs (.stream i a) = true) :
    ({ s with store := st, streams := update s.streams i w } : Destination W C).Durable := by
  obtain ⟨begun, committed, answered⟩ := step.frame
  have settled : ∀ p, s.store.Settled p → st.Settled p := fun p hp => hp.stream step (acc.pending i)
  have written : s.store.written ⊆ st.written := by
    rcases step.written_cases with same | ⟨f, b, todo, req, -, more, -⟩
    · exact same ▸ List.Subset.refl _
    · exact more ▸ List.subset_append_left _ _
  refine ⟨fun b hb => ?_, ?_, fun j => ?_, ?_, ?_, ?_⟩
  · have old : b ∈ s.store.written → b ∈ st.durable ∨ ∃ j, (update s.streams i w j).unsynced b := by
      intro hb
      rcases h.blocks b hb with durable | ⟨j, waits⟩
      · exact .inl (step.durable_subset durable)
      · by_cases hj : j = i
        · rw [hj] at waits
          rcases step.unsynced (syncs_stream allowed) hb waits with still | durable | absent
          · exact .inr ⟨i, by rw [update_self]; exact still⟩
          · exact .inl durable
          · exact .inl (step.durable_subset (h.missing acc hb absent))
        · exact .inr ⟨j, by rw [update_of_ne hj]; exact waits⟩
    rcases step.written_cases with same | ⟨f, c, todo, req, hpc, more, rfl⟩
    · exact old (same ▸ hb)
    · rw [more, List.mem_append, List.mem_singleton] at hb
      rcases hb with hb | rfl
      · exact old hb
      · refine .inr ⟨i, ?_⟩
        simp only [update_self]
        exact List.mem_map_of_mem (held.write i f b todo req hpc)
  · rw [committed]
    exact fun p hp => settled p (h.committed p hp)
  · refine (h.commits j).mono settled fun path pc todo paths hc b hb hp => ?_
    rcases step.written_cases with same | ⟨f, c, todo', req, hpc, more, -⟩
    · exact same ▸ hb
    · rw [more, List.mem_append, List.mem_singleton] at hb
      refine hb.resolve_right fun eq => ?_
      have pending : path ∈ (s.streams i).pending := by
        rw [← hp, eq]
        simp [Stream.pending, hpc]
      exact acc.pending i path pending (acc.syncing j path pc todo paths hc)
  · rw [answered]
    exact fun p hp => settled p (h.answered p hp)
  · exact forall_update (P := fun _ (x : Stream) => x.pc.Reported st.written)
      (step.reported (h.reported i)) fun j _ => (h.reported j).mono written
  · intro b hb
    rcases step.acked_cases with same | ⟨req, hpc, more⟩
    · exact written (h.acked b (same ▸ hb))
    · have sent := h.reported i
      rw [hpc] at sent
      rw [more] at hb
      exact written ((List.mem_append.mp hb).elim (h.acked b) (sent b))

omit [DecidableEq W] in
theorem Durable.commit (h : s.Durable) (acc : s.Accounts) {j : C} {a : CommitAction} {st : Store}
    {c : CommitPC} (step : CommitStep s.store (s.commits j) a st c)
    (allowed : s.syncs (.commit j a) = true) :
    ({ s with store := st, commits := update s.commits j c } : Destination W C).Durable := by
  obtain ⟨written, acked⟩ := step.written_eq
  have settled : ∀ p, s.store.Settled p → st.Settled p := fun p hp => hp.commit step
  obtain ⟨sound, committed, answered⟩ := step.sound (h.commits j) (acc.syncing j)
    (syncs_commit allowed) fun p absent b hb hp => h.missing acc hb (hp ▸ absent)
  refine ⟨fun b hb => ?_, fun p hp => ?_, ?_, fun p hp => ?_, ?_, ?_⟩
  · exact (h.blocks b (written ▸ hb)).imp_left fun mem => step.durable_subset mem
  · exact (committed p hp).elim (fun old => settled p (h.committed p old)) id
  · refine forall_update (P := fun _ (x : CommitPC) => x.Sound st) sound fun k _ => ?_
    exact (h.commits k).mono settled fun _ _ _ _ _ b hb _ => written ▸ hb
  · exact (answered p hp).elim (fun old => settled p (h.answered p old)) id
  · rw [written]
    exact h.reported
  · rw [written, acked]
    exact h.acked

/-- Commits come after the last block of their path, and no `Sync` fails. -/
def faultless (s : Destination W C) (a : DestinationAction W C) : Bool := s.complete a && s.syncs a

theorem reach_durable {baseDir : GoString}
    (h : Reach (restrict faultless step) (start W C baseDir) s) : s.Durable := by
  have more : ∀ (s : Destination W C) a, faultless s a = true → s.complete a = true :=
    fun s a allowed => (Bool.and_eq_true_iff.mp allowed).1
  refine h.invariant ⟨?_, ?_, ?_, ?_, ?_, ?_⟩ fun s₁ a s₂ reached durable next => ?_
  · exact fun b hb => absurd hb List.not_mem_nil
  · exact fun p hp => absurd hp List.not_mem_nil
  · exact fun j => trivial
  · exact fun p hp => absurd hp List.not_mem_nil
  · exact fun i => trivial
  · exact fun b hb => absurd hb List.not_mem_nil
  · have acc := reach_accounts more reached
    obtain ⟨allowed, taken⟩ := restrict_eq_some.mp next
    have syncs := (Bool.and_eq_true_iff.mp allowed).2
    cases a with
    | stream i a =>
      obtain ⟨⟨st, w⟩, moved, rfl⟩ := Option.map_eq_some_iff.mp taken
      exact durable.stream acc (reach_held more reached) (Stream.step_cases moved) syncs
    | commit j a =>
      obtain ⟨⟨st, c⟩, moved, rfl⟩ := Option.map_eq_some_iff.mp taken
      exact durable.commit acc (CommitPC.step_cases moved) syncs

/-- When the commit of a path is answered, every block of it that was acknowledged has been
written and followed by a completed `Sync` of its file. -/
theorem answered_durable (W C : Type) [Fintype W] [DecidableEq W] [Fintype C] [DecidableEq C]
    (baseDir : GoString) (s : Destination W C)
    (h : Reach (restrict faultless step) (start W C baseDir) s) :
    (∀ b ∈ s.store.acked, b ∈ s.store.written) ∧
    (∀ p ∈ s.store.answered, ∀ b ∈ s.store.written, b.filePath = p → b ∈ s.store.durable) ∧
    ∀ j paths, s.commits j = .send paths → ∀ p ∈ paths, ∀ b ∈ s.store.written, b.filePath = p →
      b ∈ s.store.durable := by
  have durable := reach_durable h
  refine ⟨durable.acked, fun p hp => (durable.answered p hp).2, fun j paths hc p hp => ?_⟩
  have sound := durable.commits j
  rw [hc] at sound
  exact (sound p hp).2

/-- The stream has synced and closed the file before its commit comes. -/
def lateCommit : List (DestinationAction Unit Unit) :=
  repeats [(1, .stream () (.recv ⟨[block 0 "a"]⟩)), (4, .stream () (.next true)),
    (1, .stream () (.close false)), (1, .stream () (.pick (goString "a"))),
    (6, .stream () (.next true)), (1, .commit () (.recv [⟨goString "a", 2⟩])),
    (3, .commit () (.next true))]

theorem answered_durable_late : ∃ s : Destination Unit Unit,
    s.store.acked = [block 0 "a"] ∧ s.store.answered = [goString "a"] ∧
    block 0 "a" ∈ s.store.durable := by
  have run : ((exec (restrict faultless step) (start Unit Unit dataMountPath) lateCommit).any
      fun s => s.store.acked = [block 0 "a"] ∧ s.store.answered = [goString "a"]) = true := by
    decide +kernel
  obtain ⟨s, reached, hs⟩ := Reach.of_exec_any run
  simp only [decide_eq_true_eq] at hs
  obtain ⟨acked, answered⟩ := hs
  obtain ⟨written, durable, -⟩ := answered_durable Unit Unit dataMountPath s reached
  refine ⟨s, acked, answered, durable (goString "a") ?_ _ (written _ ?_) rfl⟩
  · rw [answered]
    exact List.mem_singleton_self _
  · rw [acked]
    exact List.mem_singleton_self _

end Destination

end CephVolsync.CephFs
