import CephVolsync.CephFs.FileCache

/-! File handles of the destination. A `Write` handler has a reference for each path of its
map until `SyncAndRelease` has given it up, and a second one while `Sync` runs; `Commit`
takes the second one only and gives up two. The cache counts these references, and a commit
of a path that is written completely gives up one too many at most once. So a handle in use
is open. -/

namespace CephVolsync.CephFs

open Function IndexedFamily Pipeline RefTable TransitionSystem

namespace SyncPC

def guards : SyncPC → ℕ
  | .sync _ | .syncing .. | .releaseGuard _ => 1
  | _ => 0

def owns : SyncPC → ℕ
  | .done _ => 0
  | _ => 1

def operand : SyncPC → Option ℕ
  | .sync file | .syncing file _ => some file
  | _ => none

end SyncPC

namespace Stream

def refs (w : Stream) (p : GoString) : ℕ :=
  match w.pc with
  | .cleanup todo _ => todo.count p
  | .release path pc todo _ => todo.count p + if p = path then pc.owns + pc.guards else 0
  | .returned _ => 0
  | _ => (w.files.map Prod.fst).count p

def operand (w : Stream) : Option ℕ :=
  match w.pc with
  | .write file .. => some file
  | .release _ pc _ _ => pc.operand
  | _ => none

def uses (w : Stream) (p : GoString) (f : ℕ) : Prop :=
  match w.pc with
  | .cleanup .. | .returned _ => False
  | .release path pc _ _ => path = p ∧ pc.operand = some f
  | _ => (p, f) ∈ w.files

end Stream

namespace CommitPC

def refs (c : CommitPC) (p : GoString) : ℕ :=
  match c with
  | .sync path pc _ _ => if p = path then pc.guards else 0
  | _ => 0

def operand : CommitPC → Option ℕ
  | .sync _ pc _ _ => pc.operand
  | _ => none

def uses (c : CommitPC) (p : GoString) (f : ℕ) : Prop :=
  match c with
  | .sync path pc _ _ => path = p ∧ pc.operand = some f
  | _ => False

def running (c : CommitPC) (p : GoString) : ℕ :=
  match c with
  | .sync path pc _ _ => if p = path then pc.owns else 0
  | _ => 0

end CommitPC

def Store.commits (st : Store) (p : GoString) : ℕ := st.committed.count p

section Moves

variable {st st' : Store}

theorem StreamPC.active_refs {w : Stream} (h : w.pc.active = true) (p : GoString) :
    w.refs p = (w.files.map Prod.fst).count p := by
  unfold Stream.refs
  cases hpc : w.pc <;> rw [hpc] at h <;> first | rfl | cases h

theorem count_cons_path (path : GoString) (paths : List GoString) (q : GoString) :
    (path :: paths).count q = paths.count q + if q = path then 1 else 0 := by
  by_cases h : q = path
  · rw [h, List.count_cons_self, if_pos rfl]
  · rw [List.count_cons_of_ne (Ne.symm h), if_neg h, Nat.add_zero]

theorem count_erase_path {path : GoString} {paths : List GoString} (h : path ∈ paths)
    (q : GoString) :
    paths.count q = (paths.erase path).count q + if q = path then 1 else 0 := by
  rw [← count_cons_path, (List.perm_cons_erase h).count_eq]

theorem SyncStep.stream_move {path : GoString} {ok : Bool} {pc pc' : SyncPC}
    (h : SyncStep st path ok pc st' pc') (todo : List GoString) :
    Move st.cache.files (fun p => todo.count p + if p = path then pc.owns + pc.guards else 0)
      st.commits st'.cache.files
      (fun p => todo.count p + if p = path then pc'.owns + pc'.guards else 0) st'.commits := by
  cases h with
  | sync | synced | failed => exact .stay fun q => rfl
  | releaseGuard | releaseRef =>
    refine .release (k := path) fun q => ?_
    simp only [SyncPC.owns, SyncPC.guards]
    split_ifs <;> rfl

theorem StreamStep.move {w w' : Stream} {a : StreamAction} (h : StreamStep st w a st' w')
    (unsettled : ∀ p ∈ w.pending, st.commits p = 0) :
    Move st.cache.files w.refs st.commits st'.cache.files w'.refs st'.commits := by
  cases h with
  | recv hpc | cached hpc | written hpc | acked hpc =>
    exact .stay fun q => by simp only [Stream.refs, hpc]
  | finish active => exact .stay fun q => (StreamPC.active_refs active q).symm
  | sent hpc next =>
    refine .stay fun q => ?_
    rcases next with rfl | rfl <;> simp only [Stream.refs, hpc]
  | @acquired _ b todo req e hpc entry =>
    refine .retain entry fun q => ?_
    simp only [Stream.refs, hpc, List.map_cons]
    exact count_cons_path _ _ q
  | @opened _ b todo req hpc absent =>
    refine .insert _ absent (unsettled _ ?_) fun q => ?_
    · simp [Stream.pending, hpc]
    · simp only [Stream.refs, hpc, List.map_cons]
      exact count_cons_path _ _ q
  | @entered _ path todo err e hpc mem entry =>
    refine .retain entry fun q => ?_
    have count := count_erase_path mem q
    simp only [Stream.refs, hpc, SyncPC.owns, SyncPC.guards]
    split_ifs at count ⊢ <;> omega
  | @missed _ path todo err hpc mem absent =>
    refine .forget absent fun q => ?_
    simp only [Stream.refs, hpc]
    exact count_erase_path mem q
  | @sync ok path pc pc' todo err st' hpc step =>
    have eq : w.refs = fun p => todo.count p + if p = path then pc.owns + pc.guards else 0 :=
      funext fun q => by simp only [Stream.refs, hpc]
    rw [eq]
    exact step.stream_move todo
  | left hpc =>
    refine .stay fun q => ?_
    simp only [Stream.refs, hpc, SyncPC.owns, SyncPC.guards]
    split_ifs <;> rfl
  | returned hpc => exact .stay fun q => by simp only [Stream.refs, hpc, List.count_nil]

theorem CommitStep.move {c c' : CommitPC} {a : CommitAction} (h : CommitStep st c a st' c') :
    Move st.cache.files c.refs st.commits st'.cache.files c'.refs st'.commits := by
  cases h with
  | recv | responds | missed | failed | answered | left =>
    exact .stay fun q => by simp [CommitPC.refs, SyncPC.guards]
  | finish hc =>
    refine .stay fun q => ?_
    rcases hc with rfl | ⟨paths, rfl⟩ <;> rfl
  | entered entry =>
    refine .retain entry fun q => ?_
    simp only [CommitPC.refs, SyncPC.guards]
    omega
  | @sync ok path pc pc' todo paths st' hpc step =>
    cases step with
    | sync | synced | failed => exact .stay fun q => rfl
    | releaseGuard =>
      refine .release (k := path) fun q => ?_
      simp only [CommitPC.refs, SyncPC.guards]
      split_ifs <;> rfl
    | releaseRef => exact absurd rfl (hpc _)
  | @releaseRef _ path e e' todo paths =>
    refine .overRelease (k := path) (fun q => rfl) fun q => ?_
    rw [Store.commits, Store.commits, List.count_append, count_cons_path, List.count_nil,
      Nat.zero_add]

theorem SyncStep.frame {path : GoString} {ok : Bool} {pc pc' : SyncPC}
    (h : SyncStep st path ok pc st' pc') :
    st'.begun = st.begun ∧ st'.committed = st.committed ∧ st'.answered = st.answered ∧
      st'.written = st.written ∧ st'.acked = st.acked := by
  cases h <;> exact ⟨rfl, rfl, rfl, rfl, rfl⟩

theorem StreamStep.frame {w w' : Stream} {a : StreamAction} (h : StreamStep st w a st' w') :
    st'.begun = st.begun ∧ st'.committed = st.committed ∧ st'.answered = st.answered := by
  cases h with
  | sync hpc step => exact ⟨step.frame.1, step.frame.2.1, step.frame.2.2.1⟩
  | _ => exact ⟨rfl, rfl, rfl⟩

theorem StreamStep.pending {w w' : Stream} {a : StreamAction} (h : StreamStep st w a st' w')
    {p : GoString} (hp : p ∈ w'.pending) :
    p ∈ w.pending ∨ ∃ req, a = .recv req ∧ ∃ b ∈ req.blocks, b.filePath = p := by
  cases h with
  | @recv req => exact .inr ⟨req, rfl, List.mem_map.mp hp⟩
  | cached hpc | acquired hpc | opened hpc =>
    refine .inl ?_
    simpa [Stream.pending, hpc] using hp
  | written hpc =>
    refine .inl ?_
    simp only [Stream.pending, hpc, List.map_cons]
    exact List.mem_cons_of_mem _ hp
  | sent hpc next => rcases next with rfl | rfl <;> cases hp
  | _ => cases hp

theorem CommitStep.frame {c c' : CommitPC} {a : CommitAction} (h : CommitStep st c a st' c') :
    (st'.begun = st.begun ∨ ∃ e todo paths ok, c = .entries (e :: todo) paths ∧ a = .next ok ∧
      st'.begun = st.begun ++ [e.path]) ∧
    (st'.committed = st.committed ∨ ∃ path e todo paths, c = .sync path (.releaseRef e) todo paths ∧
      st'.committed = st.committed ++ [path]) := by
  cases h with
  | @entered ok e todo paths entry => exact ⟨.inr ⟨e, todo, paths, ok, rfl, rfl, rfl⟩, .inl rfl⟩
  | @missed ok e todo paths => exact ⟨.inr ⟨e, todo, paths, ok, rfl, rfl, rfl⟩, .inl rfl⟩
  | sync hpc step => exact ⟨.inl step.frame.1, .inl step.frame.2.1⟩
  | releaseRef => exact ⟨.inl rfl, .inr ⟨_, _, _, _, rfl, rfl⟩⟩
  | _ => exact ⟨.inl rfl, .inl rfl⟩

theorem CommitStep.begun_subset {c c' : CommitPC} {a : CommitAction}
    (h : CommitStep st c a st' c') : st.begun ⊆ st'.begun := by
  rcases h.frame.1 with same | ⟨e, todo, paths, ok, -, -, more⟩
  · rw [same]
    exact List.Subset.refl _
  · rw [more]
    exact List.subset_append_left _ _

theorem CommitStep.syncing {c c' : CommitPC} {a : CommitAction} (h : CommitStep st c a st' c')
    (old : ∀ path pc todo paths, c = .sync path pc todo paths → path ∈ st.begun) :
    ∀ path pc todo paths, c' = .sync path pc todo paths → path ∈ st'.begun := by
  have grown := h.begun_subset
  intro path pc todo paths hc
  cases h with
  | entered =>
    cases hc
    exact List.mem_append_right _ (List.mem_singleton_self _)
  | sync | releaseRef =>
    cases hc
    exact grown (old _ _ _ _ rfl)
  | _ => cases hc

theorem StreamStep.uses {w w' : Stream} {a : StreamAction} (h : StreamStep st w a st' w')
    (unsettled : ∀ p ∈ w.pending, st.commits p = 0) {p : GoString} {f : ℕ} (use : w'.uses p f) :
    (w.uses p f ∧ (st.commits p < w'.refs p → st.commits p < w.refs p)) ∨
      ∃ n, st'.cache.files p = some ⟨f, n⟩ := by
  have listed : ∀ {b : ChangedBlock} {todo req : List ChangedBlock},
      w.pc = .blocks (b :: todo) req → (p, f) ∈ w.files → w.uses p f ∧
        (st.commits p < ((b.filePath :: w.files.map Prod.fst).count p) →
          st.commits p < w.refs p) := by
    intro b todo req hpc mem
    refine ⟨by simpa [Stream.uses, hpc] using mem, fun more => ?_⟩
    have held : 0 < (w.files.map Prod.fst).count p :=
      List.count_pos_iff.mpr (List.mem_map_of_mem mem)
    simp only [Stream.refs, hpc]
    by_cases hp : p = b.filePath
    · have none : st.commits p = 0 := unsettled p (by simp [Stream.pending, hpc, hp])
      omega
    · rw [count_cons_path, if_neg hp] at more
      exact more
  cases h with
  | recv hpc | cached hpc | written hpc | acked hpc =>
    exact .inl ⟨by simpa [Stream.uses, hpc] using use, by simp only [Stream.refs, hpc, imp_self]⟩
  | sent hpc next =>
    rcases next with rfl | rfl <;>
      exact .inl ⟨by simpa [Stream.uses, hpc] using use, by simp only [Stream.refs, hpc, imp_self]⟩
  | @acquired _ b todo req e hpc entry =>
    rcases List.mem_cons.mp use with eq | mem
    · cases eq
      exact .inr ⟨e.count + 1, by simp [FileCache.retain, RefTable.retain, entry]⟩
    · exact .inl (listed hpc mem)
  | @opened _ b todo req hpc absent =>
    rcases List.mem_cons.mp use with eq | mem
    · cases eq
      exact .inr ⟨1, by simp [FileCache.openFile, RefTable.insert]⟩
    · exact .inl (listed hpc mem)
  | @entered _ path todo err e hpc mem entry =>
    obtain ⟨rfl, file⟩ := use
    cases file
    exact .inr ⟨e.count + 1, by simp [FileCache.retain, RefTable.retain, entry]⟩
  | sync hpc step =>
    cases step with
    | sync =>
      refine .inl ⟨?_, by simp only [Stream.refs, hpc]; exact id⟩
      simp only [Stream.uses, hpc]
      exact use
    | _ => cases use.2
  | _ => cases use

theorem CommitStep.uses {c c' : CommitPC} {a : CommitAction} (h : CommitStep st c a st' c')
    {p : GoString} {f : ℕ} (use : c'.uses p f) :
    (c.uses p f ∧ c'.refs p = c.refs p) ∨ ∃ n, st'.cache.files p = some ⟨f, n⟩ := by
  cases h with
  | @entered ok e todo paths entry present =>
    obtain ⟨rfl, file⟩ := use
    cases file
    exact .inr ⟨entry.count + 1, by simp [FileCache.retain, RefTable.retain, present]⟩
  | sync hpc step =>
    cases step with
    | sync => exact .inl ⟨use, rfl⟩
    | _ => cases use.2
  | releaseRef => cases use.2
  | _ => cases use

theorem CommitStep.commits_le {c c' : CommitPC} {a : CommitAction} (h : CommitStep st c a st' c')
    (p : GoString) : st.commits p ≤ st'.commits p := by
  unfold Store.commits
  rcases h.frame.2 with same | ⟨path, e, todo, paths, -, more⟩
  · rw [same]
  · rw [more, List.count_append]
    exact Nat.le_add_right _ _

theorem CommitStep.ledger {c c' : CommitPC} {a : CommitAction} (h : CommitStep st c a st' c')
    (p : GoString) : c'.running p + st'.commits p + st.begun.count p ≤
      c.running p + st.commits p + st'.begun.count p := by
  cases h with
  | entered | missed =>
    simp only [CommitPC.running, Store.commits, List.count_append, count_cons_path, List.count_nil,
      SyncPC.owns]
    omega
  | sync hpc step =>
    cases step with
    | releaseRef => exact absurd rfl (hpc _)
    | _ => exact le_rfl
  | releaseRef =>
    simp only [CommitPC.running, Store.commits, List.count_append, count_cons_path, List.count_nil,
      SyncPC.owns]
    split_ifs <;> omega
  | finish hc => rcases hc with rfl | ⟨paths, rfl⟩ <;> exact le_rfl
  | failed | left =>
    simp only [CommitPC.running, SyncPC.owns, ite_self]
    exact le_rfl
  | _ => exact le_rfl

theorem StreamStep.write {w w' : Stream} {a : StreamAction} (h : StreamStep st w a st' w') :
    ∀ f b todo req, w'.pc = .write f b todo req → (b.filePath, f) ∈ w'.files := by
  intro f b todo req hw
  cases h with
  | cached hpc mem =>
    cases hw
    exact mem
  | acquired | opened =>
    cases hw
    exact List.mem_cons_self
  | sent hpc next => rcases next with rfl | rfl <;> cases hw
  | _ => cases hw

end Moves

namespace Destination

variable {W C : Type} [Fintype W] [DecidableEq W] [Fintype C] [DecidableEq C]

def refs (s : Destination W C) (p : GoString) : ℕ :=
  ∑ i, (s.streams i).refs p + ∑ j, (s.commits j).refs p

/-- A commit is processed only when every block of its path has been written. -/
def complete (s : Destination W C) : DestinationAction W C → Bool
  | .stream _ (.recv req) => req.blocks.all fun b => b.filePath ∉ s.store.begun
  | .commit j (.next _) =>
    match s.commits j with
    | .entries (e :: _) _ => decide (∀ i, e.path ∉ (s.streams i).pending)
    | _ => true
  | _ => true

/-- The commit of a path is processed at most once. -/
def once (s : Destination W C) : DestinationAction W C → Bool
  | .commit j (.next _) =>
    match s.commits j with
    | .entries (e :: _) _ => decide (e.path ∉ s.store.begun)
    | _ => true
  | _ => true

/-- The references in the cache are accounted for, and no block is pending whose path is
being committed. -/
structure Accounts (s : Destination W C) : Prop where
  balanced : Balanced s.store.cache.files s.refs s.store.commits
  pending : ∀ i, ∀ p ∈ (s.streams i).pending, p ∉ s.store.begun
  committed : ∀ p ∈ s.store.committed, p ∈ s.store.begun
  syncing : ∀ j path pc todo paths, s.commits j = .sync path pc todo paths → path ∈ s.store.begun

variable {s s' : Destination W C}

omit [DecidableEq W] [DecidableEq C] in
theorem Accounts.unsettled (h : s.Accounts) {i : W} {p : GoString}
    (hp : p ∈ (s.streams i).pending) : s.store.commits p = 0 :=
  List.count_eq_zero.mpr fun mem => h.pending i p hp (h.committed p mem)

omit [DecidableEq C] in
theorem Accounts.stream (h : s.Accounts) {i : W} {a : StreamAction} {st : Store} {w : Stream}
    (step : StreamStep s.store (s.streams i) a st w) (allowed : s.complete (.stream i a) = true) :
    ({ s with store := st, streams := update s.streams i w } : Destination W C).Accounts := by
  obtain ⟨begun, committed, -⟩ := step.frame
  refine ⟨?_, ?_, ?_, ?_⟩
  · refine h.balanced.move (step.move fun p => h.unsettled) fun q => ?_
    have total := sum_update_add (fun x : Stream => x.refs q) s.streams i w
    simp only [refs]
    omega
  · rw [begun]
    refine forall_update (P := fun _ (x : Stream) => ∀ p ∈ x.pending, p ∉ s.store.begun)
      (fun p hp => ?_) fun j _ => h.pending j
    rcases step.pending hp with old | ⟨req, rfl, b, hb, rfl⟩
    · exact h.pending i p old
    · simp only [complete, List.all_eq_true, decide_eq_true_eq] at allowed
      exact allowed b hb
  · rw [begun, committed]
    exact h.committed
  · rw [begun]
    exact h.syncing

omit [DecidableEq W] in
theorem Accounts.commit (h : s.Accounts) {j : C} {a : CommitAction} {st : Store} {c : CommitPC}
    (step : CommitStep s.store (s.commits j) a st c) (allowed : s.complete (.commit j a) = true) :
    ({ s with store := st, commits := update s.commits j c } : Destination W C).Accounts := by
  have grown := step.begun_subset
  obtain ⟨begun, committed⟩ := step.frame
  refine ⟨?_, fun i p hp => ?_, fun p hp => ?_, ?_⟩
  · refine h.balanced.move step.move fun q => ?_
    have total := sum_update_add (fun x : CommitPC => x.refs q) s.commits j c
    simp only [refs]
    omega
  · rcases begun with same | ⟨e, todo, paths, ok, hc, rfl, more⟩
    · rw [same]
      exact h.pending i p hp
    · simp only [complete, hc, decide_eq_true_eq] at allowed
      rw [more, List.mem_append, List.mem_singleton, not_or]
      exact ⟨h.pending i p hp, fun eq => allowed i (eq ▸ hp)⟩
  · rcases committed with same | ⟨path, e, todo, paths, hc, more⟩
    · exact grown (h.committed p (same ▸ hp))
    · rw [more, List.mem_append, List.mem_singleton] at hp
      rcases hp with hp | rfl
      · exact grown (h.committed p hp)
      · exact grown (h.syncing j p _ _ _ hc)
  · refine forall_update (P := fun _ (x : CommitPC) => ∀ path pc todo paths,
      x = .sync path pc todo paths → path ∈ st.begun) (step.syncing (h.syncing j)) ?_
    exact fun k _ path pc todo paths hc => grown (h.syncing k path pc todo paths hc)

theorem Accounts.step (h : s.Accounts) {a : DestinationAction W C} (allowed : s.complete a = true)
    (hs : s.step a = some s') : s'.Accounts := by
  cases a with
  | stream i a =>
    obtain ⟨⟨st, w⟩, next, rfl⟩ := Option.map_eq_some_iff.mp hs
    exact h.stream (Stream.step_cases next) allowed
  | commit j a =>
    obtain ⟨⟨st, c⟩, next, rfl⟩ := Option.map_eq_some_iff.mp hs
    exact h.commit (CommitPC.step_cases next) allowed

omit [DecidableEq W] [DecidableEq C] in
theorem start_accounts (baseDir : GoString) : (start W C baseDir).Accounts := by
  refine ⟨fun p => ?_, fun i p hp => ?_, fun p hp => ?_, fun j path pc todo paths hc => ?_⟩
  · simp [start, Store.new, FileCache.new, BalancedAt, refs, Stream.start, Stream.refs,
      CommitPC.refs]
  · cases hp
  · cases hp
  · cases hc

theorem reach_accounts {allow : Destination W C → DestinationAction W C → Bool} {baseDir : GoString}
    (more : ∀ s a, allow s a = true → complete s a = true)
    (h : Reach (restrict allow step) (start W C baseDir) s) : s.Accounts :=
  h.invariant (start_accounts baseDir) fun s₁ a _ _ hs next =>
    have ⟨allowed, taken⟩ := restrict_eq_some.mp next
    hs.step (more s₁ a allowed) taken

/-- A handle that is relied on by someone with more references than were given up too many
is the one in the cache. -/
structure Held (s : Destination W C) : Prop where
  stream : ∀ i p f, (s.streams i).uses p f → s.store.commits p < (s.streams i).refs p →
    ∃ n, s.store.cache.files p = some ⟨f, n⟩
  commit : ∀ j p f, (s.commits j).uses p f → s.store.commits p < (s.commits j).refs p →
    ∃ n, s.store.cache.files p = some ⟨f, n⟩
  write : ∀ i f b todo req, (s.streams i).pc = .write f b todo req →
    (b.filePath, f) ∈ (s.streams i).files

omit [DecidableEq W] [DecidableEq C] in
theorem stream_refs_le (s : Destination W C) (i : W) (p : GoString) :
    (s.streams i).refs p ≤ s.refs p :=
  (le_sum (fun x : Stream => x.refs p) s.streams i).trans (Nat.le_add_right _ _)

omit [DecidableEq W] [DecidableEq C] in
theorem commit_refs_le (s : Destination W C) (j : C) (p : GoString) :
    (s.commits j).refs p ≤ s.refs p :=
  (le_sum (fun x : CommitPC => x.refs p) s.commits j).trans (Nat.le_add_left _ _)

omit [DecidableEq W] [DecidableEq C] in
theorem Accounts.keeps (h : s'.Accounts) {r r' : GoString → ℕ}
    (move : Move s.store.cache.files r s.store.commits s'.store.cache.files r' s'.store.commits)
    {p : GoString} {f : ℕ} (before : ∃ n, s.store.cache.files p = some ⟨f, n⟩)
    (more : s'.store.commits p < s'.refs p) : ∃ n, s'.store.cache.files p = some ⟨f, n⟩ := by
  obtain ⟨n, before⟩ := before
  obtain ⟨⟨g, m⟩, after⟩ := h.balanced.present more
  have same : g = f := move.value before after
  exact ⟨m, same ▸ after⟩

omit [DecidableEq C] in
theorem Held.stream_step (h : s.Held) (acc : s.Accounts) {i : W} {a : StreamAction} {st : Store}
    {w : Stream} (step : StreamStep s.store (s.streams i) a st w)
    (acc' : ({ s with store := st, streams := update s.streams i w } : Destination W C).Accounts) :
    ({ s with store := st, streams := update s.streams i w } : Destination W C).Held := by
  have commits : ∀ p, st.commits p = s.store.commits p := fun p => by
    rw [Store.commits, step.frame.2.1, Store.commits]
  have unsettled : ∀ p ∈ (s.streams i).pending, s.store.commits p = 0 := fun p => acc.unsettled
  have keeps := fun {p f} => acc'.keeps (s := s) (p := p) (f := f) (step.move unsettled)
  refine ⟨fun j p f use more => ?_, fun j p f use more => ?_, ?_⟩
  · have enough := more.trans_le (stream_refs_le _ j p)
    by_cases hj : j = i
    · rw [hj] at use more
      simp only [update_self] at use more
      rcases step.uses unsettled use with ⟨old, refs⟩ | found
      · rw [commits] at more
        exact keeps (h.stream i p f old (refs more)) enough
      · exact found
    · simp only [update_of_ne hj, commits] at use more
      exact keeps (h.stream j p f use more) enough
  · have enough := more.trans_le (commit_refs_le _ j p)
    simp only [commits] at more
    exact keeps (h.commit j p f use more) enough
  · exact forall_update (P := fun _ (x : Stream) => ∀ f b todo req, x.pc = .write f b todo req →
      (b.filePath, f) ∈ x.files) step.write fun j _ => h.write j

omit [DecidableEq W] in
theorem Held.commit_step (h : s.Held) {j : C} {a : CommitAction} {st : Store} {c : CommitPC}
    (step : CommitStep s.store (s.commits j) a st c)
    (acc' : ({ s with store := st, commits := update s.commits j c } : Destination W C).Accounts) :
    ({ s with store := st, commits := update s.commits j c } : Destination W C).Held := by
  have fewer := step.commits_le
  have keeps := fun {p f} => acc'.keeps (s := s) (p := p) (f := f) step.move
  refine ⟨fun i p f use more => ?_, fun k p f use more => ?_, h.write⟩
  · have enough := more.trans_le (stream_refs_le _ i p)
    exact keeps (h.stream i p f use ((fewer p).trans_lt more)) enough
  · have enough := more.trans_le (commit_refs_le _ k p)
    by_cases hk : k = j
    · rw [hk] at use more
      simp only [update_self] at use more
      rcases step.uses use with ⟨old, refs⟩ | found
      · rw [refs] at more
        exact keeps (h.commit j p f old ((fewer p).trans_lt more)) enough
      · exact found
    · simp only [update_of_ne hk] at use more
      exact keeps (h.commit k p f use ((fewer p).trans_lt more)) enough

theorem reach_held {allow : Destination W C → DestinationAction W C → Bool} {baseDir : GoString}
    (more : ∀ s a, allow s a = true → complete s a = true)
    (h : Reach (restrict allow step) (start W C baseDir) s) : s.Held := by
  refine h.invariant ⟨?_, ?_, ?_⟩ fun s₁ a s₂ reached held next => ?_
  · intro i p f use
    cases use
  · intro j p f use
    cases use
  · intro i f b todo req hpc
    cases hpc
  · have acc := reach_accounts more reached
    have acc' := reach_accounts more (.tail a reached next)
    have taken := (restrict_eq_some.mp next).2
    cases a with
    | stream i a =>
      obtain ⟨⟨st, w⟩, moved, rfl⟩ := Option.map_eq_some_iff.mp taken
      exact held.stream_step acc (Stream.step_cases moved) acc'
    | commit j a =>
      obtain ⟨⟨st, c⟩, moved, rfl⟩ := Option.map_eq_some_iff.mp taken
      exact held.commit_step (CommitPC.step_cases moved) acc'

/-- A path is committed by one handler at most, and gives up one reference too many at most. -/
structure Single (s : Destination W C) : Prop where
  ledger : ∀ p, ∑ j, (s.commits j).running p + s.store.commits p ≤ s.store.begun.count p
  nodup : s.store.begun.Nodup

omit [Fintype W] [DecidableEq W] in
theorem Single.commit_step (h : s.Single) {j : C} {a : CommitAction} {st : Store} {c : CommitPC}
    (step : CommitStep s.store (s.commits j) a st c) (allowed : s.once (.commit j a) = true) :
    ({ s with store := st, commits := update s.commits j c } : Destination W C).Single := by
  refine ⟨fun p => ?_, ?_⟩
  · have total := sum_update_add (fun x : CommitPC => x.running p) s.commits j c
    have ledger := step.ledger p
    have before := h.ledger p
    simp only
    omega
  · rcases step.frame.1 with same | ⟨e, todo, paths, ok, hc, rfl, more⟩
    · simp only [same]
      exact h.nodup
    · simp only [once, hc, decide_eq_true_eq] at allowed
      simp only [more]
      exact List.nodup_append'.mpr ⟨h.nodup, List.nodup_singleton _,
        List.disjoint_singleton.mpr allowed⟩

omit [Fintype W] in
theorem reach_single {allow : Destination W C → DestinationAction W C → Bool} {baseDir : GoString}
    (more : ∀ s a, allow s a = true → once s a = true)
    (h : Reach (restrict allow step) (start W C baseDir) s) : s.Single := by
  refine h.invariant ⟨fun p => ?_, List.nodup_nil⟩ fun s₁ a s₂ _ single next => ?_
  · simp [start, CommitPC.running, Store.commits, Store.new]
  · obtain ⟨allowed, taken⟩ := restrict_eq_some.mp next
    cases a with
    | stream i a =>
      obtain ⟨⟨st, w⟩, moved, rfl⟩ := Option.map_eq_some_iff.mp taken
      obtain ⟨begun, committed, -⟩ := (Stream.step_cases moved).frame
      refine ⟨fun p => ?_, ?_⟩
      · have ledger := single.ledger p
        simp only [Store.commits] at ledger ⊢
        rw [begun, committed]
        exact ledger
      · simp only [begun]
        exact single.nodup
    | commit j a =>
      obtain ⟨⟨st, c⟩, moved, rfl⟩ := Option.map_eq_some_iff.mp taken
      exact single.commit_step (CommitPC.step_cases moved) (more _ _ allowed)

/-- The commits are processed at most once, and after the last block of their path. -/
def orderly (s : Destination W C) (a : DestinationAction W C) : Bool := s.complete a && s.once a

/-- Every stream has returned and no commit is being processed. -/
def Finished (s : Destination W C) : Prop :=
  (∀ i, ∃ err, (s.streams i).pc = .returned err) ∧
    ∀ j, s.commits j = .recv ∨ ∃ err, s.commits j = .returned err

omit [Fintype W] [DecidableEq W] [DecidableEq C] in
theorem Single.commits_le (h : s.Single) (p : GoString) : s.store.commits p ≤ 1 :=
  ((Nat.le_add_left _ _).trans (h.ledger p)).trans (List.nodup_iff_count_le_one.mp h.nodup p)

/-- The destination touches open files only, keeps one of them open for a path, and leaves
none behind. -/
theorem operands_open (W C : Type) [Fintype W] [DecidableEq W] [Fintype C] [DecidableEq C]
    (baseDir : GoString) (s : Destination W C)
    (h : Reach (restrict orderly step) (start W C baseDir) s) :
    (∀ i f, (s.streams i).operand = some f → (s.store.cache.handles f).isSome = true) ∧
    (∀ j f, (s.commits j).operand = some f → (s.store.cache.handles f).isSome = true) ∧
    (∀ f g p, s.store.cache.handles f = some p → s.store.cache.handles g = some p → f = g) ∧
    (s.Finished → ∀ p, s.store.cache.files p = none) := by
  have acc := reach_accounts (fun s a allowed => (Bool.and_eq_true_iff.mp allowed).1) h
  have held := reach_held (fun s a allowed => (Bool.and_eq_true_iff.mp allowed).1) h
  have single := reach_single (fun s a allowed => (Bool.and_eq_true_iff.mp allowed).2) h
  have isOpen : ∀ {p f}, (∃ n, s.store.cache.files p = some ⟨f, n⟩) →
      (s.store.cache.handles f).isSome = true := fun entry => by
    rw [(s.store.cache.opened _ _).mpr entry]
    rfl
  refine ⟨fun i f hf => ?_, fun j f hf => ?_, fun f g p => s.store.cache.opened.unique, ?_⟩
  · unfold Stream.operand at hf
    split at hf
    · rename_i file b todo req hpc
      cases hf
      have mem := held.write i _ _ _ _ hpc
      -- the commit of the path has not begun, so the reference of the handler is there
      have pending : b.filePath ∈ (s.streams i).pending := by simp [Stream.pending, hpc]
      have none := acc.unsettled pending
      have some : 0 < (s.streams i).refs b.filePath := by
        simp only [Stream.refs, hpc]
        exact List.count_pos_iff.mpr (List.mem_map_of_mem mem)
      exact isOpen (held.stream i b.filePath f (by simpa only [Stream.uses, hpc] using mem)
        (by omega))
    · rename_i path pc todo err hpc
      -- the commit of the path gives up one reference at most, and `Sync` runs under two
      have two : 2 ≤ (s.streams i).refs path := by
        simp only [Stream.refs, hpc, if_true]
        cases pc <;> cases hf <;> simp [SyncPC.owns, SyncPC.guards]
      have one := single.commits_le path
      have use : (s.streams i).uses path f := by
        unfold Stream.uses
        rw [hpc]
        exact ⟨rfl, hf⟩
      exact isOpen (held.stream i path f use (by omega))
    · cases hf
  · unfold CommitPC.operand at hf
    split at hf
    · rename_i path pc todo paths hc
      have guard : (s.commits j).refs path = 1 ∧ (s.commits j).running path = 1 := by
        simp only [CommitPC.refs, CommitPC.running, hc, if_true]
        cases pc <;> cases hf <;> exact ⟨rfl, rfl⟩
      have one := List.nodup_iff_count_le_one.mp single.nodup path
      have ledger := single.ledger path
      have running := le_sum (fun x : CommitPC => x.running path) s.commits j
      have use : (s.commits j).uses path f := by
        rw [hc]
        exact ⟨rfl, hf⟩
      exact isOpen (held.commit j path f use (by omega))
    · cases hf
  · rintro ⟨streams, commits⟩ p
    refine acc.balanced.absent ?_
    have stream : ∀ i, (s.streams i).refs p = 0 := fun i => by
      obtain ⟨err, hpc⟩ := streams i
      simp only [Stream.refs, hpc]
    have commit : ∀ j, (s.commits j).refs p = 0 := fun j => by
      rcases commits j with hc | ⟨err, hc⟩ <;> rw [hc] <;> rfl
    simp [refs, stream, commit]

def block (requestId : ℕ) (path : String) : ChangedBlock :=
  ⟨requestId, goString path, 2, requestId, 1, false, [0]⟩

/-- Two streams write one file each a block; the commit of the file comes between the end
of the first one and the end of the second one, which finds no entry any more. -/
def sharedFile : List (DestinationAction (Fin 2) Unit) :=
  repeats [(1, .stream 0 (.recv ⟨[block 0 "a"]⟩)), (1, .stream 1 (.recv ⟨[block 1 "a"]⟩)),
    (4, .stream 0 (.next true)), (4, .stream 1 (.next true)), (1, .stream 0 (.close false)),
    (1, .stream 0 (.pick (goString "a"))), (1, .commit () (.recv [⟨goString "a", 2⟩])),
    (8, .commit () (.next true)), (6, .stream 0 (.next true)), (1, .stream 1 (.close false)),
    (1, .stream 1 (.pick (goString "a"))), (1, .stream 1 (.next true))]

theorem operands_open_sharedFile : ∃ s : Destination (Fin 2) Unit,
    Reach (restrict orderly step) (start (Fin 2) Unit dataMountPath) s ∧
    s.store.written = [block 0 "a", block 1 "a"] ∧ s.store.answered = [goString "a"] ∧
    s.Finished ∧ ∀ p, s.store.cache.files p = none := by
  have run : ((exec (restrict orderly step) (start (Fin 2) Unit dataMountPath) sharedFile).any
      fun s => s.store.written = [block 0 "a", block 1 "a"] ∧ s.store.answered = [goString "a"] ∧
        (∀ i, (s.streams i).pc = .returned false) ∧ ∀ j, s.commits j = .recv) = true := by
    decide +kernel
  obtain ⟨s, reached, hs⟩ := Reach.of_exec_any run
  simp only [decide_eq_true_eq] at hs
  obtain ⟨written, answered, streams, commits⟩ := hs
  have finished : s.Finished := ⟨fun i => ⟨false, streams i⟩, fun j => .inl (commits j)⟩
  exact ⟨s, reached, written, answered, finished,
    (operands_open _ _ _ s reached).2.2.2 finished⟩

end Destination

end CephVolsync.CephFs
