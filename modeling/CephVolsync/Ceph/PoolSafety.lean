import CephVolsync.Ceph.ConnPool

/-! What the connection pool guarantees. However its clients behave, every connection made is in
one place, and a client has a connection that was made for credentials with the key of its own
ones. If nobody gives a connection back twice, it is open as long as somebody has it, and its
entry counts those who have it. -/

namespace CephVolsync.Ceph

open Function IndexedFamily TransitionSystem

/-- The client has the connection and has not given it back. -/
def ClusterConnection.Uses (cc : ClusterConnection) (conn : ℕ) : Prop :=
  cc.conn = some conn ∧ cc.destroyed = false

instance (cc : ClusterConnection) (conn : ℕ) : Decidable (cc.Uses conn) :=
  inferInstanceAs (Decidable (_ ∧ _))

def ClusterConnection.refs (conn : ℕ) (cc : ClusterConnection) : ℕ := if cc.Uses conn then 1 else 0

def ClusterConnection.own (cc : ClusterConnection) : Multiset ℕ :=
  match cc.pc with
  | .store _ ce => {ce.conn}
  | _ => 0

/-- No client calls `Destroy` twice. -/
def disciplined {N : ℕ} (s : PoolState N) : PoolAction N → Bool
  | .destroy i => !(s.clients i).destroyed
  | _ => true

namespace PoolState

variable {N : ℕ}

def refs (s : PoolState N) (conn : ℕ) : ℕ := ∑ i, (s.clients i).refs conn

def settled (s : PoolState N) : Multiset ℕ :=
  (s.shut : Multiset ℕ) + (s.failed : Multiset ℕ) +
    (s.conns.items.map ConnEntry.conn : Multiset ℕ)

/-- The connection was made for a `Connect` with these credentials; its key is theirs if the key
file was the same at both reads. -/
def MadeFor (s : PoolState N) (conn : ℕ) (cred : Credentials) : Prop :=
  ∃ key, s.dialled[conn]? = some { cred with key := key } ∧ (conn ∉ s.rotated → key = cred.key)

def Keyed (s : PoolState N) (ce : ConnEntry) : Prop :=
  ∃ cred, s.MadeFor ce.conn cred ∧ ce.unique = generateUniqueKey cred

structure Kept (s : PoolState N) : Prop where
  custody : ∑ i, (s.clients i).own + s.settled = Multiset.range s.dialled.length
  keyed : ∀ ce ∈ s.conns.items, s.Keyed ce
  storing : ∀ i cred ce, (s.clients i).pc = .store cred ce →
    s.MadeFor ce.conn cred ∧ ce.unique = generateUniqueKey cred ∧ ce.users = 1
  calling : ∀ i, (s.clients i).pc ≠ .idle → (s.clients i).conn = none
  asked : ∀ i conn, (s.clients i).conn = some conn → ∃ cred made, (s.clients i).cred = some cred ∧
    s.MadeFor conn made ∧ generateUniqueKey cred = generateUniqueKey made

/-- What holds of the users of the entries if nobody calls `Destroy` twice. -/
structure Counted (s : PoolState N) : Prop where
  users : ∀ ce ∈ s.conns.items, ce.users = s.refs ce.conn
  found : ∀ i conn, (s.clients i).Uses conn → conn ∈ s.conns.items.map ConnEntry.conn

variable {s s' : PoolState N}

theorem init_kept (N : ℕ) : (poolInit N).Kept where
  custody := by simp [poolInit, KeyedStore.empty, ClusterConnection.own, settled]
  keyed _ h := by cases h
  storing _ _ _ h := by cases h
  calling _ _ := rfl
  asked _ _ h := by cases h

theorem init_counted (N : ℕ) : (poolInit N).Counted where
  users _ h := by cases h
  found _ _ h := by cases h.1

theorem Kept.nodup (h : s.Kept) : (∑ i, (s.clients i).own + s.settled).Nodup := by
  rw [h.custody]
  exact Multiset.nodup_range _

theorem Kept.entry_eq (h : s.Kept) {ce ce' : ConnEntry} (hce : ce ∈ s.conns.items)
    (hce' : ce' ∈ s.conns.items) (same : ce.conn = ce'.conn) : ce = ce' := by
  have distinct : (s.conns.items.map ConnEntry.conn).Nodup :=
    Multiset.coe_nodup.mp (Multiset.nodup_add.mp (Multiset.nodup_add.mp h.nodup).2.1).2.1
  exact List.inj_on_of_nodup_map distinct hce hce' same

theorem mem_of_entryOf {conns : Conns} {conn : ℕ} {ce : ConnEntry}
    (h : conns.entryOf conn = some ce) : ce ∈ conns.items ∧ ce.conn = conn :=
  ⟨List.mem_of_find?_eq_some h, by simpa using List.find?_some h⟩

theorem Kept.entryOf_eq (h : s.Kept) {ce : ConnEntry} (hce : ce ∈ s.conns.items) :
    s.conns.entryOf ce.conn = some ce := by
  have present : (s.conns.entryOf ce.conn).isSome = true :=
    List.find?_isSome.mpr ⟨ce, hce, decide_eq_true rfl⟩
  obtain ⟨ce', found⟩ := Option.isSome_iff_exists.mp present
  obtain ⟨hce', same⟩ := mem_of_entryOf found
  rw [found, h.entry_eq hce' hce same]

theorem Kept.open_of_mem (h : s.Kept) {ce : ConnEntry} (hce : ce ∈ s.conns.items) :
    ce.conn ∉ s.shut := by
  intro shut
  have apart := (Multiset.nodup_add.mp (Multiset.nodup_add.mp h.nodup).2.1).2.2
  exact Multiset.disjoint_left.mp apart (Multiset.mem_add.mpr (.inl shut))
    (List.mem_map_of_mem hce)

theorem map_conn_update {conns : Conns} {ce ce' : ConnEntry} (hce : ce ∈ conns.items)
    (unique : ce'.unique = ce.unique) (conn : ce'.conn = ce.conn) :
    (conns.update ce').items.map ConnEntry.conn = conns.items.map ConnEntry.conn := by
  rw [KeyedStore.items_update ce' hce unique, List.map_map]
  refine List.map_congr_left fun b _ => ?_
  simp only [Function.comp_apply]
  split_ifs with here
  · rw [conn, here]
  · rfl

theorem clients_set {P : ClusterConnection → Prop} {i : Fin N} {cc : ClusterConnection}
    (clients : s'.clients = update s.clients i cc) (others : ∀ j, P (s.clients j)) (self : P cc)
    (j : Fin N) : P (s'.clients j) := by
  rw [clients]
  exact forall_update (P := fun _ (v : ClusterConnection) => P v) self (fun j _ => others j) j

theorem Kept.stepped (h : s.Kept) {i : Fin N} {cc : ClusterConnection}
    (clients : s'.clients = update s.clients i cc)
    (keeps : ∀ conn cred, s.MadeFor conn cred → s'.MadeFor conn cred)
    (books : cc.own + (s'.settled + Multiset.range s.dialled.length) =
      (s.clients i).own + (s.settled + Multiset.range s'.dialled.length))
    (keyed : ∀ ce ∈ s'.conns.items, s'.Keyed ce)
    (storing : ∀ cred ce, cc.pc = .store cred ce →
      s'.MadeFor ce.conn cred ∧ ce.unique = generateUniqueKey cred ∧ ce.users = 1)
    (calling : cc.pc ≠ .idle → cc.conn = none)
    (asked : ∀ conn, cc.conn = some conn → ∃ cred made, cc.cred = some cred ∧
      s'.MadeFor conn made ∧ generateUniqueKey cred = generateUniqueKey made) : s'.Kept := by
  -- a step of the client `i`. The books say where the connections are that it makes or moves
  refine ⟨?_, keyed, fun j cred ce => ?_, ?_, fun j conn => ?_⟩
  · have total := sum_update_add ClusterConnection.own s.clients i cc
    rw [clients]
    refine add_right_cancel (b := (s.clients i).own + Multiset.range s.dialled.length) ?_
    calc
      ∑ j, (update s.clients i cc j).own + s'.settled +
            ((s.clients i).own + Multiset.range s.dialled.length)
          = ∑ j, (update s.clients i cc j).own + (s.clients i).own +
              (s'.settled + Multiset.range s.dialled.length) := by abel
      _ = ∑ j, (s.clients j).own + (cc.own + (s'.settled + Multiset.range s.dialled.length)) := by
            rw [total]; abel
      _ = ∑ j, (s.clients j).own + s.settled +
            ((s.clients i).own + Multiset.range s'.dialled.length) := by rw [books]; abel
      _ = Multiset.range s'.dialled.length +
            ((s.clients i).own + Multiset.range s.dialled.length) := by rw [h.custody]; abel
  · refine clients_set (P := fun v => v.pc = .store cred ce → _) clients (fun j at_ => ?_)
      (storing cred ce) j
    obtain ⟨made, rest⟩ := h.storing j cred ce at_
    exact ⟨keeps _ _ made, rest⟩
  · exact clients_set (P := fun v => v.pc ≠ .idle → v.conn = none) clients h.calling calling
  · refine clients_set (P := fun v => v.conn = some conn → ∃ cred made, v.cred = some cred ∧
      s'.MadeFor conn made ∧ generateUniqueKey cred = generateUniqueKey made) clients
      (fun j holds => ?_) (asked conn) j
    obtain ⟨cred, made, wanted, served, same⟩ := h.asked j conn holds
    exact ⟨cred, made, wanted, keeps _ _ served, same⟩

theorem Kept.called (h : s.Kept) {i : Fin N} {cc : ClusterConnection}
    (outside : (s.clients i).own = 0) (conn : cc.conn = none) (none : cc.own = 0) :
    (s.set i cc).Kept := by
  refine h.stepped rfl (fun _ _ made => made) ?_ h.keyed (fun cred ce at_ => ?_) (fun _ => conn)
    fun other holds => ?_
  · rw [outside, none]
    rfl
  · simp [ClusterConnection.own, at_] at none
  · rw [conn] at holds
    cases holds

theorem MadeFor.lt {conn : ℕ} {cred : Credentials} (h : s.MadeFor conn cred) :
    conn < s.dialled.length := by
  obtain ⟨key, at_, -⟩ := h
  exact (List.getElem?_eq_some_iff.mp at_).1

theorem MadeFor.made {conn : ℕ} {cred : Credentials} (h : s.MadeFor conn cred)
    (other : Credentials) (key : GoString) : (s.made other key).MadeFor conn cred := by
  have old := h.lt
  obtain ⟨read, at_, same⟩ := h
  refine ⟨read, ?_, fun steady => same fun rotated => steady (List.mem_append_left _ rotated)⟩
  change (s.dialled ++ _)[conn]? = _
  rw [List.getElem?_append_left old, at_]

theorem made_madeFor (s : PoolState N) (cred : Credentials) (key : GoString) :
    (s.made cred key).MadeFor s.dialled.length cred := by
  refine ⟨key, by simp [made], fun steady => ?_⟩
  by_contra other
  exact steady (by simp [made, other])

theorem Kept.dialled (h : s.Kept) {i : Fin N} {cc : ClusterConnection} {cred : Credentials}
    {key : GoString} (failed : List ℕ) (outside : (s.clients i).own = 0) (conn : cc.conn = none)
    (books : cc.own + (failed : Multiset ℕ) = {s.dialled.length} + (s.failed : Multiset ℕ))
    (storing : ∀ cred' ce, cc.pc = .store cred' ce →
      (s.made cred key).MadeFor ce.conn cred' ∧ ce.unique = generateUniqueKey cred' ∧
        ce.users = 1) :
    ({ s.made cred key with failed := failed }.set i cc).Kept := by
  refine h.stepped rfl (fun _ _ old => old.made cred key) ?_ (fun ce hce => ?_) storing
    (fun _ => conn) fun other holds => ?_
  · have length : ({ s.made cred key with failed := failed }.set i cc).dialled.length =
        s.dialled.length + 1 := by simp [made, set]
    have settled' : ({ s.made cred key with failed := failed }.set i cc).settled =
        (s.shut : Multiset ℕ) + failed + (s.conns.items.map ConnEntry.conn : List ℕ) := rfl
    rw [length, settled', outside, Multiset.range_succ, ← Multiset.singleton_add]
    calc
      cc.own + ((s.shut : Multiset ℕ) + failed + (s.conns.items.map ConnEntry.conn : List ℕ) +
            Multiset.range s.dialled.length)
          = (cc.own + failed) + ((s.shut : Multiset ℕ) +
              (s.conns.items.map ConnEntry.conn : List ℕ) +
                Multiset.range s.dialled.length) := by abel
      _ = _ := by rw [books, settled]; abel
  · obtain ⟨asked, old, unique⟩ := h.keyed ce hce
    exact ⟨asked, old.made cred key, unique⟩
  · rw [conn] at holds
    cases holds

theorem Kept.updated (h : s.Kept) {i : Fin N} {cc : ClusterConnection} {ce ce' : ConnEntry}
    {shut : List ℕ} (hce : ce ∈ s.conns.items) (unique : ce'.unique = ce.unique)
    (conn : ce'.conn = ce.conn) (idle : cc.pc = .idle)
    (moved : (shut : Multiset ℕ) = s.shut + (s.clients i).own)
    (asked : ∀ conn, cc.conn = some conn → ∃ cred made, cc.cred = some cred ∧
      s.MadeFor conn made ∧ generateUniqueKey cred = generateUniqueKey made) :
    ({ s with conns := s.conns.update ce', shut := shut }.set i cc).Kept := by
  refine h.stepped rfl (fun _ _ made => made) ?_ (fun b hb => ?_) (fun cred own at_ => ?_)
    (fun active => absurd idle active) asked
  · have none : cc.own = 0 := by simp [ClusterConnection.own, idle]
    have settled' : ({ s with conns := s.conns.update ce', shut := shut }.set i cc).settled =
        (shut : Multiset ℕ) + s.failed +
          ((s.conns.update ce').items.map ConnEntry.conn : List ℕ) := rfl
    rw [settled', none, moved, map_conn_update hce unique conn, settled]
    simp only [set]
    abel
  · rcases (KeyedStore.mem_update_of_mem ce' hce unique).mp hb with ⟨old, -⟩ | rfl
    · exact h.keyed b old
    · obtain ⟨cred, made, key⟩ := h.keyed ce hce
      exact ⟨cred, conn ▸ made, unique.trans key⟩
  · rw [idle] at at_
    cases at_

theorem Kept.retained (h : s.Kept) {i : Fin N} {ce : ConnEntry} {cred : Credentials}
    {shut : List ℕ} (hce : ce ∈ s.conns.items) (key : ce.unique = generateUniqueKey cred)
    (moved : (shut : Multiset ℕ) = s.shut + (s.clients i).own) :
    ({ s with conns := s.conns.update (ce.get s.now), shut := shut }.set i
      ⟨some ce.conn, .idle, some cred, false⟩).Kept := by
  refine h.updated hce rfl rfl rfl moved fun conn holds => ?_
  cases holds
  obtain ⟨made, served, key'⟩ := h.keyed ce hce
  exact ⟨cred, made, rfl, served, key.symm.trans key'⟩

theorem Kept.released (h : s.Kept) {i : Fin N} {conn : ℕ} (idle : (s.clients i).pc = .idle) :
    ({ s with conns := s.conns.put conn }.set i { s.clients i with destroyed := true }).Kept := by
  have none : (s.clients i).own = 0 := by simp [ClusterConnection.own, idle]
  unfold Conns.put
  cases found : s.conns.entryOf conn with
  | none =>
    refine h.stepped rfl (fun _ _ made => made) ?_ h.keyed (fun cred ce at_ => ?_) (h.calling i)
      (h.asked i)
    · rw [none]
      simp [ClusterConnection.own, idle, settled, set]
    · exact h.storing i cred ce at_
  | some ce =>
    exact h.updated (mem_of_entryOf found).1 rfl rfl idle (by rw [none, add_zero]) (h.asked i)

theorem Kept.stored (h : s.Kept) {i : Fin N} {cred : Credentials} {ce : ConnEntry}
    (at_ : (s.clients i).pc = .store cred ce) (absent : s.conns.get ce.unique = none) :
    ({ s with conns := s.conns.assign ce }.set i ⟨some ce.conn, .idle, some cred, false⟩).Kept := by
  have items : (s.conns.assign ce).items = s.conns.items ++ [ce] := KeyedStore.items_assign absent
  obtain ⟨made, key, -⟩ := h.storing i cred ce at_
  have own : (s.clients i).own = {ce.conn} := by simp [ClusterConnection.own, at_]
  refine h.stepped rfl (fun _ _ made => made) ?_ (fun b hb => ?_) (fun _ _ other => by cases other)
    (fun active => absurd rfl active) fun conn holds => ?_
  · have settled' : ({ s with conns := s.conns.assign ce }.set i
        ⟨some ce.conn, .idle, some cred, false⟩).settled =
          (s.shut : Multiset ℕ) + s.failed +
            ((s.conns.assign ce).items.map ConnEntry.conn : List ℕ) := rfl
    rw [settled', items, List.map_append, ← Multiset.coe_add, List.map_singleton,
      Multiset.coe_singleton, own, settled]
    simp only [ClusterConnection.own, set]
    abel
  · rcases List.mem_append.mp (items ▸ hb) with old | new
    · exact h.keyed b old
    · rw [List.mem_singleton.mp new]
      exact ⟨cred, made, key⟩
  · cases holds
    exact ⟨cred, cred, rfl, made, rfl⟩

theorem settled_gc (s : PoolState N) (expiry : ℕ) : (s.gc expiry).settled = s.settled := by
  have split := (List.filter_append_perm (Conns.expired expiry s.now) s.conns.items).map
    ConnEntry.conn
  have both := Multiset.coe_eq_coe.mpr split
  rw [List.map_append, ← Multiset.coe_add] at both
  simp only [settled, PoolState.gc, KeyedStore.keep]
  rw [← Multiset.coe_add, ← both]
  abel

theorem Kept.gc (h : s.Kept) (expiry : ℕ) : (s.gc expiry).Kept := by
  refine ⟨?_, fun ce hce => h.keyed ce (List.mem_filter.mp hce).1, h.storing, h.calling, h.asked⟩
  rw [s.settled_gc]
  exact h.custody

end PoolState

theorem PoolStep.kept {N expiry : ℕ} {s s' : PoolState N} {a : PoolAction N}
    (h : PoolStep expiry s a s') (hs : s.Kept) : s'.Kept := by
  cases h with
  | quiet => exact ⟨hs.custody, hs.keyed, hs.storing, hs.calling, hs.asked⟩
  | @hit i cred ce free idle found =>
    obtain ⟨hce, key⟩ := KeyedStore.mem_of_get found
    exact hs.retained hce key (by simp [ClusterConnection.own, idle])
  | @miss i cred free idle => exact hs.called (by simp [ClusterConnection.own, idle]) free rfl
  | @undialled i ok cred key at_ =>
    have free := hs.calling i (by simp [at_])
    exact hs.called (by simp [ClusterConnection.own, at_]) free rfl
  | @failed i cred key at_ =>
    have free := hs.calling i (by simp [at_])
    refine hs.dialled _ (by simp [ClusterConnection.own, at_]) free ?_ (by simp)
    rw [← Multiset.coe_add, Multiset.coe_singleton]
    simp only [ClusterConnection.own]
    abel
  | @dialled i cred key at_ =>
    have free := hs.calling i (by simp [at_])
    refine hs.dialled s.failed (by simp [ClusterConnection.own, at_]) free rfl ?_
    intro cred' ce storing
    cases storing
    exact ⟨s.made_madeFor cred key, rfl, rfl⟩
  | @raced i cred ce old at_ found =>
    obtain ⟨hold, same⟩ := KeyedStore.mem_of_get found
    obtain ⟨-, key, -⟩ := hs.storing i cred ce at_
    refine hs.retained hold (same.trans key) ?_
    rw [← Multiset.coe_add]
    simp [ClusterConnection.own, at_]
  | stored at_ absent => exact hs.stored at_ absent
  | @copied i j ce conn holds free idle found =>
    obtain ⟨hce, rfl⟩ := PoolState.mem_of_entryOf found
    refine hs.updated hce rfl rfl rfl (by simp [ClusterConnection.own, idle]) fun conn same => ?_
    cases same
    exact hs.asked i ce.conn holds
  | put idle => exact hs.released idle
  | gc => exact hs.gc expiry

theorem reach_kept {N expiry : ℕ} {s : PoolState N} (h : Reach (poolStep expiry) (poolInit N) s) :
    s.Kept :=
  h.invariant (PoolState.init_kept N) fun _ _ _ _ hs next => (poolStep_cases next).kept hs

namespace PoolState

variable {N : ℕ} {s s' : PoolState N}

theorem refs_set (s : PoolState N) (i : Fin N) (cc : ClusterConnection) (conn : ℕ) :
    (s.set i cc).refs conn + (s.clients i).refs conn = s.refs conn + cc.refs conn :=
  sum_update_add (ClusterConnection.refs conn) s.clients i cc

theorem not_uses {cc : ClusterConnection} (free : cc.conn = none) (conn : ℕ) : ¬cc.Uses conn := by
  simp [ClusterConnection.Uses, free]

theorem refs_of_uses {cc : ClusterConnection} {conn : ℕ} (h : cc.Uses conn) : cc.refs conn = 1 :=
  if_pos h

theorem refs_of_not_uses {cc : ClusterConnection} {conn : ℕ} (h : ¬cc.Uses conn) :
    cc.refs conn = 0 :=
  if_neg h

theorem Counted.called (h : s.Counted) {i : Fin N} {cc : ClusterConnection}
    (conns : s'.conns = s.conns) (clients : s'.clients = update s.clients i cc)
    (free : (s.clients i).conn = none) (free' : cc.conn = none) : s'.Counted := by
  have refs (conn : ℕ) : s'.refs conn = s.refs conn := by
    have total := s.refs_set i cc conn
    rw [refs_of_not_uses (not_uses free _), refs_of_not_uses (not_uses free' _)] at total
    rwa [refs, clients]
  refine ⟨fun ce hce => ?_, fun j conn => ?_⟩
  · rw [refs]
    exact h.users ce (conns ▸ hce)
  · rw [conns]
    exact clients_set (P := fun v => v.Uses conn → _) clients (fun j => h.found j conn)
      (fun uses => absurd uses (not_uses free' conn)) j

theorem Counted.recounted (h : s.Counted) (hk : s.Kept) {i : Fin N} {cc : ClusterConnection}
    {ce ce' : ConnEntry} {shut : List ℕ} (hce : ce ∈ s.conns.items)
    (unique : ce'.unique = ce.unique) (conn : ce'.conn = ce.conn)
    (count : ce'.users + (s.clients i).refs ce.conn = ce.users + cc.refs ce.conn)
    (only : ∀ other, other ≠ ce.conn → cc.refs other = (s.clients i).refs other)
    (uses : ∀ other, cc.Uses other → other = ce.conn) :
    ({ s with conns := s.conns.update ce', shut := shut }.set i cc).Counted := by
  have refs := s.refs_set i cc
  refine ⟨fun b hb => ?_, fun j other => ?_⟩
  · change b.users = (s.set i cc).refs b.conn
    rcases (KeyedStore.mem_update_of_mem ce' hce unique).mp hb with ⟨old, ne⟩ | rfl
    · have other : b.conn ≠ ce.conn := fun same => ne (hk.entry_eq old hce same)
      have total := refs b.conn
      have := h.users b old
      rw [only _ other] at total
      omega
    · have total := refs ce.conn
      have := h.users ce hce
      rw [conn]
      omega
  · refine clients_set (P := fun v => v.Uses other →
      other ∈ (s.conns.update ce').items.map ConnEntry.conn) rfl (fun j still => ?_)
      (fun still => ?_) j
    · rw [map_conn_update hce unique conn]
      exact h.found j other still
    · rw [map_conn_update hce unique conn, uses other still]
      exact List.mem_map_of_mem hce

theorem Counted.retained (h : s.Counted) (hk : s.Kept) {i : Fin N} {ce : ConnEntry}
    {cred : Option Credentials} {shut : List ℕ} (hce : ce ∈ s.conns.items)
    (free : (s.clients i).conn = none) :
    ({ s with conns := s.conns.update (ce.get s.now), shut := shut }.set i
      ⟨some ce.conn, .idle, cred, false⟩).Counted := by
  refine h.recounted hk hce rfl rfl ?_ (fun other ne => ?_) fun other uses => ?_
  · rw [refs_of_not_uses (not_uses free _), refs_of_uses ⟨rfl, rfl⟩]
    simp [ConnEntry.get]
  · rw [refs_of_not_uses (not_uses free _), refs_of_not_uses]
    exact fun also => ne (Option.some.inj also.1).symm
  · exact (Option.some.inj uses.1).symm

theorem Counted.released (h : s.Counted) (hk : s.Kept) {i : Fin N} {conn : ℕ}
    (uses : (s.clients i).Uses conn) : ({ s with conns := s.conns.put conn }.set i
      { s.clients i with destroyed := true }).Counted := by
  obtain ⟨ce, hce, rfl⟩ := List.mem_map.mp (h.found i conn uses)
  have returned (other : ℕ) : ¬({ s.clients i with destroyed := true } : ClusterConnection).Uses
      other := fun still => by cases still.2
  have given : s.conns.put ce.conn = s.conns.update ce.put := by
    simp only [Conns.put, hk.entryOf_eq hce]
  rw [given]
  refine h.recounted hk hce rfl rfl ?_ (fun other ne => ?_) fun other still => ?_
  · rw [refs_of_uses uses, refs_of_not_uses (returned _)]
    simp [ConnEntry.put]
  · rw [refs_of_not_uses (returned _), refs_of_not_uses]
    exact fun also => ne (Option.some.inj (also.1.symm.trans uses.1))
  · exact absurd still (returned other)

theorem Counted.stored (h : s.Counted) (hk : s.Kept) {i : Fin N} {cred : Credentials}
    {ce : ConnEntry} (at_ : (s.clients i).pc = .store cred ce)
    (absent : s.conns.get ce.unique = none) : ({ s with conns := s.conns.assign ce }.set i
      ⟨some ce.conn, .idle, some cred, false⟩).Counted := by
  have items : (s.conns.assign ce).items = s.conns.items ++ [ce] := KeyedStore.items_assign absent
  obtain ⟨-, -, one⟩ := hk.storing i cred ce at_
  have own : (s.clients i).own = {ce.conn} := by simp [ClusterConnection.own, at_]
  have free := hk.calling i (by simp [at_])
  -- nobody has the connection yet, since it is not in the pool
  have outside : ce.conn ∉ s.conns.items.map ConnEntry.conn := by
    intro pooled
    have mine : ce.conn ∈ ∑ j, (s.clients j).own :=
      Multiset.mem_sum.mpr ⟨i, Finset.mem_univ i, by simp [own]⟩
    have apart := (Multiset.nodup_add.mp hk.nodup).2.2
    exact Multiset.disjoint_left.mp apart mine (Multiset.mem_add.mpr (.inr pooled))
  have unused : s.refs ce.conn = 0 :=
    Finset.sum_eq_zero fun j _ => refs_of_not_uses fun uses => outside (h.found j _ uses)
  refine ⟨fun b hb => ?_, fun j other => ?_⟩
  · change b.users = (s.set i _).refs b.conn
    have total := s.refs_set i ⟨some ce.conn, .idle, some cred, false⟩ b.conn
    rw [refs_of_not_uses (not_uses free _), add_zero] at total
    rcases List.mem_append.mp (items ▸ hb) with old | new
    · have other : b.conn ≠ ce.conn := fun same => outside (same ▸ List.mem_map_of_mem old)
      rw [h.users b old, total, refs_of_not_uses, add_zero]
      exact fun also => other (Option.some.inj also.1).symm
    · obtain rfl := List.mem_singleton.mp new
      rw [one, total, unused, refs_of_uses ⟨rfl, rfl⟩]
      rfl
  · refine clients_set (P := fun v => v.Uses other →
      other ∈ (s.conns.assign ce).items.map ConnEntry.conn) rfl (fun j uses => ?_)
      (fun uses => ?_) j
    · rw [items, List.map_append]
      exact List.mem_append_left _ (h.found j other uses)
    · rw [items, ← Option.some.inj uses.1]
      simp

theorem Counted.gc (h : s.Counted) (expiry : ℕ) : (s.gc expiry).Counted := by
  refine ⟨fun ce hce => h.users ce (List.mem_filter.mp hce).1, fun j conn uses => ?_⟩
  -- an entry without users has nobody who uses its connection
  obtain ⟨ce, hce, rfl⟩ := List.mem_map.mp (h.found j conn uses)
  refine List.mem_map_of_mem (List.mem_filter.mpr ⟨hce, ?_⟩)
  have counted := h.users ce hce
  have one : 1 ≤ s.refs ce.conn := by
    rw [← refs_of_uses uses]
    exact le_sum (ClusterConnection.refs ce.conn) s.clients j
  have used : ¬ce.users = 0 := by omega
  simp [Conns.expired, used]

end PoolState

theorem PoolStep.counted {N expiry : ℕ} {s s' : PoolState N} {a : PoolAction N}
    (h : PoolStep expiry s a s') (allowed : disciplined s a = true) (hk : s.Kept)
    (hs : s.Counted) : s'.Counted := by
  cases h with
  | quiet => exact ⟨hs.users, hs.found⟩
  | @hit i cred ce free idle found => exact hs.retained hk (KeyedStore.mem_of_get found).1 free
  | miss free => exact hs.called rfl rfl free free
  | undialled at_ | failed at_ | dialled at_ =>
    have free := hk.calling _ (by rw [at_]; simp)
    exact hs.called rfl rfl free free
  | @raced i cred ce old at_ found =>
    exact hs.retained hk (KeyedStore.mem_of_get found).1 (hk.calling i (by simp [at_]))
  | stored at_ absent => exact hs.stored hk at_ absent
  | copied holds free idle found =>
    obtain ⟨hce, rfl⟩ := PoolState.mem_of_entryOf found
    exact hs.retained hk hce free
  | put idle holds => exact hs.released hk ⟨holds, by simpa [disciplined] using allowed⟩
  | gc => exact hs.gc expiry

theorem reach_counted {N expiry : ℕ} {s : PoolState N}
    (h : Reach (restrict disciplined (poolStep expiry)) (poolInit N) s) : s.Counted :=
  h.invariant (PoolState.init_counted N) fun _ _ _ reached hs next =>
    have ⟨allowed, step⟩ := restrict_eq_some.mp next
    (poolStep_cases step).counted allowed (reach_kept reached.of_restrict) hs

/-- A connection that a client has and has not given back is open, and stands in exactly one
entry of the pool, which counts the clients that have it. -/
theorem used_connection_open (N expiry : ℕ) (s : PoolState N)
    (reached : Reach (restrict disciplined (poolStep expiry)) (poolInit N) s) (i : Fin N)
    (conn : ℕ) (uses : (s.clients i).Uses conn) :
    conn ∉ s.shut ∧ ∃ ce ∈ s.conns.items, ce.conn = conn ∧
      ce.users = (Finset.univ.filter fun j => (s.clients j).Uses conn).card ∧
      ∀ ce' ∈ s.conns.items, ce'.conn = conn → ce' = ce := by
  have kept := reach_kept reached.of_restrict
  have counted := reach_counted reached
  obtain ⟨ce, hce, rfl⟩ := List.mem_map.mp (counted.found i conn uses)
  refine ⟨kept.open_of_mem hce, ce, hce, rfl, ?_, fun ce' hce' => kept.entry_eq hce' hce⟩
  rw [counted.users ce hce, PoolState.refs, Finset.card_filter]
  rfl

def bar : UInt8 := 124

def sampleCred : Credentials := ⟨goString "10.0.0.1", goString "csi", goString "AQ=="⟩

/-- Two clients miss at the same time and both dial; the second one finds the connection of the
first and drops its own, which had read another key. A third connection fails, and the fourth is
still with its `Connect`. -/
def raceSchedule : List (PoolAction 3) :=
  [.connect 0 sampleCred true, .connect 1 sampleCred true, .dial 0 true true sampleCred.key,
    .dial 1 true true (goString "BQ=="), .store 0, .store 1,
    .connect 2 { sampleCred with user := goString "admin" } true, .dial 2 true false [],
    .connect 2 { sampleCred with user := goString "admin" } true, .dial 2 true true []]

theorem race_reach : ∃ s : PoolState 3,
    Reach (restrict disciplined (poolStep 600)) (poolInit 3) s ∧ s.shut = [1] ∧ s.failed = [2] ∧
      s.rotated = [1, 2, 3] ∧ (s.clients 0).Uses 0 ∧ (s.clients 1).Uses 0 ∧
      (s.clients 1).cred = some sampleCred ∧
      ∀ cred ∈ s.dialled, bar ∉ cred.monitors ++ cred.user := by
  have run : (exec (restrict disciplined (poolStep 600)) (poolInit 3) raceSchedule).any (fun s =>
      s.shut = [1] ∧ s.failed = [2] ∧ s.rotated = [1, 2, 3] ∧ (s.clients 0).Uses 0 ∧
        (s.clients 1).Uses 0 ∧ (s.clients 1).cred = some sampleCred ∧
        ∀ cred ∈ s.dialled, bar ∉ cred.monitors ++ cred.user) = true := by
    decide +kernel
  obtain ⟨s, reached, hs⟩ := Reach.of_exec_any run
  exact ⟨s, reached, of_decide_eq_true hs⟩

theorem used_connection_open_race : ∃ s : PoolState 3, s.shut = [1] ∧
    ∃ ce ∈ s.conns.items, ce.conn = 0 ∧
      ce.users = (Finset.univ.filter fun j => (s.clients j).Uses 0).card := by
  obtain ⟨s, reached, shut, -, -, uses, -⟩ := race_reach
  obtain ⟨-, ce, hce, conn, users, -⟩ := used_connection_open 3 600 s reached 0 0 uses
  exact ⟨s, shut, ce, hce, conn, users⟩

/-- A second `Destroy` of the same client gives back what another client has: the discipline
cannot be dropped. -/
theorem double_destroy_shuts : ∃ s : PoolState 2, Reach (poolStep 600) (poolInit 2) s ∧
    (s.clients 1).Uses 0 ∧ 0 ∈ s.shut := by
  have run : (exec (poolStep 600) (poolInit 2) [.connect 0 sampleCred true,
      .dial 0 true true sampleCred.key, .store 0, .connect 1 sampleCred true, .destroy 0,
      .destroy 0, .tick 601, .gc]).any (fun s => (s.clients 1).Uses 0 ∧ 0 ∈ s.shut) = true := by
    decide +kernel
  obtain ⟨s, reached, hs⟩ := Reach.of_exec_any run
  exact ⟨s, reached, of_decide_eq_true hs⟩

section Key

theorem append_inj_of_notMem {first first' rest rest' : GoString} {c : UInt8} (h : c ∉ first)
    (h' : c ∉ first') (eq : first ++ c :: rest = first' ++ c :: rest') :
    first = first' ∧ rest = rest' := by
  induction first generalizing first' with
  | nil =>
    cases first' with
    | nil => exact ⟨rfl, (List.cons.inj eq).2⟩
    | cons d first' => exact absurd (List.cons.inj eq).1 (List.ne_of_not_mem_cons h')
  | cons d first ih =>
    cases first' with
    | nil => exact absurd (List.cons.inj eq).1.symm (List.ne_of_not_mem_cons h)
    | cons d' first' =>
      obtain ⟨same, tail⟩ := List.cons.inj eq
      obtain ⟨front, back⟩ :=
        ih (List.not_mem_of_not_mem_cons h) (List.not_mem_of_not_mem_cons h') tail
      exact ⟨by rw [same, front], back⟩

/-- Neither the monitors nor the user hold the separator of the key. -/
def Credentials.Plain (cred : Credentials) : Prop := bar ∉ cred.monitors ∧ bar ∉ cred.user

theorem generateUniqueKey_inj {cred cred' : Credentials} (h : cred.Plain) (h' : cred'.Plain)
    (eq : generateUniqueKey cred = generateUniqueKey cred') : cred = cred' := by
  have sep : goString "|" = [bar] := by decide +kernel
  simp only [generateUniqueKey, sep, List.append_assoc, List.singleton_append] at eq
  obtain ⟨monitors, rest⟩ := append_inj_of_notMem h.1 h'.1 eq
  obtain ⟨user, key⟩ := append_inj_of_notMem h.2 h'.2 rest
  cases cred
  cases cred'
  simp_all

end Key

/-- The connection of a client was made with the monitors and the user of the `Connect` that
obtained it, and with its key unless the key file changed while it was made, if neither monitors
nor users hold the separator of the key. -/
theorem connection_own_credentials (N expiry : ℕ) (s : PoolState N)
    (reached : Reach (poolStep expiry) (poolInit N) s) (i : Fin N) (conn : ℕ)
    (holds : (s.clients i).conn = some conn) (cred : Credentials)
    (asked : (s.clients i).cred = some cred) (plain : cred.Plain)
    (dialled : ∀ other ∈ s.dialled, other.Plain) :
    ∃ key, s.dialled[conn]? = some ⟨cred.monitors, cred.user, key⟩ ∧
      (conn ∉ s.rotated → key = cred.key) := by
  obtain ⟨wanted, made, asked', ⟨key, at_, same⟩, unique⟩ := (reach_kept reached).asked i conn holds
  rw [asked] at asked'
  cases asked'
  have clean := dialled _ (List.mem_of_getElem? at_)
  have plain' : made.Plain := ⟨clean.1, clean.2⟩
  rw [← generateUniqueKey_inj plain plain' unique] at at_ same
  exact ⟨key, at_, same⟩

theorem connection_own_credentials_race : ∃ s : PoolState 3, s.rotated = [1, 2, 3] ∧
    (s.clients 1).Uses 0 ∧ s.dialled[0]? = some sampleCred := by
  obtain ⟨s, reached, -, -, rotated, -, uses, asked, dialled⟩ := race_reach
  have plain : sampleCred.Plain := ⟨by decide +kernel, by decide +kernel⟩
  obtain ⟨key, made, same⟩ := connection_own_credentials 3 600 s reached.of_restrict 1 0 uses.1
    sampleCred asked plain fun other made => by simpa [Credentials.Plain] using dialled other made
  rw [same (by simp [rotated])] at made
  exact ⟨s, rotated, uses, made⟩

end CephVolsync.Ceph
