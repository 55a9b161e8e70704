import CephVolsync.Basic
import CephVolsync.Library.IndexedFamily
import CephVolsync.Library.KeyedStore
import CephVolsync.Library.TransitionSystem

/-! The pool of cluster connections (`internal/ceph/connection/conn_pool.go`) and the
`ClusterConnection`s that share it (`connection.go`). Every critical section of the pool is one
step; between the two of `Get` the new connection is made without the lock. A connection is
named by the number of the call of `NewConnWithUser` that made it. The files of the secret can
change at any time: `Get` reads the key file for the key of its entry, and the connection reads
it again for itself. -/

namespace CephVolsync.Ceph

open Function IndexedFamily TransitionSystem

structure Credentials where
  monitors : GoString
  user : GoString
  key : GoString
  deriving DecidableEq, Repr

def generateUniqueKey (cred : Credentials) : GoString :=
  cred.monitors ++ goString "|" ++ cred.user ++ goString "|" ++ cred.key

structure ConnEntry where
  unique : GoString
  conn : ℕ
  lastUsed : ℕ
  users : ℤ
  deriving DecidableEq, Repr

namespace ConnEntry

def get (ce : ConnEntry) (now : ℕ) : ConnEntry := { ce with lastUsed := now, users := ce.users + 1 }

def put (ce : ConnEntry) : ConnEntry := { ce with users := ce.users - 1 }

end ConnEntry

abbrev Conns := KeyedStore ConnEntry.unique

namespace Conns

def getConn (conns : Conns) (unique : GoString) (now : ℕ) : Option (ℕ × Conns) :=
  match conns.get unique with
  | none => none
  | some ce => some (ce.conn, conns.update (ce.get now))

/-- The loops of `Copy` and `Put`. -/
def entryOf (conns : Conns) (conn : ℕ) : Option ConnEntry := conns.items.find? (·.conn = conn)

def copy (conns : Conns) (conn now : ℕ) : Option Conns :=
  (conns.entryOf conn).map fun ce => conns.update (ce.get now)

def put (conns : Conns) (conn : ℕ) : Conns :=
  match conns.entryOf conn with
  | none => conns
  | some ce => conns.update ce.put

def expired (expiry now : ℕ) (ce : ConnEntry) : Bool := ce.users = 0 ∧ now - ce.lastUsed > expiry

end Conns

/-- Where a call of `Connect` stands: outside of `Get`, behind its first critical section
without an entry, or in front of the second one with an entry of its own. -/
inductive ConnectPC where
  | idle
  | dial (cred : Credentials)
  | store (cred : Credentials) (ce : ConnEntry)
  deriving DecidableEq, Repr

/-- `cred` are the credentials of the `Connect` that obtained `conn`; a further `Connect` over a
connection returns at once, whatever it is asked for. `destroyed` says that `Destroy` was called,
which leaves `conn` as it is. -/
structure ClusterConnection where
  conn : Option ℕ
  pc : ConnectPC
  cred : Option Credentials
  destroyed : Bool
  deriving DecidableEq, Repr

/-- `dialled` are the credentials that the connections were made with and `rotated` those of them
that read another key than `Get` had; `failed` could not be set up or connected, `shut` were shut
down. -/
structure PoolState (N : ℕ) where
  now : ℕ
  conns : Conns
  dialled : List Credentials
  rotated : List ℕ
  failed : List ℕ
  shut : List ℕ
  clients : Fin N → ClusterConnection

/-- `connect` has what the reads in front of the first critical section returned, `dial` how
`NewConnWithUser` and the calls on the new connection end and the key that it reads. `copy` is a
`Copy` of the connection of `i` for `j`. -/
inductive PoolAction (N : ℕ) where
  | tick (d : ℕ)
  | connect (i : Fin N) (cred : Credentials) (ok : Bool)
  | dial (i : Fin N) (created ok : Bool) (key : GoString)
  | store (i : Fin N)
  | copy (i j : Fin N)
  | destroy (i : Fin N)
  | gc
  deriving DecidableEq, Repr

namespace PoolState

variable {N : ℕ}

def set (s : PoolState N) (i : Fin N) (cc : ClusterConnection) : PoolState N :=
  { s with clients := update s.clients i cc }

def connect (s : PoolState N) (i : Fin N) (cc : ClusterConnection) (cred : Credentials)
    (ok : Bool) : PoolState N :=
  if cc.conn.isSome ∨ ok = false then s
  else
    match s.conns.getConn (generateUniqueKey cred) s.now with
    | some (conn, conns) =>
      { s with conns := conns }.set i ⟨some conn, .idle, some cred, false⟩
    | none => s.set i { cc with pc := .dial cred }

def made (s : PoolState N) (cred : Credentials) (key : GoString) : PoolState N :=
  { s with
    dialled := s.dialled ++ [{ cred with key := key }]
    rotated := s.rotated ++ if key = cred.key then [] else [s.dialled.length] }

/-- A connection that cannot be set up is dropped as it is. -/
def dial (s : PoolState N) (i : Fin N) (cc : ClusterConnection) (cred : Credentials)
    (created ok : Bool) (key : GoString) : PoolState N :=
  if created then
    if ok then
      (s.made cred key).set i { cc with
        pc := .store cred ⟨generateUniqueKey cred, s.dialled.length, s.now, 1⟩ }
    else
      { s.made cred key with failed := s.failed ++ [s.dialled.length] }.set i
        { cc with pc := .idle }
  else s.set i { cc with pc := .idle }

/-- The second critical section of `Get`. -/
def store (s : PoolState N) (i : Fin N) (cred : Credentials) (ce : ConnEntry) : PoolState N :=
  match s.conns.getConn ce.unique s.now with
  | some (oldConn, conns) =>
    { s with conns := conns, shut := s.shut ++ [ce.conn] }.set i
      ⟨some oldConn, .idle, some cred, false⟩
  | none =>
    { s with conns := s.conns.assign ce }.set i ⟨some ce.conn, .idle, some cred, false⟩

def gc (expiry : ℕ) (s : PoolState N) : PoolState N :=
  { s with
    conns := s.conns.keep fun ce => !Conns.expired expiry s.now ce
    shut := s.shut ++ (s.conns.items.filter (Conns.expired expiry s.now)).map ConnEntry.conn }

end PoolState

def poolStep {N : ℕ} (expiry : ℕ) (s : PoolState N) : PoolAction N → Option (PoolState N)
  | .tick d => some { s with now := s.now + d }
  | .connect i cred ok =>
    if (s.clients i).pc = .idle then some (s.connect i (s.clients i) cred ok) else none
  | .dial i created ok key =>
    match (s.clients i).pc with
    | .dial cred => some (s.dial i (s.clients i) cred created ok key)
    | _ => none
  | .store i =>
    match (s.clients i).pc with
    | .store cred ce => some (s.store i cred ce)
    | _ => none
  | .copy i j =>
    match (s.clients i).conn with
    | some conn =>
      if (s.clients j).conn = none ∧ (s.clients j).pc = .idle then
        (s.conns.copy conn s.now).map fun conns =>
          { s with conns := conns }.set j ⟨some conn, .idle, (s.clients i).cred, false⟩
      else none
    | none => none
  | .destroy i =>
    if (s.clients i).pc = .idle then
      match (s.clients i).conn with
      | some conn => some ({ s with conns := s.conns.put conn }.set i
          { s.clients i with destroyed := true })
      | none => some s
    else none
  | .gc => some (s.gc expiry)

def poolInit (N : ℕ) : PoolState N where
  now := 0
  conns := .empty
  dialled := []
  rotated := []
  failed := []
  shut := []
  clients _ := ⟨none, .idle, none, false⟩

inductive PoolStep {N : ℕ} (expiry : ℕ) (s : PoolState N) : PoolAction N → PoolState N → Prop
  | quiet {a : PoolAction N} {now : ℕ} : PoolStep expiry s a { s with now := now }
  | hit {i : Fin N} {cred : Credentials} {ce : ConnEntry} : (s.clients i).conn = none →
      (s.clients i).pc = .idle → s.conns.get (generateUniqueKey cred) = some ce →
      PoolStep expiry s (.connect i cred true) ({ s with
        conns := s.conns.update (ce.get s.now) }.set i ⟨some ce.conn, .idle, some cred, false⟩)
  | miss {i : Fin N} {cred : Credentials} : (s.clients i).conn = none → (s.clients i).pc = .idle →
      PoolStep expiry s (.connect i cred true) (s.set i { s.clients i with pc := .dial cred })
  | undialled {i : Fin N} {ok : Bool} {cred : Credentials} {key : GoString} :
      (s.clients i).pc = .dial cred →
      PoolStep expiry s (.dial i false ok key) (s.set i { s.clients i with pc := .idle })
  | failed {i : Fin N} {cred : Credentials} {key : GoString} : (s.clients i).pc = .dial cred →
      PoolStep expiry s (.dial i true false key) ({ s.made cred key with
        failed := s.failed ++ [s.dialled.length] }.set i { s.clients i with pc := .idle })
  | dialled {i : Fin N} {cred : Credentials} {key : GoString} : (s.clients i).pc = .dial cred →
      PoolStep expiry s (.dial i true true key) ((s.made cred key).set i { s.clients i with
        pc := .store cred ⟨generateUniqueKey cred, s.dialled.length, s.now, 1⟩ })
  | raced {i : Fin N} {cred : Credentials} {ce old : ConnEntry} :
      (s.clients i).pc = .store cred ce → s.conns.get ce.unique = some old →
      PoolStep expiry s (.store i) ({ s with
        conns := s.conns.update (old.get s.now), shut := s.shut ++ [ce.conn] }.set i
          ⟨some old.conn, .idle, some cred, false⟩)
  | stored {i : Fin N} {cred : Credentials} {ce : ConnEntry} : (s.clients i).pc = .store cred ce →
      s.conns.get ce.unique = none →
      PoolStep expiry s (.store i) ({ s with conns := s.conns.assign ce }.set i
        ⟨some ce.conn, .idle, some cred, false⟩)
  | copied {i j : Fin N} {ce : ConnEntry} {conn : ℕ} : (s.clients i).conn = some conn →
      (s.clients j).conn = none → (s.clients j).pc = .idle → s.conns.entryOf conn = some ce →
      PoolStep expiry s (.copy i j) ({ s with conns := s.conns.update (ce.get s.now) }.set j
        ⟨some conn, .idle, (s.clients i).cred, false⟩)
  | put {i : Fin N} {conn : ℕ} : (s.clients i).pc = .idle → (s.clients i).conn = some conn →
      PoolStep expiry s (.destroy i) ({ s with conns := s.conns.put conn }.set i
        { s.clients i with destroyed := true })
  | gc : PoolStep expiry s .gc (s.gc expiry)

theorem poolStep_cases {N expiry : ℕ} {s s' : PoolState N} {a : PoolAction N}
    (h : poolStep expiry s a = some s') : PoolStep expiry s a s' := by
  cases a with
  | tick d => cases h; exact .quiet
  | connect i cred ok =>
    simp only [poolStep, PoolState.connect, Conns.getConn] at h
    split at h
    · rename_i idle
      cases h
      split_ifs with early
      · exact .quiet
      · have none : (s.clients i).conn = none := by
          simpa using fun some => early (.inl some)
        obtain rfl : ok = true := by simpa using fun no => early (.inr no)
        cases found : s.conns.get (generateUniqueKey cred) with
        | none => exact .miss none idle
        | some ce => exact .hit none idle found
    · cases h
  | dial i created ok key =>
    simp only [poolStep, PoolState.dial] at h
    split at h
    · rename_i cred at_
      cases h
      cases created with
      | false => exact .undialled at_
      | true =>
        cases ok with
        | false => exact .failed at_
        | true => exact .dialled at_
    · cases h
  | store i =>
    simp only [poolStep, PoolState.store, Conns.getConn] at h
    split at h
    · rename_i cred ce at_
      cases h
      cases found : s.conns.get ce.unique with
      | none => exact .stored at_ found
      | some old => exact .raced at_ found
    · cases h
  | copy i j =>
    simp only [poolStep, Conns.copy] at h
    split at h
    · rename_i conn holds
      split_ifs at h with free
      cases found : s.conns.entryOf conn with
      | none => simp [found] at h
      | some ce =>
        simp only [found, Option.map_some, Option.some.injEq] at h
        subst h
        exact .copied holds free.1 free.2 found
    · cases h
  | destroy i =>
    simp only [poolStep] at h
    split_ifs at h with idle
    split at h
    · rename_i conn holds
      cases h
      exact .put idle holds
    · cases h
      exact .quiet
  | gc => cases h; exact .gc

end CephVolsync.Ceph
