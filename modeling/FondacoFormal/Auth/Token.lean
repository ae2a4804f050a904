import FondacoFormal.Auth.Identity
import FondacoFormal.Library.Runs
import FondacoFormal.Library.Table
import Mathlib.Algebra.Ring.Nat

/-!
# Static tokens

`TokenVerifier` in front of the tokens table: the cache with its time to live and its stale
window, `Authenticate` as its look into the cache, its lookup and what it does with the answer,
and the sweeps of `WatchRevocations`.
-/

namespace FondacoFormal.Auth

open Library

/-! ## The table -/

/-- A row of `tokens`, keyed by hash; times are in nanoseconds. -/
structure TokenRow where
  name : String
  revokedAt : Option Int := none
  deriving DecidableEq, Repr

/-- `revoked_at = COALESCE(revoked_at, now())`. -/
def TokenRow.revoke (row : TokenRow) (now : Int) : TokenRow :=
  { row with revokedAt := some (row.revokedAt.getD now) }

def Revoked (tokens : Table String TokenRow) (hash : String) : Prop :=
  ∃ row, tokens.find hash = some row ∧ row.revokedAt.isSome = true

/-- What `Lookup` comes back with. -/
inductive LookupAnswer where
  | found (name : String)
  | notFound
  | unavailable
  | failed
  deriving DecidableEq, Repr

inductive Backend where
  | up
  | unreachable
  | broken
  deriving DecidableEq, Repr

/-- `Lookup`. -/
def lookup (backend : Backend) (tokens : Table String TokenRow) (hash : String) : LookupAnswer :=
  match backend with
  | .unreachable => .unavailable
  | .broken => .failed
  | .up =>
    match tokens.find hash with
    | some row => if row.revokedAt.isSome then .notFound else .found row.name
    | none => .notFound

/-- The look-back of `WatchRevocations`; the multiplication is one of 64-bit integers. -/
def lookback (ttl : Int) : Int :=
  if (ttl * 4).bmod (2 ^ 64) < 60000000000 then 60000000000 else (ttl * 4).bmod (2 ^ 64)

def TokenRow.recent (row : TokenRow) (ttl now : Int) : Bool :=
  match row.revokedAt with
  | some revoked => now - lookback ttl / 1000000000 * 1000000000 < revoked
  | none => false

/-- `RecentlyRevoked`. -/
def recentlyRevoked (ttl now : Int) (tokens : Table String TokenRow) : List String :=
  (tokens.rows.filter fun listed => listed.2.recent ttl now).map Prod.fst

/-! ## The verifier -/

/-- `tokenCacheEntry`. -/
structure TokenCacheEntry where
  name : String
  expires : Int
  staleUntil : Int
  deriving DecidableEq, Repr

/-- Why `Authenticate` failed. -/
inductive AuthError where
  | unauthorized
  | unavailable
  | failed
  deriving DecidableEq, Repr

/-- How far a call of `Authenticate` has got; `entry` is what it found in the cache. -/
inductive AuthPhase where
  | looking (entry : Option TokenCacheEntry)
  | answered (entry : Option TokenCacheEntry) (answer : LookupAnswer)
  | returned (result : Except AuthError Identity)

/-- A call; `late` records that the hash had been swept when it started. -/
structure AuthCall where
  hash : String
  late : Bool
  phase : AuthPhase

/-- How far the sweep has got; `due` are the hashes that were revoked when it started. -/
inductive SweepPhase where
  | idle
  | started (due : List String)
  | listed (due hashes : List String)

structure Verifier where
  hashHex : String → String
  ttl : Int

/--
The tokens, the verifier and its calls, oldest first.  `swept` records the hashes
for which a sweep that started after their revocation has completed.
-/
structure Verifying where
  tokens : Table String TokenRow := ∅
  cache : Table String TokenCacheEntry := ∅
  staleFor : Int := 21600000000000
  calls : List AuthCall := []
  sweep : SweepPhase := .idle
  swept : List String := []

namespace Verifying

def tokenIdentity (name : String) (stale : Bool) : Identity :=
  { kind := .token, subject := name, stale := stale }

/-- `Create`: the hash and the name are unique. -/
def create (hash name : String) (w : Verifying) : Verifying :=
  if (w.tokens.rows.map fun row => row.2.name).contains name then w
  else { w with tokens := w.tokens.insertNew hash { name := name } }

/-- `RevokeTx` of the row, or the tombstone of a hash that has none. -/
def revoke (hash name : String) (now : Int) (w : Verifying) : Verifying :=
  { w with
    tokens := w.tokens.upsert hash { name := name, revokedAt := some now } fun row =>
      row.revoke now }

/-- `Authenticate` up to its lookup. -/
def authenticate (hash : String) (now : Int) (w : Verifying) : Verifying :=
  let entry := w.cache.find hash
  let phase :=
    match entry with
    | some e =>
      if now < e.expires then .returned (.ok (tokenIdentity e.name false)) else .looking entry
    | none => .looking none
  { w with calls := w.calls ++ [⟨hash, decide (hash ∈ w.swept), phase⟩] }

def moved (w : Verifying) (i : Nat) (call : AuthCall) (phase : AuthPhase) : Verifying :=
  { w with calls := w.calls.set i { call with phase := phase } }

def looks (i : Nat) (backend : Backend) (w : Verifying) : Verifying :=
  match w.calls[i]? with
  | some call =>
    match call.phase with
    | .looking entry => w.moved i call (.answered entry (lookup backend w.tokens call.hash))
    | _ => w
  | none => w

def acts (v : Verifier) (i : Nat) (now : Int) (w : Verifying) : Verifying :=
  match w.calls[i]? with
  | none => w
  | some call =>
    match call.phase with
    | .answered _ (.found name) =>
      { w with
        cache := w.cache.put call.hash ⟨name, now + v.ttl, now + w.staleFor⟩ }.moved i call
          (.returned (.ok (tokenIdentity name false)))
    | .answered _ .notFound =>
      { w with cache := w.cache.keep fun hash _ => hash ≠ call.hash }.moved i call
        (.returned (.error .unauthorized))
    | .answered entry .unavailable =>
      w.moved i call (.returned
        (match entry with
        | some e =>
          if 0 < w.staleFor && now < e.staleUntil then .ok (tokenIdentity e.name true)
          else .error .unavailable
        | none => .error .unavailable))
    | .answered _ .failed => w.moved i call (.returned (.error .failed))
    | _ => w

def sweeps (v : Verifier) (backend : Backend) (now : Int) (w : Verifying) : Verifying :=
  match w.sweep with
  | .idle =>
    { w with
      sweep := .started ((w.tokens.rows.filter fun row => row.2.revokedAt.isSome).map Prod.fst) }
  | .started due =>
    match backend with
    | .up => { w with sweep := .listed due (recentlyRevoked v.ttl now w.tokens) }
    | _ => { w with sweep := .idle }
  | .listed due hashes =>
    { w with
      cache := w.cache.keep fun hash _ => hash ∉ hashes
      sweep := .idle
      swept := due ++ w.swept }

end Verifying

inductive AuthOp where
  | create (secret name : String)
  | revoke (hash name : String) (now : Int)
  | setStaleWindow (window : Int)
  /-- A call of `Authenticate` starts. -/
  | authenticate (secret : String) (now : Int)
  | looks (i : Nat) (backend : Backend)
  | acts (i : Nat) (now : Int)
  | sweeps (backend : Backend) (now : Int)

def AuthOp.run (v : Verifier) : AuthOp → Verifying → Verifying
  | create secret name, w => w.create (v.hashHex secret) name
  | revoke hash name now, w => w.revoke hash name now
  | setStaleWindow window, w => { w with staleFor := window }
  | authenticate secret now, w => w.authenticate (v.hashHex secret) now
  | looks i backend, w => w.looks i backend
  | acts i now, w => w.acts v i now
  | sweeps backend now, w => w.sweeps v backend now

end FondacoFormal.Auth
