import FondacoFormal.Library.Runs
import FondacoFormal.Library.Table
import FondacoFormal.Library.Text

/-!
# Tokens for an upstream that asks for them

A request that is refused without a token is repeated with one, which is then kept for the next
request with the same start of a path.
-/

namespace FondacoFormal.Pipeline

open Library Library.Runs

/-- `scopeKey`. -/
def scopeKey (host path : String) : String :=
  host ++ "/" ++ Text.join ((Text.split (Text.trim path '/') '/').take 3) "/"

/-- A token, as its issuer sees it. -/
structure UpstreamToken where
  scope : String
  serial : Nat
  issuedAt : Int
  deriving DecidableEq, Repr

/-- An upstream that wants a token for the repository a path is in.  Times are in nanoseconds. -/
structure TokenRegistry where
  host : String
  /-- The whole address of a path. -/
  target : String → String
  scopeOf : String → String
  content : String → List UInt8
  /-- What the issuer says of a token's lifetime. -/
  lifetime : Nat → Int
  /-- Whether a token of that age is neither expired nor revoked. -/
  honours : Nat → Int → Bool
  fresh : ∀ serial, honours serial 0 = true

namespace TokenRegistry

variable (r : TokenRegistry)

def accepts (token : UpstreamToken) (path : String) (now : Int) : Bool :=
  token.scope = r.scopeOf path && r.honours token.serial (now - token.issuedAt)

/-- The status of a request and its body. -/
def respond (token : Option UpstreamToken) (path : String) (now : Int) : Nat × List UInt8 :=
  if token.any fun t => r.accepts t path now then (200, r.content path) else (401, [])

end TokenRegistry

/-- `tokenCache`, and how many tokens were issued. -/
structure Tokens where
  tokens : Table String (UpstreamToken × Int) := ∅
  issued : Nat := 0

/-- How long `put` keeps a token. -/
def keptFor (lifetime : Int) : Int :=
  let lifetime := if lifetime ≤ 0 then 60000000000 else lifetime
  if 10000000000 < lifetime then lifetime - 10000000000 else lifetime

structure TokenFetch where
  path : String
  now : Int
  deriving DecidableEq, Repr

variable {paths : List String}

namespace Tokens

variable (r : TokenRegistry)

/-- `tokenCache.get`. -/
def get (s : Tokens) (key : String) (now : Int) : Option UpstreamToken :=
  ((s.tokens.find key).filter fun entry => now < entry.2).map Prod.fst

/-- `retryAuthorized`: the answer to a request that was repeated with a token. -/
def retryAuthorized (op : TokenFetch) (presented : Option UpstreamToken) (s : Tokens) :
    Tokens × Option (Nat × List UInt8) :=
  match presented with
  -- asking for another token would loop
  | some _ => (s, none)
  | none =>
    let token : UpstreamToken := ⟨r.scopeOf op.path, s.issued, op.now⟩
    let entry := (token, op.now + keptFor (r.lifetime s.issued))
    (⟨s.tokens.put (scopeKey r.host op.path) entry, s.issued + 1⟩,
      some (r.respond (some token) op.path op.now))

/-- `attempt`. -/
def attempt (op : TokenFetch) (s : Tokens) : Tokens × Except String (List UInt8) :=
  let presented := s.get (scopeKey r.host op.path) op.now
  let first := r.respond presented op.path op.now
  let (after, response) :=
    if first.1 = 401 then
      let (after, retried) := retryAuthorized r op presented s
      (after, retried.getD first)
    else (s, first)
  (after, if 200 ≤ response.1 ∧ response.1 < 300 then .ok response.2
    else .error ("upstream status " ++ toString response.1 ++ " for " ++ r.target op.path))

def step (op : TokenFetch) (s : Tokens) : Tokens :=
  (attempt r op s).1

/-- The fetch ends as it would with an empty cache. -/
def Transparent (s : Tokens) (op : TokenFetch) : Prop :=
  (attempt r op s).2 = (attempt r op { s with tokens := ∅ }).2

/-- A token that is presented is one for this repository and still honoured. -/
def Presentable (s : Tokens) (op : TokenFetch) : Prop :=
  ∀ token, s.get (scopeKey r.host op.path) op.now = some token →
    r.accepts token op.path op.now = true

variable {r} {s : Tokens} {op : TokenFetch}

theorem attempt_none (hget : s.get (scopeKey r.host op.path) op.now = none) :
    attempt r op s = (⟨s.tokens.put (scopeKey r.host op.path)
      (⟨r.scopeOf op.path, s.issued, op.now⟩, op.now + keptFor (r.lifetime s.issued)),
      s.issued + 1⟩, .ok (r.content op.path)) := by
  simp [attempt, hget, TokenRegistry.respond, retryAuthorized, TokenRegistry.accepts, r.fresh]

theorem attempt_some {token : UpstreamToken}
    (hget : s.get (scopeKey r.host op.path) op.now = some token) :
    attempt r op s = (s, if r.accepts token op.path op.now then .ok (r.content op.path)
      else .error ("upstream status 401 for " ++ r.target op.path)) := by
  by_cases haccepts : r.accepts token op.path op.now = true
  · simp [attempt, hget, TokenRegistry.respond, haccepts]
  · simp [attempt, hget, TokenRegistry.respond, retryAuthorized, haccepts]
    rfl

theorem transparent_iff : Transparent r s op ↔ Presentable r s op := by
  have hempty : (attempt r op { s with tokens := ∅ }).2 = .ok (r.content op.path) := by
    rw [attempt_none (by simp [get])]
  rw [Transparent, Presentable, hempty]
  cases hget : s.get (scopeKey r.host op.path) op.now with
  | none => simp [attempt_none hget]
  | some token => simp [attempt_some hget]

/-- What is kept was issued for a path with that key, and is kept no longer than it may be. -/
def Issued (r : TokenRegistry) (paths : List String) (s : Tokens) : Prop :=
  ∀ key token expires, s.tokens.find key = some (token, expires) →
    expires = token.issuedAt + keptFor (r.lifetime token.serial) ∧
      ∃ path ∈ paths, key = scopeKey r.host path ∧ token.scope = r.scopeOf path

theorem Issued.step (hissued : Issued r paths s) (hpath : op.path ∈ paths) :
    Issued r paths (step r op s) := by
  unfold Tokens.step
  cases hget : s.get (scopeKey r.host op.path) op.now with
  | some token =>
    rw [attempt_some hget]
    exact hissued
  | none =>
    rw [attempt_none hget]
    intro key token expires hfind
    rw [Table.find_put] at hfind
    split at hfind
    · next hkey =>
      cases hfind
      exact ⟨rfl, op.path, hpath, hkey, rfl⟩
    · exact hissued key token expires hfind

theorem Issued.presentable (hissued : Issued r paths s) (hpath : op.path ∈ paths)
    (hkeys : ∀ p ∈ paths, ∀ q ∈ paths,
      scopeKey r.host p = scopeKey r.host q → r.scopeOf p = r.scopeOf q)
    (hhonours : ∀ serial age, age < keptFor (r.lifetime serial) → r.honours serial age = true) :
    Presentable r s op := by
  intro token hget
  obtain ⟨⟨found, expires⟩, hfound, rfl⟩ := Option.map_eq_some_iff.mp hget
  obtain ⟨hfind, hvalid⟩ := Option.filter_eq_some_iff.mp hfound
  obtain ⟨hexpires, path, hmem, hkey, hscope⟩ := hissued _ _ _ hfind
  have hage : op.now - found.issuedAt < keptFor (r.lifetime found.serial) := by
    have hnow : op.now < expires := of_decide_eq_true hvalid
    omega
  simp [TokenRegistry.accepts, hhonours _ _ hage, hscope, hkeys path hmem op.path hpath hkey.symm]

end Tokens

/-- Along a sequence of fetches the cache is transparent exactly if every token that is presented
is good for its fetch; that is so if paths with one key are of one repository and tokens are
honoured for as long as they are kept. -/
theorem token_cache_transparent_iff (r : TokenRegistry) (ops : List TokenFetch) :
    (Meets (Tokens.step r) (Tokens.Transparent r) ops {} ↔
      Meets (Tokens.step r) (Tokens.Presentable r) ops {}) ∧
      ((∀ p ∈ ops, ∀ q ∈ ops, scopeKey r.host p.path = scopeKey r.host q.path →
          r.scopeOf p.path = r.scopeOf q.path) →
        (∀ serial age, age < keptFor (r.lifetime serial) → r.honours serial age = true) →
        Meets (Tokens.step r) (Tokens.Transparent r) ops {}) := by
  have hiff : ∀ s ops, Meets (Tokens.step r) (Tokens.Transparent r) ops s ↔
      Meets (Tokens.step r) (Tokens.Presentable r) ops s := fun s ops =>
    meets_iff_of_invariant (P := fun _ => True) (fun _ _ _ => trivial)
      (fun _ _ _ => Tokens.transparent_iff) trivial
  refine ⟨hiff {} ops, fun hkeys hhonours => (hiff {} ops).mpr ?_⟩
  have hrest : ∀ rest s, (∀ op ∈ rest, op ∈ ops) → Tokens.Issued r (ops.map TokenFetch.path) s →
      Meets (Tokens.step r) (Tokens.Presentable r) rest s := by
    intro rest
    induction rest with
    | nil => exact fun _ _ _ => trivial
    | cons op rest ih =>
      intro s hops hissued
      have hpath := List.mem_map_of_mem (f := TokenFetch.path) (hops op List.mem_cons_self)
      refine ⟨hissued.presentable hpath (by simpa using hkeys) hhonours, ?_⟩
      exact ih _ (fun other hmem => hops other (List.mem_cons_of_mem op hmem)) (hissued.step hpath)
  exact hrest ops {} (fun _ hmem => hmem) nofun

/-- Repositories of any depth; tokens last as long as their issuer says. -/
def nestedRegistry : TokenRegistry where
  host := "hub"
  target path := "https://hub" ++ path
  scopeOf path := Text.join ((Text.split path '/').dropLast.dropLast) "/"
  content _ := [1]
  lifetime _ := 300000000000
  honours _ age := age < 300000000000
  fresh _ := by decide

/-- The token of one repository is presented for another one, and no other is asked for. -/
theorem shared_key_refused :
    let s := Tokens.step nestedRegistry ⟨"/v2/a/b/c/manifests/1", 0⟩ {}
    (Tokens.attempt nestedRegistry ⟨"/v2/a/b/d/manifests/1", 1⟩ s).2 =
        .error "upstream status 401 for https://hub/v2/a/b/d/manifests/1" ∧
      (Tokens.attempt nestedRegistry ⟨"/v2/a/b/d/manifests/1", 1⟩ { s with tokens := ∅ }).2 =
        .ok [1] := by
  decide +kernel

end FondacoFormal.Pipeline
