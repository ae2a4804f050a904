import FondacoFormal.Auth.Token

/-!
# Revoked tokens stay out

A hash that was swept is revoked for good and has no cache entry, unless a call
that looked the token up before its revocation stores the answer afterwards, or
the sweep came too late to list it and an entry is left.
-/

namespace FondacoFormal.Auth

open Library Library.Runs

/-! ## The invariant -/

def AuthPhase.Refused : AuthPhase → Prop
  | looking entry => entry = none
  | answered entry answer => entry = none ∧ ∀ name, answer ≠ .found name
  | returned result => ∀ identity, result ≠ .ok identity

/-- The hashes that were revoked when the sweep started. -/
def SweepPhase.due : SweepPhase → List String
  | idle => []
  | started due | listed due _ => due

structure Final (w : Verifying) : Prop where
  swept : ∀ hash ∈ w.swept, Revoked w.tokens hash ∧ w.cache.find hash = none
  calls : ∀ call ∈ w.calls, call.late = true → call.hash ∈ w.swept ∧ call.phase.Refused
  sweep : ∀ hash ∈ w.sweep.due, Revoked w.tokens hash

def AuthPhase.identity : AuthPhase → Option Identity
  | returned (.ok identity) => some identity
  | _ => none

def RevocationFinal (w : Verifying) : Prop :=
  ∀ call ∈ w.calls, call.late = true → call.phase.identity = none
  deriving Decidable

/-! ## The table -/

variable {tokens : Table String TokenRow} {hash : String}

section

variable (revoked : Revoked tokens hash)

include revoked

theorem Revoked.create (other : String) (row : TokenRow) :
    Revoked (tokens.insertNew other row) hash := by
  obtain ⟨stored, hfind, hrevoked⟩ := revoked
  refine ⟨stored, ?_, hrevoked⟩
  by_cases heq : hash = other
  · rw [← heq, Table.insertNew_of_some hfind]
    exact hfind
  · rw [Table.find_insertNew_of_ne _ _ heq]
    exact hfind

theorem Revoked.revoke (other : String) (row : TokenRow) (now : Int) :
    Revoked (tokens.upsert other row fun stored => stored.revoke now) hash := by
  obtain ⟨stored, hfind, hrevoked⟩ := revoked
  by_cases heq : hash = other
  · refine ⟨stored.revoke now, ?_, rfl⟩
    subst heq
    simp [Table.upsert, hfind]
  · refine ⟨stored, ?_, hrevoked⟩
    rw [Table.find_upsert_of_ne _ _ _ heq]
    exact hfind

theorem Revoked.lookup (backend : Backend) (name : String) :
    lookup backend tokens hash ≠ .found name := by
  obtain ⟨row, hfind, hrevoked⟩ := revoked
  unfold Auth.lookup
  cases backend with
  | up => simp [hfind, hrevoked]
  | unreachable | broken => simp

end

variable {now : Int}

/-! ## The condition -/

def AuthPhase.foundName : AuthPhase → Bool
  | answered _ (.found _) => true
  | _ => false

/-- The hashes that were revoked when the sweep started and are out of its look-back. -/
def SweepPhase.missed : SweepPhase → List String
  | listed due hashes => due.filter fun hash => hash ∉ hashes
  | _ => []

/--
A call that found the token acts on it before a sweep for it has completed, and a
sweep completes only if what it missed is not in the cache.
-/
def Timely (w : Verifying) : AuthOp → Prop
  | .acts i _ => ∀ call ∈ w.calls[i]?, call.phase.foundName = true → call.hash ∉ w.swept
  | .sweeps .. => ∀ hash ∈ w.sweep.missed, w.cache.find hash = none
  | _ => True

instance (w : Verifying) : (op : AuthOp) → Decidable (Timely w op)
  | .acts i _ => inferInstanceAs (Decidable (∀ call ∈ w.calls[i]?, _ → _))
  | .sweeps .. => inferInstanceAs (Decidable (∀ hash ∈ w.sweep.missed, _))
  | .create .. | .revoke .. | .setStaleWindow _ | .authenticate .. | .looks .. =>
    inferInstanceAs (Decidable True)

namespace Final

variable {w : Verifying}

variable (final : Final w)

include final

theorem revocationFinal : RevocationFinal w := by
  intro call hmem hlate
  have hrefused := (final.calls call hmem hlate).2
  cases hphase : call.phase with
  | looking entry | answered entry answer => rfl
  | returned result =>
    rw [hphase] at hrefused
    cases result with
    | error cause => rfl
    | ok identity => exact absurd rfl (hrefused identity)

theorem table (hkeeps : ∀ hash, Revoked w.tokens hash → Revoked tokens hash) :
    Final { w with tokens := tokens } where
  swept := fun hash hmem => (final.swept hash hmem).imp_left (hkeeps hash)
  calls := final.calls
  sweep := fun hash hmem => hkeeps hash (final.sweep hash hmem)

theorem create (hash name : String) : Final (w.create hash name) := by
  unfold Verifying.create
  split
  · exact final
  · exact final.table fun _ revoked => revoked.create _ _

theorem revoke (hash name : String) (now : Int) : Final (w.revoke hash name now) :=
  final.table fun _ revoked => revoked.revoke _ _ _

theorem authenticate (hash : String) (now : Int) :
    Final (w.authenticate hash now) where
  swept := final.swept
  calls := by
    intro call hmem hlate
    rcases List.mem_append.mp hmem with hold | hnew
    · exact final.calls call hold hlate
    · rw [List.mem_singleton.mp hnew] at hlate ⊢
      have hswept : hash ∈ w.swept := of_decide_eq_true hlate
      refine ⟨hswept, ?_⟩
      dsimp only
      rw [(final.swept hash hswept).2]
      rfl
  sweep := final.sweep

theorem moved {i : Nat} {call : AuthCall} {phase : AuthPhase}
    {cache : Table String TokenCacheEntry} (hcall : w.calls[i]? = some call)
    (hcache : ∀ hash ∈ w.swept, cache.find hash = none)
    (hphase : call.late = true → phase.Refused) :
    Final ({ w with cache := cache }.moved i call phase) where
  swept := fun hash hmem => ⟨(final.swept hash hmem).1, hcache hash hmem⟩
  calls := by
    intro other hmem hlate
    rcases List.mem_or_eq_of_mem_set hmem with hold | rfl
    · exact final.calls other hold hlate
    · exact ⟨(final.calls call (List.mem_of_getElem? hcall) hlate).1, hphase hlate⟩
  sweep := final.sweep

theorem looks (i : Nat) (backend : Backend) : Final (w.looks i backend) := by
  unfold Verifying.looks
  split
  · rename_i call hcall
    split
    · rename_i entry hphase
      refine final.moved hcall (fun hash hmem => (final.swept hash hmem).2) ?_
      intro hlate
      obtain ⟨hswept, hrefused⟩ := final.calls call (List.mem_of_getElem? hcall) hlate
      rw [hphase] at hrefused
      exact ⟨hrefused, (final.swept call.hash hswept).1.lookup backend⟩
    · exact final
  · exact final

variable {v : Verifier}

theorem acts {i : Nat} (timely : Timely w (.acts i now)) : Final (w.acts v i now) := by
  have hcached : ∀ hash ∈ w.swept, w.cache.find hash = none := fun hash hmem =>
    (final.swept hash hmem).2
  unfold Verifying.acts
  cases hcall : w.calls[i]? with
  | none => exact final
  | some call =>
    have hrefused : call.late = true → call.phase.Refused := fun hlate =>
      (final.calls call (List.mem_of_getElem? hcall) hlate).2
    dsimp only
    split
    · -- The answer is stored; the hash has not been swept.
      rename_i entry name hphase
      have hunswept : call.hash ∉ w.swept := by
        refine timely call hcall ?_
        rw [hphase]
        rfl
      rw [hphase] at hrefused
      refine final.moved hcall ?_ fun hlate => absurd rfl ((hrefused hlate).2 name)
      intro hash hmem
      have hne : hash ≠ call.hash := by
        rintro rfl
        exact hunswept hmem
      rw [Table.find_put_of_ne _ _ hne]
      exact hcached hash hmem
    · refine final.moved hcall ?_ fun _ _ => (nomatch ·)
      intro hash hmem
      rw [Table.find_keep, hcached hash hmem]
      rfl
    · rename_i entry hphase
      rw [hphase] at hrefused
      refine final.moved hcall hcached ?_
      intro hlate
      rw [(hrefused hlate).1]
      exact fun _ => (nomatch ·)
    · exact final.moved hcall hcached fun _ _ => (nomatch ·)
    · exact final

theorem sweeps {backend : Backend} (timely : Timely w (.sweeps backend now)) :
    Final (w.sweeps v backend now) := by
  have hsweep := final.sweep
  unfold Timely at timely
  unfold Verifying.sweeps
  cases hphase : w.sweep with
  | idle =>
    refine ⟨final.swept, final.calls, ?_⟩
    intro hash hmem
    obtain ⟨⟨other, row⟩, hrow, rfl⟩ := List.mem_map.mp hmem
    obtain ⟨hlisted, hrevoked⟩ := List.mem_filter.mp hrow
    exact ⟨row, (Table.mem_rows_iff _ _ _).mp hlisted, hrevoked⟩
  | started due =>
    rw [hphase] at hsweep
    cases backend with
    | up => exact ⟨final.swept, final.calls, hsweep⟩
    | unreachable | broken => exact ⟨final.swept, final.calls, List.forall_mem_nil _⟩
  | listed due hashes =>
    rw [hphase] at hsweep timely
    refine ⟨?_, ?_, List.forall_mem_nil _⟩
    · intro hash hmem
      rw [Table.find_keep]
      rcases List.mem_append.mp hmem with hdue | hold
      · refine ⟨hsweep hash hdue, ?_⟩
        by_cases hlisted : hash ∈ hashes
        · cases w.cache.find hash <;> simp [hlisted]
        · rw [timely hash (List.mem_filter.mpr ⟨hdue, decide_eq_true hlisted⟩)]
          rfl
      · rw [(final.swept hash hold).2]
        exact ⟨(final.swept hash hold).1, rfl⟩
    · intro call hmem hlate
      exact (final.calls call hmem hlate).imp_left fun hold => List.mem_append_right _ hold

theorem step (op : AuthOp) (timely : Timely w op) : Final (op.run v w) := by
  cases op with
  | create secret name => exact final.create _ name
  | revoke hash name now => exact final.revoke hash name now
  | setStaleWindow window => exact ⟨final.swept, final.calls, final.sweep⟩
  | authenticate secret now => exact final.authenticate _ now
  | looks i backend => exact final.looks i backend
  | acts i now => exact final.acts timely
  | sweeps backend now => exact final.sweeps timely

end Final

/-! ## Every run -/

/--
From any tokens and any cache: in every interleaving of calls, sweeps, revocations
and outages whose steps are timely, no call that starts after a sweep for its
token has completed returns an identity.
-/
theorem revocation_final (v : Verifier) (tokens : Table String TokenRow)
    (cache : Table String TokenCacheEntry) (staleFor : Int) (ops : List AuthOp)
    (timely : Meets (AuthOp.run v) Timely ops
      { tokens := tokens, cache := cache, staleFor := staleFor }) :
    RevocationFinal
      (runAll (AuthOp.run v) ops { tokens := tokens, cache := cache, staleFor := staleFor }) := by
  have hstart : Final { tokens := tokens, cache := cache, staleFor := staleFor } :=
    ⟨List.forall_mem_nil _, List.forall_mem_nil _, List.forall_mem_nil _⟩
  have hstep : ∀ w op, Final w → Timely w op → Final (AuthOp.run v op w) :=
    fun w op final hop => final.step op hop
  exact (invariant_runAll hstep hstart timely).revocationFinal

def sweptSteps : List AuthOp :=
  [.create "s" "ci", .authenticate "s" 10, .looks 0 .up, .acts 0 11, .revoke "s" "ci" 20,
    .sweeps .up 30, .sweeps .up 31, .sweeps .up 32, .authenticate "s" 40, .looks 1 .unreachable,
    .acts 1 41]

theorem revocation_final_outage :
    RevocationFinal (runAll (AuthOp.run ⟨id, 60000000000⟩) sweptSteps {}) ∧
      (runAll (AuthOp.run ⟨id, 60000000000⟩) sweptSteps {}).calls.map AuthCall.late =
        [false, true] :=
  ⟨revocation_final ⟨id, 60000000000⟩ ∅ ∅ 21600000000000 sweptSteps (by decide +kernel),
    by decide +kernel⟩

def overtakenLookup : List AuthOp :=
  [.create "s" "ci", .authenticate "s" 10, .looks 0 .up, .revoke "s" "ci" 20, .sweeps .up 30,
    .sweeps .up 31, .sweeps .up 32, .acts 0 40, .authenticate "s" 50]

theorem overtaken_lookup_authenticates :
    ¬ RevocationFinal (runAll (AuthOp.run ⟨id, 60000000000⟩) overtakenLookup {}) := by
  decide +kernel

end FondacoFormal.Auth
