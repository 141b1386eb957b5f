import NnsVerified.Kernel.Proofs.RunProofs

/-!
# The cached inputs of the last proof

The kernel caches the pair of the last proof that it emitted, for `%verify-stark`, and stores the
last recursive proof with its pair. No other poke of a run writes either of them.
-/

namespace NnsVerified.Kernel

open NnsVerified.Hoon NnsVerified.Library

variable {Acc Vesl : Type} {env : Env Acc Vesl} {s : State Acc Vesl}

/-- A poke emits a proof, in an effect of the given kind. -/
def Emits (env : Env Acc Vesl) (carries : Effect → Option Noun) (s : State Acc Vesl)
    (input proof : Noun) : Prop :=
  ∃ effects t e, poke env s input = .ok (effects, t) ∧ e ∈ effects ∧ carries e = some proof

/-- The last proof that a run emitted in an effect of the given kind, with the pair that the poke
handed to the prover. -/
inductive LastEmitted (env : Env Acc Vesl) (carries : Effect → Option Noun) (inputs : List Noun) :
    Option (Noun × Noun × Noun) → Prop where
  | never
      (h : Along (step env) (fresh env) (fun s input => ¬∃ proof, Emits env carries s input proof)
        inputs) :
      LastEmitted env carries inputs none
  | last {pre : List Noun} {input proof subj form : Noun}
      (hlast : LastStep (step env) (fresh env)
        (fun s input => ∃ proof, Emits env carries s input proof) inputs pre input)
      (hemits : Emits env carries (runState env pre) input proof)
      (hproves : Proves env (runState env pre) (softCause env input) subj form proof) :
      LastEmitted env carries inputs (some (proof, subj, form))

/-- The answer of `%verify-stark` to a proof, where it replays the given pair. -/
def replay (env : Env Acc Vesl) (s : State Acc Vesl) (proof : Noun) :
    Option (Noun × Noun) → Eval (List Effect × State Acc Vesl)
  | none => .ok ([.verifyStarkError .noCachedSf], s)
  | some (subj, form) => do
    let ok ← env.verify proof subj form
    return ([.verifyStarkResult ok], s)

/-! ## One poke -/

/-- The proofs that a poke emits are those of its effects. -/
theorem emits_iff {carries : Effect → Option Noun} {input proof : Noun} {effects : List Effect}
    {t : State Acc Vesl} (h : poke env s input = .ok (effects, t)) :
    Emits env carries s input proof ↔ proof ∈ effects.filterMap carries := by
  rw [List.mem_filterMap]
  constructor
  · rintro ⟨effects', t', e, h', he, hproof⟩
    obtain ⟨rfl, rfl⟩ := Prod.mk.inj (Except.ok.inj (h.symm.trans h'))
    exact ⟨e, he, hproof⟩
  · rintro ⟨e, he, hproof⟩
    exact ⟨effects, t, e, h, he, hproof⟩

/-- A poke keeps a cache to the proofs of a kind: it emits none and leaves the cache, or it emits one
and caches what the pack keeps of it and of the pair that it was made of. -/
def KeepsCache {γ : Type} (env : Env Acc Vesl) (carries : Effect → Option Noun)
    (f : State Acc Vesl → Option γ) (pack : Noun × Noun × Noun → γ) (s : State Acc Vesl)
    (cause : Option Cause) (effects : List Effect) (t : State Acc Vesl) : Prop :=
  effects.filterMap carries = [] ∧ f t = f s ∨
    ∃ proof subj form, Proves env s cause subj form proof ∧ effects.filterMap carries = [proof] ∧
      f t = some (pack (proof, subj, form))

section

variable {cause : Option Cause} {effects : List Effect} {t : State Acc Vesl}

theorem CacheStep.lastProved (h : CacheStep env s cause effects t) :
    KeepsCache env Effect.proof State.lastProved Prod.snd s cause effects t := by
  cases h with
  | kept hproofs _ hlast _ => exact Or.inl ⟨hproofs, hlast⟩
  | proved hproves hproofs _ hlast _ => exact Or.inr ⟨_, _, _, hproves, hproofs, hlast⟩
  | chained hproves hproofs _ hlast _ => exact Or.inr ⟨_, _, _, hproves, hproofs, hlast⟩

theorem CacheStep.recursiveProof (h : CacheStep env s cause effects t) :
    KeepsCache env Effect.recursiveProof State.recursiveProof id s cause effects t := by
  cases h with
  | kept _ hrecursive _ hstored => exact Or.inl ⟨hrecursive, hstored⟩
  | proved _ _ hrecursive _ hstored => exact Or.inl ⟨hrecursive, hstored⟩
  | chained hproves _ hrecursive _ hstored =>
    exact Or.inr ⟨_, _, _, hproves, hrecursive, hstored⟩

end

/-- `%verify-stark` replays the cached inputs on every well-formed proof. -/
theorem verifyStark_replay {blob : Nat} {cued proof : Noun} (hcue : env.cue blob = .ok cued)
    (hproof : env.clamProof cued = some proof) :
    verifyStark env s (.atom blob) = replay env s proof s.lastProved := by
  unfold verifyStark replay
  simp only [hcue, mule_ok, hproof, orCrash, ok_bind]
  cases s.lastProved <;> rfl

/-! ## Runs -/

section

variable {γ : Type} {carries : Effect → Option Noun} {f : State Acc Vesl → Option γ}
  {pack : Noun × Noun × Noun → γ}
  (hstep : ∀ {s cause effects t}, CacheStep env s cause effects t →
    KeepsCache env carries f pack s cause effects t)

include hstep

/-- A poke that emits no proof leaves the cache. -/
theorem nextState_kept (s : State Acc Vesl) (input : Noun)
    (hnone : ¬∃ proof, Emits env carries s input proof) : f (nextState env s input) = f s := by
  refine nextState_rule (P := fun t => f t = f s) rfl fun effects t hp => ?_
  rcases hstep (poke_cache hp) with ⟨-, hkept⟩ | ⟨proof, subj, form, -, hproofs, -⟩
  · exact hkept
  · refine absurd ⟨proof, (emits_iff hp).mpr ?_⟩ hnone
    rw [hproofs]
    exact List.mem_singleton_self proof

/-- A poke that emits a proof caches it with the pair that it was made of. -/
theorem nextState_cached {input proof : Noun} (hemits : Emits env carries s input proof) :
    ∃ subj form, Proves env s (softCause env input) subj form proof ∧
      f (nextState env s input) = some (pack (proof, subj, form)) := by
  obtain ⟨effects, t, e, hp, he, hproof⟩ := hemits
  have hmem : proof ∈ effects.filterMap carries := List.mem_filterMap.mpr ⟨e, he, hproof⟩
  rw [nextState_of_ok hp]
  rcases hstep (poke_cache hp) with ⟨hproofs, -⟩ | ⟨proof', subj, form, hproves, hproofs, hcached⟩
  · rw [hproofs] at hmem
    cases hmem
  · rw [hproofs] at hmem
    obtain rfl := List.mem_singleton.mp hmem
    exact ⟨subj, form, hproves, hcached⟩

/-- What a cache holds after a run is what the last poke that emitted a proof put there. -/
theorem cache_of_run (hfresh : f (fresh env) = none) (inputs : List Noun) :
    ∃ last, LastEmitted env carries inputs last ∧ f (runState env inputs) = last.map pack := by
  have hwrite : (Along (step env) (fresh env)
        (fun s input => ¬∃ proof, Emits env carries s input proof) inputs ∧
        f (runState env inputs) = f (fresh env)) ∨
      ∃ pre input, LastStep (step env) (fresh env)
          (fun s input => ∃ proof, Emits env carries s input proof) inputs pre input ∧
        f (runState env inputs) = f (nextState env (runState env pre) input) :=
    last_write (nextState_kept hstep) (fresh env) inputs
  rcases hwrite with ⟨hnever, heq⟩ | ⟨pre, input, hlast, heq⟩
  · exact ⟨none, .never hnever, heq.trans hfresh⟩
  · obtain ⟨proof, hemits⟩ := hlast.holds
    obtain ⟨subj, form, hproves, hnext⟩ := nextState_cached hstep hemits
    exact ⟨some (proof, subj, form), .last hlast hemits hproves, heq.trans hnext⟩

end

/-- In every run, the cached inputs are those of the last proof that it emitted, and the stored proof
is the last recursive one, each with the pair that its poke handed to the prover. `%verify-stark`
replays the former. -/
theorem caches_follow_last_proof (inputs : List Noun) :
    (∃ last, LastEmitted env Effect.proof inputs last ∧
      (runState env inputs).lastProved = last.map Prod.snd ∧
      ∀ input blob cued proof, softCause env input = some (.verifyStark (.atom blob)) →
        env.cue blob = .ok cued → env.clamProof cued = some proof →
        poke env (runState env inputs) input
          = replay env (runState env inputs) proof (last.map Prod.snd)) ∧
    LastEmitted env Effect.recursiveProof inputs (runState env inputs).recursiveProof := by
  constructor
  · obtain ⟨last, hemitted, hlast⟩ : ∃ last, LastEmitted env Effect.proof inputs last ∧
        (runState env inputs).lastProved = last.map Prod.snd :=
      cache_of_run CacheStep.lastProved rfl inputs
    refine ⟨last, hemitted, hlast, ?_⟩
    intro input blob cued proof hcause hcue hproof
    rw [poke_of_softCause _ hcause, ← hlast]
    exact verifyStark_replay hcue hproof
  · obtain ⟨last, hemitted, hstored⟩ : ∃ last, LastEmitted env Effect.recursiveProof inputs last ∧
        (runState env inputs).recursiveProof = last.map id :=
      cache_of_run CacheStep.recursiveProof rfl inputs
    rw [Option.map_id] at hstored
    rw [hstored]
    exact hemitted

end NnsVerified.Kernel
