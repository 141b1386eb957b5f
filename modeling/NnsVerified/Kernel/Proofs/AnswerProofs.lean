import NnsVerified.Hoon.Jam
import NnsVerified.Kernel.Proofs.SnapshotProofs
import NnsVerified.Kernel.Sample

/-!
# When the verifiers answer

The three verification causes change nothing, and emit one effect when they complete. They catch a
jam that does not cue, but not a noun of the wrong shape: the mold is applied to it outside of
`+mule`, and the poke crashes.
-/

namespace NnsVerified.Kernel

open NnsVerified.Hoon NnsVerified.Library

variable {Acc Vesl : Type} {env : Env Acc Vesl} {s : State Acc Vesl}

/-- A result or an error of a verification. -/
def Effect.IsAnswer : Effect → Prop
  | .verifyStarkResult _ | .verifyStarkError _ | .accumulatorSnapshotVerifyResult _
  | .accumulatorSnapshotVerifyError => True
  | _ => False

/-- A computation emits one answer and leaves the state as it is. -/
def Answers (s : State Acc Vesl) (x : Eval (List Effect × State Acc Vesl)) : Prop :=
  ∃ e : Effect, e.IsAnswer ∧ x = .ok ([e], s)

theorem answers_ok {e : Effect} (h : e.IsAnswer) : Answers s (.ok ([e], s)) := ⟨e, h, rfl⟩

theorem not_answers_error {f : Fault} : ¬Answers s (.error f) := by
  rintro ⟨e, -, h⟩
  cases h

/-- `+cue` crashes or returns a noun. -/
def Env.CueReturns (env : Env Acc Vesl) : Prop := ∀ a, env.cue a ≠ .error .hang

/-- `verify:vv` is total on proofs. -/
def Env.VerifyReturns (env : Env Acc Vesl) : Prop :=
  ∀ n proof subj form, env.clamProof n = some proof → ∃ ok, env.verify proof subj form = .ok ok

/-- The noun that a jam cues to, where it cues, is a proof. -/
def CuesToProof (env : Env Acc Vesl) (a : Nat) : Prop :=
  ∀ n, env.cue a = .ok n → ∃ proof, env.clamProof n = some proof

/-- The noun that a jam cues to, where it cues, is an accumulator that has a root, and where that is
the expected one, the name can be looked up. -/
def CuesToSnapshot (env : Env Acc Vesl) (v : VerifySnapshot) : Prop :=
  ∀ n, env.cue v.accJam = .ok n → ∃ acc root, env.clamAccumulator n = some acc ∧
    rootAtom env acc = .ok root ∧
    (root = v.expectedRoot → ∃ got, get env acc v.entry.name = .ok got)

/-- How a jam cues under `+mule`. -/
theorem mule_cue_cases (hc : env.CueReturns) (a : Nat) :
    (∃ n, env.cue a = .ok n ∧ mule (env.cue a) = .ok (.ok n)) ∨
      ∃ trace, (∀ n, env.cue a ≠ .ok n) ∧ mule (env.cue a) = .ok (.error trace) := by
  cases hcue : env.cue a with
  | ok n => exact Or.inl ⟨n, rfl, rfl⟩
  | error f =>
    cases f with
    | bail trace => exact Or.inr ⟨trace, fun _ => nofun, rfl⟩
    | hang => exact absurd hcue (hc a)

/-- A computation that starts with another one answers where the first returns and the rest answers. -/
theorem answers_bind_iff {α : Type} {x : Eval α} {k : α → Eval (List Effect × State Acc Vesl)} :
    Answers s (x >>= k) ↔ ∃ a, x = .ok a ∧ Answers s (k a) := by
  cases x with
  | error f =>
    constructor
    · intro h
      exact absurd h not_answers_error
    · rintro ⟨a, ha, -⟩
      cases ha
  | ok a =>
    constructor
    · intro h
      exact ⟨a, rfl, h⟩
    · rintro ⟨b, hb, h⟩
      obtain rfl := Except.ok.inj hb
      exact h

/-- A jam whose noun is molded and handed on is answered where it does not cue, and where its noun
fits the mold and what it is handed to answers. -/
theorem answers_cued_iff {α : Type} (hc : env.CueReturns) (a : Nat) {clam : Noun → Option α}
    {k : α → Eval (List Effect × State Acc Vesl)} {b : Effect} (hb : b.IsAnswer) :
    Answers s (mule (env.cue a) >>= fun r =>
        match r with
        | .error _ => .ok ([b], s)
        | .ok cued => orCrash (clam cued) >>= k) ↔
      ∀ n, env.cue a = .ok n → ∃ x, clam n = some x ∧ Answers s (k x) := by
  rcases mule_cue_cases hc a with ⟨n, hcue, hmule⟩ | ⟨trace, hcue, hmule⟩
  · rw [hmule, ok_bind, answers_bind_iff]
    simp only [orCrash_eq_ok]
    constructor
    · intro h m hm
      obtain rfl := Except.ok.inj (hcue.symm.trans hm)
      exact h
    · intro h
      exact h n hcue
  · rw [hmule, ok_bind]
    exact iff_of_true (answers_ok hb) fun n hn => absurd hn (hcue n)

/-! ## Proofs -/

theorem verifyStark_answers_iff (hc : env.CueReturns) (hv : env.VerifyReturns) (blob : Noun) :
    Answers s (verifyStark env s blob) ↔ ∀ a, blob = .atom a → CuesToProof env a := by
  cases blob with
  | cell p q => exact ⟨fun _ _ => nofun, fun _ => answers_ok (by trivial)⟩
  | atom a =>
    refine (answers_cued_iff (b := .verifyStarkError .badJam) hc a (by trivial)).trans ?_
    constructor
    · rintro h _ ⟨rfl⟩ n hn
      obtain ⟨proof, hproof, -⟩ := h n hn
      exact ⟨proof, hproof⟩
    · intro h n hn
      obtain ⟨proof, hproof⟩ := h a rfl n hn
      refine ⟨proof, hproof, ?_⟩
      cases s.lastProved with
      | none => exact answers_ok (by trivial)
      | some sf =>
        obtain ⟨ok, hok⟩ := hv n proof sf.1 sf.2 hproof
        simp only [hok, ok_bind]
        exact answers_ok (by trivial)

theorem verifyStarkExplicit_answers_iff (hc : env.CueReturns) (hv : env.VerifyReturns)
    (blob subj form : Noun) : Answers s (verifyStarkExplicit env s blob subj form) ↔
      ∀ a b c, blob = .atom a → subj = .atom b → form = .atom c → CuesToProof env a := by
  cases blob with
  | cell p q => exact ⟨fun _ _ _ _ => nofun, fun _ => answers_ok (by trivial)⟩
  | atom a =>
    cases subj with
    | cell p q => exact ⟨fun _ _ _ _ _ => nofun, fun _ => answers_ok (by trivial)⟩
    | atom b =>
      cases form with
      | cell p q => exact ⟨fun _ _ _ _ _ _ => nofun, fun _ => answers_ok (by trivial)⟩
      | atom c =>
        refine (answers_cued_iff (b := .verifyStarkError .badJam) hc a (by trivial)).trans ?_
        constructor
        · rintro h _ _ _ ⟨rfl⟩ - - n hn
          obtain ⟨proof, hproof, -⟩ := h n hn
          exact ⟨proof, hproof⟩
        · intro h n hn
          obtain ⟨proof, hproof⟩ := h a b c rfl rfl rfl n hn
          refine ⟨proof, hproof, ?_⟩
          rcases mule_cue_cases hc b with ⟨subject, -, hsubject⟩ | ⟨trace, -, hsubject⟩
          · rcases mule_cue_cases hc c with ⟨formula, -, hformula⟩ | ⟨trace, -, hformula⟩
            · obtain ⟨ok, hok⟩ := hv n proof subject formula hproof
              simp only [hsubject, hformula, hok, ok_bind]
              exact answers_ok (by trivial)
            · simp only [hsubject, hformula, ok_bind]
              exact answers_ok (by trivial)
          · simp only [hsubject, ok_bind]
            exact answers_ok (by trivial)

/-! ## Snapshots -/

theorem verifyAccumulatorSnapshot_answers_iff (hc : env.CueReturns) (v : VerifySnapshot) :
    Answers s (verifyAccumulatorSnapshot env s v) ↔ CuesToSnapshot env v := by
  refine (answers_cued_iff (b := .accumulatorSnapshotVerifyError) hc v.accJam (by trivial)).trans
    (forall₂_congr fun n _ => exists_congr fun acc => ?_)
  rw [answers_bind_iff, exists_and_left]
  refine and_congr_right fun _ => exists_congr fun root => and_congr_right fun _ => ?_
  by_cases hexp : root = v.expectedRoot
  · rw [if_neg (not_not.mpr hexp), answers_bind_iff]
    constructor
    · rintro ⟨got, hgot, -⟩ -
      exact ⟨got, hgot⟩
    · intro h
      obtain ⟨got, hgot⟩ := h hexp
      exact ⟨got, hgot, answers_ok (by trivial)⟩
  · rw [if_pos hexp]
    exact iff_of_true (answers_ok (by trivial)) fun h => absurd h hexp

/-! ## The three causes -/

/-- The causes that verify a proof or a snapshot. -/
def Cause.Verifies : Cause → Prop
  | .verifyStark _ | .verifyStarkExplicit _ _ _ | .verifyAccumulatorSnapshot _ => True
  | _ => False

/-- What a cause brings to be cued has the shape that the cause is about. -/
def WellShaped (env : Env Acc Vesl) : Cause → Prop
  | .verifyStark blob => ∀ a, blob = .atom a → CuesToProof env a
  | .verifyStarkExplicit blob subj form =>
    ∀ a b c, blob = .atom a → subj = .atom b → form = .atom c → CuesToProof env a
  | .verifyAccumulatorSnapshot v => CuesToSnapshot env v
  | _ => True

/-- A verification answers, and leaves the state as it is, exactly when every noun that it cues fits
its mold, and a snapshot has a root. -/
theorem verification_answers_iff (hc : env.CueReturns) (hv : env.VerifyReturns)
    (s : State Acc Vesl) {input : Noun} {cause : Cause} (hcause : softCause env input = some cause)
    (hverifies : cause.Verifies) : Answers s (poke env s input) ↔ WellShaped env cause := by
  rw [poke_of_softCause s hcause]
  cases cause with
  | verifyStark blob => exact verifyStark_answers_iff hc hv blob
  | verifyStarkExplicit blob subj form => exact verifyStarkExplicit_answers_iff hc hv blob subj form
  | verifyAccumulatorSnapshot v => exact verifyAccumulatorSnapshot_answers_iff hc v
  | _ => exact hverifies.elim

/-- The sample kernel with the standard encoding of nouns, and proofs that are cells. -/
def jamEnv : Env (List (NnsNameKey × NnsAccumulatorEntry)) Unit :=
  { sampleEnv with
    jam := jam
    cue := fun a => orCrash (cue a)
    clamProof := fun n =>
      match n with
      | .cell _ _ => some n
      | .atom _ => none }

theorem jamEnv_cueReturns : jamEnv.CueReturns := fun a => orCrash_ne_hang (cue a)

theorem jamEnv_verifyReturns : jamEnv.VerifyReturns := fun _ _ _ _ _ => ⟨false, rfl⟩

/-- The poke of `%verify-stark`. -/
def verifyStarkNoun (blob : Noun) : Noun := .cell (.atom (cord "verify-stark")) blob

/-- The jam of a cell is answered: no proof is cached. -/
theorem verification_answers_cell : Answers (fresh jamEnv)
    (poke jamEnv (fresh jamEnv) (verifyStarkNoun (.atom 41))) := by
  have hcause : softCause jamEnv (verifyStarkNoun (.atom 41)) = some (.verifyStark (.atom 41)) :=
    softCause_tag jamEnv .verifyStark _
  refine (verification_answers_iff jamEnv_cueReturns jamEnv_verifyReturns _ hcause trivial).mpr ?_
  rintro _ ⟨rfl⟩ n hn
  have hcue : jamEnv.cue 41 = .ok (.cell (.atom 0) (.atom 0)) := by decide
  obtain rfl := Except.ok.inj (hcue.symm.trans hn)
  exact ⟨_, rfl⟩

/-- The jam of an atom crashes all three causes. -/
theorem verification_crashes_atom :
    jam (.atom 1) = 12 ∧
      poke jamEnv (fresh jamEnv) (verifyStarkNoun (.atom 12)) = crash ∧
      poke jamEnv (fresh jamEnv) (Noun.tuple (.atom (cord "verify-stark-explicit"))
        [.atom 12, .atom 12, .atom 12]) = crash ∧
      poke jamEnv (fresh jamEnv) (⟨0, 12, ⟨0, 0, 0, 0, 0⟩⟩ : VerifySnapshot).noun = crash := by
  refine ⟨by decide, ?_, ?_, ?_⟩
  · refine (poke_of_softCause _ (softCause_tag jamEnv .verifyStark _)).trans ?_
    decide
  · refine (poke_of_softCause _ (softCause_tag jamEnv .verifyStarkExplicit _)).trans ?_
    decide
  · refine (poke_of_softCause _ (softCause_verifyAccumulatorSnapshot jamEnv _)).trans ?_
    decide

end NnsVerified.Kernel
