import NnsVerified.Hull.BatchRun
import NnsVerified.Hull.Proofs.ExtractionProofs
import NnsVerified.Hull.Proofs.FollowerProofs
import NnsVerified.Kernel.Proofs.AcceptanceProofs

/-!
# One block of a batch

The body of the loop over a batch has four ways to end (`BlockRun`). It panics only where the claims
of the block were given, since the ids of extracted claims have the width that the builder of the
transition asserts.
-/

namespace NnsVerified.Hull

open NnsVerified.Hoon NnsVerified.Library NnsVerified.Kernel

variable {H Z L Acc Vesl : Type} {c : Crates H Z L} {env : PeekEnv Acc Vesl}
  {others : Others env.toEnv} {injectedClaims : Option (List (List ClaimCandidate))}
  {s t : State Acc Vesl}

/-! ## The widths of ids -/

theorem length_base58HashToAtomBytes {value : String} {id : List UInt8}
    (h : base58HashToAtomBytes c value = .ok id) : id.length = 40 := by
  obtain ⟨hash, -, hid⟩ := bind_eq_ok h
  obtain rfl := Except.ok.inj hid
  exact length_limbBytes _

section

variable [DecidableEq H] {details : TransactionDetails} {p : ClaimCandidate}

/-- Without the id of its transaction no claim is extracted. -/
theorem claimOfOutput_no_id {e : String} (hid : base58HashToAtomBytes c (trim details.txId) = .error e)
    (output : TransactionOutput) : claimOfOutput c details output ≠ .ok (some p) := by
  intro h
  unfold claimOfOutput at h
  cases hdata : output.noteData with
  | none => simp [hdata] at h
  | some noteData =>
    simp only [hdata] at h
    cases hnote : fromNoteData c noteData with
    | error e => simp [hnote] at h
    | ok note =>
      simp only [hnote] at h
      by_cases htx : (if (trim note.txHash).isEmpty then trim details.txId else trim note.txHash)
          ≠ trim details.txId
      · rw [if_pos htx] at h
        cases h
      · rw [if_neg htx, not_not.mp htx, hid] at h
        cases h

theorem hasWideIds_of_output {output : TransactionOutput}
    (h : claimOfOutput c details output = .ok (some p)) : hasWideIds p = true := by
  cases hid : base58HashToAtomBytes c (trim details.txId) with
  | error e => exact absurd h (claimOfOutput_no_id hid output)
  | ok id =>
    obtain ⟨claim, hclaim, hspec⟩ := claimOfOutput_spec hid output
    obtain rfl := Except.ok.inj (h.symm.trans hclaim)
    have hp := hspec p rfl
    have hwide := length_base58HashToAtomBytes hid
    unfold hasWideIds
    rw [hp.txHash, hp.witness]
    simp [hwide]

theorem hasWideIds_of_outputs {outputs : List TransactionOutput} {claims : List ClaimCandidate}
    (h : claimsOfOutputs c details outputs = .ok claims) (hp : p ∈ claims) :
    hasWideIds p = true := by
  induction outputs generalizing claims with
  | nil =>
    obtain rfl := Except.ok.inj h
    cases hp
  | cons output outputs ih =>
    obtain ⟨claim, hclaim, h⟩ := bind_eq_ok h
    obtain ⟨rest, hrest, h⟩ := bind_eq_ok h
    obtain rfl := Except.ok.inj h
    rcases List.mem_append.mp hp with hmem | hmem
    · obtain rfl := Option.mem_toList.mp hmem
      exact hasWideIds_of_output hclaim
    · exact ih hrest hmem

/-- The ids of extracted claims are those of transactions, which have 40 bytes. -/
theorem hasWideIds_of_extractClaims {details : List TransactionDetails}
    {claims : List ClaimCandidate} (h : extractClaims c details = .ok claims) :
    claims.all hasWideIds = true := by
  rw [List.all_eq_true]
  intro p hp
  induction details generalizing claims with
  | nil =>
    obtain rfl := Except.ok.inj h
    cases hp
  | cons tx details ih =>
    obtain ⟨txClaims, htx, h⟩ := bind_eq_ok h
    obtain ⟨rest, hrest, h⟩ := bind_eq_ok h
    obtain rfl := Except.ok.inj h
    rcases List.mem_append.mp hp with hmem | hmem
    · exact hasWideIds_of_outputs htx hmem
    · exact ih hrest hmem

/-- Some of the claims that were given have an id that is not 40 bytes wide. -/
def GivesNarrowIds (injectedClaims : Option (List (List ClaimCandidate))) : Prop :=
  ∃ given, injectedClaims = some given ∧ ∃ claims ∈ given, claims.all hasWideIds = false

theorem givesNarrowIds_of_scanPoke {idx : Nat} {block : ScanBlockFetch}
    {claims : List ClaimCandidate} {input : Noun}
    (h : scanPoke c injectedClaims idx block = .ok (claims, input))
    (hnarrow : claims.all hasWideIds = false) : GivesNarrowIds injectedClaims := by
  obtain ⟨ids, -, h⟩ := bind_eq_ok h
  obtain ⟨claims', hclaims, h⟩ := bind_eq_ok h
  obtain ⟨rfl, -⟩ := Prod.mk.inj (Except.ok.inj h)
  unfold scanClaims at hclaims
  cases injectedClaims with
  | none =>
    rw [hasWideIds_of_extractClaims hclaims] at hnarrow
    cases hnarrow
  | some given =>
    dsimp only at hclaims
    split at hclaims
    · rename_i unsorted hget
      refine ⟨given, rfl, unsorted, List.mem_of_getElem? hget, ?_⟩
      obtain ⟨canonical, -, hsort⟩ := bind_eq_ok (mapError_eq_ok.mp hclaims)
      obtain rfl := Except.ok.inj hsort
      obtain ⟨p, hp, hwide⟩ := List.all_eq_false.mp hnarrow
      exact List.all_eq_false.mpr ⟨p, sortByKey_perm.mem_iff.mp hp, hwide⟩
    · cases hclaims

end

/-! ## One block -/

/-- What the follower was told of a block is what the kernel is in after it. -/
structure Reported (c : Crates H Z L) (env : PeekEnv Acc Vesl) (t : State Acc Vesl)
    (done : ScanBlockDone) : Prop where
  height : done.height.toNat = t.lastProvedHeight
  digest : done.digest = c.asNeBytes t.lastProvedDigest
  root : ∃ root, rootAtom env.toEnv t.accumulator = .ok root ∧
    done.accumulatorRoot = c.asNeBytes root

theorem Reported.transfer {done : ScanBlockDone} (h : Reported c env s done) (hsame : SameScan t s) :
    Reported c env t done where
  height := h.height.trans hsame.height
  digest := by rw [h.digest, hsame.digest]
  root := by rw [← hsame.accumulator]; exact h.root

/-- The transition is not sent, or its builder panics, or the kernel gets it. -/
theorem tryRecursiveTransition_cases (hn : c.NounLaws) (others : Others env.toEnv) (idx : Nat)
    (s : State Acc Vesl) (block : ScanBlockFetch) (claims : List ClaimCandidate) :
    ∃ u u' result, tryRecursiveTransition c env others idx s block claims = (u', result) ∧
      u = others.act (.proof idx) s ∧
      (u' = u ∧ result = .error .panic ∧ claims.all hasWideIds = false ∨
        result = .ok () ∧ (u' = u ∨ ∃ p : ProveTransition,
          u' = nextState env.toEnv (others.act (.transition idx) u) p.noun)) := by
  unfold tryRecursiveTransition
  dsimp only
  cases prevTripleOf c env (others.act (.proof idx) s) with
  | none => exact ⟨_, _, _, rfl, rfl, Or.inr ⟨rfl, Or.inl rfl⟩⟩
  | some triple =>
    obtain ⟨proof, subj, form⟩ := triple
    dsimp only
    cases hwide : claims.all hasWideIds with
    | false => exact ⟨_, _, _, rfl, rfl, Or.inl ⟨rfl, rfl, rfl⟩⟩
    | true =>
      refine ⟨_, _, _, rfl, rfl, Or.inr ⟨rfl, Or.inr ⟨toProveTransition proof subj form
        block.pageDigest block.pageTxIds claims [], ?_⟩⟩⟩
      rw [buildProveRecursiveTransitionPoke_eq hn]

variable [DecidableEq H] {idx : Nat} {block : ScanBlockFetch}

/-- What the body of the loop does: it has no poke for the block, or the kernel rejects the poke, or
accepts it. A transition may follow then, unless its builder panics. -/
inductive BlockRun (c : Crates H Z L) (env : PeekEnv Acc Vesl) (others : Others env.toEnv)
    (injectedClaims : Option (List (List ClaimCandidate))) (idx : Nat) (s : State Acc Vesl)
    (block : ScanBlockFetch) : State Acc Vesl × Except Failure ScanBlockDone → Prop
  | unprepared {e msg : String} (hpoke : scanPoke c injectedClaims idx block = .error e) :
    BlockRun c env others injectedClaims idx s block
      (others.act (.scan idx) s, .error (.message msg))
  | rejected {claims : List ClaimCandidate} {b : ScanBlock} {msg : String}
    (hpoke : scanPoke c injectedClaims idx block = .ok (claims, b.noun))
    (hnone : acceptedBlock env.toEnv (others.act (.scan idx) s) b.noun = none) :
    BlockRun c env others injectedClaims idx s block
      (nextState env.toEnv (others.act (.scan idx) s) b.noun, .error (.message msg))
  | stuck {claims : List ClaimCandidate} {b : ScanBlock} {u : State Acc Vesl}
    (hpoke : scanPoke c injectedClaims idx block = .ok (claims, b.noun))
    (hacc : acceptedBlock env.toEnv (others.act (.scan idx) s) b.noun = some b)
    (hu : u = others.act (.proof idx) (nextState env.toEnv (others.act (.scan idx) s) b.noun))
    (hnarrow : claims.all hasWideIds = false) :
    BlockRun c env others injectedClaims idx s block (u, .error .panic)
  | done {claims : List ClaimCandidate} {b : ScanBlock} {u u' : State Acc Vesl}
    {done : ScanBlockDone}
    (hpoke : scanPoke c injectedClaims idx block = .ok (claims, b.noun))
    (hacc : acceptedBlock env.toEnv (others.act (.scan idx) s) b.noun = some b)
    (hdone : Reported c env (nextState env.toEnv (others.act (.scan idx) s) b.noun) done)
    (hu : u = others.act (.proof idx) (nextState env.toEnv (others.act (.scan idx) s) b.noun))
    (hu' : u' = u ∨
      ∃ p : ProveTransition, u' = nextState env.toEnv (others.act (.transition idx) u) p.noun) :
    BlockRun c env others injectedClaims idx s block (u', .ok done)

section

variable (hn : c.NounLaws)

include hn

theorem scanPoke_noun {claims : List ClaimCandidate} {input : Noun}
    (h : scanPoke c injectedClaims idx block = .ok (claims, input)) :
    ∃ b : ScanBlock, input = b.noun ∧ b.height < 2 ^ 64 := by
  obtain ⟨ids, -, h⟩ := bind_eq_ok h
  obtain ⟨claims', -, h⟩ := bind_eq_ok h
  obtain ⟨-, rfl⟩ := Prod.mk.inj (Except.ok.inj h)
  exact ⟨_, buildScanBlockPoke_eq hn _ _ _ _ _, block.height.toNat_lt⟩

theorem applyFetchedBlock_run : BlockRun c env others injectedClaims idx s block
    (applyFetchedBlock c env others injectedClaims idx s block) := by
  unfold applyFetchedBlock
  dsimp only
  cases hscan : scanPoke c injectedClaims idx block with
  | error e => exact .unprepared hscan
  | ok r =>
    obtain ⟨claims, input⟩ := r
    obtain ⟨b, rfl, hheight⟩ := scanPoke_noun hn hscan
    dsimp only
    cases hpoke : poke env.toEnv (others.act (.scan idx) s) b.noun with
    | error e => exact .rejected hscan (acceptedBlock_of_error hpoke)
    | ok r =>
      obtain ⟨effects, t⟩ := r
      have hcases := hpoke
      rw [poke_scanBlock] at hcases
      have hnext : nextState env.toEnv (others.act (.scan idx) s) b.noun = t := nextState_of_ok hpoke
      rcases scanBlock_cases hcases with ⟨e, acc, rfl, -, -⟩ |
        ⟨seeded, acc, root, -, -, -, -, hroot, rfl, ht⟩
      · obtain ⟨msg, hmsg⟩ := scanBlockResult_rejected (c := c) hn e
        simp only [List.map_cons, List.map_nil, hmsg]
        refine .rejected hscan ?_
        rw [← Option.not_isSome_iff_eq_none, acceptedBlock_isSome hpoke]
        simp [Effect.isDone]
      · have hacc := acceptedBlock_of_done hpoke
        simp only [List.map_cons, List.map_nil, scanBlockResult_accepted hn _ root hheight]
        obtain ⟨u, u', result, htry, hu, ⟨rfl, rfl, hnarrow⟩ | ⟨rfl, hu'⟩⟩ :=
          tryRecursiveTransition_cases hn others idx
            (nextState env.toEnv (others.act (.scan idx) s) b.noun) block claims
        · rw [htry]
          exact .stuck hscan hacc hu hnarrow
        · rw [htry]
          refine .done hscan hacc ?_ hu hu'
          rw [hnext, ht]
          exact ⟨UInt64.toNat_ofNat_of_lt' hheight, rfl, root, hroot, rfl⟩

end

end NnsVerified.Hull
