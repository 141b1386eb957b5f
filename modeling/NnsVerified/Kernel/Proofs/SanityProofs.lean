import NnsVerified.Kernel.Proofs.ReplayProofs

/-!
# Sane rows

`+apt` says what a row must have and no poke runs it. The predicates on a claim see to its name,
and insertion to its key; the owner and the transaction hash are only compared with the witness and
with the page, so each of them may be `0`. The rows are sane in every state of a run exactly when no
block of the run registers such a claim.
-/

namespace NnsVerified.Kernel

open NnsVerified.Hoon NnsVerified.Library

variable {Acc Vesl : Type} {env : Env Acc Vesl} {s : State Acc Vesl}

/-- What `+apt` asks of a row. -/
def NnsAccumulatorEntry.Sane (e : NnsAccumulatorEntry) : Prop :=
  e.name ≠ 0 ∧ e.owner ≠ 0 ∧ e.txHash ≠ 0

/-- Every row is stored under the key of its name. -/
def KeyedByName (env : Env Acc Vesl) (acc : Acc) : Prop :=
  ∀ row ∈ env.zBy.tap acc, nameKey env row.2.name = .ok row.1

/-- The claims that a block would register have an owner and a transaction hash. -/
def OwnedAndPaid (env : Env Acc Vesl) (s : State Acc Vesl) (c : ScanBlock) : Prop :=
  ∀ e ∈ newRows env s c, e.owner ≠ 0 ∧ e.txHash ≠ 0

theorem apt_iff (acc : Acc) : apt env acc = true ↔ ∀ e ∈ rows env acc, e.Sane := by
  rw [apt, rows, List.forall_mem_map, List.all_eq_true]
  simp [NnsAccumulatorEntry.Sane, met_eq_zero_iff, and_assoc]

theorem ValidName.ne_zero {name : Nat} (h : ValidName name) : name ≠ 0 := by
  rintro rfl
  have h6 : 6 ≤ met 3 0 := h.1
  simp [(met_eq_zero_iff 0).mpr rfl] at h6

theorem genesisTldEntry_sane : genesisTldEntry.Sane := by
  unfold NnsAccumulatorEntry.Sane
  decide

/-- The name of a new row is valid. -/
theorem validName_of_mem_newRows {c : ScanBlock} {e : NnsAccumulatorEntry}
    (he : e ∈ newRows env s c) : ValidName e.name := by
  obtain ⟨kv, hkv, rfl⟩ := List.mem_map.mp he
  obtain ⟨claim, hclaim, rfl⟩ := List.mem_map.mp ((winners_sublist _ _).subset hkv)
  rw [ScanBlock.validClaims_eq] at hclaim
  have hvalid : ValidClaim c.page claim := by simpa using List.of_mem_filter hclaim
  exact hvalid.1

section

variable (hh : env.HashLaws) (hm : env.MapLaws)

include hh hm

theorem Inserted.keyedByName {acc : Acc} (h : Inserted env acc) : KeyedByName env acc := by
  rintro ⟨k, e⟩ hrow
  obtain ⟨hk, hview⟩ := (h.mem_tap hh hm k e).mp hrow
  rw [nameKey_eq hh, h.coherent hh hm hk hview]

theorem apt_reject {input : Noun} (hins : Inserted env s.accumulator)
    (h : acceptedBlock env s input = none) (hapt : apt env s.accumulator = true) :
    apt env (nextState env s input).accumulator = true := by
  refine (apt_iff _).mpr fun e he => ?_
  by_cases htld : e = genesisTldEntry
  · rw [htld]
    exact genesisTldEntry_sane
  · exact (apt_iff _).mp hapt e ((rows_of_rejected hh hm hins h htld).mp he)

theorem apt_accept_iff {input : Noun} {c : ScanBlock} (hins : Inserted env s.accumulator)
    (h : acceptedBlock env s input = some c) (hapt : apt env s.accumulator = true) :
    apt env (nextState env s input).accumulator = true ↔ OwnedAndPaid env s c := by
  have hrows : ∀ e : NnsAccumulatorEntry, e ≠ genesisTldEntry →
      (e ∈ rows env (nextState env s input).accumulator ↔
        e ∈ rows env s.accumulator ∨ e ∈ newRows env s c) :=
    fun e he => (rows_of_accepted hh hm hins h he).2
  rw [apt_iff] at hapt ⊢
  constructor
  · intro hnext e he
    exact (hnext e ((hrows e (newRows_ne_tld he)).mpr (Or.inr he))).2
  · intro hnew e he
    by_cases htld : e = genesisTldEntry
    · rw [htld]
      exact genesisTldEntry_sane
    · rcases (hrows e htld).mp he with hold | hadded
      · exact hapt e hold
      · exact ⟨(validName_of_mem_newRows hadded).ne_zero, hnew e hadded⟩

end

/-- Every state of a run keeps its rows under the keys of their names. Its rows are sane where every
offered block registers only claims with an owner and a payment, and only where every accepted
block does. -/
theorem apt_when_owned (hh : env.HashLaws) (hm : env.MapLaws) (inputs : List Noun) :
    (∀ before after, inputs = before ++ after →
      KeyedByName env (runState env before).accumulator) ∧
    ((∀ before input after, inputs = before ++ input :: after →
        ∀ c, Offers env (runState env before) input c →
          OwnedAndPaid env (runState env before) c) →
      ∀ before after, inputs = before ++ after →
        apt env (runState env before).accumulator = true) ∧
    ((∀ before after, inputs = before ++ after →
        apt env (runState env before).accumulator = true) →
      ∀ before input after, inputs = before ++ input :: after →
        ∀ c, acceptedBlock env (runState env before) input = some c →
          OwnedAndPaid env (runState env before) c) := by
  have hnew : apt env env.zBy.nul = true :=
    (apt_iff _).mpr fun e he => absurd he (rows_nul hh hm e)
  exact ⟨fun before after _ => (runInv hh hm before).inserted.keyedByName hh hm,
    throughout_run (P := fun acc => apt env acc = true) hh hm hnew
      (fun hins hacc hapt => apt_reject hh hm hins hacc hapt)
      (fun hins hacc hapt => apt_accept_iff hh hm hins hacc hapt) inputs⟩

theorem apt_when_owned_contested :
    apt sampleEnv (runState sampleEnv [contestedBlock.noun]).accumulator = true := by
  refine (apt_when_owned sampleEnv_hashLaws sampleEnv_mapLaws [contestedBlock.noun]).2.1
    ?_ [contestedBlock.noun] [] rfl
  rintro before input after hsplit c ⟨hcause, -, -⟩
  obtain ⟨rfl, hrest⟩ | ⟨before', rfl, hrest⟩ := List.cons_eq_append_iff.mp hsplit
  · obtain ⟨rfl, -⟩ := List.cons.inj hrest
    rw [softCause_scanBlock] at hcause
    obtain rfl : contestedBlock = c := by simpa using hcause
    unfold OwnedAndPaid
    decide +kernel
  · exact absurd hrest (by simp)

/-- A paid claim of the empty owner, whom the witness names as the spender. -/
def ownerlessBlock : ScanBlock where
  parent := 0
  height := nnsGenesisHeight
  pageDigest := 7
  pageTxIds := [20]
  claims := [paidClaim (cord "a.nock") 0 20]

theorem apt_fails_on_ownerless :
    ¬∀ inputs : List Noun, apt sampleEnv (runState sampleEnv inputs).accumulator = true ∧
      KeyedByName sampleEnv (runState sampleEnv inputs).accumulator := by
  intro h
  have hno : apt sampleEnv (runState sampleEnv [ownerlessBlock.noun]).accumulator = false := by
    decide +kernel
  rw [(h [ownerlessBlock.noun]).1] at hno
  exact absurd hno (by decide)

end NnsVerified.Kernel
