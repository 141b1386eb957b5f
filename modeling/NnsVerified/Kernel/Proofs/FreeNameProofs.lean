import NnsVerified.Kernel.Proofs.DryRunProofs

/-!
# What an accepted claim says about its name

The trace of a block with one claim compares the tag of the claim with the tag of the first row in the
order of `tap`, and with no other. So it rejects a claim for a name that is taken only where the row
of the name comes first.
-/

namespace NnsVerified.Kernel

open NnsVerified.Hoon NnsVerified.Hoon.Noun NnsVerified.Library

variable {Acc Vesl : Type} {env : Env Acc Vesl}

/-- When the trace of one claim accepts. -/
theorem singleTrace_accepts_iff (hh : env.HashLaws) (prevProof : Noun) (prevH : Nat) (acc : Acc)
    (pag : NnsPageSummary) (c : NnsClaim) (block : Noun) (want : Nat) :
    ∃ subj form,
      buildRecursiveTransitionInputs env prevProof prevH acc pag [c] block want = .ok (subj, form) ∧
      (Yields subj form (.atom 0) ↔ (∃ a, prevProof = .atom a ∧ a ≠ 0) ∧
        ((keyOf env c.name).d0 = 0 ∨
          accListHeadKey (env.zBy.tap acc) ≠ (keyOf env c.name).d0)) := by
  refine ⟨_, _, buildTransition_single hh _ _ _ _ _ _ _, ?_⟩
  rw [yields_zero_iff (yields_full _ _ _ _ _ _ _ _), Bool.and_eq_true, decide_eq_true_iff,
    decide_eq_true_iff, proofLength_ne_zero]

/-- The tag of a row is that of its name. -/
theorem Inserted.tag_eq (hh : env.HashLaws) (hm : env.MapLaws) {acc : Acc}
    (h : Inserted env acc) {row : NnsNameKey × NnsAccumulatorEntry} (hrow : row ∈ env.zBy.tap acc)
    {name : Nat} (hname : row.2.name = name) : row.1.d0 = (keyOf env name).d0 := by
  obtain ⟨hk, hv⟩ := (h.mem_tap hh hm row.1 row.2).mp hrow
  rw [← hname, h.coherent hh hm hk hv]

/-- That a trace of one claim accepts says that the name of the claim is free exactly where there is
no previous proof, so that the trace rejects, or a row of the name would have the tag of the first
row, and one that is not `0`. -/
theorem accepted_name_free_iff (hh : env.HashLaws) (hm : env.MapLaws) {acc : Acc}
    (h : Inserted env acc) (prevProof : Noun) (prevH : Nat) (pag : NnsPageSummary) (c : NnsClaim)
    (block : Noun) (want : Nat) :
    ∃ subj form,
      buildRecursiveTransitionInputs env prevProof prevH acc pag [c] block want = .ok (subj, form) ∧
      ((Yields subj form (.atom 0) → ∀ row ∈ env.zBy.tap acc, row.2.name ≠ c.name) ↔
        (∀ a, prevProof = .atom a → a = 0) ∨
          ∀ row ∈ env.zBy.tap acc, row.2.name = c.name →
            row.1.d0 ≠ 0 ∧ row.1.d0 = accListHeadKey (env.zBy.tap acc)) := by
  obtain ⟨subj, form, hbuild, haccepts⟩ :=
    singleTrace_accepts_iff hh prevProof prevH acc pag c block want
  refine ⟨subj, form, hbuild, ?_⟩
  rw [haccepts]
  constructor
  · intro hfree
    by_cases hproof : ∃ a, prevProof = .atom a ∧ a ≠ 0
    · refine Or.inr fun row hrow hname => ?_
      have htag := h.tag_eq hh hm hrow hname
      rw [htag]
      constructor
      · intro hzero
        exact hfree ⟨hproof, Or.inl hzero⟩ row hrow hname
      · by_contra hne
        exact hfree ⟨hproof, Or.inr (Ne.symm hne)⟩ row hrow hname
    · refine Or.inl fun a ha => ?_
      by_contra hne
      exact hproof ⟨a, ha, hne⟩
  · rintro hcond ⟨⟨a, ha, hne⟩, htag⟩ row hrow hname
    rcases hcond with hnone | hfirst
    · exact hne (hnone a ha)
    · obtain ⟨hpos, hhead⟩ := hfirst row hrow hname
      rw [h.tag_eq hh hm hrow hname] at hpos hhead
      rcases htag with hzero | hother
      · exact hpos hzero
      · exact hother hhead.symm

/-- A registry of one name. -/
def oneRow : List (NnsNameKey × NnsAccumulatorEntry) :=
  [(keyOf sampleEnv (cord "ab.nock"), ⟨cord "ab.nock", 7, 9, 5, 66⟩)]

/-- The registry after a second name, whose row comes first. -/
def twoRows : List (NnsNameKey × NnsAccumulatorEntry) :=
  (keyOf sampleEnv (cord "cd.nock"), ⟨cord "cd.nock", 3, 8, 5, 66⟩) :: oneRow

theorem inserted_oneRow : Inserted sampleEnv oneRow := by
  have hins : insert sampleEnv [] (cord "ab.nock") ⟨cord "ab.nock", 7, 9, 5, 66⟩ = .ok oneRow := by
    decide +kernel
  exact .put .new hins

theorem inserted_twoRows : Inserted sampleEnv twoRows := by
  have hins : insert sampleEnv oneRow (cord "cd.nock") ⟨cord "cd.nock", 3, 8, 5, 66⟩
      = .ok twoRows := by
    decide +kernel
  exact .put inserted_oneRow hins

/-- A claim for the name of the first of two rows: the trace accepts only what is free, and so it
rejects. -/
theorem accepted_name_free_firstRow :
    ∃ subj form,
      buildRecursiveTransitionInputs sampleEnv (.atom 1) 5 twoRows ⟨66, [9]⟩
        [paidClaim (cord "cd.nock") 3 8] (.atom 0) 66 = .ok (subj, form) ∧
      (Yields subj form (.atom 0) → ∀ row ∈ twoRows, row.2.name ≠ cord "cd.nock") ∧
      ¬Yields subj form (.atom 0) := by
  obtain ⟨subj, form, hbuild, hiff⟩ :=
    accepted_name_free_iff sampleEnv_hashLaws sampleEnv_mapLaws inserted_twoRows (.atom 1) 5
      ⟨66, [9]⟩ (paidClaim (cord "cd.nock") 3 8) (.atom 0) 66
  have hfirst : ∀ row ∈ twoRows, row.2.name = cord "cd.nock" →
      row.1.d0 ≠ 0 ∧ row.1.d0 = accListHeadKey twoRows := by
    decide +kernel
  have hfree := hiff.mpr (Or.inr hfirst)
  refine ⟨subj, form, hbuild, hfree, fun haccepts => ?_⟩
  exact hfree haccepts _ List.mem_cons_self rfl

/-- A claim for the older of two names, whose keys differ in their first limbs: the trace accepts. -/
theorem accepted_name_taken :
    ∃ subj form, Inserted sampleEnv twoRows ∧
      (keyOf sampleEnv (cord "ab.nock")).d0 ≠ (keyOf sampleEnv (cord "cd.nock")).d0 ∧
      buildRecursiveTransitionInputs sampleEnv (.atom 1) 5 twoRows ⟨66, [9]⟩
        [paidClaim (cord "ab.nock") 7 9] (.atom 0) 66 = .ok (subj, form) ∧
      Yields subj form (.atom 0) ∧
      ∃ row ∈ sampleEnv.zBy.tap twoRows, row.2.name = cord "ab.nock" := by
  have hdiffer : (keyOf sampleEnv (cord "ab.nock")).d0 ≠ (keyOf sampleEnv (cord "cd.nock")).d0 := by
    decide +kernel
  obtain ⟨subj, form, hbuild, haccepts⟩ := singleTrace_accepts_iff sampleEnv_hashLaws (.atom 1) 5
    twoRows ⟨66, [9]⟩ (paidClaim (cord "ab.nock") 7 9) (.atom 0) 66
  refine ⟨subj, form, inserted_twoRows, hdiffer, hbuild, ?_, _,
    List.mem_cons_of_mem _ (List.mem_singleton.mpr rfl), rfl⟩
  exact haccepts.mpr ⟨⟨1, rfl, one_ne_zero⟩, Or.inr hdiffer.symm⟩

end NnsVerified.Kernel
