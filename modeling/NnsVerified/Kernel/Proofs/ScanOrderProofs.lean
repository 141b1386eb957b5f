import NnsVerified.Kernel.Proofs.RegistryProofs
import NnsVerified.Kernel.Proofs.SnapshotProofs
import NnsVerified.Kernel.Sample

/-!
# The order of the claims of a block

Scanning a claims list again changes nothing, a scan of two lists is two scans, and the order of the
claims matters only among claims of one name.
-/

namespace NnsVerified.Kernel

open NnsVerified.Hoon NnsVerified.Library

variable {Acc Vesl : Type} {env : Env Acc Vesl}

/-- Two claims lists are rearrangements of each other that keep the order within each name. -/
structure SameWithinNames (cs cs' : List NnsClaim) : Prop where
  perm : cs'.Perm cs
  order : ∀ name, (cs'.filter fun c => c.name = name) = cs.filter fun c => c.name = name

theorem claimScanner_append (acc : Acc) (pag : NnsPageSummary) (height : Nat)
    (as bs : List NnsClaim) :
    claimScanner env acc pag height (as ++ bs)
      = claimScanner env acc pag height as >>= fun acc' => claimScanner env acc' pag height bs := by
  induction as generalizing acc with
  | nil => rfl
  | cons c t ih =>
    rw [List.cons_append, claimScanner, claimScanner]
    simp only [validClaim_eq, ok_bind]
    split
    · cases hins : insert env acc c.name (claimEntry pag height c) with
      | error e => rfl
      | ok acc₁ => exact ih acc₁
    · exact ih acc

/-- Rearranging claims within their names keeps the claims of each key in their order. -/
theorem SameWithinNames.filter_key {cs cs' : List NnsClaim} (h : SameWithinNames cs cs')
    (hh : env.HashLaws) (hkeys : KeysDistinct env (cs.map fun c => c.name)) (k : NnsNameKey) :
    (cs'.filter fun c => keyOf env c.name = k) = cs.filter fun c => keyOf env c.name = k := by
  by_cases hk : ∃ c ∈ cs, keyOf env c.name = k
  · obtain ⟨c, hc, rfl⟩ := hk
    -- the claims of this key are those of this name
    have hname : ∀ x ∈ cs, decide (keyOf env x.name = keyOf env c.name) = decide (x.name = c.name) := by
      intro x hx
      refine decide_eq_decide.mpr ⟨fun hkey => ?_, fun hname => by rw [hname]⟩
      refine hkeys x.name (List.mem_map.mpr ⟨x, hx, rfl⟩) c.name (List.mem_map.mpr ⟨c, hc, rfl⟩) ?_
      rw [nameKey_eq hh, nameKey_eq hh, hkey]
    rw [List.filter_congr hname, List.filter_congr fun x hx => hname x (h.perm.mem_iff.mp hx),
      h.order]
  · have hnone : ∀ x ∈ cs, ¬keyOf env x.name = k := fun x hx hkey => hk ⟨x, hx, hkey⟩
    have hnone' : ∀ x ∈ cs', ¬keyOf env x.name = k := fun x hx => hnone x (h.perm.mem_iff.mp hx)
    rw [List.filter_eq_nil_iff.mpr (by simpa using hnone'),
      List.filter_eq_nil_iff.mpr (by simpa using hnone)]

/-- Two maps with the same view of the good keys have the same rows. -/
theorem Inserted.mem_rows_congr (hh : env.HashLaws) (hm : env.MapLaws) {acc acc' : Acc}
    (h : Inserted env acc) (h' : Inserted env acc')
    (hview : ∀ k, k.Based → env.zBy.view acc k = env.zBy.view acc' k) (e : NnsAccumulatorEntry) :
    e ∈ rows env acc ↔ e ∈ rows env acc' := by
  rw [h.mem_rows hh hm, h'.mem_rows hh hm, hview _ (keyOf_based hh _)]

section

variable (hh : env.HashLaws) (hm : env.MapLaws)

include hh hm

theorem claimScanner_twice (pag : NnsPageSummary) (height : Nat) (claims : List NnsClaim) {acc : Acc}
    (hacc : Inserted env acc) :
    ∃ acc', claimScanner env acc pag height claims = .ok acc' ∧
      claimScanner env acc' pag height claims = .ok acc' := by
  obtain ⟨acc', hscan, hacc', hview⟩ := claimScanner_spec hh hm pag height claims hacc
  refine ⟨acc', hscan, claimScanner_bound hh hm pag height (hacc'.built hh hm) fun c hc hv => ?_⟩
  have hmem : (keyOf env c.name, claimEntry pag height c) ∈
      (claims.filter fun c => ValidClaim pag c).map fun c =>
        (keyOf env c.name, claimEntry pag height c) :=
    List.mem_map.mpr ⟨c, List.mem_filter.mpr ⟨hc, by simpa using hv⟩, rfl⟩
  rw [hview _ (keyOf_based hh _)]
  exact registerAll_isSome hmem

theorem claimScanner_rearranged (pag : NnsPageSummary) (height : Nat) {cs cs' : List NnsClaim}
    {acc : Acc} (hacc : Inserted env acc) (hsame : SameWithinNames cs cs')
    (hkeys : KeysDistinct env (cs.map fun c => c.name)) :
    ∃ acc₁ acc₂, claimScanner env acc pag height cs = .ok acc₁ ∧
      claimScanner env acc pag height cs' = .ok acc₂ ∧ Inserted env acc₁ ∧ Inserted env acc₂ ∧
      ∀ k, k.Based → env.zBy.view acc₁ k = env.zBy.view acc₂ k := by
  obtain ⟨acc₁, hscan₁, hacc₁, hview₁⟩ := claimScanner_spec hh hm pag height cs hacc
  obtain ⟨acc₂, hscan₂, hacc₂, hview₂⟩ := claimScanner_spec hh hm pag height cs' hacc
  refine ⟨acc₁, acc₂, hscan₁, hscan₂, hacc₁, hacc₂, fun k hk => ?_⟩
  rw [hview₁ k hk, hview₂ k hk]
  refine congrFun (registerAll_congr_of_filter (fun k' => ?_) _) k
  have hkey := hsame.filter_key hh hkeys k'
  rw [List.filter_map, List.filter_map]
  refine congrArg _ ?_
  rw [List.filter_comm, List.filter_comm _ _ cs']
  exact congrArg _ hkey.symm

end

/-- Scanning is idempotent, composes over claims lists, and depends on the order of the claims only
within a name. -/
theorem claimScanner_order (hh : env.HashLaws) (hm : env.MapLaws) {acc : Acc}
    (hacc : Inserted env acc) (pag : NnsPageSummary) (height : Nat) (cs : List NnsClaim) :
    (∃ acc', claimScanner env acc pag height cs = .ok acc' ∧
      claimScanner env acc' pag height cs = .ok acc') ∧
    (∀ as bs, claimScanner env acc pag height (as ++ bs)
      = claimScanner env acc pag height as >>= fun acc' => claimScanner env acc' pag height bs) ∧
    ∀ cs', SameWithinNames cs cs' → KeysDistinct env (cs.map fun c => c.name) →
      ∃ acc₁ acc₂, claimScanner env acc pag height cs = .ok acc₁ ∧
        claimScanner env acc pag height cs' = .ok acc₂ ∧
        (rows env acc₁).Perm (rows env acc₂) ∧ rootAtom env acc₁ = rootAtom env acc₂ := by
  refine ⟨claimScanner_twice hh hm pag height cs hacc, claimScanner_append acc pag height, ?_⟩
  intro cs' hsame hkeys
  obtain ⟨acc₁, acc₂, hscan₁, hscan₂, hacc₁, hacc₂, hview⟩ :=
    claimScanner_rearranged hh hm pag height hacc hsame hkeys
  have hrows := hacc₁.mem_rows_congr hh hm hacc₂ hview
  refine ⟨acc₁, acc₂, hscan₁, hscan₂, (hacc₁.tap_perm hh hm hacc₂ hrows).map Prod.snd, ?_⟩
  unfold rootAtom root
  rw [hashable_eq_of_rows hh hm hacc₁ hacc₂ hrows]

/-- Two rivals for a name and a claim of another name, which moves between them. -/
theorem claimScanner_order_rivals :
    let pag : NnsPageSummary := ⟨9, [1, 2, 3]⟩
    let first := paidClaim (cord "ab.nock") 7 1
    let second := paidClaim (cord "ab.nock") 8 2
    let other := paidClaim (cord "cd.nock") 9 3
    ∃ acc₁ acc₂, claimScanner sampleEnv [] pag 63001 [first, second, other] = .ok acc₁ ∧
      claimScanner sampleEnv [] pag 63001 [first, other, second] = .ok acc₂ ∧
      (rows sampleEnv acc₁).Perm (rows sampleEnv acc₂) ∧
      rootAtom sampleEnv acc₁ = rootAtom sampleEnv acc₂ := by
  refine (claimScanner_order sampleEnv_hashLaws sampleEnv_mapLaws (.new : Inserted sampleEnv [])
    _ _ _).2.2 _ ⟨?_, fun name => ?_⟩ (by decide +kernel)
  · exact (List.Perm.swap _ _ _).cons _
  · have hne : cord "ab.nock" ≠ cord "cd.nock" := by decide
    simp only [List.filter_cons, List.filter_nil, paidClaim]
    split_ifs <;> simp_all

end NnsVerified.Kernel
