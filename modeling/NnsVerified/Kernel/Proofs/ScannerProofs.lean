import NnsVerified.Kernel.App
import NnsVerified.Kernel.Proofs.AccumulatorProofs
import NnsVerified.Kernel.Proofs.PredicatesProofs

/-!
# The claim scanner registers the valid claims of a block

Folding the claims of a block into an accumulator never fails, and registers the rows of the valid
claims in their order. Seeding the reserved row registers that row.
-/

namespace NnsVerified.Kernel

open NnsVerified.Hoon NnsVerified.Library

variable {Acc Vesl : Type} {env : Env Acc Vesl}

/-- The valid claims of a block, in their order. -/
def ScanBlock.validClaims (b : ScanBlock) : List NnsClaim :=
  b.claims.filter fun c => validClaim b.page c = .ok true

/-- The row that a claim of a block makes. -/
def ScanBlock.entry (b : ScanBlock) (c : NnsClaim) : NnsAccumulatorEntry :=
  claimEntry b.page b.height c

/-- The bindings that a block registers. -/
def ScanBlock.bindings (env : Env Acc Vesl) (b : ScanBlock) :
    List (NnsNameKey × NnsAccumulatorEntry) :=
  b.validClaims.map fun c => (keyOf env c.name, b.entry c)

theorem ScanBlock.validClaims_eq (b : ScanBlock) :
    b.validClaims = b.claims.filter fun c => ValidClaim b.page c := by
  unfold ScanBlock.validClaims
  simp [validClaim_eq]

/-- Whatever insertion keeps, the scanner keeps, and it registers the rows of the valid claims. -/
theorem claimScanner_registers {I : Acc → Prop}
    (hins : ∀ acc name entry, I acc → ∃ acc', insert env acc name entry = .ok acc' ∧ I acc' ∧
      ∀ k, k.Based → env.zBy.view acc' k =
        register (env.zBy.view acc) (keyOf env name) { entry with name := name } k)
    (pag : NnsPageSummary) (height : Nat) (claims : List NnsClaim) {acc : Acc} (h : I acc) :
    ∃ acc', claimScanner env acc pag height claims = .ok acc' ∧ I acc' ∧
      ∀ k, k.Based → env.zBy.view acc' k = registerAll (env.zBy.view acc)
        ((claims.filter fun c => ValidClaim pag c).map fun c =>
          (keyOf env c.name, claimEntry pag height c)) k := by
  induction claims generalizing acc with
  | nil => exact ⟨acc, rfl, h, fun k _ => rfl⟩
  | cons c t ih =>
    unfold claimScanner
    simp only [validClaim_eq, ok_bind]
    by_cases hv : ValidClaim pag c
    · obtain ⟨acc₁, hok, h₁, hview₁⟩ := hins acc c.name (claimEntry pag height c) h
      obtain ⟨acc', hrest, h', hview'⟩ := ih h₁
      refine ⟨acc', by simp [hv, hok, hrest], h', fun k hk => ?_⟩
      rw [List.filter_cons_of_pos (by simpa using hv), List.map_cons, registerAll_cons, hview' k hk]
      exact registerAll_congr_at (hview₁ k hk) _
    · obtain ⟨acc', hrest, h', hview'⟩ := ih h
      refine ⟨acc', by simp [hv, hrest], h', fun k hk => ?_⟩
      rw [List.filter_cons_of_neg (by simpa using hv), hview' k hk]

section

variable (hh : env.HashLaws) (hm : env.MapLaws)

include hh hm

theorem Inserted.insert_spec {acc : Acc} (h : Inserted env acc) (name : Nat)
    (entry : NnsAccumulatorEntry) :
    ∃ acc', insert env acc name entry = .ok acc' ∧ Inserted env acc' ∧
      ∀ k, k.Based → env.zBy.view acc' k =
        register (env.zBy.view acc) (keyOf env name) { entry with name := name } k := by
  obtain ⟨acc', hins, -, hview⟩ := Kernel.insert_spec hh hm (h.built hh hm) name entry
  exact ⟨acc', hins, h.put hins, hview⟩

theorem claimScanner_spec (pag : NnsPageSummary) (height : Nat) (claims : List NnsClaim) {acc : Acc}
    (h : Inserted env acc) :
    ∃ acc', claimScanner env acc pag height claims = .ok acc' ∧ Inserted env acc' ∧
      ∀ k, k.Based → env.zBy.view acc' k = registerAll (env.zBy.view acc)
        ((claims.filter fun c => ValidClaim pag c).map fun c =>
          (keyOf env c.name, claimEntry pag height c)) k :=
  claimScanner_registers (fun _ name entry h => h.insert_spec hh hm name entry) pag height claims h

/-- Claims of bound names leave the accumulator as it is. -/
theorem claimScanner_bound (pag : NnsPageSummary) (height : Nat) {claims : List NnsClaim} {acc : Acc}
    (hb : env.zBy.Built NounDigest.Based acc)
    (hbound : ∀ c ∈ claims, ValidClaim pag c → (env.zBy.view acc (keyOf env c.name)).isSome) :
    claimScanner env acc pag height claims = .ok acc := by
  induction claims with
  | nil => rfl
  | cons c t ih =>
    have htail := ih fun x hx => hbound x (List.mem_cons_of_mem _ hx)
    unfold claimScanner
    simp only [validClaim_eq, ok_bind]
    by_cases hv : ValidClaim pag c
    · have hhas := has_eq hh hm hb c.name
      rw [hbound c (by simp) hv] at hhas
      have hins : insert env acc c.name (claimEntry pag height c) = .ok acc := by
        simp only [has, nameKey_eq hh, ok_bind] at hhas
        simp only [insert, nameKey_eq hh, ok_bind, hhas]
        rfl
      simp only [hv, decide_true, if_true, hins, ok_bind]
      exact htail
    · simp only [hv, decide_false, Bool.false_eq_true, if_false, pure_eq_ok, ok_bind]
      exact htail

theorem scan_spec (b : ScanBlock) {acc : Acc} (h : Inserted env acc) :
    ∃ acc', claimScanner env acc b.page b.height b.claims = .ok acc' ∧ Inserted env acc' ∧
      ∀ k, k.Based → env.zBy.view acc' k =
        registerAll (env.zBy.view acc) (b.bindings env) k := by
  unfold ScanBlock.bindings
  rw [b.validClaims_eq]
  exact claimScanner_spec hh hm b.page b.height b.claims h

theorem ensureGenesisTld_spec {acc : Acc} (h : Inserted env acc) :
    ∃ acc', ensureGenesisTld env acc = .ok acc' ∧ Inserted env acc' ∧
      ∀ k, k.Based → env.zBy.view acc' k =
        register (env.zBy.view acc) (keyOf env nnsGenesisTldName) genesisTldEntry k := by
  unfold ensureGenesisTld
  simp only [has_eq hh hm (h.built hh hm), ok_bind]
  by_cases hb : (env.zBy.view acc (keyOf env nnsGenesisTldName)).isSome
  · refine ⟨acc, by simp [hb], h, fun k _ => ?_⟩
    rw [register_bound hb]
  · obtain ⟨acc', hins, h', hview⟩ := h.insert_spec hh hm nnsGenesisTldName genesisTldEntry
    exact ⟨acc', by simp [hb, hins], h', hview⟩

theorem ensureGenesisTld_idem {acc acc' : Acc} (h : Inserted env acc)
    (hens : ensureGenesisTld env acc = .ok acc') : ensureGenesisTld env acc' = .ok acc' := by
  obtain ⟨acc'', hens', h', hview⟩ := ensureGenesisTld_spec hh hm h
  rw [hens] at hens'
  obtain rfl := Except.ok.inj hens'
  have hbound : (env.zBy.view acc' (keyOf env nnsGenesisTldName)).isSome := by
    rw [hview _ (keyOf_based hh _), register]
    cases env.zBy.view acc (keyOf env nnsGenesisTldName) <;> simp
  unfold ensureGenesisTld
  rw [has_eq hh hm (h'.built hh hm), hbound]
  rfl

end

end NnsVerified.Kernel
