import Mathlib.Algebra.Order.BigOperators.Group.List
import Mathlib.Data.List.Find
import NnsVerified.Hull.Lookup
import NnsVerified.Hull.Proofs.ClaimOrderProofs
import NnsVerified.Hull.Proofs.ConvergenceProofs
import NnsVerified.Hull.Proofs.ExtractionProofs
import NnsVerified.Hull.Proofs.LookupProofs

/-!
# What the payments on a chain register

From the transactions of a chain to the answer of a server: a name is answered with the first
claim of the chain whose transaction pays its fee to the treasury, and a name that nobody has paid
for is not registered.
-/

namespace NnsVerified.Hull

open NnsVerified.Hoon NnsVerified.Library NnsVerified.Kernel

variable {H Z L Acc Vesl : Type} [DecidableEq H] {c : Crates H Z L} {env : PeekEnv Acc Vesl}

/-! ## Payments -/

/-- The claims of a transaction that pays the fee of their names. -/
def paidClaims (c : Crates H Z L) (details : TransactionDetails) : List ClaimCandidate :=
  ((extractClaimsFromTransaction c details).toOption.getD []).filter fun p =>
    decide (feeForName p.name ≤ sumTreasuryOutputsV1 c details)

/-- The first paid claims of a chain, with their heights. -/
def LinkedChain.paid (chain : LinkedChain c) (n : Nat) : List (UInt64 × ClaimCandidate) :=
  (List.range n).flatMap fun i =>
    let h := UInt64.ofNat (Kernel.nnsGenesisHeight + i)
    ((chain.blockAt h).txDetails.flatMap (paidClaims c)).map fun p => (h, p)

/-- Each block lists its transactions. -/
def ServedChain.Lists (chain : ServedChain) (c : Crates H Z L) : Prop :=
  ∀ h, ∀ d ∈ (chain.blockAt h).txDetails,
    ∃ id ∈ (chain.blockAt h).pageTxIds, base58HashToAtomBytes c (trim d.txId) = .ok id

/-- What a server answers for a name, as the hull reads it. -/
def registryAnswer (c : Crates H Z L) (env : PeekEnv Acc Vesl) (s : State Acc Vesl)
    (name : String) : Except String (Option AccumulatorEntry) :=
  (peekNoun env s (buildAccumulatorPeek c name)).toOption.elim (.error "peek failed")
    (decodeAccumulatorEntry c)

/-- The answer is the row of a paid claim, its fields in any width. -/
structure RowOf (chain : ServedChain) (q : UInt64 × ClaimCandidate) (a : AccumulatorEntry) :
    Prop where
  name : a.name = q.2.name
  owner : cord a.owner = cord q.2.owner
  txHash : leValue a.txHash = leValue q.2.txHash
  claimHeight : a.claimHeight = q.1
  blockDigest : leValue a.blockDigest = leValue (chain.blockAt q.1).pageDigest

/-! ## The valid claims of a block -/

/-- The claims of a block are those of its transactions. -/
theorem extractClaims_flatMap {details : List TransactionDetails} {claims : List ClaimCandidate}
    (h : extractClaims c details = .ok claims) :
    claims = details.flatMap fun d => (extractClaimsFromTransaction c d).toOption.getD [] := by
  induction details generalizing claims with
  | nil => exact (Except.ok.inj h).symm
  | cons d details ih =>
    obtain ⟨first, hfirst, h⟩ := bind_eq_ok h
    obtain ⟨rest, hrest, h⟩ := bind_eq_ok h
    rw [← Except.ok.inj h, List.flatMap_cons, hfirst, ih hrest]
    rfl

/-- The kernel finds valid exactly the paid claims whose names it accepts. -/
theorem validClaims_of_blockOf (hl : c.LimbLaws) (hz : c.ZSetLaws) {block : ScanBlockFetch}
    {b : ScanBlock} (hb : blockOf c block = .ok b)
    (hlists : ∀ d ∈ block.txDetails,
      ∃ id ∈ block.pageTxIds, base58HashToAtomBytes c (trim d.txId) = .ok id) :
    b.validClaims = ((block.txDetails.flatMap (paidClaims c)).filter fun p =>
      decide (Kernel.isValidName (cord p.name) = .ok true)).map ClaimCandidate.toClaim := by
  obtain ⟨ids, claims, hids, hclaims, rfl⟩ := blockOf_eq_ok.mp hb
  rw [ScanBlock.validClaims]
  show (claims.map ClaimCandidate.toClaim).filter _ = _
  generalize hpag : (toScanBlock block.parent block.height block.pageDigest ids claims).page = pag
  rw [List.filter_map, extractClaims_flatMap hclaims, List.filter_flatMap, List.filter_flatMap]
  refine congrArg _ (List.flatMap_congr fun d hd => ?_)
  obtain ⟨id, hlisted, hid⟩ := hlists d hd
  obtain ⟨extracted, hextracted, hspec⟩ := claimsOfOutputs_spec hid d.outputs
  have hpage : leValue id ∈ pag.txIds := by
    rw [← hpag]
    exact List.mem_map_of_mem ((mem_canonicalZSetTxOrder hl hz hids id).mpr hlisted)
  unfold paidClaims extractClaimsFromTransaction
  rw [hextracted, Except.toOption, Option.getD_some, List.filter_filter]
  refine List.filter_congr fun p hp => ?_
  rw [Function.comp_apply, decide_eq_decide.mpr ((hspec p hp).validClaim_iff hpage)]
  exact Bool.decide_and _ _

/-- The valid claims of the log are the paid claims of the chain with names that the kernel
accepts. -/
theorem LinkedChain.validClaimsOf_log (chain : LinkedChain c) (hl : c.LimbLaws) (hz : c.ZSetLaws)
    (hlists : chain.Lists c) (n : Nat) :
    validClaimsOf (chain.log n) = ((chain.paid n).filter fun q =>
      decide (Kernel.isValidName (cord q.2.name) = .ok true)).map fun q =>
        (chain.kernelBlockAt q.1, q.2.toClaim) := by
  unfold validClaimsOf LinkedChain.log chainLog LinkedChain.paid
  rw [List.flatMap_map, List.filter_flatMap, List.map_flatMap]
  refine List.flatMap_congr fun i _ => ?_
  rw [validClaims_of_blockOf hl hz (chain.prepared _) (hlists _)]
  dsimp only
  rw [List.map_map, List.filter_map, List.map_map]
  rfl

/-! ## Names -/

omit [DecidableEq H] in
/-- The texts of extracted names are told apart by their cords. -/
theorem cord_inj_of_noNul (hn : c.NounLaws) {s s' : String} (hs : NoNul s) (hs' : NoNul s')
    (h : cord s = cord s') : s = s' := by
  have hread := asCord_cord hn hs
  rw [h, asCord_cord hn hs'] at hread
  exact (Except.ok.inj hread).symm

theorem noNul_of_isValidName {name : String} (h : isValidName name = true) : NoNul name := by
  obtain ⟨front, hfront, -, -⟩ := (isValidName_iff name).mp h
  intro hne
  simp only [hfront]
  simp

theorem LinkedChain.noNul_paid (chain : LinkedChain c) (hlists : chain.Lists c) {n : Nat}
    {q : UInt64 × ClaimCandidate} (hq : q ∈ chain.paid n) : NoNul q.2.name := by
  obtain ⟨i, -, hq⟩ := List.mem_flatMap.mp hq
  obtain ⟨p, hp, rfl⟩ := List.mem_map.mp hq
  obtain ⟨d, hd, hp⟩ := List.mem_flatMap.mp hp
  obtain ⟨id, -, hid⟩ := hlists _ d hd
  obtain ⟨extracted, hextracted, hspec⟩ := claimsOfOutputs_spec hid d.outputs
  unfold paidClaims extractClaimsFromTransaction at hp
  rw [hextracted] at hp
  exact (hspec p (List.mem_filter.mp hp).1).noNul

/-- Searching the log for a name that the hull accepts finds its first paid claim. -/
theorem LinkedChain.find?_validClaimsOf (chain : LinkedChain c) (hn : c.NounLaws)
    (hl : c.LimbLaws) (hz : c.ZSetLaws) (hlists : chain.Lists c) (n : Nat) {name : String}
    (hname : isValidName name = true) :
    (validClaimsOf (chain.log n)).find? (fun bc => bc.2.name = cord name)
      = ((chain.paid n).find? fun q => q.2.name = name).map fun q =>
          (chain.kernelBlockAt q.1, q.2.toClaim) := by
  have hnul := noNul_of_isValidName hname
  have hkernel : Kernel.isValidName (cord name) = .ok true :=
    (isValidName_cord_iff hnul).mpr (Or.inl ((isValidName_iff name).mp hname))
  rw [chain.validClaimsOf_log hl hz hlists, List.find?_map, List.find?_filter]
  refine congrArg _ (List.find?_congr fun q hq => ?_)
  refine decide_eq_decide.mpr ?_
  have hfield : q.2.toClaim.name = cord q.2.name := rfl
  simp only [Function.comp_apply, decide_eq_true_eq, hfield]
  constructor
  · rintro ⟨-, hcord⟩
    exact cord_inj_of_noNul hn (chain.noNul_paid hlists hq) hnul hcord
  · intro heq
    exact ⟨heq ▸ hkernel, congrArg cord heq⟩

/-! ## Answers -/

omit [DecidableEq H] in
/-- The hull reads each row whose fields it can hold. -/
theorem decodeAccumulatorEntry_row (hn : c.NounLaws) {name owner : String} {height : UInt64}
    (hname : NoNul name) (txHash blockDigest : Nat) :
    ∃ a, decodeAccumulatorEntry c (Noun.tuple (.atom 0) [.atom 0, unitNoun (some
        (NnsAccumulatorEntry.noun ⟨cord name, cord owner, txHash, height.toNat, blockDigest⟩))])
          = .ok (some a) ∧
      a.name = name ∧ cord a.owner = cord owner ∧ leValue a.txHash = txHash ∧
        a.claimHeight = height ∧ leValue a.blockDigest = blockDigest := by
  have howner : asCord c (.atom (cord owner)) = .ok (trimEndNul owner) := by
    rw [← cord_trimEndNul]
    exact asCord_cord hn (noNul_trimEndNul owner)
  have hheight : asU64 c (.atom height.toNat) = .ok height := by
    rw [asU64_atom hn height.toNat_lt, UInt64.ofNat_toNat]
  refine ⟨⟨name, trimEndNul owner, c.asNeBytes txHash, height, c.asNeBytes blockDigest⟩, ?_, rfl,
    cord_trimEndNul owner, hn.leValue_asNeBytes _, rfl, hn.leValue_asNeBytes _⟩
  change (do
    let name ← asCord c (.atom (cord name))
    let owner ← asCord c (.atom (cord owner))
    let txHash ← asNeBytes c (.atom txHash)
    let claimHeight ← (asU64 c (.atom height.toNat)).mapError fun _ =>
      "accumulator: claim_height overflows u64"
    let blockDigest ← asNeBytes c (.atom blockDigest)
    return some (⟨name, owner, txHash, claimHeight, blockDigest⟩ : AccumulatorEntry)) = _
  rw [asCord_cord hn hname, ok_bind, howner, ok_bind, hheight]
  rfl

omit [DecidableEq H] in
/-- The peek of a name answers the row of the kernel. -/
theorem registryAnswer_eq (hn : c.NounLaws) (hh : env.HashLaws) (hm : env.MapLaws)
    {s : State Acc Vesl} (hins : Inserted env.toEnv s.accumulator) {name : String}
    {entry : Option NnsAccumulatorEntry} (hget : get env.toEnv s.accumulator (cord name) = .ok entry) :
    registryAnswer c env s name = decodeAccumulatorEntry c
      (Noun.tuple (.atom 0) [.atom 0, unitNoun (entry.map NnsAccumulatorEntry.noun)]) := by
  obtain ⟨seeded, hseeded, -⟩ := ensureGenesisTld_spec hh hm hins
  have hpeek : peekNoun env s (buildAccumulatorPeek c name) = .ok (Noun.tuple (.atom 0)
      [.atom 0, unitNoun (entry.map NnsAccumulatorEntry.noun)]) := by
    rw [buildAccumulatorPeek_eq hn, peekNoun_path, hseeded, ok_bind]
    show (do
      let entry ← get env.toEnv s.accumulator (cord name)
      pure (unitNoun (entry.map NnsAccumulatorEntry.noun))).bind _ = _
    rw [hget]
    rfl
  rw [registryAnswer, hpeek]
  rfl

/-- A kernel that has scanned a chain answers a name with its first paid claim. -/
theorem ScannedTo.registryAnswer (hn : c.NounLaws) (hl : c.LimbLaws) (hz : c.ZSetLaws)
    (hh : env.HashLaws) (hm : env.MapLaws) {chain : LinkedChain c} {k : Nat} {sent : List Noun}
    (hscanned : ScannedTo chain env.toEnv k sent) (hlists : chain.Lists c) {name : String}
    (hname : isValidName name = true)
    (hkeys : KeysDistinct env.toEnv (cord name :: nnsGenesisTldName ::
      (chain.paid k).map fun q => cord q.2.name)) :
    ∃ answer, registryAnswer c env (runState env.toEnv sent) name = .ok answer ∧
      Option.Rel (RowOf chain.toServedChain)
        ((chain.paid k).find? fun q => q.2.name = name) answer := by
  have hinv := hscanned.runInv hh hm
  have hnul := noNul_of_isValidName hname
  have hreserved : cord name ≠ nnsGenesisTldName := by
    intro heq
    obtain rfl : name = "nock" := cord_inj_of_noNul hn hnul (by simp [NoNul]) heq
    exact absurd hname (by decide)
  have hinj : ∀ a ∈ nnsGenesisTldName :: (validClaimsOf (chain.log k)).map (fun bc => bc.2.name),
      keyOf env.toEnv a = keyOf env.toEnv (cord name) → a = cord name := by
    intro a ha heq
    refine hkeys a (List.mem_cons_of_mem _ ?_) _ List.mem_cons_self
      (by rw [nameKey_eq hh, nameKey_eq hh, heq])
    rcases List.mem_cons.mp ha with rfl | ha
    · exact List.mem_cons_self
    · rw [chain.validClaimsOf_log hl hz hlists, List.map_map] at ha
      obtain ⟨q, hq, rfl⟩ := List.mem_map.mp ha
      exact List.mem_cons_of_mem _ (List.mem_map.mpr ⟨q, (List.mem_filter.mp hq).1, rfl⟩)
  have hget := hinv.get_name hh hm hreserved hinj
  rw [chain.find?_validClaimsOf hn hl hz hlists k hname] at hget
  rw [registryAnswer_eq hn hh hm hinv.inserted hget]
  cases hfind : (chain.paid k).find? fun q => q.2.name = name with
  | none => exact ⟨none, rfl, .none⟩
  | some q =>
    obtain ⟨h, p⟩ := q
    obtain rfl : p.name = name := by simpa using List.find?_some hfind
    obtain ⟨ids, claims, -, -, hblock⟩ := blockOf_eq_ok.mp (chain.prepared h)
    rw [chain.height_eq] at hblock
    obtain ⟨a, hdecode, ha, howner, htx, hheight, hdigest⟩ := @decodeAccumulatorEntry_row _ _ _ c hn
      p.name p.owner h hnul (leValue p.txHash) (leValue (chain.blockAt h).pageDigest)
    refine ⟨some a, ?_, .some ⟨ha, howner, htx, hheight, hdigest⟩⟩
    rw [← hdecode]
    simp only [Option.map_some, hblock]
    rfl

/-- In every run on a linked chain, a name is answered with its first paid claim on the blocks that
are scanned, and a name without one is not registered. -/
theorem registry_first_paid (hn : c.NounLaws) (hl : c.LimbLaws) (hz : c.ZSetLaws)
    (hh : env.HashLaws) (hm : env.MapLaws) (chain : LinkedChain c) (hlists : chain.Lists c)
    (ticks : List Tick) (hhonest : ∀ t ∈ ticks, t.Honest chain) :
    ∃ k, runBlocks env.toEnv (followerPokes c env ticks) = chain.log k ∧
      ∀ name, isValidName name = true →
        KeysDistinct env.toEnv (cord name :: nnsGenesisTldName ::
          (chain.paid k).map fun q => cord q.2.name) →
        ∃ answer, registryAnswer c env (runState env.toEnv (followerPokes c env ticks)) name
            = .ok answer ∧
          Option.Rel (RowOf chain.toServedChain)
            ((chain.paid k).find? fun q => q.2.name = name) answer := by
  obtain ⟨k, -, hscanned, -⟩ : ∃ k, _ ∧
      ScannedTo chain env.toEnv k (followerPokes c env ticks) ∧ _ :=
    (ScannedTo.start chain env.toEnv).passes hh hm hn hhonest
  exact ⟨k, hscanned.log, fun name hname hkeys =>
    hscanned.registryAnswer hn hl hz hh hm hlists hname hkeys⟩

/-- The chain without claims, but for the transaction of `paidClaim` in its first block. -/
def paidServed : ServedChain where
  blockAt h := { sampleServed.blockAt h with
    pageTxIds := if h = 63000 then [leBytes 40 (cord "T1")] else []
    txDetails := if h = 63000 then [claimTransaction "T1" "eve" "nns/v1/claim/a.nock"] else [] }
  height_eq _ := rfl

/-- The block of a height as the kernel reads it, with the paid claim at the first height. -/
def paidBlockAt (h : UInt64) : ScanBlock :=
  toScanBlock (leBytes 40 h.toNat) h (leBytes 40 (h.toNat + 1))
    (if h = 63000 then [leBytes 40 (cord "T1")] else []) (if h = 63000 then [paidClaim] else [])

theorem length_validClaims_paidBlockAt (h : UInt64) : (paidBlockAt h).validClaims.length ≤ 1 := by
  refine (List.length_filter_le _ _).trans ?_
  show (List.map _ (if h = 63000 then [paidClaim] else [])).length ≤ 1
  split <;> simp

theorem blockOf_paidServed (h : UInt64) :
    blockOf sampleCrates (paidServed.blockAt h) = .ok (paidBlockAt h) := by
  refine blockOf_eq_ok.mpr ⟨_, _, ?_, ?_, rfl⟩
  · show canonicalZSetTxOrder sampleCrates (if h = 63000 then _ else _) = _
    split
    · decide +kernel
    · rfl
  · show extractClaims sampleCrates (if h = 63000 then _ else _) = _
    split
    · decide
    · rfl

theorem length_paidClaims :
    (validClaimsOf (chainLog paidBlockAt (63012 : UInt64).toNat)).length + 1 < 2 ^ 64 := by
  have hle : (validClaimsOf (chainLog paidBlockAt (63012 : UInt64).toNat)).length ≤ 63012 := by
    unfold validClaimsOf chainLog
    rw [List.flatMap_map, List.length_flatMap]
    refine (List.sum_le_card_nsmul _ 1 fun n hn => ?_).trans (by simp)
    obtain ⟨i, -, rfl⟩ := List.mem_map.mp hn
    rw [List.length_map]
    exact length_validClaims_paidBlockAt _
  omega

/-- The chain of these blocks. -/
def paidChain : LinkedChain sampleCrates where
  toServedChain := paidServed
  kernelBlockAt := paidBlockAt
  prepared := blockOf_paidServed
  wide _ := ⟨length_leBytes _ _, length_leBytes _ _⟩
  top := 63012
  linked := sampleChain.linked
  belt := sampleChain.belt
  claims := length_paidClaims

theorem paidServed_lists : paidServed.Lists sampleCrates := by
  intro h d hd
  change d ∈ (if h = 63000 then _ else _) at hd
  split at hd
  · rename_i hh
    obtain rfl := List.mem_singleton.mp hd
    refine ⟨leBytes 40 (cord "T1"), ?_, by decide⟩
    show _ ∈ (if h = 63000 then _ else _)
    rw [if_pos hh]
    exact List.mem_singleton_self _
  · cases hd

theorem honest_servedTick_paid : (servedTick paidServed 63010).Honest paidChain where
  tip t ht := by
    obtain rfl := Except.ok.inj ht
    show (63010 : UInt64) ≤ 63012
    decide
  batch := show (1 : UInt64) ≤ 2 by decide
  serves := serves_servedTick _ _

theorem registry_first_paid_eve : ∃ a, registryAnswer sampleCrates samplePeekEnv
      (runState sampleEnv (followerPokes sampleCrates samplePeekEnv [servedTick paidServed 63010]))
      "a.nock" = .ok (some a) ∧
    cord a.owner = cord "eve" ∧ a.claimHeight = 63000 := by
  have hlength : (runBlocks sampleEnv (followerPokes sampleCrates samplePeekEnv
      [servedTick paidServed 63010])).length = 1 := by
    decide +kernel
  obtain ⟨k, hlog, hanswer⟩ := @registry_first_paid _ _ _ _ _ _ sampleCrates samplePeekEnv
    sampleCrates_nounLaws sampleCrates_limbLaws sampleCrates_zsetLaws sampleEnv_hashLaws
    sampleEnv_mapLaws paidChain paidServed_lists [servedTick paidServed 63010]
    (List.forall_mem_singleton.mpr honest_servedTick_paid)
  obtain rfl : k = 1 := by
    rw [← LinkedChain.length_log paidChain k, ← hlog]
    exact hlength
  have hpaid : paidChain.paid 1 = [(63000, paidClaim)] := by decide +kernel
  rw [hpaid] at hanswer
  obtain ⟨answer, hok, hrow⟩ := hanswer "a.nock" (by decide) (by decide +kernel)
  cases hrow with
  | some hrow => exact ⟨_, hok, hrow.owner, hrow.claimHeight⟩

end NnsVerified.Hull
