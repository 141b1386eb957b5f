import NnsVerified.Hull.Proofs.ExtractionProofs

/-!
# The order of the claims of a block

The hull arranges the transactions of a block before it extracts their claims, or extracts the
claims and sorts them. Every claim has the id of its transaction in its witness, so both give the
claims in the same order.
-/

namespace NnsVerified.Hull

open NnsVerified.Hoon NnsVerified.Library

variable {H Z L : Type} {c : Crates H Z L} {ids canonical : List (List UInt8)}
  {details : List TransactionDetails} {claims : List ClaimCandidate}

/-! ## Ranks -/

theorem txRanks_concat (canonical : List (List UInt8)) (id : List UInt8) :
    txRanks (canonical ++ [id]) = (txRanks canonical).insert id canonical.length := by
  simp [txRanks, List.zipIdx_append]

theorem mem_txRanks (canonical : List (List UInt8)) (id : List UInt8) :
    id ∈ txRanks canonical ↔ id ∈ canonical := by
  induction canonical using List.reverseRecOn with
  | nil => simp [txRanks]
  | append_singleton canonical last ih =>
    rw [txRanks_concat, AList.mem_insert, ih, List.mem_append, List.mem_singleton, or_comm]

/-- An id is listed at its rank. -/
theorem getElem_of_txRanks {id : List UInt8} {i : Nat}
    (h : (txRanks canonical).lookup id = some i) : canonical[i]? = some id := by
  induction canonical using List.reverseRecOn with
  | nil => simp [txRanks] at h
  | append_singleton canonical last ih =>
    rw [txRanks_concat] at h
    by_cases hid : id = last
    · subst hid
      rw [AList.lookup_insert] at h
      obtain rfl := Option.some.inj h
      simp
    · rw [AList.lookup_insert_ne hid] at h
      have hi := ih h
      rw [List.getElem?_append_left (List.getElem?_eq_some_iff.mp hi).1]
      exact hi

/-- The rank of an id, as the sort compares it. -/
def idRank (canonical : List (List UInt8)) (id : List UInt8) : WithTop Nat :=
  match (txRanks canonical).lookup id with
  | some i => WithTop.some i
  | none => ⊤

theorem claimRank_eq (canonical : List (List UInt8)) (p : ClaimCandidate) :
    claimRank (txRanks canonical) p = idRank canonical p.witness.txId := rfl

theorem idRank_eq_top {id : List UInt8} : idRank canonical id = ⊤ ↔ id ∉ canonical := by
  rw [← mem_txRanks, ← AList.lookup_isSome]
  unfold idRank
  cases (txRanks canonical).lookup id <;> simp

/-- Ids of the block with one rank are equal. -/
theorem idRank_inj {id id' : List UInt8} (hid : id ∈ canonical)
    (h : idRank canonical id' = idRank canonical id) : id' = id := by
  have hne : idRank canonical id ≠ ⊤ := fun htop => idRank_eq_top.mp htop hid
  unfold idRank at h hne
  cases hi : (txRanks canonical).lookup id with
  | none => simp [hi] at hne
  | some i =>
    cases hi' : (txRanks canonical).lookup id' with
    | none => simp [hi, hi'] at h
    | some j =>
      simp only [hi, hi', WithTop.coe_inj] at h
      subst h
      have hget := (getElem_of_txRanks hi').symm.trans (getElem_of_txRanks hi)
      exact Option.some.inj hget

/-- Distinct ids are ranked by their positions. -/
theorem idRank_pairwise (hnodup : canonical.Nodup) :
    canonical.Pairwise fun id id' => idRank canonical id < idRank canonical id' := by
  have hrank : ∀ (i : Nat) (hi : i < canonical.length),
      idRank canonical (canonical.get ⟨i, hi⟩) = WithTop.some i := by
    intro i hi
    have hmem : canonical.get ⟨i, hi⟩ ∈ txRanks canonical :=
      (mem_txRanks _ _).mpr (List.get_mem _ _)
    obtain ⟨j, hj⟩ := Option.isSome_iff_exists.mp (AList.lookup_isSome.mpr hmem)
    obtain ⟨hjlt, hget⟩ := List.getElem?_eq_some_iff.mp (getElem_of_txRanks hj)
    have hji : j = i := (List.Nodup.getElem_inj_iff hnodup).mp hget
    unfold idRank
    rw [hj, hji]
  refine List.pairwise_iff_getElem.mpr fun i j hi hj hij => ?_
  have hri := hrank i hi
  have hrj := hrank j hj
  rw [List.get_eq_getElem] at hri hrj
  rw [hri, hrj]
  exact WithTop.coe_lt_coe.mpr hij

/-! ## The sort -/

theorem mem_canonicalZSetTxOrder (hl : c.LimbLaws) (hz : c.ZSetLaws)
    (h : canonicalZSetTxOrder c ids = .ok canonical) (id : List UInt8) :
    id ∈ canonical ↔ id ∈ ids := by
  by_cases h40 : ∀ id ∈ ids, id.length = 40
  · exact (canonicalZSetTxOrder_perm hl hz h40 h).mem_iff
  · rw [canonicalZSetTxOrder_stub h40] at h
    rw [Except.ok.inj h]

/-- What the sort makes of a list of claims: those of the block by rank, then the others. -/
structure Sorted (canonical : List (List UInt8)) (claims listed : List ClaimCandidate)
    (others : List ClaimCandidate) : Prop where
  perm : (listed ++ others).Perm claims
  mem : ∀ p ∈ listed, p.witness.txId ∈ canonical
  order : listed.Pairwise fun p q =>
    idRank canonical p.witness.txId ≤ idRank canonical q.witness.txId
  stable : ∀ id ∈ canonical, listed.filter (fun p => p.witness.txId = id)
    = claims.filter fun p => p.witness.txId = id
  others : others = claims.filter fun p => p.witness.txId ∉ canonical

theorem sortClaims_sorted (h : canonicalZSetTxOrder c ids = .ok canonical)
    (claims : List ClaimCandidate) : ∃ listed others,
      sortClaimsByZSetTxOrder c ids claims = .ok (listed ++ others) ∧
        Sorted canonical claims listed others := by
  set rank := claimRank (txRanks canonical) with hrank
  have htop : ∀ p, rank p = ⊤ ↔ p.witness.txId ∉ canonical := fun p => idRank_eq_top
  have hsplit : sortByKey rank claims = ((sortByKey rank claims).filter fun p => rank p ≠ ⊤) ++
      claims.filter fun p => rank p = ⊤ := sortByKey_append_top
  refine ⟨(sortByKey rank claims).filter fun p => rank p ≠ ⊤, claims.filter fun p => rank p = ⊤,
    ?_, ?_⟩
  · unfold sortClaimsByZSetTxOrder
    rw [h, ok_bind, ← hrank, ← hsplit]
    rfl
  · exact {
      perm := hsplit ▸ sortByKey_perm
      mem := fun p hp => by
        have hne : rank p ≠ ⊤ := of_decide_eq_true (List.mem_filter.mp hp).2
        rwa [Ne, htop, not_not] at hne
      order := sortByKey_pairwise.filter _
      stable := fun id hid => by
        have hsame : ∀ p : ClaimCandidate, decide (p.witness.txId = id)
            = decide (rank p = idRank canonical id) := by
          intro p
          refine decide_eq_decide.mpr ⟨fun hp => ?_, fun hp => idRank_inj hid hp⟩
          rw [hrank, claimRank_eq, hp]
        have hlisted : ∀ p : ClaimCandidate, p.witness.txId = id → rank p ≠ ⊤ := by
          intro p hp htop'
          rw [htop, hp] at htop'
          exact htop' hid
        calc ((sortByKey rank claims).filter fun p => rank p ≠ ⊤).filter
              (fun p => p.witness.txId = id)
          _ = (sortByKey rank claims).filter fun p => p.witness.txId = id := by
            rw [List.filter_filter]
            refine List.filter_congr fun p _ => ?_
            by_cases hp : p.witness.txId = id
            · simp [hp, hlisted p hp]
            · simp [hp]
          _ = claims.filter fun p => p.witness.txId = id := by
            simp only [hsame]
            exact filter_sortByKey _
      others := List.filter_congr fun p _ => by simp [htop] }

/-! ## Transactions -/

/-- The transactions of a list are those of the ids, one for each. -/
def Covers (c : Crates H Z L) (ids : List (List UInt8)) (details : List TransactionDetails) : Prop :=
  (details.map fun d => base58HashToAtomBytes c d.txId).Perm (ids.map .ok)

/-- The id of a transaction. -/
def idOf (c : Crates H Z L) (d : TransactionDetails) : List UInt8 :=
  (base58HashToAtomBytes c d.txId).toOption.getD []

theorem Covers.decodes (h : Covers c ids details) {d : TransactionDetails} (hd : d ∈ details) :
    base58HashToAtomBytes c d.txId = .ok (idOf c d) := by
  have hmem := h.subset (List.mem_map_of_mem hd)
  obtain ⟨id, -, hid⟩ := List.mem_map.mp hmem
  unfold idOf
  rw [← hid]
  rfl

/-- The transactions of a block can be put in the order of its ids. -/
theorem Covers.arranged (h : Covers c ids details) (hperm : canonical.Perm ids)
    (hnodup : canonical.Nodup) :
    ∃ ordered, Arranged (fun d => base58HashToAtomBytes c d.txId) canonical details ordered := by
  have hcanonical : (canonical.map Except.ok).Perm
      (details.map fun d => base58HashToAtomBytes c d.txId) := (hperm.map _).trans h.symm
  have hids : List.Forall₂ (fun x d => base58HashToAtomBytes c d.txId = x)
      (details.map fun d => base58HashToAtomBytes c d.txId) details := by
    rw [List.forall₂_map_left_iff, List.forall₂_same]
    exact fun d _ => rfl
  obtain ⟨ordered, hordered, hback⟩ := List.perm_comp_forall₂ hcanonical hids
  refine ⟨ordered, hnodup, ?_, hback⟩
  have heq := (List.forall₂_map_right_iff (R := Eq)).mpr (hordered.imp fun _ _ hx => hx.symm)
  exact (List.forall₂_eq_eq_eq ▸ heq).symm

theorem trim_of_base58 (hb : c.Base58Laws) {s : String} {id : List UInt8}
    (h : base58HashToAtomBytes c s = .ok id) : trim s = s := by
  unfold base58HashToAtomBytes at h
  obtain ⟨hash, hhash, -⟩ := bind_eq_ok h
  exact hb s hash (mapError_eq_ok.mp hhash)

variable [DecidableEq H]

/-- The claims of a transaction. -/
def claimsOf (c : Crates H Z L) (d : TransactionDetails) : List ClaimCandidate :=
  (extractClaimsFromTransaction c d).toOption.getD []

/-- The claims of a transaction are extracted, with its id in their witnesses. -/
theorem extractClaimsFromTransaction_eq (hb : c.Base58Laws) {d : TransactionDetails}
    {id : List UInt8} (h : base58HashToAtomBytes c d.txId = .ok id) :
    extractClaimsFromTransaction c d = .ok (claimsOf c d) ∧
      ∀ p ∈ claimsOf c d, p.witness.txId = id := by
  have hid : base58HashToAtomBytes c (trim d.txId) = .ok id := by rwa [trim_of_base58 hb h]
  obtain ⟨claims, hclaims, hps⟩ := claimsOfOutputs_spec hid d.outputs
  have hextract : extractClaimsFromTransaction c d = .ok claims := hclaims
  have heq : claimsOf c d = claims := by rw [claimsOf, hextract]; rfl
  rw [heq]
  exact ⟨hextract, fun p hp => by rw [(hps p hp).witness]⟩

theorem extractClaims_eq
    (h : ∀ d ∈ details, extractClaimsFromTransaction c d = .ok (claimsOf c d)) :
    extractClaims c details = .ok (details.flatMap (claimsOf c)) := by
  induction details with
  | nil => rfl
  | cons d details ih =>
    rw [extractClaims, h d List.mem_cons_self, ok_bind,
      ih fun e he => h e (List.mem_cons_of_mem _ he)]
    rfl

/-! ## The two paths -/

/-- The claims of a block whose transactions were arranged first. -/
def alignedClaims (c : Crates H Z L) (ids : List (List UInt8)) (details : List TransactionDetails) :
    Except String (List ClaimCandidate) := do
  let (_, details) ← alignScanBlockFetchTxOrder c ids details
  extractClaims c details

theorem Covers.sort_eq_aligned (hl : c.LimbLaws) (hz : c.ZSetLaws) (hb : c.Base58Laws)
    (h40 : ∀ id ∈ ids, id.length = 40) (h : Covers c ids details) :
    sortClaimsByZSetTxOrder c ids (details.flatMap (claimsOf c)) = alignedClaims c ids details := by
  unfold sortClaimsByZSetTxOrder alignedClaims alignScanBlockFetchTxOrder
  cases hids : canonicalZSetTxOrder c ids with
  | error e => rfl
  | ok canonical =>
    have hperm := canonicalZSetTxOrder_perm hl hz h40 hids
    have hnodup := hperm.nodup_iff.mpr (canonicalZSetTxOrder_nodup h40 hids)
    obtain ⟨ordered, hordered⟩ := h.arranged hperm hnodup
    have hlen : details.length = canonical.length := by
      have hlength := h.length_eq
      rw [List.length_map, List.length_map] at hlength
      rw [hlength, hperm.length_eq]
    have hdecodes : ∀ d ∈ details, base58HashToAtomBytes c d.txId = .ok (idOf c d) :=
      fun d hd => h.decodes hd
    have hdecodes' : ∀ d ∈ ordered, base58HashToAtomBytes c d.txId = .ok (idOf c d) :=
      fun d hd => hdecodes d (hordered.perm.subset hd)
    have hextract : extractClaims c ordered = .ok (ordered.flatMap (claimsOf c)) :=
      extractClaims_eq fun d hd => (extractClaimsFromTransaction_eq hb (hdecodes' d hd)).1
    rw [ok_bind, ok_bind, (alignTransactionDetails_iff hlen).mpr hordered, ok_bind]
    show Except.ok _ = extractClaims c ordered
    rw [hextract]
    congr 1
    -- the ids of the arranged transactions are in the order of their ranks
    have hkeys : ordered.map (idOf c) = canonical := by
      have hmap : (ordered.map (idOf c)).map Except.ok
          = (canonical.map Except.ok : List (Except String (List UInt8))) := by
        rw [← hordered.keys, List.map_map]
        exact List.map_congr_left fun d hd => (hdecodes' d hd).symm
      exact List.map_injective_iff.mpr (fun _ _ heq => Except.ok.inj heq) hmap
    have hranks : ordered.Pairwise fun d e =>
        idRank canonical (idOf c d) < idRank canonical (idOf c e) := by
      have hpairwise : (ordered.map (idOf c)).Pairwise fun id id' =>
          idRank canonical id < idRank canonical id' := by
        rw [hkeys]
        exact idRank_pairwise hnodup
      rwa [List.pairwise_map] at hpairwise
    refine sortByKey_flatMap (fun d hd p hp => ?_) hordered.perm hranks
    rw [claimRank_eq, (extractClaimsFromTransaction_eq hb (hdecodes d hd)).2 p hp]

/-- Extracting from arranged transactions and sorting what is extracted give the same claims; and the
sort puts any claims in the order of the block, those of one transaction in the order in which they
were, and after them the claims of transactions that are not in the block. -/
theorem claim_orders_agree (hl : c.LimbLaws) (hz : c.ZSetLaws) (hb : c.Base58Laws) :
    (∀ (ids : List (List UInt8)) (details : List TransactionDetails),
      (∀ id ∈ ids, id.length = 40) → Covers c ids details →
      ∃ claims, extractClaims c details = .ok claims ∧
        sortClaimsByZSetTxOrder c ids claims = alignedClaims c ids details ∧
        -- the follower sorts by the ids in their canonical order
        ∀ canonical, canonicalZSetTxOrder c ids = .ok canonical →
          sortClaimsByZSetTxOrder c canonical claims = alignedClaims c ids details) ∧
    ∀ (ids canonical : List (List UInt8)) (claims : List ClaimCandidate),
      canonicalZSetTxOrder c ids = .ok canonical →
      (∀ id, id ∈ canonical ↔ id ∈ ids) ∧
      ∃ listed others, sortClaimsByZSetTxOrder c ids claims = .ok (listed ++ others) ∧
        Sorted canonical claims listed others := by
  refine ⟨fun ids details h40 hcovers => ?_, fun ids canonical claims hids =>
    ⟨mem_canonicalZSetTxOrder hl hz hids, sortClaims_sorted hids claims⟩⟩
  have hextract : extractClaims c details = .ok (details.flatMap (claimsOf c)) :=
    extractClaims_eq fun d hd => (extractClaimsFromTransaction_eq hb (hcovers.decodes hd)).1
  have hsort := hcovers.sort_eq_aligned hl hz hb h40
  refine ⟨_, hextract, hsort, fun canonical hids => ?_⟩
  have hperm := canonicalZSetTxOrder_perm hl hz h40 hids
  have hagain : canonicalZSetTxOrder c canonical = .ok canonical :=
    (canonicalZSetTxOrder_congr hz h40 hperm).mpr hids
  rw [← hsort]
  unfold sortClaimsByZSetTxOrder
  rw [hids, hagain]

/-- The sample crates, with hashes that take no whitespace around a text. -/
def trimmedCrates : Crates Nat (List Nat) Unit :=
  { sampleCrates with
    fromBase58 := fun s => if trim s = s then sampleCrates.fromBase58 s else .error "whitespace" }

theorem trimmedCrates_base58Laws : trimmedCrates.Base58Laws := by
  intro s h hs
  by_contra htrim
  have herror : trimmedCrates.fromBase58 s = .error "whitespace" := if_neg htrim
  rw [herror] at hs
  cases hs

theorem trimmedCrates_zsetLaws : trimmedCrates.ZSetLaws where
  nodup := sampleCrates_zsetLaws.nodup
  mem_iff := sampleCrates_zsetLaws.mem_iff
  ext := sampleCrates_zsetLaws.ext

theorem claim_orders_agree_rivals : ∃ claims,
    extractClaims trimmedCrates rivalTransactions = .ok claims ∧
      sortClaimsByZSetTxOrder trimmedCrates rivalIds claims
        = alignedClaims trimmedCrates rivalIds rivalTransactions := by
  have hlimbs : trimmedCrates.LimbLaws := sampleCrates_limbLaws
  have hdecode : (rivalTransactions.map fun d => base58HashToAtomBytes trimmedCrates d.txId)
      = rivalIds.reverse.map .ok := by
    decide
  have hcovers : Covers trimmedCrates rivalIds rivalTransactions := by
    unfold Covers
    rw [hdecode]
    exact (List.reverse_perm rivalIds).map _
  obtain ⟨claims, hextract, hsort, -⟩ := (claim_orders_agree hlimbs trimmedCrates_zsetLaws
    trimmedCrates_base58Laws).1 rivalIds rivalTransactions (by decide) hcovers
  exact ⟨claims, hextract, hsort⟩

end NnsVerified.Hull
