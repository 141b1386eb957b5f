import NnsVerified.Hull.ChainFollower
import NnsVerified.Hull.Sample

/-!
# The order of the transactions of a block

The node may list the ids and the transactions of a block in any order. The hull arranges both by
the z-set of the ids, so the poke that it builds depends on the block alone. Where the ids repeat,
or the transactions do not match them one to one, it reports an error.
-/

namespace NnsVerified.Hull

open NnsVerified.Hoon NnsVerified.Library

variable {H Z L : Type} {c : Crates H Z L} {ids out : List (List UInt8)}
  {details ordered : List TransactionDetails}

/-! ## The z-set of the ids -/

theorem checkSeen_eq_ok {seen : Finset (List UInt8)} :
    canonicalZSetTxOrder.checkSeen seen ids = .ok () ↔ ids.Nodup ∧ ∀ id ∈ ids, id ∉ seen := by
  induction ids generalizing seen with
  | nil => simp [canonicalZSetTxOrder.checkSeen]
  | cons id ids ih =>
    unfold canonicalZSetTxOrder.checkSeen
    by_cases hid : id ∈ seen
    · simp [hid]
    · rw [if_neg hid, ih, List.nodup_cons, List.forall_mem_cons]
      constructor
      · rintro ⟨hnodup, hseen⟩
        refine ⟨⟨fun hmem => hseen id hmem (Finset.mem_insert_self id seen), hnodup⟩, hid, ?_⟩
        intro id' hid' hmem
        exact hseen id' hid' (Finset.mem_insert_of_mem hmem)
      · rintro ⟨⟨hfresh, hnodup⟩, -, hseen⟩
        refine ⟨hnodup, fun id' hid' hmem => ?_⟩
        rcases Finset.mem_insert.mp hmem with rfl | hmem
        · exact hfresh hid'
        · exact hseen id' hid' hmem

/-- The hash of a transaction id. -/
def tip5Of (c : Crates H Z L) (id : List UInt8) : H := c.fromLimbs (limbs id)

theorem tip5HashToTxAtomBytes_tip5Of (hl : c.LimbLaws) {id : List UInt8} (h : id.length = 40) :
    tip5HashToTxAtomBytes c (tip5Of c id) = id := by
  unfold tip5HashToTxAtomBytes tip5Of
  rw [hl, limbBytes_limbs h]

theorem mapM_txAtomBytesToTip5Hash (h40 : ∀ id ∈ ids, id.length = 40) :
    ids.mapM (txAtomBytesToTip5Hash c) = .ok (ids.map (tip5Of c)) := by
  induction ids with
  | nil => rfl
  | cons id ids ih =>
    obtain ⟨hid, hids⟩ := List.forall_mem_cons.mp h40
    have hhead : txAtomBytesToTip5Hash c id = .ok (tip5Of c id) := by
      simp [txAtomBytesToTip5Hash, hid, tip5Of]
    rw [List.mapM_cons, hhead, ih hids]
    rfl

/-- On ids of 40 bytes, the canonical order exists only without repetition, and then it is the
iteration of the z-set. -/
theorem canonicalZSetTxOrder_eq (hne : ids ≠ []) (h40 : ∀ id ∈ ids, id.length = 40) :
    (canonicalZSetTxOrder c ids).toOption =
      if ids.Nodup then ((c.tryFromItems (ids.map (tip5Of c))).toOption.map c.intoItems).map
        (List.map (tip5HashToTxAtomBytes c))
      else none := by
  have hany : (ids.any fun id => decide (id.length ≠ 40)) = false := by
    simpa using h40
  unfold canonicalZSetTxOrder
  rw [if_neg (by simpa using hne), hany]
  by_cases hnodup : ids.Nodup
  · have hseen : canonicalZSetTxOrder.checkSeen ∅ ids = .ok () :=
      checkSeen_eq_ok.mpr ⟨hnodup, by simp⟩
    rw [hseen, mapM_txAtomBytesToTip5Hash h40, if_pos hnodup]
    simp only [Bool.false_eq_true, if_false, ok_bind]
    cases c.tryFromItems (ids.map (tip5Of c)) <;> rfl
  · rw [if_neg hnodup]
    cases hseen : canonicalZSetTxOrder.checkSeen ∅ ids with
    | error e => rfl
    | ok u => exact absurd (checkSeen_eq_ok.mp hseen).1 hnodup

theorem canonicalZSetTxOrder_nodup (h40 : ∀ id ∈ ids, id.length = 40)
    (h : canonicalZSetTxOrder c ids = .ok out) : ids.Nodup := by
  by_cases hne : ids = []
  · rw [hne]
    exact .nil
  · by_contra hnodup
    have heq := canonicalZSetTxOrder_eq (c := c) hne h40
    rw [if_neg hnodup, h] at heq
    exact absurd heq (by simp [Except.toOption])

theorem canonicalZSetTxOrder_perm (hl : c.LimbLaws) (hz : c.ZSetLaws)
    (h40 : ∀ id ∈ ids, id.length = 40) (h : canonicalZSetTxOrder c ids = .ok out) :
    out.Perm ids := by
  have hnodup := canonicalZSetTxOrder_nodup h40 h
  by_cases hne : ids = []
  · subst hne
    obtain rfl := Except.ok.inj h
    exact .nil
  · have heq := canonicalZSetTxOrder_eq (c := c) hne h40
    rw [h, if_pos hnodup] at heq
    cases hset : c.tryFromItems (ids.map (tip5Of c)) with
    | error e =>
      rw [hset] at heq
      exact absurd heq (by simp [Except.toOption])
    | ok z =>
      rw [hset] at heq
      obtain rfl : out = (c.intoItems z).map (tip5HashToTxAtomBytes c) := Option.some.inj heq
      have hitem : ∀ h ∈ c.intoItems z, ∃ id ∈ ids, h = tip5Of c id ∧
          tip5HashToTxAtomBytes c h = id := by
        intro h hh
        obtain ⟨id, hid, rfl⟩ := List.mem_map.mp ((hz.mem_iff hset).mp hh)
        exact ⟨id, hid, rfl, tip5HashToTxAtomBytes_tip5Of hl (h40 id hid)⟩
      have hnodupOut : ((c.intoItems z).map (tip5HashToTxAtomBytes c)).Nodup := by
        refine (hz.nodup hset).map_on ?_
        intro h hh h' hh' hbytes
        obtain ⟨id, -, rfl, hid⟩ := hitem h hh
        obtain ⟨id', -, rfl, hid'⟩ := hitem h' hh'
        rw [← hid, ← hid', hbytes]
      refine (List.perm_ext_iff_of_nodup hnodupOut hnodup).mpr fun id => ?_
      constructor
      · intro hmem
        obtain ⟨h, hh, rfl⟩ := List.mem_map.mp hmem
        obtain ⟨id, hid, -, hbytes⟩ := hitem h hh
        rwa [hbytes]
      · intro hid
        refine List.mem_map.mpr ⟨tip5Of c id, ?_, tip5HashToTxAtomBytes_tip5Of hl (h40 id hid)⟩
        exact (hz.mem_iff hset).mpr (List.mem_map_of_mem hid)

theorem canonicalZSetTxOrder_stub (h40 : ¬∀ id ∈ ids, id.length = 40) :
    canonicalZSetTxOrder c ids = .ok ids := by
  have hne : ids ≠ [] := by
    rintro rfl
    simp at h40
  have hany : (ids.any fun id => decide (id.length ≠ 40)) = true := by
    simpa using h40
  unfold canonicalZSetTxOrder
  rw [if_neg (by simpa using hne), hany]
  rfl

/-- The canonical order does not depend on the order of the list. -/
theorem canonicalZSetTxOrder_congr (hz : c.ZSetLaws) {ids' : List (List UInt8)}
    (h40 : ∀ id ∈ ids, id.length = 40) (hp : ids'.Perm ids) :
    canonicalZSetTxOrder c ids' = .ok out ↔ canonicalZSetTxOrder c ids = .ok out := by
  rw [← toOption_eq_some, ← toOption_eq_some]
  by_cases hne : ids = []
  · subst hne
    rw [hp.eq_nil]
  · have hne' : ids' ≠ [] := fun h => hne (h ▸ hp).nil_eq.symm
    have h40' : ∀ id ∈ ids', id.length = 40 := fun id hid => h40 id (hp.subset hid)
    have hset : ∀ h, h ∈ ids'.map (tip5Of c) ↔ h ∈ ids.map (tip5Of c) := fun h =>
      (hp.map (tip5Of c)).mem_iff
    rw [canonicalZSetTxOrder_eq hne' h40', canonicalZSetTxOrder_eq hne h40, hz.ext hset]
    simp only [hp.nodup_iff]

/-! ## The transactions of the ids -/

theorem alignTransactionDetails_eq_ok :
    alignTransactionDetailsWithCanonicalOrder c ids details = .ok ordered ↔
      ∃ byId rest, detailsById c details = .ok byId ∧ takeDetails byId ids = .ok (ordered, rest) ∧
        rest.entries = [] := by
  unfold alignTransactionDetailsWithCanonicalOrder
  constructor
  · intro h
    obtain ⟨byId, hbyId, h⟩ := bind_eq_ok h
    obtain ⟨⟨taken, rest⟩, htaken, h⟩ := bind_eq_ok h
    cases hrest : rest.entries with
    | nil =>
      simp only [hrest] at h
      obtain rfl := Except.ok.inj h
      exact ⟨byId, rest, hbyId, htaken, hrest⟩
    | cons e es => simp [hrest, throw, throwThe, MonadExceptOf.throw, bind, Except.bind] at h
  · rintro ⟨byId, rest, hbyId, htaken, hrest⟩
    rw [hbyId, ok_bind, htaken, ok_bind]
    simp only [hrest]
    rfl

/-- One transaction for each id: it is the one whose id decodes to it. -/
theorem alignTransactionDetails_iff (hlen : details.length = ids.length) :
    alignTransactionDetailsWithCanonicalOrder c ids details = .ok ordered ↔
      Arranged (fun d => base58HashToAtomBytes c d.txId) ids details ordered := by
  rw [alignTransactionDetails_eq_ok]
  exact collect_drain_iff hlen

theorem alignTransactionDetails_nodup
    (h : alignTransactionDetailsWithCanonicalOrder c ids details = .ok ordered) : ids.Nodup := by
  obtain ⟨byId, rest, -, htaken, -⟩ := alignTransactionDetails_eq_ok.mp h
  exact (drain_spec htaken).1

theorem alignTransactionDetails_congr {details' : List TransactionDetails}
    (hlen : details.length = ids.length) (hp : details'.Perm details) :
    alignTransactionDetailsWithCanonicalOrder c ids details' = .ok ordered ↔
      alignTransactionDetailsWithCanonicalOrder c ids details = .ok ordered := by
  rw [alignTransactionDetails_iff (hp.length_eq.trans hlen), alignTransactionDetails_iff hlen]
  constructor
  · intro h
    exact ⟨h.nodup, h.keys, h.perm.trans hp⟩
  · intro h
    exact ⟨h.nodup, h.keys, h.perm.trans hp.symm⟩

/-! ## The arranged block -/

theorem alignScanBlockFetch_eq_ok :
    alignScanBlockFetchTxOrder c ids details = .ok (out, ordered) ↔
      canonicalZSetTxOrder c ids = .ok out ∧
        alignTransactionDetailsWithCanonicalOrder c out details = .ok ordered := by
  unfold alignScanBlockFetchTxOrder
  constructor
  · intro h
    obtain ⟨out', hids, h⟩ := bind_eq_ok h
    obtain ⟨ordered', hdetails, h⟩ := bind_eq_ok h
    obtain ⟨rfl, rfl⟩ := Prod.mk.inj (Except.ok.inj h)
    exact ⟨hids, hdetails⟩
  · rintro ⟨hids, hdetails⟩
    rw [hids, ok_bind, hdetails]
    rfl

/-- The arranged block does not depend on the order in which the node lists it. -/
theorem alignScanBlockFetch_congr (hl : c.LimbLaws) (hz : c.ZSetLaws) {ids' : List (List UInt8)}
    {details' : List TransactionDetails} (h40 : ∀ id ∈ ids, id.length = 40)
    (hlen : details.length = ids.length) (hids : ids'.Perm ids) (hdetails : details'.Perm details) :
    alignScanBlockFetchTxOrder c ids' details' = .ok (out, ordered) ↔
      alignScanBlockFetchTxOrder c ids details = .ok (out, ordered) := by
  rw [alignScanBlockFetch_eq_ok, alignScanBlockFetch_eq_ok, canonicalZSetTxOrder_congr hz h40 hids]
  refine and_congr_right fun hout => ?_
  have hperm := canonicalZSetTxOrder_perm hl hz h40 hout
  exact alignTransactionDetails_congr (hlen.trans hperm.length_eq.symm) hdetails

/-- An id that is listed twice is an error, also where stubs make the hull keep the list as it is:
then the transaction of the id is missing the second time. -/
theorem alignScanBlockFetch_repeated {id : List UInt8} (hcount : 2 ≤ ids.count id) :
    ∃ e, alignScanBlockFetchTxOrder c ids details = .error e := by
  have hnodup : ¬ids.Nodup := by
    intro h
    have hle := List.nodup_iff_count_le_one.mp h id
    omega
  cases halign : alignScanBlockFetchTxOrder c ids details with
  | error e => exact ⟨e, rfl⟩
  | ok r =>
    obtain ⟨hids, hdetails⟩ := alignScanBlockFetch_eq_ok.mp halign
    by_cases h40 : ∀ id ∈ ids, id.length = 40
    · exact absurd (canonicalZSetTxOrder_nodup h40 hids) hnodup
    · rw [canonicalZSetTxOrder_stub h40] at hids
      obtain rfl := Except.ok.inj hids
      exact absurd (alignTransactionDetails_nodup hdetails) hnodup

variable [DecidableEq H]

/-- The poke of a fetched block: its transactions arranged, and their claims extracted. -/
def fetchedPoke (c : Crates H Z L) (parent : List UInt8) (height : UInt64) (pageDigest : List UInt8)
    (ids : List (List UInt8)) (details : List TransactionDetails) : Except String Noun := do
  let (ids, details) ← alignScanBlockFetchTxOrder c ids details
  let claims ← extractClaims c details
  return buildScanBlockPoke c parent height pageDigest ids claims

theorem fetchedPoke_congr (hl : c.LimbLaws) (hz : c.ZSetLaws) {parent pageDigest : List UInt8}
    {height : UInt64} {ids' : List (List UInt8)} {details' : List TransactionDetails} {poke : Noun}
    (h40 : ∀ id ∈ ids, id.length = 40) (hlen : details.length = ids.length) (hids : ids'.Perm ids)
    (hdetails : details'.Perm details)
    (h : fetchedPoke c parent height pageDigest ids details = .ok poke) :
    fetchedPoke c parent height pageDigest ids' details' = .ok poke := by
  unfold fetchedPoke at h ⊢
  obtain ⟨⟨out, ordered⟩, halign, h⟩ := bind_eq_ok h
  rw [(alignScanBlockFetch_congr hl hz h40 hlen hids hdetails).mpr halign, ok_bind]
  exact h

/-- The order in which the node lists a block cannot influence the poke. -/
theorem rpc_order_irrelevant (hl : c.LimbLaws) (hz : c.ZSetLaws) :
    (∀ (parent : List UInt8) (height : UInt64) (pageDigest : List UInt8)
      (ids : List (List UInt8)) (details : List TransactionDetails),
      (∀ id ∈ ids, id.length = 40) → details.length = ids.length →
      ((∀ ids' details', ids'.Perm ids → details'.Perm details →
          ∃ e, fetchedPoke c parent height pageDigest ids' details' = .error e) ∨
        ∃ poke, ∀ ids' details', ids'.Perm ids → details'.Perm details →
          fetchedPoke c parent height pageDigest ids' details' = .ok poke) ∧
      ∀ out ordered, alignScanBlockFetchTxOrder c ids details = .ok (out, ordered) →
        out.Perm ids ∧ ordered.Perm details ∧
          ordered.map (fun d => base58HashToAtomBytes c d.txId) = out.map .ok) ∧
    ∀ (ids : List (List UInt8)) (details : List TransactionDetails) (id : List UInt8),
      2 ≤ ids.count id → ∃ e, alignScanBlockFetchTxOrder c ids details = .error e := by
  refine ⟨?_, fun _ _ _ hcount => alignScanBlockFetch_repeated hcount⟩
  intro parent height pageDigest ids details h40 hlen
  constructor
  · cases hpoke : fetchedPoke c parent height pageDigest ids details with
    | ok poke =>
      exact Or.inr ⟨poke, fun _ _ hids hdetails =>
        fetchedPoke_congr hl hz h40 hlen hids hdetails hpoke⟩
    | error e =>
      refine Or.inl fun ids' details' hids hdetails => ?_
      cases hpoke' : fetchedPoke c parent height pageDigest ids' details' with
      | error e' => exact ⟨e', rfl⟩
      | ok poke =>
        have h40' : ∀ id ∈ ids', id.length = 40 := fun id hid => h40 id (hids.subset hid)
        have hlen' : details'.length = ids'.length := by
          rw [hdetails.length_eq, hids.length_eq, hlen]
        have hback := fetchedPoke_congr hl hz h40' hlen' hids.symm hdetails.symm hpoke'
        rw [hpoke] at hback
        exact absurd hback (by simp)
  · intro out ordered halign
    obtain ⟨hout, hordered⟩ := alignScanBlockFetch_eq_ok.mp halign
    have hperm := canonicalZSetTxOrder_perm hl hz h40 hout
    have harranged := (alignTransactionDetails_iff (hlen.trans hperm.length_eq.symm)).mp hordered
    exact ⟨hperm, harranged.perm, harranged.keys⟩

/-- A transaction with one signer that pays the treasury and claims a path. -/
def claimTransaction (txId signer path : String) : TransactionDetails where
  txId := txId
  inputs := [⟨"note", [signer]⟩]
  outputs := [⟨treasuryLockRootB58, some ⟨[⟨claimNoteBlobEntryKey, utf8 path⟩]⟩,
    some (.amount 327680000)⟩]

/-- Two transactions of one block that claim the same name. -/
def rivalTransactions : List TransactionDetails :=
  [claimTransaction "T2" "bob" "nns/v1/claim/a.nock",
    claimTransaction "T1" "eve" "nns/v1/claim/a.nock"]

/-- The ids of the transactions, in the opposite order. -/
def rivalIds : List (List UInt8) := [leBytes 40 (cord "T1"), leBytes 40 (cord "T2")]

theorem rpc_order_irrelevant_rivals :
    ∃ poke, ∀ ids details, ids.Perm rivalIds → details.Perm rivalTransactions →
      fetchedPoke sampleCrates [] 63000 [7] ids details = .ok poke := by
  have horder := ((rpc_order_irrelevant sampleCrates_limbLaws sampleCrates_zsetLaws).1 [] 63000 [7]
    rivalIds rivalTransactions (by decide) rfl).1
  have hok : (fetchedPoke sampleCrates [] 63000 [7] rivalIds rivalTransactions).toOption.isSome := by
    decide +kernel
  rcases horder with hfail | hsame
  · obtain ⟨e, he⟩ := hfail rivalIds rivalTransactions (.refl _) (.refl _)
    rw [he] at hok
    exact absurd hok (by simp [Except.toOption])
  · exact hsame

end NnsVerified.Hull
