import NnsVerified.Hull.Kernel
import NnsVerified.Hull.Proofs.NameProofs
import NnsVerified.Kernel.Proofs.CauseProofs
import NnsVerified.Kernel.Proofs.PeekProofs

/-!
# What crosses the border between hull and kernel

The pokes that the hull builds are read by the kernel as the causes that the hull means, and what the
hull decodes from peeks and effects is what the kernel answered.
-/

namespace NnsVerified.Hull

open NnsVerified.Hoon NnsVerified.Library NnsVerified.Kernel

/-! ## Texts -/

theorem trimEndNul_append_nul {s : String} (hs : NoNul s) (k : Nat) :
    trimEndNul (String.ofList (s.toList ++ List.replicate k '\x00')) = s := by
  have hdrop : (s.toList ++ List.replicate k '\x00').rdropWhile (fun c => c = '\x00') = s.toList := by
    induction k with
    | zero =>
      rw [List.replicate_zero, List.append_nil, List.rdropWhile_eq_self_iff]
      intro h
      simpa using hs h
    | succ k ih =>
      rw [List.replicate_succ', ← List.append_assoc, List.rdropWhile_concat_pos _ _ _ (by simp), ih]
  rw [trimEndNul, String.toList_ofList, hdrop, String.ofList_toList]

theorem utf8_append_nul (s : String) (k : Nat) :
    utf8 (String.ofList (s.toList ++ List.replicate k '\x00')) = utf8 s ++ List.replicate k 0 := by
  rw [utf8, String.toList_ofList, utf8Chars_append, utf8]
  congr 1
  induction k with
  | zero => rfl
  | succ k ih =>
    rw [List.replicate_succ, List.replicate_succ, ← ih]
    rfl

theorem cord_trimEndNul (s : String) : cord (trimEndNul s) = cord s := by
  have hdigits := digits_leValue_rdropWhile (utf8 s)
  have hbytes : (utf8 s).rdropWhile (fun b => b = 0) = utf8 (trimEndNul s) := by
    rw [utf8, rdropWhile_utf8Chars, utf8, trimEndNul, String.toList_ofList]
  rw [cord, cord, ← hbytes, leValue, ← hdigits, Nat.ofDigits_digits]

section

variable {H Z L : Type} {c : Crates H Z L} (hn : c.NounLaws)

include hn

/-- The text that the hull reads from an atom is one whose cord the atom is. -/
theorem cord_asCord {a : Nat} {s : String} (h : asCord c (.atom a) = .ok s) : cord s = a := by
  unfold asCord at h
  dsimp only at h
  split at h
  · rename_i text htext
    obtain rfl := Except.ok.inj h
    rw [cord_trimEndNul, cord, fromUtf8_eq_some.mp htext, hn.leValue_asNeBytes]
  · cases h

/-- The hull reads a text back from its cord. -/
theorem asCord_cord {s : String} (hs : NoNul s) : asCord c (.atom (cord s)) = .ok s := by
  set bytes := c.asNeBytes (cord s) with hbytes
  have hvalue : leValue bytes = leValue (utf8 s) := hn.leValue_asNeBytes _
  have hlast : ∀ h : utf8 s ≠ [], (utf8 s).getLast h ≠ 0 := fun h => getLast_utf8Chars_ne_zero hs h
  have hstrip : bytes.rdropWhile (fun b => b = 0) = utf8 s := by
    have hdigits := digits_leValue_rdropWhile bytes
    rw [hvalue, digits_leValue hlast] at hdigits
    exact (map_toNat_injective hdigits).symm
  -- the bytes of the atom may have zeros at the end
  have hzeros : bytes.rtakeWhile (fun b => b = 0)
      = List.replicate (bytes.rtakeWhile fun b => b = 0).length 0 :=
    List.eq_replicate_of_mem fun b hb => by simpa using List.mem_rtakeWhile_imp hb
  have hsplit : utf8 (String.ofList (s.toList ++
      List.replicate (bytes.rtakeWhile fun b => b = 0).length '\x00')) = bytes := by
    rw [utf8_append_nul, ← hzeros, ← hstrip, List.rdropWhile_append_rtakeWhile]
  unfold asCord
  dsimp only
  rw [← hbytes, fromUtf8_eq_some.mpr hsplit]
  dsimp only
  rw [trimEndNul_append_nul hs]

end

/-! ## Pokes -/

/-- The claim that the kernel reads. -/
def ClaimCandidate.toClaim (p : ClaimCandidate) : NnsClaim where
  name := cord p.name
  owner := cord p.owner
  fee := p.fee.toNat
  txHash := leValue p.txHash
  witness := {
    txId := leValue p.witness.txId
    spenderPkh := leValue p.witness.spenderPkh
    treasuryAmount := p.witness.treasuryAmount.toNat
    outputLockRoot := cord p.witness.outputLockRoot }

/-- The block that the kernel reads. -/
def toScanBlock (parent : List UInt8) (height : UInt64) (pageDigest : List UInt8)
    (pageTxIds : List (List UInt8)) (claims : List ClaimCandidate) : ScanBlock where
  parent := leValue parent
  height := height.toNat
  pageDigest := leValue pageDigest
  pageTxIds := pageTxIds.map leValue
  claims := claims.map ClaimCandidate.toClaim

variable {H Z L : Type} {c : Crates H Z L}

theorem foldr_cell {α : Type} (f g : α → Noun) (h : ∀ x, f x = g x) (xs : List α) :
    xs.foldr (fun x rest => .cell (f x) rest) (.atom 0) = Noun.list (xs.map g) := by
  induction xs with
  | nil => rfl
  | cons x xs ih => rw [List.foldr_cons, ih, h, List.map_cons, Noun.list]

theorem claimNoun_eq (hn : c.NounLaws) (p : ClaimCandidate) : claimNoun c p = p.toClaim.noun := by
  unfold claimNoun
  rw [hn.makeAtomIn_eq, hn.makeAtomIn_eq, hn.makeAtomIn_eq, hn.makeCordIn_eq, hn.makeCordIn_eq,
    hn.makeCordIn_eq, hn.atomFromU64_eq, hn.atomFromU64_eq]
  rfl

theorem buildScanBlockPoke_eq (hn : c.NounLaws) (parent : List UInt8) (height : UInt64)
    (pageDigest : List UInt8) (pageTxIds : List (List UInt8)) (claims : List ClaimCandidate) :
    buildScanBlockPoke c parent height pageDigest pageTxIds claims
      = (toScanBlock parent height pageDigest pageTxIds claims).noun := by
  have hids := foldr_cell c.makeAtomIn (fun id => .atom (leValue id)) hn.makeAtomIn_eq pageTxIds
  have hclaims := foldr_cell (claimNoun c) (fun p => p.toClaim.noun) (claimNoun_eq hn) claims
  unfold buildScanBlockPoke
  rw [hids, hclaims, hn.makeTagIn_eq, hn.makeAtomIn_eq, hn.makeAtomIn_eq, hn.atomFromU64_eq]
  simp only [ScanBlock.noun, toScanBlock, List.map_map]
  rfl

/-- The transition that the kernel reads. -/
def toProveTransition (prevProofJam prevSubjectJam prevFormulaJam : List UInt8)
    (pageDigest : List UInt8) (pageTxIds : List (List UInt8)) (claims : List ClaimCandidate)
    (blockProof : List UInt8) : ProveTransition where
  prevProofJam := leValue prevProofJam
  prevSubjectJam := leValue prevSubjectJam
  prevFormulaJam := leValue prevFormulaJam
  pageDigest := leValue pageDigest
  pageTxIds := pageTxIds.map leValue
  claims := claims.map ClaimCandidate.toClaim
  blockProof := .atom (leValue blockProof)

theorem buildProveRecursiveTransitionPoke_eq (hn : c.NounLaws)
    (prevProofJam prevSubjectJam prevFormulaJam : List UInt8) (pageDigest : List UInt8)
    (pageTxIds : List (List UInt8)) (claims : List ClaimCandidate) (blockProof : List UInt8) :
    buildProveRecursiveTransitionPoke c prevProofJam prevSubjectJam prevFormulaJam pageDigest
        pageTxIds claims blockProof
      = (toProveTransition prevProofJam prevSubjectJam prevFormulaJam pageDigest pageTxIds claims
          blockProof).noun := by
  have hids := foldr_cell c.makeAtomIn (fun id => .atom (leValue id)) hn.makeAtomIn_eq pageTxIds
  have hclaims := foldr_cell (claimNoun c) (fun p => p.toClaim.noun) (claimNoun_eq hn) claims
  unfold buildProveRecursiveTransitionPoke
  rw [hids, hclaims, hn.makeTagIn_eq, hn.makeAtomIn_eq, hn.makeAtomIn_eq, hn.makeAtomIn_eq,
    hn.makeAtomIn_eq, hn.makeAtomIn_eq]
  simp only [ProveTransition.noun, toProveTransition, List.map_map]
  rfl

theorem buildProveRecursiveGenesisPoke_eq (hn : c.NounLaws) :
    buildProveRecursiveGenesisPoke c = proveGenesisNoun := by
  unfold buildProveRecursiveGenesisPoke
  rw [hn.makeTagIn_eq]
  rfl

/-! ## Effects -/

theorem effectTag_tagged (hn : c.NounLaws) {tag : String} (htag : NoNul tag) (body : Noun) :
    effectTag c (tagged tag body) = some tag := by
  show (asCord c (.atom (cord tag))).toOption = some tag
  rw [asCord_cord hn htag]
  rfl

theorem scanBlockError_noun (hn : c.NounLaws) (e : ScanBlockFault) :
    scanBlockError c (Effect.scanBlockError e).noun = some e.text := by
  have htext : NoNul e.text := by cases e <;> simp [NoNul, ScanBlockFault.text]
  have htag : effectTag c (tagged "scan-block-error" (.atom (cord e.text)))
      = some "scan-block-error" :=
    effectTag_tagged hn (by simp [NoNul]) _
  unfold scanBlockError
  rw [Effect.noun, htag]
  show (asCord c (.atom (cord e.text))).toOption = some e.text
  rw [asCord_cord hn htext]
  rfl

theorem asU64_atom (hn : c.NounLaws) {n : Nat} (h : n < 2 ^ 64) :
    asU64 c (.atom n) = .ok (UInt64.ofNat n) := by
  unfold asU64
  dsimp only
  rw [hn.asU64_eq, if_pos h]
  rfl

theorem scanBlockDone_noun (hn : c.NounLaws) {height : Nat} (digest root : Nat)
    (hheight : height < 2 ^ 64) :
    scanBlockDone c (Effect.scanBlockDone height digest root).noun
      = some ⟨UInt64.ofNat height, c.asNeBytes digest, c.asNeBytes root⟩ := by
  have htag : effectTag c (tagged "scan-block-done"
      (Noun.tuple (.atom height) [.atom digest, .atom root])) = some "scan-block-done" :=
    effectTag_tagged hn (by simp [NoNul]) _
  unfold scanBlockDone
  rw [Effect.noun, htag]
  show ((asU64 c (.atom height)).toOption).bind (fun h => some
    (⟨h, c.asNeBytes digest, c.asNeBytes root⟩ : ScanBlockDone)) = _
  rw [asU64_atom hn hheight]
  rfl

theorem effectLoob_tagged (hn : c.NounLaws) {tag : String} (htag : NoNul tag) (ok : Bool) :
    effectLoob c tag (tagged tag (Noun.loob ok)) = some ok := by
  unfold effectLoob
  rw [effectTag_tagged hn htag]
  have hvalue : (tail (tagged tag (Noun.loob ok))).bind (asU64 c)
      = .ok (if ok then 0 else 1) := by
    show asU64 c (.atom (if ok then 0 else 1)) = _
    rw [asU64_atom hn (by split <;> norm_num)]
    cases ok <;> rfl
  rw [hvalue]
  cases ok <;> simp [Except.toOption]

theorem effectLoob_of_ne {tag tag' : String} {effect : Noun} (h : effectTag c effect = some tag')
    (hne : tag' ≠ tag) : effectLoob c tag effect = none := by
  unfold effectLoob
  simp [h, hne]

theorem effectText_of_ne {tag tag' : String} {effect : Noun} (h : effectTag c effect = some tag')
    (hne : tag' ≠ tag) : effectText c tag effect = none := by
  unfold effectText
  simp [h, hne]

/-! ## Peeks -/

variable {Acc Vesl : Type}

/-- The scan state that the hull holds is the cursor of the kernel, its digest in any width. -/
structure Mirrors (st : ScanState) (s : State Acc Vesl) : Prop where
  height : st.lastProvedHeight.toNat = s.lastProvedHeight
  digest : leValue st.lastProvedDigest = s.lastProvedDigest

/-- The answer of the kernel to the `/scan-state` peek. -/
def scanStateAnswer (env : Env Acc Vesl) (s : State Acc Vesl) : Eval Noun := do
  let state ← peekScanState env s
  pure (Noun.tuple (.atom 0) [.atom 0, state])

/-- The hull decodes a cursor whose height and size are `u64`. -/
theorem decodeScanState_eq_ok (hn : c.NounLaws) (height digest root size : Nat) (st : ScanState) :
    decodeScanState c (Noun.tuple (.atom 0) [.atom 0, .atom height, .atom digest, .atom root,
        .atom size]) = .ok st ↔
      height < 2 ^ 64 ∧ size < 2 ^ 64 ∧ st = ⟨UInt64.ofNat height, c.asNeBytes digest,
        c.asNeBytes root, UInt64.ofNat size⟩ := by
  have heq : decodeScanState c (Noun.tuple (.atom 0) [.atom 0, .atom height, .atom digest,
      .atom root, .atom size]) = (do
        let h ← (asU64 c (.atom height)).mapError fun _ => "scan-state: height overflows u64"
        let n ← (asU64 c (.atom size)).mapError fun _ => "scan-state: size overflows u64"
        pure ⟨h, c.asNeBytes digest, c.asNeBytes root, n⟩) := rfl
  rw [heq]
  simp only [asU64, hn.asU64_eq]
  by_cases hh : height < 2 ^ 64
  · by_cases hs : size < 2 ^ 64
    · simp only [hh, hs, if_true, Option.elim_some, Except.mapError, ok_bind, pure_eq_ok, true_and,
        Except.ok.injEq, eq_comm]
    · simp only [hh, hs, if_true, if_false, Option.elim_some, Option.elim_none, Except.mapError,
        bind, Except.bind, reduceCtorEq, false_and, and_false]
  · simp only [hh, if_false, Option.elim_none, Except.mapError, bind, Except.bind, reduceCtorEq,
      false_and]

theorem decodeScanState_answer {env : Env Acc Vesl} {s : State Acc Vesl} {answer : Noun}
    (hn : c.NounLaws) (hanswer : scanStateAnswer env s = .ok answer) :
    (∀ st, decodeScanState c answer = .ok st → Mirrors st s) ∧
      (s.lastProvedHeight < 2 ^ 64 → size env s.accumulator < 2 ^ 64 →
        ∃ st, decodeScanState c answer = .ok st) := by
  obtain ⟨payload, hpayload, hanswer⟩ := bind_eq_ok hanswer
  obtain rfl := Except.ok.inj hanswer
  obtain ⟨root, -, hpayload⟩ := bind_eq_ok hpayload
  obtain rfl := Except.ok.inj hpayload
  have hdecode := decodeScanState_eq_ok hn s.lastProvedHeight s.lastProvedDigest root
    (size env s.accumulator)
  constructor
  · intro st h
    obtain ⟨hheight, -, rfl⟩ := (hdecode st).mp h
    exact ⟨UInt64.toNat_ofNat_of_lt' hheight, hn.leValue_asNeBytes _⟩
  · intro hheight hsize
    exact ⟨_, (hdecode _).mpr ⟨hheight, hsize, rfl⟩⟩

end NnsVerified.Hull
