import NnsVerified.Hull.Proofs.HeaderProofs
import NnsVerified.Library.Agreement

/-!
# Widths of digests

`verify_header_chain_to_checkpoint` compares digests as byte strings, where the follower compares
them as atoms. Its verdict is a conjunction of conditions on the heights and the texts and of
comparisons between the digests, so writing one digest at another width changes it exactly where
that digest decides.
-/

namespace NnsVerified.Hull

open NnsVerified.Hoon NnsVerified.Library

/-- What is checked. -/
structure HeaderCheck where
  lastHeight : UInt64
  lastDigest : List UInt8
  checkpoint : CheckpointConfig
  headers : List NockHeaderLink
  deriving DecidableEq, Repr

/-- The digests of a check. -/
inductive DigestField where
  | last
  | checkpoint
  | digest (i : Nat)
  | parent (i : Nat)
  deriving DecidableEq, Repr

namespace HeaderCheck

/-- The check of the headers. -/
def verify (overflowChecks : Bool) (x : HeaderCheck) : Except Failure Unit :=
  verifyHeaderChainToCheckpoint overflowChecks x.lastHeight x.lastDigest x.checkpoint x.headers

/-- The bytes of a digest; those of a header are decoded from its text. -/
def bytes (x : HeaderCheck) : DigestField → Option (List UInt8)
  | .last => some x.lastDigest
  | .checkpoint => some x.checkpoint.digest
  | .digest i => x.headers[i]?.bind fun header => (hexDecodeEven header.digestHex).toOption
  | .parent i => x.headers[i]?.bind fun header => (hexDecodeEven header.parentHex).toOption

/-- The check with other bytes for a digest. -/
def replace (x : HeaderCheck) (bytes : List UInt8) : DigestField → HeaderCheck
  | .last => { x with lastDigest := bytes }
  | .checkpoint => { x with checkpoint := { x.checkpoint with digest := bytes } }
  | .digest i =>
    { x with headers := x.headers.modify i fun header => { header with digestHex := hexEncode bytes } }
  | .parent i =>
    { x with headers := x.headers.modify i fun header => { header with parentHex := hexEncode bytes } }

/-- The comparisons that the walk makes. -/
def comparisons (x : HeaderCheck) : List (DigestField × DigestField) :=
  if x.lastHeight = x.checkpoint.height then [(.last, .checkpoint)]
  else (.digest 0, .last) :: (.digest (x.headers.length - 1), .checkpoint) ::
    (List.range (x.headers.length - 1)).map fun i => (.parent i, .digest (i + 1))

/-- The heights go down from the last proved block to the checkpoint. -/
def HeightsFit (overflowChecks : Bool) (x : HeaderCheck) : Prop :=
  (x.lastHeight = x.checkpoint.height ∧ x.headers = []) ∨
    (x.checkpoint.height < x.lastHeight ∧
      (x.headers.map NockHeaderLink.height).head? = some x.lastHeight ∧
      ((x.headers.map NockHeaderLink.height).IsChain fun a b =>
        addU64 overflowChecks b 1 = .ok a) ∧
      (x.headers.map NockHeaderLink.height).getLast? = some x.checkpoint.height)

/-- The heights fit and every text is decoded: what the walk checks apart from the comparisons. -/
def Sound (overflowChecks : Bool) (x : HeaderCheck) : Prop :=
  x.HeightsFit overflowChecks ∧
    ∀ i < x.headers.length, (x.bytes (.digest i)).isSome ∧ (x.bytes (.parent i)).isSome

variable {overflowChecks : Bool} {x : HeaderCheck}

theorem comparisons_ne (c : DigestField × DigestField) (hc : c ∈ x.comparisons) : c.1 ≠ c.2 := by
  unfold comparisons at hc
  split at hc
  · obtain rfl := List.mem_singleton.mp hc
    decide
  · rcases List.mem_cons.mp hc with rfl | hc
    · simp
    · rcases List.mem_cons.mp hc with rfl | hc
      · simp
      · obtain ⟨i, -, rfl⟩ := List.mem_map.mp hc
        simp

/-! ## The verdict as comparisons -/

/-- Two decoded texts have the same bytes. -/
theorem toOption_eq_toOption {s t : String} (hs : ((hexDecodeEven s).toOption).isSome) :
    (hexDecodeEven s).toOption = (hexDecodeEven t).toOption ↔
      ∃ p, hexDecodeEven s = .ok p ∧ hexDecodeEven t = .ok p := by
  obtain ⟨p, hp⟩ := Option.isSome_iff_exists.mp hs
  rw [hp, eq_comm, toOption_eq_some]
  rw [toOption_eq_some] at hp
  simp [hp]

theorem verify_eq_ok_same (hsame : x.lastHeight = x.checkpoint.height) :
    x.verify overflowChecks = .ok () ↔ x.Sound overflowChecks ∧ AllAgree x.bytes x.comparisons := by
  have hnot : ¬x.checkpoint.height < x.lastHeight := by simp [hsame]
  unfold verify Sound HeightsFit comparisons AllAgree
  rw [verifyHeaderChainToCheckpoint_eq_ok, if_pos hsame, List.forall_mem_singleton]
  constructor
  · rintro (⟨-, hnil, hdigest⟩ | ⟨habove, -⟩)
    · exact ⟨⟨Or.inl ⟨hsame, hnil⟩, by simp [hnil]⟩, congrArg some hdigest⟩
    · exact absurd habove hnot
  · rintro ⟨⟨⟨-, hnil⟩ | ⟨habove, -⟩, -⟩, hdigest⟩
    · exact Or.inl ⟨hsame, hnil, Option.some.inj hdigest⟩
    · exact absurd habove hnot

/-- Links and the end of a chain, as conditions on its heights and texts and comparisons. -/
theorem chain_iff (overflowChecks : Bool) {first : NockHeaderLink} {rest : List NockHeaderLink}
    (hheaders : x.headers = first :: rest) :
    (hexDecodeEven first.digestHex = .ok x.lastDigest ∧
      (first :: rest).IsChain (Links overflowChecks) ∧
      EndsAt x.checkpoint ((first :: rest).getLast (List.cons_ne_nil first rest))) ↔
    ((first :: rest).IsChain (fun a b => addU64 overflowChecks b.height 1 = .ok a.height) ∧
      ((first :: rest).getLast (List.cons_ne_nil first rest)).height = x.checkpoint.height ∧
      ∀ i < x.headers.length, (x.bytes (.digest i)).isSome ∧ (x.bytes (.parent i)).isSome) ∧
    x.bytes (.digest 0) = some x.lastDigest ∧
    x.bytes (.digest rest.length) = some x.checkpoint.digest ∧
    ∀ i < rest.length, x.bytes (.parent i) = x.bytes (.digest (i + 1)) := by
  have hdigest : ∀ (i : Nat) (hi : i < (first :: rest).length),
      x.bytes (.digest i) = (hexDecodeEven (first :: rest)[i].digestHex).toOption := by
    intro i hi
    simp [bytes, hheaders, List.getElem?_eq_getElem hi]
  have hparent : ∀ (i : Nat) (hi : i < (first :: rest).length),
      x.bytes (.parent i) = (hexDecodeEven (first :: rest)[i].parentHex).toOption := by
    intro i hi
    simp [bytes, hheaders, List.getElem?_eq_getElem hi]
  rw [List.isChain_iff_getElem, List.isChain_iff_getElem, List.getLast_eq_getElem, hheaders]
  simp only [List.length_cons, Nat.add_sub_cancel]
  constructor
  · rintro ⟨hfirst, hlinks, hend, ⟨p, hp⟩, hheight⟩
    refine ⟨⟨fun i hi => (hlinks i hi).2.2, hheight, fun i hi => ?_⟩, ?_, ?_, fun i hi => ?_⟩
    · rw [hdigest i hi, hparent i hi]
      rcases Nat.lt_succ_iff_lt_or_eq.mp hi with hlt | rfl
      · obtain ⟨⟨d, hd⟩, ⟨p, hp, -⟩, -⟩ := hlinks i (by simpa using hlt)
        simp [hd, hp, Except.toOption]
      · simp [hend, hp, Except.toOption]
    · rw [hdigest 0 (by simp), toOption_eq_some]
      exact hfirst
    · rw [hdigest rest.length (by simp), toOption_eq_some]
      exact hend
    · obtain ⟨-, ⟨p, hp, hnext⟩, -⟩ := hlinks i (by simpa using hi)
      rw [hparent i (by simp; omega), hdigest (i + 1) (by simpa using hi), hp, hnext]
  · rintro ⟨⟨hheights, hheight, htexts⟩, hfirst, hend, hagree⟩
    refine ⟨?_, fun i hi => ?_, ?_, ?_, hheight⟩
    · rw [hdigest 0 (by simp), toOption_eq_some] at hfirst
      exact hfirst
    · have hi' : i < rest.length := by simpa using hi
      obtain ⟨hd, hp⟩ := htexts i (by omega)
      have hsame := hagree i hi'
      rw [hdigest i (by simp; omega)] at hd
      rw [hparent i (by simp; omega)] at hp hsame
      rw [hdigest (i + 1) hi] at hsame
      obtain ⟨d, hd⟩ := Option.isSome_iff_exists.mp hd
      exact ⟨⟨d, toOption_eq_some.mp hd⟩, (toOption_eq_toOption hp).mp hsame, hheights i hi⟩
    · rw [hdigest rest.length (by simp), toOption_eq_some] at hend
      exact hend
    · obtain ⟨p, hp⟩ := Option.isSome_iff_exists.mp (htexts rest.length (by simp)).2
      rw [hparent rest.length (by simp), toOption_eq_some] at hp
      exact ⟨p, hp⟩

theorem verify_eq_ok_above (hne : x.lastHeight ≠ x.checkpoint.height) :
    x.verify overflowChecks = .ok () ↔ x.Sound overflowChecks ∧ AllAgree x.bytes x.comparisons := by
  have hcomparisons : AllAgree x.bytes x.comparisons ↔
      x.bytes (.digest 0) = x.bytes .last ∧
        x.bytes (.digest (x.headers.length - 1)) = x.bytes .checkpoint ∧
        ∀ i < x.headers.length - 1, x.bytes (.parent i) = x.bytes (.digest (i + 1)) := by
    unfold AllAgree comparisons
    rw [if_neg hne, List.forall_mem_cons, List.forall_mem_cons, List.forall_mem_map]
    simp only [List.mem_range]
  rw [hcomparisons]
  unfold verify Sound HeightsFit
  rw [verifyHeaderChainToCheckpoint_eq_ok]
  cases hheaders : x.headers with
  | nil => simp [hne]
  | cons first rest =>
    have hchain := chain_iff overflowChecks hheaders
    rw [hheaders] at hchain
    have hmap : ((first :: rest).map NockHeaderLink.height).IsChain
        (fun a b => addU64 overflowChecks b 1 = .ok a) ↔
          (first :: rest).IsChain fun a b => addU64 overflowChecks b.height 1 = .ok a.height :=
      List.isChain_map NockHeaderLink.height
    have hlast : ((first :: rest).map NockHeaderLink.height).getLast? = some x.checkpoint.height ↔
        ((first :: rest).getLast (List.cons_ne_nil first rest)).height = x.checkpoint.height := by
      rw [List.getLast?_map, List.getLast?_eq_some_getLast (List.cons_ne_nil first rest),
        Option.map_some, Option.some.injEq]
    rw [hmap, hlast]
    simp only [hne, false_and, false_or, List.map_cons, List.head?_cons, Option.some.injEq,
      List.length_cons, Nat.add_sub_cancel]
    constructor
    · rintro ⟨habove, _, _, hcons, hfirst, hheight, hrest⟩
      obtain ⟨rfl, rfl⟩ := List.cons.inj hcons
      obtain ⟨⟨hheights, hend, htexts⟩, hagree⟩ := hchain.mp ⟨hfirst, hrest⟩
      exact ⟨⟨⟨habove, hheight, hheights, hend⟩, htexts⟩, hagree⟩
    · rintro ⟨⟨⟨habove, hheight, hheights, hend⟩, htexts⟩, hagree⟩
      obtain ⟨hfirst, hrest⟩ := hchain.mpr ⟨⟨hheights, hend, htexts⟩, hagree⟩
      exact ⟨habove, first, rest, rfl, hfirst, hheight, hrest⟩

/-- The verdict: the check is sound apart from the comparisons, and these all succeed. -/
theorem verify_eq_ok_iff (overflowChecks : Bool) (x : HeaderCheck) :
    x.verify overflowChecks = .ok () ↔ x.Sound overflowChecks ∧ AllAgree x.bytes x.comparisons := by
  by_cases hsame : x.lastHeight = x.checkpoint.height
  · exact verify_eq_ok_same hsame
  · exact verify_eq_ok_above hsame

/-! ## One digest replaced -/

theorem bytes_replace {field : DigestField} {d : List UInt8} (hd : x.bytes field = some d)
    (d' : List UInt8) : (x.replace d' field).bytes = Function.update x.bytes field (some d') := by
  funext other
  cases field with
  | last => cases other <;> simp [replace, bytes]
  | checkpoint => cases other <;> simp [replace, bytes]
  | digest i =>
    obtain ⟨header, hheader, -⟩ := Option.bind_eq_some_iff.mp hd
    cases other with
    | digest j =>
      by_cases hij : i = j
      · subst hij
        simp [replace, bytes, hheader, hexDecodeEven_hexEncode, Except.toOption]
      · rw [Function.update_of_ne (by simpa using Ne.symm hij)]
        simp [replace, bytes, hij]
    | parent j =>
      rw [Function.update_of_ne (by simp)]
      simp only [replace, bytes, List.getElem?_modify]
      cases x.headers[j]? with
      | none => rfl
      | some h => by_cases hij : i = j <;> simp [hij]
    | _ => simp [replace, bytes]
  | parent i =>
    obtain ⟨header, hheader, -⟩ := Option.bind_eq_some_iff.mp hd
    cases other with
    | parent j =>
      by_cases hij : i = j
      · subst hij
        simp [replace, bytes, hheader, hexDecodeEven_hexEncode, Except.toOption]
      · rw [Function.update_of_ne (by simpa using Ne.symm hij)]
        simp [replace, bytes, hij]
    | digest j =>
      rw [Function.update_of_ne (by simp)]
      simp only [replace, bytes, List.getElem?_modify]
      cases x.headers[j]? with
      | none => rfl
      | some h => by_cases hij : i = j <;> simp [hij]
    | _ => simp [replace, bytes]

/-- The heights, and with them what is compared, stay as they are. -/
theorem heights_replace (x : HeaderCheck) (d' : List UInt8) (field : DigestField) :
    (x.replace d' field).lastHeight = x.lastHeight ∧
      (x.replace d' field).checkpoint.height = x.checkpoint.height ∧
      (x.replace d' field).headers.map NockHeaderLink.height = x.headers.map NockHeaderLink.height := by
  have hmodify : ∀ (i : Nat) (f : NockHeaderLink → NockHeaderLink), (∀ h, (f h).height = h.height) →
      (x.headers.modify i f).map NockHeaderLink.height = x.headers.map NockHeaderLink.height := by
    intro i f hf
    refine List.ext_getElem? fun j => ?_
    rw [List.getElem?_map, List.getElem?_map, List.getElem?_modify]
    cases x.headers[j]? with
    | none => rfl
    | some h => by_cases hij : i = j <;> simp [hij, hf]
  cases field with
  | digest i => exact ⟨rfl, rfl, hmodify i _ fun _ => rfl⟩
  | parent i => exact ⟨rfl, rfl, hmodify i _ fun _ => rfl⟩
  | _ => exact ⟨rfl, rfl, rfl⟩

theorem length_replace (x : HeaderCheck) (d' : List UInt8) (field : DigestField) :
    (x.replace d' field).headers.length = x.headers.length := by
  simpa using congrArg List.length (heights_replace x d' field).2.2

theorem comparisons_replace (x : HeaderCheck) (d' : List UInt8) (field : DigestField) :
    (x.replace d' field).comparisons = x.comparisons := by
  obtain ⟨hlast, hcheckpoint, -⟩ := heights_replace x d' field
  unfold comparisons
  rw [hlast, hcheckpoint, length_replace]

theorem sound_replace {field : DigestField} {d : List UInt8} (hd : x.bytes field = some d)
    (d' : List UInt8) : (x.replace d' field).Sound overflowChecks ↔ x.Sound overflowChecks := by
  obtain ⟨hlast, hcheckpoint, hheights⟩ := heights_replace x d' field
  have hnil : (x.replace d' field).headers = [] ↔ x.headers = [] := by
    rw [← List.length_eq_zero_iff, length_replace, List.length_eq_zero_iff]
  have hsome : ∀ other, ((x.replace d' field).bytes other).isSome = (x.bytes other).isSome := by
    intro other
    rw [bytes_replace hd]
    by_cases hother : other = field
    · simp [hother, hd]
    · rw [Function.update_of_ne hother]
  unfold Sound HeightsFit
  rw [hlast, hcheckpoint, hheights, hnil, length_replace]
  simp only [hsome]

/-- When other bytes for a digest leave the verdict as it is, also where they are another
serialisation of the same atom. -/
theorem verify_width_iff (overflowChecks : Bool) (x : HeaderCheck) (field : DigestField)
    (d d' : List UInt8) (hd : x.bytes field = some d) :
    ((x.replace d' field).verify overflowChecks = .ok () ↔ x.verify overflowChecks = .ok ()) ↔
      ¬x.Sound overflowChecks ∨ d' = d ∨ FailsWithout x.bytes x.comparisons field ∨
        (∀ other, ¬Compared x.comparisons field other) ∨
        ((∃ other, Compared x.comparisons field other ∧ x.bytes other ≠ some d) ∧
          ∃ other, Compared x.comparisons field other ∧ x.bytes other ≠ some d') := by
  rw [verify_eq_ok_iff, verify_eq_ok_iff, sound_replace hd, comparisons_replace, bytes_replace hd]
  have hupdate := allAgree_update_iff (v := x.bytes) (comparisons_ne (x := x)) field (some d')
  rw [hd, Option.some.injEq] at hupdate
  by_cases hsound : x.Sound overflowChecks
  · simp only [hsound, true_and, not_true_eq_false, false_or]
    exact hupdate
  · simp [hsound]

/-- The parent of the last header is compared with nothing. -/
theorem verify_width_iff_three :
    (HeaderCheck.replace ⟨3, [3], ⟨1, [1]⟩, threeHeaders⟩ [0, 0] (.parent 2)).verify true = .ok () ↔
      HeaderCheck.verify true ⟨3, [3], ⟨1, [1]⟩, threeHeaders⟩ = .ok () := by
  refine (verify_width_iff true ⟨3, [3], ⟨1, [1]⟩, threeHeaders⟩ (.parent 2) [0] [0, 0]
    (by decide)).mpr (Or.inr (Or.inr (Or.inr (Or.inl ?_))))
  rintro other (hother | hother)
  · simp [comparisons, threeHeaders, List.range_succ] at hother
  · simp [comparisons, threeHeaders, List.range_succ] at hother

/-- A digest with a zero high byte, as the follower and the kernel serialise it. -/
def paddedDigest : List UInt8 := List.replicate 39 1 ++ [0]

theorem verify_depends_on_width :
    ¬∀ (x : HeaderCheck) (field : DigestField) (d d' : List UInt8), x.bytes field = some d →
      d.length ≤ 40 → d'.length ≤ 40 → leValue d = leValue d' →
        ((x.replace d' field).verify true = .ok () ↔ x.verify true = .ok ()) := by
  intro h
  have hwidth := h ⟨5, paddedDigest, ⟨5, paddedDigest⟩, []⟩ .last paddedDigest
    (List.replicate 39 1) rfl (by decide) (by decide) (by decide)
  exact absurd (hwidth.mpr (by decide)) (by decide)

end HeaderCheck

end NnsVerified.Hull
