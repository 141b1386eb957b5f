import NnsVerified.Hoon.Noun
import NnsVerified.Hull.WalletY4
import NnsVerified.Library.Chains

/-!
# The walk down to the checkpoint

`verify_header_chain_to_checkpoint` checks each header against the next one and the last against the
checkpoint. It accepts exactly the chains that go down without a gap from the last proved block to
the checkpoint. The heights come from the server, and the walk adds one to a height and takes one
from another without looking at them first.
-/

namespace NnsVerified.Hull

open NnsVerified.Hoon NnsVerified.Library

/-! ## The walk, link by link -/

/-- The check of a header against the next one. -/
def checkLink (overflowChecks : Bool) (i : Nat) (header next : NockHeaderLink) :
    Except Failure Unit := do
  let _d ← hexDecodeEven header.digestHex
  let p ← hexDecodeEven header.parentHex
  let dNext ← hexDecodeEven next.digestHex
  if p ≠ dNext then
    .error (.message s!"header chain break at index {i}: parent does not match next digest")
  else do
    let above ← addU64 overflowChecks next.height 1
    if above ≠ header.height then do
      let expected ← subU64 overflowChecks header.height 1
      .error (.message
        s!"header height gap at index {i}: expected height {expected}, got {next.height}")
    else .ok ()

/-- The check of the last header against the checkpoint. -/
def checkLast (checkpoint : CheckpointConfig) (_i : Nat) (header : NockHeaderLink) :
    Except Failure Unit := do
  let d ← hexDecodeEven header.digestHex
  let _p ← hexDecodeEven header.parentHex
  if header.height ≠ checkpoint.height then
    .error (.message (s!"terminal header height {header.height} does not match checkpoint " ++
      s!"height {checkpoint.height}"))
  else if d ≠ checkpoint.digest then
    .error (.message "terminal header digest does not match checkpoint digest")
  else .ok ()

theorem loop_eq_walkLinks (overflowChecks : Bool) (checkpoint : CheckpointConfig) (i : Nat)
    (headers : List NockHeaderLink) :
    verifyHeaderChainToCheckpoint.loop overflowChecks checkpoint i headers =
      walkLinks (checkLink overflowChecks) (checkLast checkpoint) i headers := by
  induction headers generalizing i with
  | nil => rfl
  | cons header rest ih =>
    cases rest with
    | nil => rfl
    | cons next rest =>
      rw [verifyHeaderChainToCheckpoint.loop, walkLinks, ← ih]
      unfold checkLink
      cases hexDecodeEven header.digestHex with
      | error e => rfl
      | ok d =>
        cases hexDecodeEven header.parentHex with
        | error e => rfl
        | ok p =>
          cases hexDecodeEven next.digestHex with
          | error e => rfl
          | ok dNext =>
            simp only [ok_bind]
            split
            · rfl
            · cases addU64 overflowChecks next.height 1 with
              | error e => rfl
              | ok above =>
                simp only [ok_bind]
                split
                · cases subU64 overflowChecks header.height 1 <;> rfl
                · rfl

/-- The next header is the parent of a header, one below it. -/
def Links (overflowChecks : Bool) (header next : NockHeaderLink) : Prop :=
  (∃ d, hexDecodeEven header.digestHex = .ok d) ∧
    (∃ p, hexDecodeEven header.parentHex = .ok p ∧ hexDecodeEven next.digestHex = .ok p) ∧
    addU64 overflowChecks next.height 1 = .ok header.height

/-- A header is the block of the checkpoint. -/
def EndsAt (checkpoint : CheckpointConfig) (header : NockHeaderLink) : Prop :=
  hexDecodeEven header.digestHex = .ok checkpoint.digest ∧
    (∃ p, hexDecodeEven header.parentHex = .ok p) ∧ header.height = checkpoint.height

theorem checkLink_eq_ok {overflowChecks : Bool} (i : Nat) (header next : NockHeaderLink) :
    checkLink overflowChecks i header next = .ok () ↔ Links overflowChecks header next := by
  unfold checkLink Links
  constructor
  · intro h
    obtain ⟨d, hd, h⟩ := bind_eq_ok h
    obtain ⟨p, hp, h⟩ := bind_eq_ok h
    obtain ⟨dNext, hnext, h⟩ := bind_eq_ok h
    split at h
    · cases h
    · rename_i hlink
      obtain rfl := not_not.mp hlink
      obtain ⟨above, habove, h⟩ := bind_eq_ok h
      split at h
      · obtain ⟨expected, -, h⟩ := bind_eq_ok h
        cases h
      · rename_i hheight
        obtain rfl := not_not.mp hheight
        exact ⟨⟨d, hd⟩, ⟨p, hp, hnext⟩, habove⟩
  · rintro ⟨⟨d, hd⟩, ⟨p, hp, hnext⟩, habove⟩
    simp [hd, hp, hnext, habove]

theorem checkLast_eq_ok {checkpoint : CheckpointConfig} (i : Nat) (header : NockHeaderLink) :
    checkLast checkpoint i header = .ok () ↔ EndsAt checkpoint header := by
  unfold checkLast EndsAt
  constructor
  · intro h
    obtain ⟨d, hd, h⟩ := bind_eq_ok h
    obtain ⟨p, hp, h⟩ := bind_eq_ok h
    split at h
    · cases h
    · rename_i hheight
      split at h
      · cases h
      · rename_i hdigest
        obtain rfl := not_not.mp hdigest
        exact ⟨hd, ⟨p, hp⟩, not_not.mp hheight⟩
  · rintro ⟨hd, ⟨p, hp⟩, hheight⟩
    simp [hd, hp, hheight]

variable {overflowChecks : Bool} {lastHeight : UInt64} {lastDigest : List UInt8}
  {checkpoint : CheckpointConfig} {headers : List NockHeaderLink}

/-- What the walk accepts, whatever the texts and the heights. -/
theorem verifyHeaderChainToCheckpoint_eq_ok :
    verifyHeaderChainToCheckpoint overflowChecks lastHeight lastDigest checkpoint headers = .ok () ↔
      (lastHeight = checkpoint.height ∧ headers = [] ∧ lastDigest = checkpoint.digest) ∨
      (checkpoint.height < lastHeight ∧ ∃ first rest, headers = first :: rest ∧
        hexDecodeEven first.digestHex = .ok lastDigest ∧ first.height = lastHeight ∧
        (first :: rest).IsChain (Links overflowChecks) ∧
        EndsAt checkpoint ((first :: rest).getLast (List.cons_ne_nil first rest))) := by
  unfold verifyHeaderChainToCheckpoint
  by_cases hsame : lastHeight = checkpoint.height
  · rw [if_pos hsame]
    have hirrefl : ¬checkpoint.height < lastHeight := by simp [hsame]
    cases headers with
    | nil => by_cases hdigest : lastDigest = checkpoint.digest <;> simp [hsame, hdigest]
    | cons first rest => simp [hirrefl]
  · rw [if_neg hsame]
    by_cases hbelow : lastHeight < checkpoint.height
    · have hnot : ¬checkpoint.height < lastHeight := UInt64.lt_asymm hbelow
      simp [hbelow, hsame, hnot]
    · have habove : checkpoint.height < lastHeight :=
        UInt64.lt_of_le_of_ne (UInt64.not_lt.mp hbelow) (Ne.symm hsame)
      rw [if_neg hbelow]
      cases headers with
      | nil => simp [hsame]
      | cons first rest =>
        simp only [hsame, habove, false_and, false_or, true_and, List.cons.injEq]
        rw [bind_eq_ok_iff]
        constructor
        · rintro ⟨d, hd, h⟩
          split at h
          · cases h
          · rename_i hdigest
            split at h
            · cases h
            · rename_i hheight
              rw [loop_eq_walkLinks, walkLinks_eq_ok checkLink_eq_ok checkLast_eq_ok] at h
              obtain rfl := not_not.mp hdigest
              exact ⟨first, rest, ⟨rfl, rfl⟩, hd, not_not.mp hheight, h⟩
        · rintro ⟨_, _, ⟨rfl, rfl⟩, hd, hheight, h⟩
          refine ⟨lastDigest, hd, ?_⟩
          rw [if_neg (not_not.mpr rfl), if_neg (not_not.mpr hheight), loop_eq_walkLinks,
            walkLinks_eq_ok checkLink_eq_ok checkLast_eq_ok]
          exact h

/-! ## Contiguous chains -/

/-- A text of lower-case hex. -/
def LowerHex (s : String) : Prop := ∃ bytes, s = hexEncode bytes

theorem hexEncode_injective : Function.Injective hexEncode := by
  intro a b h
  have hdecoded := hexDecodeEven_hexEncode a
  rw [h, hexDecodeEven_hexEncode] at hdecoded
  exact (Except.ok.inj hdecoded).symm

/-- Lower-case hex is the encoding of what it decodes to. -/
theorem LowerHex.decode_iff {s : String} (h : LowerHex s) (bytes : List UInt8) :
    hexDecodeEven s = .ok bytes ↔ s = hexEncode bytes := by
  obtain ⟨bs, rfl⟩ := h
  rw [hexDecodeEven_hexEncode, Except.ok.injEq]
  exact hexEncode_injective.eq_iff.symm

theorem addU64_one {a b : UInt64} (h : b.toNat < 2 ^ 64 - 1) :
    addU64 overflowChecks b 1 = .ok a ↔ a.toNat = b.toNat + 1 := by
  have hsum : (b + 1).toNat = b.toNat + 1 := by
    rw [UInt64.toNat_add, Nat.mod_eq_of_lt (by simp; omega)]
    rfl
  have hfits : ¬2 ^ 64 ≤ b.toNat + (1 : UInt64).toNat := by
    have hone : (1 : UInt64).toNat = 1 := rfl
    omega
  unfold addU64
  simp only [hfits, decide_false, Bool.and_false, Bool.false_eq_true, if_false, Except.ok.injEq]
  rw [← UInt64.toNat_inj, hsum, eq_comm]

/-- Where the texts are lower-case hex and the heights can be incremented, a link is what it
should be. -/
theorem links_iff {header next : NockHeaderLink} (hdigest : LowerHex header.digestHex)
    (hparent : LowerHex header.parentHex) (hnext : LowerHex next.digestHex)
    (hheight : next.height.toNat < 2 ^ 64 - 1) :
    Links overflowChecks header next ↔
      header.parentHex = next.digestHex ∧ header.height.toNat = next.height.toNat + 1 := by
  obtain ⟨d, hd⟩ := hdigest
  obtain ⟨p, hp⟩ := hparent
  unfold Links
  rw [addU64_one hheight, hd, hp]
  simp only [hexDecodeEven_hexEncode, hnext.decode_iff, Except.ok.injEq, exists_eq', true_and,
    exists_eq_left', eq_comm]

/-- The chain goes down from the last proved block to the checkpoint, block by block. -/
structure Contiguous (lastHeight : UInt64) (lastDigest : List UInt8) (checkpoint : CheckpointConfig)
    (headers : List NockHeaderLink) : Prop where
  length : headers.length = lastHeight.toNat - checkpoint.height.toNat + 1
  heights : ∀ (i : Nat) (hi : i < headers.length),
    headers[i].height.toNat = lastHeight.toNat - i
  first : ∃ header ∈ headers.head?, header.digestHex = hexEncode lastDigest
  parents : ∀ (i : Nat) (hi : i + 1 < headers.length), headers[i].parentHex = headers[i + 1].digestHex
  last : ∃ header ∈ headers.getLast?, header.digestHex = hexEncode checkpoint.digest

/-- The walk accepts exactly the contiguous chains. -/
theorem verifyHeaderChainToCheckpoint_contiguous (overflowChecks : Bool) (lastHeight : UInt64)
    (lastDigest : List UInt8) (checkpoint : CheckpointConfig) (headers : List NockHeaderLink)
    (hhex : ∀ header ∈ headers, LowerHex header.digestHex ∧ LowerHex header.parentHex)
    (hheights : ∀ header ∈ headers, header.height.toNat < 2 ^ 64 - 1) :
    verifyHeaderChainToCheckpoint overflowChecks lastHeight lastDigest checkpoint headers = .ok () ↔
      (lastHeight = checkpoint.height ∧ headers = [] ∧ lastDigest = checkpoint.digest) ∨
      (checkpoint.height < lastHeight ∧
        Contiguous lastHeight lastDigest checkpoint headers) := by
  rw [verifyHeaderChainToCheckpoint_eq_ok]
  refine or_congr_right (and_congr_right fun habove => ?_)
  rw [UInt64.lt_iff_toNat_lt] at habove
  have hlinks : ∀ (i : Nat) (hi : i + 1 < headers.length),
      Links overflowChecks headers[i] headers[i + 1] ↔
        headers[i].parentHex = headers[i + 1].digestHex ∧
          headers[i].height.toNat = headers[i + 1].height.toNat + 1 := fun i hi =>
    links_iff (hhex _ (List.getElem_mem _)).1 (hhex _ (List.getElem_mem _)).2
      (hhex _ (List.getElem_mem _)).1 (hheights _ (List.getElem_mem _))
  constructor
  · rintro ⟨first, rest, rfl, hfirst, hfirstHeight, hchain, hend, -, hendHeight⟩
    have hdown : (first :: rest).IsChain fun x y => x.height.toNat = y.height.toNat + 1 :=
      List.isChain_iff_getElem.mpr fun i hi =>
        ((hlinks i hi).mp (List.isChain_iff_getElem.mp hchain i hi)).2
    have hheight : ∀ (i : Nat) (hi : i < (first :: rest).length),
        (first :: rest)[i].height.toNat + i = lastHeight.toNat := by
      intro i hi
      rw [← hfirstHeight]
      exact isChain_pred_getElem (f := fun header => header.height.toNat) hdown i hi
    have hlast := hheight rest.length (by simp)
    rw [List.getLast_eq_getElem] at hendHeight
    simp only [List.length_cons, Nat.add_sub_cancel] at hendHeight
    rw [hendHeight] at hlast
    refine ⟨?_, fun i hi => ?_, ⟨first, rfl, ?_⟩, fun i hi => ?_, _,
      List.getLast_mem_getLast? (List.cons_ne_nil first rest), ?_⟩
    · rw [List.length_cons]
      omega
    · have hi' := hheight i hi
      omega
    · exact ((hhex first (by simp)).1.decode_iff _).mp hfirst
    · exact ((hlinks i hi).mp (List.isChain_iff_getElem.mp hchain i hi)).1
    · exact ((hhex _ (List.getLast_mem _)).1.decode_iff _).mp hend
  · intro h
    cases headers with
    | nil => simpa using h.length
    | cons first rest =>
      obtain ⟨_, hhead, hfirst⟩ := h.first
      obtain rfl := Option.some.inj hhead
      obtain ⟨last, hgetLast, hlastDigest⟩ := h.last
      rw [List.getLast?_eq_some_getLast (List.cons_ne_nil _ rest), Option.mem_some_iff] at hgetLast
      obtain ⟨p, hp⟩ := (hhex last (hgetLast ▸ List.getLast_mem _)).2
      refine ⟨first, rest, rfl, ?_, ?_, ?_, ?_, ⟨p, ?_⟩, ?_⟩
      · rw [hfirst, hexDecodeEven_hexEncode]
      · exact UInt64.toNat_inj.mp (h.heights 0 (by simp))
      · refine List.isChain_iff_getElem.mpr fun i hi => (hlinks i hi).mpr ⟨h.parents i hi, ?_⟩
        have hupper := h.heights i (by omega)
        have hlower := h.heights (i + 1) hi
        have hlength := h.length
        omega
      · rw [hgetLast, hlastDigest, hexDecodeEven_hexEncode]
      · rw [hgetLast, hp, hexDecodeEven_hexEncode]
      · have hheight := h.heights rest.length (by simp)
        have hlength := h.length
        rw [List.length_cons] at hlength
        refine UInt64.toNat_inj.mp ?_
        rw [List.getLast_eq_getElem]
        simp only [List.length_cons, Nat.add_sub_cancel]
        omega

/-- The chain of the blocks 3, 2 and 1, whose digests are their heights. -/
def threeHeaders : List NockHeaderLink :=
  [⟨3, hexEncode [3], hexEncode [2]⟩, ⟨2, hexEncode [2], hexEncode [1]⟩,
    ⟨1, hexEncode [1], hexEncode [0]⟩]

theorem verifyHeaderChainToCheckpoint_contiguous_three :
    Contiguous 3 [3] ⟨1, [1]⟩ threeHeaders := by
  have hwalk := verifyHeaderChainToCheckpoint_contiguous true 3 [3] ⟨1, [1]⟩ threeHeaders
    (by
      intro header hheader
      simp only [threeHeaders, List.mem_cons, List.not_mem_nil, or_false] at hheader
      rcases hheader with rfl | rfl | rfl <;> exact ⟨⟨_, rfl⟩, _, rfl⟩)
    (by decide)
  rcases hwalk.mp (by decide) with ⟨hsame, -⟩ | ⟨-, hcontiguous⟩
  · exact absurd hsame (by decide)
  · exact hcontiguous

/-! ## Panics -/

theorem bind_eq_panic {α β : Type} {x : Except Failure α} {f : α → Except Failure β} :
    x >>= f = .error .panic ↔ x = .error .panic ∨ ∃ a, x = .ok a ∧ f a = .error .panic := by
  cases x with
  | ok a => simp
  | error e => simp [bind, Except.bind]

/-- A text whose decoding panics, in a slice that ends within a character. -/
def HexPanics (s : String) : Prop := hexDecodeEven s = .error .panic

/-- The check of a link panics: a text does, or the digests link and then the height of the next
header cannot be incremented or the height of this one, which the message asks for, cannot be
decremented. -/
def LinkPanics (header next : NockHeaderLink) : Prop :=
  HexPanics header.digestHex ∨ (∃ d, hexDecodeEven header.digestHex = .ok d) ∧
    (HexPanics header.parentHex ∨ ∃ p, hexDecodeEven header.parentHex = .ok p ∧
      (HexPanics next.digestHex ∨ hexDecodeEven next.digestHex = .ok p ∧
        (next.height.toNat = 2 ^ 64 - 1 ∨ header.height = 0)))

/-- The check of the last header panics. -/
def LastPanics (header : NockHeaderLink) : Prop :=
  HexPanics header.digestHex ∨
    (∃ d, hexDecodeEven header.digestHex = .ok d) ∧ HexPanics header.parentHex

theorem addU64_one_panic (b : UInt64) :
    addU64 true b 1 = .error .panic ↔ b.toNat = 2 ^ 64 - 1 := by
  have hlt := b.toNat_lt
  have hone : (1 : UInt64).toNat = 1 := rfl
  unfold addU64
  by_cases hmax : b.toNat = 2 ^ 64 - 1
  · simp [hmax, hone]
  · have hfits : ¬2 ^ 64 ≤ b.toNat + (1 : UInt64).toNat := by omega
    simp only [hfits, hmax, decide_false, Bool.and_false, Bool.false_eq_true, if_false]
    simp

theorem subU64_one_panic (b : UInt64) : subU64 true b 1 = .error .panic ↔ b = 0 := by
  unfold subU64
  have hzero : b < 1 ↔ b = 0 := by
    rw [UInt64.lt_iff_toNat_lt, ← UInt64.toNat_inj]
    have hone : (1 : UInt64).toNat = 1 := rfl
    have hnull : (0 : UInt64).toNat = 0 := rfl
    omega
  by_cases hb : b = 0
  · simp [hb]
  · simp [hb, hzero]

/-- The heights alone: incrementing one and, where they do not fit, decrementing the other. -/
theorem heights_panic_iff (header next : NockHeaderLink) (i : Nat) :
    (do
      let above ← addU64 true next.height 1
      if above ≠ header.height then do
        let expected ← subU64 true header.height 1
        .error (.message
          s!"header height gap at index {i}: expected height {expected}, got {next.height}")
      else .ok () : Except Failure Unit) = .error .panic ↔
      next.height.toNat = 2 ^ 64 - 1 ∨ header.height = 0 := by
  rw [bind_eq_panic, addU64_one_panic]
  by_cases hmax : next.height.toNat = 2 ^ 64 - 1
  · simp [hmax]
  · have hlt : next.height.toNat < 2 ^ 64 - 1 := by
      have := next.height.toNat_lt
      omega
    simp only [hmax, false_or, addU64_one hlt]
    constructor
    · rintro ⟨above, -, h⟩
      split at h
      · rcases bind_eq_panic.mp h with hsub | ⟨_, -, h⟩
        · exact (subU64_one_panic _).mp hsub
        · cases h
      · cases h
    · intro hzero
      have habove : (UInt64.ofNat (next.height.toNat + 1)).toNat = next.height.toNat + 1 := by
        rw [UInt64.toNat_ofNat', Nat.mod_eq_of_lt (by omega)]
      refine ⟨UInt64.ofNat (next.height.toNat + 1), habove, ?_⟩
      have hne : UInt64.ofNat (next.height.toNat + 1) ≠ header.height := by
        intro heq
        rw [heq, hzero] at habove
        exact absurd habove (by simp)
      rw [if_pos hne, bind_eq_panic]
      exact Or.inl ((subU64_one_panic _).mpr hzero)

theorem checkLink_panic_iff (i : Nat) (header next : NockHeaderLink) :
    checkLink true i header next = .error .panic ↔ LinkPanics header next := by
  unfold checkLink LinkPanics HexPanics
  cases hexDecodeEven header.digestHex with
  | error e => simp [bind, Except.bind]
  | ok d =>
    cases hexDecodeEven header.parentHex with
    | error e => simp [bind, Except.bind]
    | ok p =>
      cases hexDecodeEven next.digestHex with
      | error e => simp [bind, Except.bind]
      | ok dNext =>
        simp only [ok_bind]
        by_cases hlink : p = dNext
        · rw [if_neg (not_not.mpr hlink)]
          refine (heights_panic_iff header next i).trans ?_
          simp [hlink]
        · simp [hlink, Ne.symm hlink]

theorem checkLast_panic_iff (i : Nat) (header : NockHeaderLink) :
    checkLast checkpoint i header = .error .panic ↔ LastPanics header := by
  unfold checkLast LastPanics HexPanics
  cases hexDecodeEven header.digestHex with
  | error e => simp [bind, Except.bind]
  | ok d =>
    cases hexDecodeEven header.parentHex with
    | error e => simp [bind, Except.bind]
    | ok p =>
      simp only [ok_bind]
      split_ifs <;> simp

/-- The walk gets to a check that panics: the last proved block is above the checkpoint, the first
header is that block, and its headers are linked down to the header of that check. -/
def WalkPanics (lastHeight : UInt64) (lastDigest : List UInt8) (checkpoint : CheckpointConfig)
    (headers : List NockHeaderLink) : Prop :=
  checkpoint.height < lastHeight ∧ ∃ first ∈ headers.head?,
    HexPanics first.digestHex ∨
      (hexDecodeEven first.digestHex = .ok lastDigest ∧ first.height = lastHeight ∧
        ∃ before header after, headers = before ++ header :: after ∧
          (before ++ [header]).IsChain (Links true) ∧
          ((after = [] ∧ LastPanics header) ∨ ∃ next ∈ after.head?, LinkPanics header next))

/-- With overflow checks on, the walk returns a verdict except where it gets to such a check. -/
theorem verifyHeaderChainToCheckpoint_returns_iff (lastHeight : UInt64) (lastDigest : List UInt8)
    (checkpoint : CheckpointConfig) (headers : List NockHeaderLink) :
    (verifyHeaderChainToCheckpoint true lastHeight lastDigest checkpoint headers = .ok () ∨
      ∃ e, verifyHeaderChainToCheckpoint true lastHeight lastDigest checkpoint headers
        = .error (.message e)) ↔
      ¬WalkPanics lastHeight lastDigest checkpoint headers := by
  have hreturns : ∀ x : Except Failure Unit,
      (x = .ok () ∨ ∃ e, x = .error (.message e)) ↔ x ≠ .error .panic := by
    rintro (e | u)
    · cases e <;> simp
    · simp
  rw [hreturns]
  refine not_congr ?_
  unfold verifyHeaderChainToCheckpoint WalkPanics
  by_cases hsame : lastHeight = checkpoint.height
  · rw [if_pos hsame]
    have hirrefl : ¬checkpoint.height < lastHeight := by simp [hsame]
    simp only [hirrefl, false_and, iff_false]
    split_ifs <;> simp
  · rw [if_neg hsame]
    by_cases hbelow : lastHeight < checkpoint.height
    · have hnot : ¬checkpoint.height < lastHeight := UInt64.lt_asymm hbelow
      simp [hbelow, hnot]
    · have habove : checkpoint.height < lastHeight :=
        UInt64.lt_of_le_of_ne (UInt64.not_lt.mp hbelow) (Ne.symm hsame)
      rw [if_neg hbelow]
      cases headers with
      | nil => simp
      | cons first rest =>
        simp only [habove, true_and, List.head?_cons, Option.mem_some_iff, exists_eq_left']
        rw [bind_eq_panic, loop_eq_walkLinks,
          ← walkLinks_eq_error checkLink_eq_ok checkLink_panic_iff checkLast_panic_iff 0]
        refine or_congr_right ?_
        constructor
        · rintro ⟨d, hd, h⟩
          split at h
          · cases h
          · rename_i hdigest
            obtain rfl := not_not.mp hdigest
            split at h
            · cases h
            · rename_i hheight
              exact ⟨hd, not_not.mp hheight, h⟩
        · rintro ⟨hd, hheight, h⟩
          exact ⟨lastDigest, hd, by rw [if_neg (not_not.mpr rfl), if_neg (not_not.mpr hheight), h]⟩

/-- The first header is the last proved block 5; the next one has the largest height there is. -/
theorem verifyHeaderChainToCheckpoint_overflows :
    ¬∀ (lastHeight : UInt64) (lastDigest : List UInt8) (checkpoint : CheckpointConfig)
      (headers : List NockHeaderLink),
      verifyHeaderChainToCheckpoint true lastHeight lastDigest checkpoint headers = .ok () ∨
        ∃ e, verifyHeaderChainToCheckpoint true lastHeight lastDigest checkpoint headers
          = .error (.message e) := by
  intro h
  have hpanic : verifyHeaderChainToCheckpoint true 5 [5] ⟨3, [3]⟩
      [⟨5, hexEncode [5], hexEncode [4]⟩,
        ⟨UInt64.ofNat (2 ^ 64 - 1), hexEncode [4], hexEncode [3]⟩] = .error .panic := by
    decide
  have hreturns := h 5 [5] ⟨3, [3]⟩ [⟨5, hexEncode [5], hexEncode [4]⟩,
    ⟨UInt64.ofNat (2 ^ 64 - 1), hexEncode [4], hexEncode [3]⟩]
  rw [hpanic] at hreturns
  simp at hreturns

/-- The message about a height below 0. -/
example : verifyHeaderChainToCheckpoint true 1 [1] ⟨0, [0]⟩
    [⟨1, hexEncode [1], hexEncode [0]⟩, ⟨0, hexEncode [0], hexEncode [9]⟩,
      ⟨7, hexEncode [9], hexEncode [8]⟩] = .error .panic := by
  decide

end NnsVerified.Hull
