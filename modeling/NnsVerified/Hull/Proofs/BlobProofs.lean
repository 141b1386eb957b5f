import Mathlib.Algebra.Order.Floor.Div
import Mathlib.GroupTheory.GroupAction.Ring
import NnsVerified.Hull.ClaimNote
import NnsVerified.Hull.Sample

/-!
# Packed blobs

A payload within the cap is recovered from its packing, whatever its length and its last bytes, and
a longer payload is refused.
-/

namespace NnsVerified.Hull

open NnsVerified.Hoon NnsVerified.Library

variable {H Z L : Type}

/-! ## Decoding -/

/-- What a length-prefixed blob is: the length, one belt for every four bytes of it, and at least
as many bytes. -/
theorem decodeLenPrefixedBlob_eq_some {c : Crates H Z L} {belts : List UInt64} {p : List UInt8} :
    decodeLenPrefixedBlob c belts = some p ↔
      ∃ len limbs body, belts = len :: limbs ∧ len.toNat ≤ maxBlobPayloadBytes ∧
        limbs.length + 1 = 1 + (len.toNat + 3) / 4 ∧ c.beltToLeBytes limbs = some body ∧
        len.toNat ≤ body.length ∧ body.take len.toNat = p := by
  constructor
  · intro h
    cases belts with
    | nil => simp [decodeLenPrefixedBlob] at h
    | cons len limbs =>
      simp only [decodeLenPrefixedBlob] at h
      split_ifs at h with hcap hcount
      cases hbody : c.beltToLeBytes limbs with
      | none => simp [hbody] at h
      | some body =>
        simp only [hbody, Option.bind_eq_bind, Option.bind_some] at h
        split_ifs at h with hlen
        exact ⟨len, limbs, body, rfl, Nat.le_of_not_lt hcap, not_not.mp hcount, hbody,
          Nat.le_of_not_lt hlen, Option.some.inj h⟩
  · rintro ⟨len, limbs, body, rfl, hcap, hcount, hbody, hlen, rfl⟩
    simp only [decodeLenPrefixedBlob, hbody, Option.bind_eq_bind, Option.bind_some]
    rw [if_neg (Nat.not_lt.mpr hcap), if_neg (not_not.mpr hcount), if_neg (Nat.not_lt.mpr hlen)]

/-- A decoded blob has the length that its first belt names, and one belt for every four bytes. -/
theorem length_of_decodeLenPrefixedBlob {c : Crates H Z L} {belts : List UInt64} {p : List UInt8}
    (h : decodeLenPrefixedBlob c belts = some p) :
    ∃ len limbs, belts = len :: limbs ∧ belts.length = 1 + len.toNat ⌈/⌉ 4 ∧
      p.length = len.toNat := by
  obtain ⟨len, limbs, body, rfl, -, hcount, -, hlen, rfl⟩ := decodeLenPrefixedBlob_eq_some.mp h
  refine ⟨len, limbs, rfl, ?_, List.length_take_of_le hlen⟩
  rw [Nat.ceilDiv_eq_add_pred_div, List.length_cons]
  exact hcount

theorem unpackWalletBlobJam_eq {c : Crates H Z L} {jam : List UInt8} {noun : Noun}
    {belts : List UInt64} (hcue : c.cueBytesSlice jam = .ok noun)
    (hbelts : c.beltsFromNoun noun = .ok belts) :
    unpackWalletBlobJam c jam = match decodeLenPrefixedBlob c belts with
      | some payload => .ok payload
      | none => .error "invalid length-prefixed packed blob" := by
  unfold unpackWalletBlobJam
  rw [hcue]
  simp only [Except.mapError, ok_bind, hbelts]
  cases decodeLenPrefixedBlob c belts with
  | none => rfl
  | some payload => rfl

/-! ## Round trip -/

variable {w : BlobCrates H Z L}

/-- What comes out of the packing of a payload: the blob of its belts. -/
theorem unpack_pack_eq (hw : w.BeltLaws) (p : List UInt8) :
    unpackWalletBlobJam w.toCrates (packWalletBlobJam w p) =
      match decodeLenPrefixedBlob w.toCrates (encodeBlobBelts w p) with
      | some payload => .ok payload
      | none => .error "invalid length-prefixed packed blob" :=
  unpackWalletBlobJam_eq (hw.cueBytesSlice_slabJam _) (hw.beltsFromNoun_beltsToNoun _)

theorem length_encodeBlobBelts (hw : w.BeltLaws) (p : List UInt8) :
    (w.beltFromLeBytes p).length = (p.length + 3) / 4 := by
  rw [hw.beltFromLeBytes_eq, List.length_map, length_leWords]

/-- The limbs of a payload hold its bytes, with zeros after them. -/
theorem beltToLeBytes_beltFromLeBytes (hw : w.BeltLaws) (p : List UInt8) :
    ∃ k, w.beltToLeBytes (w.beltFromLeBytes p) = some (p ++ List.replicate k 0) := by
  obtain ⟨k, hk⟩ := flatMap_leWords p
  exact ⟨k, by rw [hw.beltFromLeBytes_eq, hw.beltToLeBytes_eq _ fun _ => leWords_lt, hk]⟩

theorem decode_encodeBlobBelts (hw : w.BeltLaws) {p : List UInt8}
    (hcap : p.length ≤ maxBlobPayloadBytes) :
    decodeLenPrefixedBlob w.toCrates (encodeBlobBelts w p) = some p := by
  have hlen : (UInt64.ofNat p.length).toNat = p.length := by
    have hlt : p.length < 2 ^ 64 := lt_of_le_of_lt hcap (by decide)
    rw [UInt64.toNat_ofNat', Nat.mod_eq_of_lt hlt]
  obtain ⟨k, hbody⟩ := beltToLeBytes_beltFromLeBytes hw p
  refine decodeLenPrefixedBlob_eq_some.mpr
    ⟨UInt64.ofNat p.length, w.beltFromLeBytes p, _, rfl, ?_, ?_, hbody, ?_, ?_⟩
  · rw [hlen]
    exact hcap
  · rw [hlen, length_encodeBlobBelts hw, Nat.add_comm]
  · rw [hlen, List.length_append]
    exact Nat.le_add_right _ _
  · rw [hlen]
    exact List.take_left' rfl

/-- The belts of a payload beyond the cap are not a blob, also where its length does not fit the
first belt: the limbs are too many for the length that is left. -/
theorem decode_encodeBlobBelts_of_lt (hw : w.BeltLaws) {p : List UInt8}
    (hcap : maxBlobPayloadBytes < p.length) :
    decodeLenPrefixedBlob w.toCrates (encodeBlobBelts w p) = none := by
  refine Option.eq_none_iff_forall_ne_some.mpr fun payload h => ?_
  obtain ⟨len, limbs, body, hbelts, hle, hcount, -⟩ := decodeLenPrefixedBlob_eq_some.mp h
  obtain ⟨rfl, rfl⟩ := List.cons.inj hbelts
  rw [length_encodeBlobBelts hw] at hcount
  have hmod : (UInt64.ofNat p.length).toNat = p.length % 2 ^ 64 := UInt64.toNat_ofNat' ..
  rw [hmod] at hle hcount
  simp only [maxBlobPayloadBytes] at hcap hle
  omega

theorem unpack_pack (hw : w.BeltLaws) {p : List UInt8} (hcap : p.length ≤ maxBlobPayloadBytes) :
    unpackWalletBlobJam w.toCrates (packWalletBlobJam w p) = .ok p := by
  rw [unpack_pack_eq hw, decode_encodeBlobBelts hw hcap]

theorem unpack_pack_of_lt (hw : w.BeltLaws) {p : List UInt8}
    (hcap : maxBlobPayloadBytes < p.length) : unpackWalletBlobJam w.toCrates (packWalletBlobJam w p)
      = .error "invalid length-prefixed packed blob" := by
  rw [unpack_pack_eq hw, decode_encodeBlobBelts_of_lt hw hcap]

/-- Packed blobs round-trip for every payload within the cap, and longer ones are refused. A belt
list that decodes has one belt for every four bytes after the first, and yields as many bytes as
that names. -/
theorem packed_blobs_round_trip (hw : w.BeltLaws) :
    (∀ p : List UInt8, p.length ≤ 262144 →
        unpackWalletBlobJam w.toCrates (packWalletBlobJam w p) = .ok p) ∧
      (∀ p : List UInt8, 262144 < p.length →
        ∃ e, unpackWalletBlobJam w.toCrates (packWalletBlobJam w p) = .error e) ∧
      ∀ (c : Crates H Z L) (belts : List UInt64) (p : List UInt8),
        decodeLenPrefixedBlob c belts = some p →
          ∃ len limbs, belts = len :: limbs ∧ belts.length = 1 + len.toNat ⌈/⌉ 4 ∧
            p.length = len.toNat :=
  ⟨fun _ hp => unpack_pack hw hp, fun _ hp => ⟨_, unpack_pack_of_lt hw hp⟩,
    fun _ _ _ => length_of_decodeLenPrefixedBlob⟩

/-- A payload of five bytes with a zero at the end. -/
theorem packed_blobs_round_trip_zero :
    unpackWalletBlobJam sampleBlobCrates.toCrates (packWalletBlobJam sampleBlobCrates [7, 0, 0, 1, 0])
      = .ok [7, 0, 0, 1, 0] :=
  (packed_blobs_round_trip sampleBlobCrates_beltLaws).1 _ (by decide)

end NnsVerified.Hull
