import NnsVerified.Hull.Proofs.BlobProofs
import NnsVerified.Hull.Proofs.EncodingProofs

/-!
# Claim notes

A claim note is recovered from both of its encodings, and a claim path from its packing. The two
are never confused: the jam of a triple starts with a set bit, and a path with an even byte.
-/

namespace NnsVerified.Hull

open NnsVerified.Hoon NnsVerified.Library

variable {H Z L : Type} {w : BlobCrates H Z L}

/-! ## Claim paths -/

/-- The first byte of what is taken for a claim path is that of `n`. -/
theorem even_of_claimNameFromPathInner {bytes : List UInt8} {name : String}
    (h : claimNameFromPathInner bytes = some name) : leValue bytes % 2 = 0 := by
  unfold claimNameFromPathInner at h
  obtain ⟨s, hs, h⟩ := Option.bind_eq_some_iff.mp h
  have hstart : startsWith (trimEndNul s) claimNotePathPrefix = true := by
    by_contra hnot
    simp [hnot] at h
  have hchars : ('n' :: "ns/v1/claim/".toList) <+: s.toList :=
    (List.isPrefixOf_iff_prefix.mp hstart).trans
      (by rw [trimEndNul, String.toList_ofList]; exact List.rdropWhile_prefix _ _)
  obtain ⟨rest, hrest⟩ := hchars
  have hbytes : bytes = 110 :: utf8Chars ("ns/v1/claim/".toList ++ rest) := by
    rw [← fromUtf8_eq_some.mp hs, utf8, ← hrest, List.cons_append, utf8Chars_cons]
    rfl
  rw [hbytes, leValue, List.map_cons, Nat.ofDigits_cons, Nat.add_mod, Nat.mul_mod]
  simp

/-- The name of a claim path is read back from it. -/
theorem claimNameFromPathInner_path {name : String} (h : endsWith name ".nock" = true) :
    claimNameFromPathInner (utf8 (claimNotePathPrefix ++ name)) = some name := by
  obtain ⟨stem, hstem⟩ := List.isSuffixOf_iff_suffix.mp h
  have hlist : (claimNotePathPrefix ++ name).toList
      = (claimNotePathPrefix.toList ++ (stem ++ ".noc".toList)) ++ ['k'] := by
    rw [String.toList_append, ← hstem]
    simp
  have hnul : NoNul (claimNotePathPrefix ++ name) := by
    intro hne
    simp only [hlist, List.getLast_append_singleton]
    decide
  have htrim : trimEndNul (claimNotePathPrefix ++ name) = claimNotePathPrefix ++ name := by
    have hzero := trimEndNul_append_nul hnul 0
    rw [List.replicate_zero, List.append_nil, String.ofList_toList] at hzero
    exact hzero
  have hstart : startsWith (claimNotePathPrefix ++ name) claimNotePathPrefix = true := by
    rw [startsWith, String.toList_append]
    exact List.isPrefixOf_iff_prefix.mpr (List.prefix_append _ _)
  have hend : endsWith (claimNotePathPrefix ++ name) ".nock" = true := by
    rw [endsWith, String.toList_append]
    exact List.isSuffixOf_iff_suffix.mpr
      ((List.isSuffixOf_iff_suffix.mp h).trans (List.suffix_append _ _))
  have hname : String.ofList ((claimNotePathPrefix ++ name).toList.drop claimNotePathPrefix.length)
      = name := by
    rw [String.toList_append, ← String.length_toList, List.drop_left, String.ofList_toList]
  have hne : name.isEmpty = false := by
    rw [String.isEmpty_eq_false_iff]
    rintro rfl
    simp at hstem
  unfold claimNameFromPathInner
  rw [fromUtf8_eq_some.mpr rfl]
  simp only [Option.bind_eq_bind, Option.bind_some, htrim, hstart, hend, hname, hne, Bool.not_true,
    Bool.or_self, Bool.false_eq_true, if_false]

/-! ## Triples -/

theorem leValue_jamTuple (hj : w.JamLaws) (note : ClaimNoteV1) : leValue (note.jamTuple w)
    = jam (Noun.tuple (w.makeCord note.name) [w.makeCord note.owner, w.makeCord note.txHash]) :=
  hj.leValue_jamToBytes _

/-- The jam of a triple is not taken for a path, whatever its fields are. -/
theorem claimNameFromPathInner_jamTuple (hj : w.JamLaws) (note : ClaimNoteV1) :
    claimNameFromPathInner (note.jamTuple w) = none := by
  refine Option.eq_none_iff_forall_ne_some.mpr fun name h => ?_
  have heven := even_of_claimNameFromPathInner h
  rw [leValue_jamTuple hj, Noun.tuple, odd_jam_cell] at heven
  exact absurd heven one_ne_zero

theorem cordField_makeCord (hn : w.NounLaws) (hj : w.JamLaws) {s : String} (hs : NoNul s) :
    cordField w.toCrates (w.makeCord s) = .ok s := by
  rw [hj.makeCord_eq]
  simp only [cordField, isAtom, if_true, pure_eq_ok, ok_bind]
  exact mapError_eq_ok.mpr (asCord_cord hn hs)

/-- What a claim note unpacks to decides what it decodes to: the jam of a triple to the triple. -/
theorem fromWalletPackedBlobWire_of_tuple (hn : w.NounLaws) (hj : w.JamLaws) {note : ClaimNoteV1}
    {wire : List UInt8} (hname : NoNul note.name) (howner : NoNul note.owner)
    (htx : NoNul note.txHash)
    (hwire : (unpackWalletBlobJam w.toCrates wire).toOption.getD wire = note.jamTuple w) :
    fromWalletPackedBlobWire w.toCrates wire = .ok note := by
  have hcue := hj.cueFromBytes_eq _ _ (leValue_jamTuple hj note)
  unfold fromWalletPackedBlobWire
  simp only [hwire, claimNameFromPathInner_jamTuple hj, hcue, Noun.tuple, uncons, Except.mapError,
    ok_bind, cordField_makeCord hn hj hname, cordField_makeCord hn hj howner,
    cordField_makeCord hn hj htx]
  rfl

/-- A claim path decodes to its name, without an owner and a transaction. -/
theorem fromWalletPackedBlobWire_of_path {name : String} {wire : List UInt8} {c : Crates H Z L}
    (h : endsWith name ".nock" = true)
    (hwire : (unpackWalletBlobJam c wire).toOption.getD wire = utf8 (claimNotePathPrefix ++ name)) :
    fromWalletPackedBlobWire c wire = .ok ⟨name, "", ""⟩ := by
  unfold fromWalletPackedBlobWire
  simp only [hwire, claimNameFromPathInner_path h]
  rfl

/-! ## Both encodings -/

/-- Claim notes decode from their packed and their raw triple, and claim paths from their packing
where it is within the cap; the jam of a triple is never taken for a path. -/
theorem claim_notes_decode (hn : w.NounLaws) (hb : w.BeltLaws) (hj : w.JamLaws) :
    (∀ note : ClaimNoteV1, NoNul note.name → NoNul note.owner → NoNul note.txHash →
        (note.jamTuple w).length ≤ 262144 →
          fromWalletPackedBlobWire w.toCrates (packWalletBlobJam w (note.jamTuple w)) = .ok note ∧
          ((∀ p, unpackWalletBlobJam w.toCrates (note.jamTuple w) ≠ .ok p) →
            fromWalletPackedBlobWire w.toCrates (note.jamTuple w) = .ok note)) ∧
      (∀ name : String, endsWith name ".nock" = true →
        (utf8 ("nns/v1/claim/" ++ name)).length ≤ 262144 →
          fromWalletPackedBlobWire w.toCrates (packWalletBlobJam w (utf8 ("nns/v1/claim/" ++ name)))
            = .ok ⟨name, "", ""⟩) ∧
      ∀ note : ClaimNoteV1, claimNameFromPathInner (note.jamTuple w) = none := by
  refine ⟨fun note hname howner htx hcap => ⟨?_, fun hraw => ?_⟩, fun name hname hcap => ?_,
    claimNameFromPathInner_jamTuple hj⟩
  · refine fromWalletPackedBlobWire_of_tuple hn hj hname howner htx ?_
    rw [unpack_pack hb hcap]
    rfl
  · refine fromWalletPackedBlobWire_of_tuple hn hj hname howner htx ?_
    cases hunpack : unpackWalletBlobJam w.toCrates (note.jamTuple w) with
    | error e => rfl
    | ok p => exact absurd hunpack (hraw p)
  · refine fromWalletPackedBlobWire_of_path hname ?_
    rw [unpack_pack hb hcap]
    rfl

set_option maxRecDepth 2000 in
theorem claim_notes_decode_sample :
    fromWalletPackedBlobWire sampleBlobCrates.toCrates (packWalletBlobJam sampleBlobCrates
        (ClaimNoteV1.jamTuple sampleBlobCrates ⟨"a.nock", "b", "c"⟩)) = .ok ⟨"a.nock", "b", "c"⟩ ∧
      fromWalletPackedBlobWire sampleBlobCrates.toCrates (packWalletBlobJam sampleBlobCrates
        (utf8 ("nns/v1/claim/" ++ "a.nock"))) = .ok ⟨"a.nock", "", ""⟩ := by
  obtain ⟨hnote, hpath, -⟩ := claim_notes_decode sampleBlobCrates_nounLaws
    sampleBlobCrates_beltLaws sampleBlobCrates_jamLaws
  have hname : NoNul "a.nock" := by simp [NoNul]
  have howner : NoNul "b" := by simp [NoNul]
  have htx : NoNul "c" := by simp [NoNul]
  exact ⟨(hnote _ hname howner htx (by decide)).1, hpath _ (by decide) (by decide)⟩

/-! ## Paths beyond the cap -/

/-- A field that is a list of two or more is not a cord. -/
theorem cordField_list {c : Crates H Z L} (x y z : Noun) :
    cordField c (.cell x (.cell y z)) = .error "claim tuple field is not an atom" := rfl

/-- A packed payload beyond the cap is not a claim note: it does not unpack, and the list of its
belts is read as a triple whose last field is a list. -/
theorem sample_fromWalletPackedBlobWire_of_lt {p : List UInt8} (hp : 262144 < p.length) :
    ∃ e, fromWalletPackedBlobWire sampleBlobCrates.toCrates (packWalletBlobJam sampleBlobCrates p)
      = .error e := by
  have hlen : (leWords p).length = (p.length + 3) / 4 := length_leWords p
  obtain ⟨x, y, z, rest, hlimbs⟩ : ∃ x y z rest, leWords p = x :: y :: z :: rest := by
    match hwords : leWords p with
    | [] | [_] | [_, _] =>
      rw [hwords] at hlen
      simp at hlen
      omega
    | x :: y :: z :: rest => exact ⟨x, y, z, rest, rfl⟩
  set limbs := Noun.list ((rest.map UInt64.ofNat).map fun u => .atom u.toNat) with hrest
  set noun := Noun.cell (.atom (UInt64.ofNat p.length).toNat) (.cell (.atom (UInt64.ofNat x).toNat)
    (.cell (.atom (UInt64.ofNat y).toNat) (.cell (.atom (UInt64.ofNat z).toNat) limbs))) with hnoun
  have hpack : packWalletBlobJam sampleBlobCrates p = sampleCrates.asNeBytes (jam noun) := by
    show sampleCrates.asNeBytes (jam (Noun.list ((UInt64.ofNat p.length ::
      (leWords p).map UInt64.ofNat).map fun u => .atom u.toNat))) = _
    rw [hlimbs]
    rfl
  have hvalue : leValue (packWalletBlobJam sampleBlobCrates p) = jam noun := by
    rw [hpack, sampleCrates_nounLaws.leValue_asNeBytes]
  have hunpack : (unpackWalletBlobJam sampleBlobCrates.toCrates
      (packWalletBlobJam sampleBlobCrates p)).toOption.getD (packWalletBlobJam sampleBlobCrates p)
      = packWalletBlobJam sampleBlobCrates p := by
    rw [unpack_pack_of_lt sampleBlobCrates_beltLaws hp]
    rfl
  have hpath : claimNameFromPathInner (packWalletBlobJam sampleBlobCrates p) = none := by
    refine Option.eq_none_iff_forall_ne_some.mpr fun name h => ?_
    have heven := even_of_claimNameFromPathInner h
    rw [hvalue, hnoun, odd_jam_cell] at heven
    exact absurd heven one_ne_zero
  have hcue := sampleBlobCrates_jamLaws.cueFromBytes_eq _ _ hvalue
  unfold fromWalletPackedBlobWire
  simp only [hunpack, hpath, hcue, hnoun, uncons, Except.mapError, ok_bind, cordField_list]
  cases cordField sampleBlobCrates.toCrates (.atom (UInt64.ofNat p.length).toNat) with
  | error e => exact ⟨e, rfl⟩
  | ok name =>
    cases cordField sampleBlobCrates.toCrates (.atom (UInt64.ofNat x).toNat) with
    | error e => exact ⟨e, rfl⟩
    | ok owner => exact ⟨_, rfl⟩

/-- A name of `n` letters before its suffix. -/
def longName (n : Nat) : String := String.ofList (List.replicate n 'a' ++ ".nock".toList)

theorem endsWith_longName (n : Nat) : endsWith (longName n) ".nock" = true := by
  unfold endsWith longName
  simp only [String.toList_ofList]
  exact List.isSuffixOf_iff_suffix.mpr (List.suffix_append _ _)

theorem lt_length_path_longName (n : Nat) : n < (utf8 ("nns/v1/claim/" ++ longName n)).length := by
  refine lt_of_lt_of_le ?_ (length_le_length_utf8Chars _)
  rw [String.toList_append, longName, String.toList_ofList]
  simp
  omega

/-- The path of a name that leaves no room for itself in a packed blob does not decode. -/
theorem claim_path_long_refused :
    endsWith (longName 262144) ".nock" = true ∧
      fromWalletPackedBlobWire sampleBlobCrates.toCrates
        (packWalletBlobJam sampleBlobCrates (utf8 ("nns/v1/claim/" ++ longName 262144)))
          ≠ .ok ⟨longName 262144, "", ""⟩ := by
  refine ⟨endsWith_longName _, fun h => ?_⟩
  obtain ⟨e, he⟩ := sample_fromWalletPackedBlobWire_of_lt (lt_length_path_longName 262144)
  rw [he] at h
  cases h

end NnsVerified.Hull
