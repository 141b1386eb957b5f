import NnsVerified.Hoon.Atom
import NnsVerified.Hoon.Sort
import NnsVerified.Hull.Proofs.DigestProofs

/-!
# Concrete crates

The laws about the imported functions are consistent: `sampleCrates` satisfies all of them. A hash
is a number, a z-set is the sorted list of its items, a text is its own base58 hash, and nothing can
be cued.
-/

namespace NnsVerified.Hull

open NnsVerified.Hoon NnsVerified.Library

/-- Crates for samples: digests are numbers, base58 texts are read as cords, and nothing can be cued. -/
def sampleCrates : Crates Nat (List Nat) Unit where
  makeAtomIn bs := .atom (leValue bs)
  makeCordIn s := .atom (cord s)
  makeTagIn s := .atom (cord s)
  atomFromU64 n := .atom n.toNat
  asNeBytes a := (Nat.digits 256 a).map UInt8.ofNat
  asU64 a := if a < 2 ^ 64 then some (UInt64.ofNat a) else none
  cueFromBytes _ := none
  cueBytesSlice _ := .error "cue"
  fromBase58 s := if s.isEmpty then .error "empty" else .ok (cord s % 256 ^ 40)
  toArray h := limbs (leBytes 40 h)
  fromLimbs l := leValue (limbBytes l)
  tryFromItems hs := .ok (sort (fun x y => decide (x < y)) hs.dedup)
  intoItems z := z
  beltsFromNoun _ := .error "belts"
  beltToLeBytes _ := none
  lockFromNoun _ := none
  lockHash _ := none
  findOpaqueBytesEntry _ _ := .error "not opaque"
  findEntry nd key := (nd.entries.find? fun e => e.key = key).elim (.error "missing") .ok
  debug s := s

theorem sampleCrates_nounLaws : sampleCrates.NounLaws where
  makeAtomIn_eq _ := rfl
  makeCordIn_eq _ := rfl
  makeTagIn_eq _ := rfl
  atomFromU64_eq _ := rfl
  leValue_asNeBytes a := by
    have hbytes : (Nat.digits 256 a).map (UInt8.toNat ∘ UInt8.ofNat) = Nat.digits 256 a := by
      refine (List.map_congr_left fun d hd => ?_).trans (List.map_id _)
      have hd' : d < 256 := Nat.digits_lt_base (by norm_num) hd
      simp [Function.comp, Nat.mod_eq_of_lt hd']
    show Nat.ofDigits 256 (((Nat.digits 256 a).map UInt8.ofNat).map UInt8.toNat) = a
    rw [List.map_map, hbytes, Nat.ofDigits_digits]
  asU64_eq _ := rfl

theorem sampleCrates_limbLaws : sampleCrates.LimbLaws := by
  intro l
  show limbs (leBytes 40 (leValue (limbBytes l))) = l
  rw [leBytes_leValue (length_limbBytes l), limbs_limbBytes]

theorem sampleCrates_zsetLaws : sampleCrates.ZSetLaws where
  nodup := by
    intro hs z hz
    obtain rfl := Except.ok.inj hz
    exact (sort_perm _ _).nodup_iff.mpr hs.nodup_dedup
  mem_iff := by
    intro hs z h hz
    obtain rfl := Except.ok.inj hz
    show h ∈ sort _ _ ↔ h ∈ hs
    rw [(sort_perm _ _).mem_iff, List.mem_dedup]
  ext := by
    intro hs hs' h
    have hperm : hs.dedup.Perm hs'.dedup := by
      refine (List.perm_ext_iff_of_nodup hs.nodup_dedup hs'.nodup_dedup).mpr fun x => ?_
      rw [List.mem_dedup, List.mem_dedup]
      exact h x
    have hsort := sort_canonical id hperm (by simpa using hs.nodup_dedup)
    exact congrArg some hsort

/-! ## Blobs -/

/-- A belt of the sample, from its noun. -/
def sampleBelt : Noun → Option UInt64
  | .atom a => if a < 2 ^ 64 then some (UInt64.ofNat a) else none
  | .cell _ _ => none

/-- The belts of a list of atoms. -/
def sampleBeltsFromNoun (n : Noun) : Except String (List UInt64) :=
  match clamList sampleBelt n with
  | some belts => .ok belts
  | none => .error "belts"

/-- The sample crates with blobs: nouns are jammed and cued in the standard encoding. -/
def sampleBlobCrates : BlobCrates Nat (List Nat) Unit :=
  { sampleCrates with
    cueFromBytes := fun bs => cue (leValue bs)
    cueBytesSlice := fun bs => (cue (leValue bs)).elim (.error "cue") .ok
    beltsFromNoun := sampleBeltsFromNoun
    beltToLeBytes := fun ws =>
      if ws.all fun w => w.toNat < 2 ^ 32 then some (ws.flatMap fun w => leBytes 4 w.toNat)
      else none
    makeCord := fun s => .atom (cord s)
    jamToBytes := fun n => sampleCrates.asNeBytes (jam n)
    beltFromLeBytes := fun bs => (leWords bs).map UInt64.ofNat
    beltsToNoun := fun ws => Noun.list (ws.map fun w => .atom w.toNat)
    slabJam := fun n => sampleCrates.asNeBytes (jam n) }

theorem sampleBlobCrates_nounLaws : sampleBlobCrates.toCrates.NounLaws where
  makeAtomIn_eq _ := rfl
  makeCordIn_eq _ := rfl
  makeTagIn_eq _ := rfl
  atomFromU64_eq _ := rfl
  leValue_asNeBytes := sampleCrates_nounLaws.leValue_asNeBytes
  asU64_eq _ := rfl

theorem sampleBlobCrates_beltLaws : sampleBlobCrates.BeltLaws where
  beltFromLeBytes_eq _ := rfl
  beltToLeBytes_eq ws hws := by
    have htoNat : ∀ w ∈ ws, (UInt64.ofNat w).toNat = w := fun w hw => by
      have hlt := hws w hw
      rw [UInt64.toNat_ofNat', Nat.mod_eq_of_lt (by omega)]
    have hall : ((ws.map UInt64.ofNat).all fun w => w.toNat < 2 ^ 32) = true := by
      rw [List.all_map, List.all_eq_true]
      intro w hw
      simpa [htoNat w hw] using hws w hw
    unfold sampleBlobCrates
    dsimp only
    rw [if_pos hall, List.flatMap_map]
    refine congrArg some ?_
    exact List.flatMap_congr fun w hw => by rw [htoNat w hw]
  beltsFromNoun_beltsToNoun belts := by
    have hbelts : clamList sampleBelt (Noun.list (belts.map fun w => .atom w.toNat)) = some belts := by
      refine clamList_list (List.forall₂_map_left_iff.mpr (List.forall₂_same.mpr fun w _ => ?_))
      simp [sampleBelt, w.toNat_lt]
    show sampleBeltsFromNoun (Noun.list (belts.map fun w => .atom w.toNat)) = .ok belts
    rw [sampleBeltsFromNoun, hbelts]
  cueBytesSlice_slabJam n := by
    show (cue (leValue (sampleCrates.asNeBytes (jam n)))).elim _ _ = _
    rw [sampleCrates_nounLaws.leValue_asNeBytes, cue_jam]
    rfl

theorem sampleBlobCrates_jamLaws : sampleBlobCrates.JamLaws where
  makeCord_eq _ := rfl
  leValue_jamToBytes n := sampleCrates_nounLaws.leValue_asNeBytes (jam n)
  cueFromBytes_eq bs n h := by
    show cue (leValue bs) = some n
    rw [h, cue_jam]

end NnsVerified.Hull
