import NnsVerified.Hoon.Jam
import NnsVerified.Hull.Rust

/-!
# What the hull imports

The hull builds on crates that are not part of this repository: nouns, Tip5 hashes and z-sets of the
chain, its locks, and its protobuf messages. A `Crates` is a choice of their functions; the types of
hashes, z-sets and locks are parameters. The laws that the results rely on are stated as
propositions about a `Crates`.

The accessors of `noun_access.rs`, which every reader of nouns goes through, are at the end.
-/

namespace NnsVerified.Hull

open NnsVerified.Hoon NnsVerified.Library

/-! ## Messages -/

/-- An entry of the note data of an output. -/
structure NoteDataEntry where
  key : String
  blob : List UInt8
  deriving DecidableEq, Repr

/-- The note data of an output, in the order of the message. -/
structure NoteData where
  entries : List NoteDataEntry
  deriving DecidableEq, Repr

/-- The amount that an output of a transaction asks for. -/
inductive AmountRequired where
  | amount (value : UInt64)
  /-- The other cases of the message, which the hull does not tell apart. -/
  | other
  deriving DecidableEq, Repr

/-- An input of a transaction: the note that it spends, and who signed. -/
structure TransactionInput where
  noteNameB58 : String
  signerPubkeyB58 : List String
  deriving DecidableEq, Repr

/-- An output of a transaction. -/
structure TransactionOutput where
  noteNameB58 : String
  noteData : Option NoteData
  amountRequired : Option AmountRequired
  deriving DecidableEq, Repr

/-- `TransactionDetails`: a transaction as the node describes it. -/
structure TransactionDetails where
  txId : String
  inputs : List TransactionInput
  outputs : List TransactionOutput
  deriving DecidableEq, Repr

/-! ## Functions -/

/-- The imported functions, over hashes `H`, z-sets of hashes `Z` and locks `L`. -/
structure Crates (H Z L : Type) where
  /-- `make_atom_in`: the atom of little-endian bytes. -/
  makeAtomIn : List UInt8 → Noun
  makeCordIn : String → Noun
  makeTagIn : String → Noun
  atomFromU64 : UInt64 → Noun
  /-- `Atom::as_ne_bytes`. -/
  asNeBytes : Nat → List UInt8
  /-- `Atom::as_u64`. -/
  asU64 : Nat → Option UInt64
  cueFromBytes : List UInt8 → Option Noun
  /-- `Noun::cue_bytes_slice`. -/
  cueBytesSlice : List UInt8 → Except String Noun
  /-- `Hash::from_base58`. -/
  fromBase58 : String → Except String H
  /-- `Hash::to_array`. -/
  toArray : H → Vector UInt64 5
  /-- `Hash::from_limbs`. -/
  fromLimbs : Vector UInt64 5 → H
  /-- `ZSet::try_from_items`. -/
  tryFromItems : List H → Except String Z
  /-- `ZSet::into_items`. -/
  intoItems : Z → List H
  /-- `Vec::<Belt>::from_noun`. -/
  beltsFromNoun : Noun → Except String (List UInt64)
  /-- `Belt::to_le_bytes`. -/
  beltToLeBytes : List UInt64 → Option (List UInt8)
  /-- `Lock::from_noun`. -/
  lockFromNoun : Noun → Option L
  /-- `Lock::hash`. -/
  lockHash : L → Option H
  findOpaqueBytesEntry : NoteData → String → Except String (List UInt8)
  findEntry : NoteData → String → Except String NoteDataEntry
  /-- The `Debug` rendering of a string, in error texts. -/
  debug : String → String

variable {H Z L : Type}

/-- Nouns are built from and read as little-endian bytes. -/
structure Crates.NounLaws (c : Crates H Z L) : Prop where
  makeAtomIn_eq : ∀ bs, c.makeAtomIn bs = .atom (leValue bs)
  makeCordIn_eq : ∀ s, c.makeCordIn s = .atom (leValue (utf8 s))
  makeTagIn_eq : ∀ s, c.makeTagIn s = .atom (leValue (utf8 s))
  atomFromU64_eq : ∀ n, c.atomFromU64 n = .atom n.toNat
  leValue_asNeBytes : ∀ a, leValue (c.asNeBytes a) = a
  asU64_eq : ∀ a, c.asU64 a = if a < 2 ^ 64 then some (UInt64.ofNat a) else none

/-- The limbs of a hash are the ones that it was made of. -/
def Crates.LimbLaws (c : Crates H Z L) : Prop := ∀ l, c.toArray (c.fromLimbs l) = l

/-- The functions that write claim notes, beside those that read them. -/
structure BlobCrates (H Z L : Type) extends Crates H Z L where
  makeCord : String → Noun
  jamToBytes : Noun → List UInt8
  /-- `Belt::from_le_bytes`. -/
  beltFromLeBytes : List UInt8 → List UInt64
  /-- `Vec::<Belt>::to_noun`. -/
  beltsToNoun : List UInt64 → Noun
  /-- `NounSlab::<NockJammer>::jam`. -/
  slabJam : Noun → List UInt8

/-- A belt holds four little-endian bytes, and a list of belts survives its noun and the jam of it. -/
structure BlobCrates.BeltLaws (c : BlobCrates H Z L) : Prop where
  beltFromLeBytes_eq : ∀ bs, c.beltFromLeBytes bs = (leWords bs).map UInt64.ofNat
  beltToLeBytes_eq : ∀ ws : List Nat, (∀ w ∈ ws, w < 2 ^ 32) →
    c.beltToLeBytes (ws.map UInt64.ofNat) = some (ws.flatMap (leBytes 4))
  beltsFromNoun_beltsToNoun : ∀ belts, c.beltsFromNoun (c.beltsToNoun belts) = .ok belts
  cueBytesSlice_slabJam : ∀ n, c.cueBytesSlice (c.slabJam n) = .ok n

/-- Cords are little-endian, and nouns are jammed in the standard encoding. -/
structure BlobCrates.JamLaws (c : BlobCrates H Z L) : Prop where
  makeCord_eq : ∀ s, c.makeCord s = .atom (leValue (utf8 s))
  leValue_jamToBytes : ∀ n, leValue (c.jamToBytes n) = jam n
  cueFromBytes_eq : ∀ bs n, leValue bs = jam n → c.cueFromBytes bs = some n

/-- A base58 text has no whitespace around it. -/
def Crates.Base58Laws (c : Crates H Z L) : Prop := ∀ s h, c.fromBase58 s = .ok h → trim s = s

/-- A z-set holds each distinct item once, and the set of its items determines whether it can be
built and in which order it is iterated. -/
structure Crates.ZSetLaws (c : Crates H Z L) : Prop where
  nodup : ∀ {hs z}, c.tryFromItems hs = .ok z → (c.intoItems z).Nodup
  mem_iff : ∀ {hs z h}, c.tryFromItems hs = .ok z → (h ∈ c.intoItems z ↔ h ∈ hs)
  ext : ∀ {hs hs'}, (∀ h, h ∈ hs ↔ h ∈ hs') →
    (c.tryFromItems hs).toOption.map c.intoItems = (c.tryFromItems hs').toOption.map c.intoItems

/-! ## `noun_access.rs` -/

/-- Both parts of a cell. -/
def uncons : Noun → Except String (Noun × Noun)
  | .cell p q => .ok (p, q)
  | .atom _ => .error "expected cell"

/-- The head of a cell. -/
def head (n : Noun) : Except String Noun := (uncons n).map Prod.fst

/-- The tail of a cell. -/
def tail (n : Noun) : Except String Noun := (uncons n).map Prod.snd

/-- `is_atom`. -/
def isAtom : Noun → Bool
  | .atom _ => true
  | .cell _ _ => false

variable (c : Crates H Z L)

/-- An atom that fits `u64`. -/
def asU64 : Noun → Except String UInt64
  | .atom a => (c.asU64 a).elim (.error "atom overflows u64") .ok
  | .cell _ _ => .error "expected atom"

/-- The bytes of an atom. -/
def asNeBytes : Noun → Except String (List UInt8)
  | .atom a => .ok (c.asNeBytes a)
  | .cell _ _ => .error "expected atom"

/-- An atom as a text, without the NUL characters at its end. -/
def asCord : Noun → Except String String
  | .atom a =>
    match fromUtf8 (c.asNeBytes a) with
    | some s => .ok (trimEndNul s)
    | none => .error "cord not utf-8"
  | .cell _ _ => .error "expected cord atom"

end NnsVerified.Hull
