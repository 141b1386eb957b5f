import NnsVerified.Hull.Crates

/-!
# `packed_blob.rs` and `claim_note.rs`

How the hull reads a claim off the note data of an output, and how it is written: the wallet packing
of the blob, and the two forms of its content, a jammed triple of cords or a claim path.
-/

namespace NnsVerified.Hull

open NnsVerified.Hoon NnsVerified.Library

/-! ## Packed blobs -/

/-- `MAX_BLOB_PAYLOAD_BYTES`. -/
def maxBlobPayloadBytes : Nat := 256 * 1024

variable {H Z L : Type} (c : Crates H Z L)

/-- `decode_len_prefixed_blob`: as many bytes as the first belt says, from just as many belts as
they take. -/
def decodeLenPrefixedBlob : List UInt64 → Option (List UInt8)
  | [] => none
  | len :: limbs =>
    let byteLen := len.toNat
    if byteLen > maxBlobPayloadBytes then none
    else
      let expectedBelts := 1 + (byteLen + 3) / 4
      if limbs.length + 1 ≠ expectedBelts then none
      else do
        let body ← c.beltToLeBytes limbs
        if body.length < byteLen then none else some (body.take byteLen)

/-- `unpack_wallet_blob_jam`: the payload of a jammed list of belts. -/
def unpackWalletBlobJam (jam : List UInt8) : Except String (List UInt8) := do
  let noun ← (c.cueBytesSlice jam).mapError fun e => s!"cue blob jam: {e}"
  let belts ← (c.beltsFromNoun noun).mapError fun e => s!"blob belt list noun: {e}"
  match decodeLenPrefixedBlob c belts with
  | some payload => pure payload
  | none => throw "invalid length-prefixed packed blob"

/-- `encode_blob_belts`: the number of bytes, and the bytes. -/
def encodeBlobBelts (w : BlobCrates H Z L) (bytes : List UInt8) : List UInt64 :=
  UInt64.ofNat bytes.length :: w.beltFromLeBytes bytes

/-- `pack_wallet_blob_jam`: what `unpack_wallet_blob_jam` reads. -/
def packWalletBlobJam (w : BlobCrates H Z L) (payload : List UInt8) : List UInt8 :=
  w.slabJam (w.beltsToNoun (encodeBlobBelts w payload))

/-! ## Claim notes -/

/-- `CLAIM_NOTE_BLOB_ENTRY_KEY`. -/
def claimNoteBlobEntryKey : String := "blob"

/-- `CLAIM_NOTE_PATH_PREFIX`. -/
def claimNotePathPrefix : String := "nns/v1/claim/"

/-- `ClaimNoteV1`: a claim as the wallet writes it down. The path form has a name only. -/
structure ClaimNoteV1 where
  name : String
  owner : String
  txHash : String
  deriving DecidableEq, Repr

/-- `jam_tuple`: the jam of `[name owner tx_hash]`. -/
def ClaimNoteV1.jamTuple (w : BlobCrates H Z L) (note : ClaimNoteV1) : List UInt8 :=
  w.jamToBytes (Noun.tuple (w.makeCord note.name) [w.makeCord note.owner, w.makeCord note.txHash])

/-- `claim_name_from_path_inner`: the name of a path `nns/v1/claim/<name>`. -/
def claimNameFromPathInner (bytes : List UInt8) : Option String := do
  let s := trimEndNul (← fromUtf8 bytes)
  if !startsWith s claimNotePathPrefix || !endsWith s ".nock" then none
  else
    let name := String.ofList (s.toList.drop claimNotePathPrefix.length)
    if name.isEmpty then none else some name

/-- `cord_field`: a cord, or a cell of a cord and null. -/
def cordField (n : Noun) : Except String String := do
  let leaf ←
    if isAtom n then pure n
    else do
      let (head, tail) ← uncons n
      if (asU64 c tail).toOption ≠ some 0 then throw "claim tuple field is not an atom"
      pure head
  (asCord c leaf).mapError fun e => s!"claim tuple field is not utf8: {e}"

/-- `ClaimNoteV1::from_wallet_packed_blob_wire`: a path or a triple, packed or not. -/
def fromWalletPackedBlobWire (wire : List UInt8) : Except String ClaimNoteV1 := do
  let tupleJam := (unpackWalletBlobJam c wire).toOption.getD wire
  match claimNameFromPathInner tupleJam with
  | some name => return { name, owner := "", txHash := "" }
  | none =>
    let some root := c.cueFromBytes tupleJam | throw "failed to decode claim tuple"
    let (name, rest) ← (uncons root).mapError fun _ => "claim tuple malformed (slot 1)"
    let (owner, txHash) ← (uncons rest).mapError fun _ => "claim tuple malformed (slot 2)"
    return { name := ← cordField c name, owner := ← cordField c owner,
             txHash := ← cordField c txHash }

/-- `ClaimNoteV1::from_note_data`: the entry under the key `blob`, as opaque bytes or as it is. -/
def fromNoteData (noteData : NoteData) : Except String ClaimNoteV1 := do
  let wire ←
    match c.findOpaqueBytesEntry noteData claimNoteBlobEntryKey with
    | .ok wire => pure wire
    | .error _ => do
      let entry ← (c.findEntry noteData claimNoteBlobEntryKey).mapError fun e =>
        s!"missing {claimNoteBlobEntryKey} note-data entry: {e}"
      pure entry.blob
  fromWalletPackedBlobWire c wire

end NnsVerified.Hull
