import NnsVerified.Hull.Crates

/-!
# `payment.rs`

What the hull counts as a payment to the treasury, and its fee schedule.
-/

namespace NnsVerified.Hull

open NnsVerified.Hoon NnsVerified.Library

/-- `TREASURY_LOCK_ROOT_B58`. -/
def treasuryLockRootB58 : String := "A3LoWjxurwiyzhkv8sgDv2MVu9PwgWHmqoncXw9GEQ5M3qx46svvadE"

/-- `output_amount_nicks`: the amount of an output, where the node gives one. -/
def outputAmountNicks (out : TransactionOutput) : Option UInt64 :=
  match out.amountRequired with
  | some (.amount value) => some value
  | _ => none

variable {H Z L : Type} (c : Crates H Z L)

/-- `treasury_root_hash`. The hull stops with a panic where this is `none`. -/
def treasuryRootHash : Option H := (c.fromBase58 (trim treasuryLockRootB58)).toOption

/-- `decode_lock_note_data_payload`: a lock, tagged with a zero or bare. -/
def decodeLockNoteDataPayload : Noun → Option L
  | .cell head tail => do
    let .atom head := head | none
    let tag ← c.asU64 head
    if tag = 0 then c.lockFromNoun tail else c.lockFromNoun (.cell (.atom head) tail)
  | noun => c.lockFromNoun noun

/-- `lock_root_hash_from_lock_jam`: the hash of the lock in a note. -/
def lockRootHashFromLockJam (jam : List UInt8) : Option H := do
  let noun ← (c.cueBytesSlice jam).toOption
  let lock ← decodeLockNoteDataPayload c noun
  c.lockHash lock

variable [DecidableEq H]

/-- `note_data_has_treasury_lock`: an entry under the key `lock` is the lock of the treasury. -/
def noteDataHasTreasuryLock (nd : NoteData) : Bool :=
  nd.entries.any fun e =>
    e.key = "lock" && !e.blob.isEmpty &&
      match lockRootHashFromLockJam c e.blob with
      | some h => some h = treasuryRootHash c
      | none => false

/-- `output_pays_treasury_v1`: by the lock in the note data, or by the name of the note. -/
def outputPaysTreasuryV1 (out : TransactionOutput) : Bool :=
  out.noteData.any (noteDataHasTreasuryLock c) || out.noteNameB58 = trim treasuryLockRootB58

/-- `sum_treasury_outputs_v1`: what a transaction pays to the treasury, at most `u64::MAX`. -/
def sumTreasuryOutputsV1 (details : TransactionDetails) : UInt64 :=
  ((details.outputs.filter (outputPaysTreasuryV1 c)).filterMap outputAmountNicks).foldl
    saturatingAdd 0

/-- `fee_for_name`, in nicks, by the characters of the stem. -/
def feeForName (name : String) : UInt64 :=
  let stem := (stripSuffix name ".nock").getD name
  let len := stem.length
  if len = 0 then 0
  else if len ≥ 10 then 6553600
  else if len ≥ 5 then 32768000
  else 327680000

end NnsVerified.Hull
