import TrackerStream.Buffer
import TrackerStream.BlockStore
import TrackerStream.Outcome
import Mathlib

/-!
# Blocks, CIDs and the dag-cbor data model

What the two code bases share: byte buffers, CIDv1 addresses over sha2-256, the dag-cbor data model
with the field readers of both sides, and content-addressed blocks. The hash and the codec are
libraries of the code, so they are the parameters `Codec`; `Codec.FaithfulOn` is what the round trips
rely on, for the blocks of one bake only.
-/

namespace TrackerStream

abbrev Bytes := List UInt8

/-- A byte of a typed array; past the end the array reads `undefined`, which arithmetic takes for `0`. -/
def at0 (b : Bytes) (i : Nat) : Nat := (b.getD i 0).toNat

theorem at0_lt (b : Bytes) (i : Nat) : at0 b i < 256 := UInt8.toNat_lt _

/-- A typed array: the language gives it at most `2^53 - 1` elements. -/
structure Uint8Array where
  bytes : Bytes
  length_lt : bytes.length < 2 ^ 53

/-- `b.subarray(i, j)`: a negative bound counts from the end, both are clamped. -/
def subarray (b : Bytes) (i j : Int) : Bytes :=
  let rel (k : Int) : Nat := if k < 0 then (b.length + k).toNat else min k.toNat b.length
  Buffer.slice b (rel i) (rel j)

theorem subarray_nat (b : Bytes) (i j : Nat) : subarray b i j = Buffer.slice b i j := by
  have hi : ¬ (i : Int) < 0 := by omega
  have hj : ¬ (j : Int) < 0 := by omega
  simp only [subarray, if_neg hi, if_neg hj, Int.toNat_natCast]
  apply List.ext_getElem?
  intro k
  rw [Buffer.getElem?_slice, Buffer.getElem?_slice]
  by_cases h : i ≤ b.length
  · rw [Nat.min_eq_left h]
    split <;> split <;> first | rfl | omega | (rw [List.getElem?_eq_none (by omega)])
  · rw [List.getElem?_eq_none (show b.length ≤ i + k by omega),
      List.getElem?_eq_none (show b.length ≤ min i b.length + k by omega)]
    simp

/-- A CIDv1: the codec of the block and the sha2-256 digest of its bytes. -/
structure Cid where
  codec : Nat
  digest : Bytes
deriving DecidableEq, Repr

/-- How the code fails: an `Error` or `anyhow` with its text, one about a block (the text follows
`block <cid>`), a value the decoder or a typed reading rejects, a read of a field that is not there, a
write past the end of a typed array, a Rust panic. -/
inductive Fault
  | thrown (text : String)
  | block (cid : Cid) (text : String)
  | decode
  | typeError
  | rangeError
  | panic
deriving DecidableEq, Repr

abbrev BlockGetter := Cid → Except Fault Bytes

/-! ### dag-cbor values -/

/-- The dag-cbor data model; the fields of a map stand in the canonical key order. -/
inductive Ipld
  | null
  | bool (b : Bool)
  | int (n : Int)
  | float (q : ℚ)
  | str (s : String)
  | bytes (b : Bytes)
  | list (xs : List Ipld)
  | map (fields : List (String × Ipld))
  | link (cid : Cid)

namespace Ipld

def nat (n : Nat) : Ipld := .int n

def nats (ns : List Nat) : Ipld := .list (ns.map nat)

def links (cids : List Cid) : Ipld := .list (cids.map link)

/-- A JavaScript number: dag-cbor writes a whole one as an integer. -/
def number (q : ℚ) : Ipld := if q.den = 1 then .int q.num else .float q

/-- `v.k` of a decoded object. -/
def field? (v : Ipld) (k : String) : Option Ipld :=
  match v with
  | .map fields => fields.lookup k
  | _ => none

def nat? : Ipld → Option Nat
  | .int n => if 0 ≤ n then some n.toNat else none
  | _ => none

/-- An unsigned integer of `bits` bits, as serde reads one. -/
def uint? (bits : Nat) (v : Ipld) : Option Nat := v.nat?.filter (· < 2 ^ bits)

/-- A JavaScript number. -/
def number? : Ipld → Option ℚ
  | .int n => some n
  | .float q => some q
  | _ => none

def str? : Ipld → Option String
  | .str s => some s
  | _ => none

def link? : Ipld → Option Cid
  | .link c => some c
  | _ => none

def list? : Ipld → Option (List Ipld)
  | .list xs => some xs
  | _ => none

/-- A list all of whose elements `read` accepts. -/
def listOf? {α : Type} (read : Ipld → Option α) (v : Ipld) : Option (List α) := v.list?.bind (·.mapM read)

/-- A required field, read by `read`. -/
def get? {α : Type} (v : Ipld) (k : String) (read : Ipld → Option α) : Option α := (v.field? k).bind read

/-- `#[serde(default)]`: an absent field reads as `d`. -/
def getD? {α : Type} (v : Ipld) (k : String) (read : Ipld → Option α) (d : α) : Option α :=
  match v.field? k with
  | none => some d
  | some w => read w

/-- `#[serde(default)]` on an `Option` field: an absent or null field reads as `None`. -/
def getOpt? {α : Type} (v : Ipld) (k : String) (read : Ipld → Option α) : Option (Option α) :=
  match v.field? k with
  | none | some .null => some none
  | some w => (read w).map some

/-- A read of a decoded JavaScript object that the code relies on. -/
def get {α : Type} (v : Ipld) (k : String) (read : Ipld → Option α) : Except Fault α :=
  match v.get? k read with
  | some a => .ok a
  | none => .error .typeError

end Ipld

/-! ### Blocks -/

structure Block where
  cid : Cid
  bytes : Bytes
deriving DecidableEq, Repr

/-- The hash and the dag-cbor codec the code is linked with. -/
structure Codec where
  sha256 : Bytes → Bytes
  encode : Ipld → Bytes
  decode : Bytes → Option Ipld

def RAW_CODE : Nat := 0x55
def DAG_CBOR_CODE : Nat := 0x71

/-- What a block is made from: a raw leaf or a dag-cbor value. -/
inductive Payload
  | raw (bytes : Bytes)
  | cbor (value : Ipld)

namespace Codec

def rawBlock (c : Codec) (bytes : Bytes) : Block := ⟨⟨RAW_CODE, c.sha256 bytes⟩, bytes⟩

def cborBlock (c : Codec) (value : Ipld) : Block :=
  let bytes := c.encode value
  ⟨⟨DAG_CBOR_CODE, c.sha256 bytes⟩, bytes⟩

def block (c : Codec) : Payload → Block
  | .raw bytes => c.rawBlock bytes
  | .cbor value => c.cborBlock value

/-- The unique blocks of a bake: `add` called on each of `made`, in the order they are made. -/
def addAll (c : Codec) (made : List Payload) : List Block := BlockStore.putAll Block.cid [] (made.map c.block)

/-- A codec known by a table of digests and one dag-cbor value. -/
def ofTable (digests : List (Bytes × Bytes)) (body : Bytes) (value : Ipld) : Codec where
  sha256 b := (digests.lookup b).getD []
  encode _ := body
  decode b := if b = body then some value else none

/-- sha2-256 is collision free on the blocks made, and dag-cbor decode inverts encode on their values. -/
structure FaithfulOn (c : Codec) (made : List Payload) : Prop where
  collision_free : ∀ p ∈ made, ∀ q ∈ made,
    c.sha256 (c.block p).bytes = c.sha256 (c.block q).bytes → (c.block p).bytes = (c.block q).bytes
  cbor : ∀ v, .cbor v ∈ made → c.decode (c.encode v) = some v

theorem FaithfulOn.mono {c : Codec} {made made' : List Payload} (h : c.FaithfulOn made)
    (hs : ∀ p ∈ made', p ∈ made) : c.FaithfulOn made' :=
  ⟨fun p hp q hq => h.collision_free p (hs p hp) q (hs q hq), fun v hv => h.cbor v (hs _ hv)⟩

@[simp] theorem block_digest (c : Codec) (p : Payload) : (c.block p).cid.digest = c.sha256 (c.block p).bytes := by
  cases p <;> rfl

end Codec

/-- A block getter over a list of blocks. -/
def getBlock (blocks : List Block) : BlockGetter := fun cid =>
  match BlockStore.find Block.cid blocks cid with
  | some b => .ok b.bytes
  | none => .error (.block cid "missing")

/-- Recompute the multihash of `bytes` and confirm it matches `cid`. -/
def verifyBlock (c : Codec) (cid : Cid) (bytes : Bytes) : Except Fault Unit :=
  let got := c.sha256 bytes
  let want := cid.digest
  if got.length ≠ want.length then .error (.block cid "length mismatch")
  else if got ≠ want then .error (.block cid "failed CID verification (tampered?)")
  else .ok ()

def fetchVerified (c : Codec) (get : BlockGetter) (verify : Bool) (cid : Cid) : Except Fault Bytes := do
  let bytes ← get cid
  if verify then verifyBlock c cid bytes
  return bytes

/-- `dagCbor.decode` of the block under `cid`. -/
def fetchCbor (c : Codec) (get : BlockGetter) (verify : Bool) (cid : Cid) : Except Fault Ipld := do
  let bytes ← fetchVerified c get verify cid
  match c.decode bytes with
  | some v => return v
  | none => .error .decode

namespace Codec.FaithfulOn
variable {c : Codec} {made : List Payload}

end Codec.FaithfulOn

end TrackerStream
