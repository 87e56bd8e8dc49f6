import TrackerStream.Beacon
import TrackerStream.Race

/-!
# Assisted fetches (`fwd.go`)

`FwdFetch` asks every connected forwarder for a block and `assistGet` races that with a plain fetch. Both are a `Race`: a
goroutine for each target or arm that may send what it gets on `res`, a goroutine that closes `done` behind them, and a
`select` over the two channels and the caller's context. What the donors and the plain fetch answer, and when, is part of a
run; hashes are the parameter `Lib`.
-/

namespace TrackerStream.Fwd

structure Lib (Cid : Type) where
  /-- `c.Prefix().Sum(data)`. -/
  sum : Cid → Bytes → Option Cid

structure Block (Cid : Type) where
  cid : Cid
  data : Bytes
deriving DecidableEq

def fwdTagBlock : UInt8 := 1
def fwdTagMiss : UInt8 := 2
def fwdTagBusy : UInt8 := 3

inductive Failure
  | newStream | write | read | busy | malformed | mismatch
  | noTargets | outboundCap | missed | cancelled
  /-- An error of the plain fetch. -/
  | raw
deriving DecidableEq, Repr

/-- How a donor's stream goes: whether it opens and takes the request, and its frames up to the error that ends them. -/
structure Reply where
  opened : Bool
  written : Bool
  frames : List Bytes

variable {Cid : Type} [DecidableEq Cid] (lib : Lib Cid) (c : Cid)

/-- The body of a block frame. -/
def readBlock (body : Bytes) : Except Failure (Block Cid) :=
  match Beacon.Node.uvarint body 0 0 with
  | none => .error .malformed
  | some (cidLen, rest) =>
    if rest.length < cidLen.toNat then .error .malformed
    else
      let data := rest.drop cidLen.toNat
      if lib.sum c data = some c then .ok ⟨c, data⟩ else .error .mismatch

def readFrames : List Bytes → Except Failure (Block Cid)
  | [] => .error .read
  | [] :: frames => readFrames frames
  | (tag :: body) :: frames =>
    if tag = fwdTagBusy then .error .busy
    else if tag = fwdTagMiss then readFrames frames
    else if tag = fwdTagBlock then readBlock lib c body
    else readFrames frames

/-- What the `select` over `res`, `done` and the context makes of the result. -/
def result {β : Type} (block : β → Block Cid) : Race.Answer β → Except Failure (Block Cid)
  | .got b => .ok (block b)
  | .missed => .error .missed
  | .cancelled => .error .cancelled

variable {lib c}

/-! ### Hashes -/

end TrackerStream.Fwd
