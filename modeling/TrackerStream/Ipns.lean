import TrackerStream.Text

/-!
# Signed IPNS records

A playlist travels as a document next to an IPNS record signed by the playlist's key: the name is the key's
PeerId, the record's value is the raw sha2-256 CID of the document, and its sequence number orders the
versions. The desktop checks records with `verify_b64_seq`; signatures, CIDs and the hash are libraries of the
code, the parameters `IpnsLib`.
-/

namespace TrackerStream

/-- A CID: its codec, and the code and digest of its multihash. -/
structure ContentId where
  codec : Nat
  hashCode : Nat
  digest : Bytes
deriving DecidableEq, Repr

/-- A decoded record: the text it signs, the sequence number, and the end of its life in unix seconds if it can
be read. -/
structure IpnsRecord where
  value : String
  sequence : UInt64
  validity : Option Int
deriving DecidableEq, Repr

structure IpnsLib where
  sha256 : Bytes → Bytes
  /-- Whether a text is a PeerId. -/
  isPeer : String → Bool
  /-- The CID a record's value holds. -/
  valueCid : String → Option ContentId
  decode : Bytes → Option IpnsRecord
  /-- Whether the bytes of a record are signed with the key of the name. -/
  signed : String → Bytes → Bool

/-! ### Sequence numbers in a signed column -/

/-- `seq as i64`. -/
def as_i64 (seq : UInt64) : Int := if seq.toNat < 2 ^ 63 then seq.toNat else seq.toNat - 2 ^ 64

/-- `seq as u64`. -/
def as_u64 (seq : Int) : UInt64 := .ofNat (seq % 2 ^ 64).toNat

theorem as_i64_of_lt {seq : UInt64} (h : seq.toNat < 2 ^ 63) : as_i64 seq = seq.toNat := if_pos h

@[simp] theorem toNat_as_u64 (seq : Int) : (as_u64 seq).toNat = (seq % 2 ^ 64).toNat := by
  rw [as_u64, UInt64.toNat_ofNat']
  exact Nat.mod_eq_of_lt (by omega)

@[simp] theorem as_u64_as_i64 (seq : UInt64) : as_u64 (as_i64 seq) = seq := by
  have := seq.toNat_lt
  apply UInt64.toNat_inj.1
  rw [toNat_as_u64, as_i64]
  split <;> omega

theorem as_i64_inj {a b : UInt64} (h : as_i64 a = as_i64 b) : a = b := by
  rw [← as_u64_as_i64 a, h, as_u64_as_i64]

theorem as_i64_neg {seq : UInt64} : as_i64 seq < 0 ↔ 2 ^ 63 ≤ seq.toNat := by
  have := seq.toNat_lt
  rw [as_i64]
  split <;> omega

theorem toNat_as_u64_of_nonneg {seq : Int} (h : 0 ≤ seq) (h' : seq < 2 ^ 64) : ((as_u64 seq).toNat : Int) = seq := by
  rw [toNat_as_u64]
  omega

/-! ### Records -/

variable (lib : IpnsLib)

/-- The CID of a document: raw, sha2-256. -/
def docCid (doc : Bytes) : ContentId := ⟨0x55, 0x12, lib.sha256 doc⟩

def doc_matches_cid (cid : ContentId) (doc : Bytes) : Bool :=
  cid.codec == 0x55 && cid.hashCode == 0x12 && cid.digest == lib.sha256 doc

theorem doc_matches_cid_iff {cid : ContentId} {doc : Bytes} :
    doc_matches_cid lib cid doc = true ↔ cid = docCid lib doc := by
  cases cid
  simp [doc_matches_cid, docCid, and_assoc]

def verify_record_seq (now : Int) (name : String) (bytes : Bytes) : Except String (ContentId × UInt64) :=
  if !lib.isPeer name then .error s!"bad ipns name {name}"
  else
    match lib.decode bytes with
    | none => .error "decode ipns record"
    | some record =>
      if !lib.signed name bytes then .error s!"ipns signature invalid for {name}"
      else if record.validity.any (· < now) then .error s!"ipns record for {name} expired"
      else
        match lib.valueCid record.value with
        | none => .error "ipns value"
        | some cid => .ok (cid, record.sequence)

def verify_b64_seq (now : Int) (name b64 : String) : Except String (ContentId × UInt64) :=
  match unbase64 (trim b64) with
  | none => .error "ipns record not base64"
  | some bytes => verify_record_seq lib now name bytes

/-- The record a base64 text holds. -/
def recordOf (b64 : String) : Option IpnsRecord := (unbase64 (trim b64)).bind lib.decode

def record_eol_secs (b64 : String) : Int :=
  match recordOf lib b64 with
  | some record => record.validity.getD 0
  | none => 0

@[simp] theorem recordOf_base64 (b : Bytes) : recordOf lib (base64 b) = lib.decode b := by
  rw [recordOf, trim_base64, unbase64_base64, Option.bind_some]

@[simp] theorem verify_b64_seq_base64 (now : Int) (name : String) (b : Bytes) :
    verify_b64_seq lib now name (base64 b) = verify_record_seq lib now name b := by
  rw [verify_b64_seq, trim_base64, unbase64_base64]

def RENEW_MARGIN_SECS : Int := 24 * 3600

def record_near_eol (now : Int) (b64 : String) : Bool :=
  match (recordOf lib b64).bind (·.validity) with
  | some eol => eol < now + RENEW_MARGIN_SECS
  | none => true

/-- What a text that verifies holds. -/
theorem verify_b64_seq_ok {now : Int} {name b64 : String} {cid : ContentId} {seq : UInt64}
    (h : verify_b64_seq lib now name b64 = .ok (cid, seq)) :
    lib.isPeer name = true ∧ ∃ record, recordOf lib b64 = some record ∧ lib.valueCid record.value = some cid ∧
      record.sequence = seq := by
  simp only [verify_b64_seq] at h
  split at h
  · cases h
  next bytes hbytes =>
    simp only [verify_record_seq] at h
    split at h
    · cases h
    next hpeer =>
      split at h
      · cases h
      next record hrecord =>
        split at h
        · cases h
        split at h
        · cases h
        split at h
        · cases h
        next cid' hcid =>
          cases h
          refine ⟨by simpa using hpeer, record, ?_, hcid, rfl⟩
          rw [recordOf, hbytes, Option.bind_some, hrecord]

/-- The same text verified at two times is the same record. -/
theorem verify_b64_seq_unique {now now' : Int} {name name' b64 : String} {x y : ContentId × UInt64}
    (hx : verify_b64_seq lib now name b64 = .ok x) (hy : verify_b64_seq lib now' name' b64 = .ok y) : x = y := by
  obtain ⟨-, r, hr, hcid, hseq⟩ := verify_b64_seq_ok lib hx
  obtain ⟨-, r', hr', hcid', hseq'⟩ := verify_b64_seq_ok lib hy
  rw [hr, Option.some.injEq] at hr'
  subst hr'
  rw [hcid, Option.some.injEq] at hcid'
  exact Prod.ext hcid' (hseq.symm.trans hseq')

end TrackerStream
