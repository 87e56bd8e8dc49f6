import TrackerStream.Catalog

/-!
# What a subscriber keeps of a name's records

`find_onCatalogRecord` says what a message does to the record of a name. A subscriber keeps the record with the
highest sequence number that came in, the first of them where there are several (`kept_newest`); the calls of
the ingest all sign with 0 (`seqOf_published`), so the first of its records stays (`last_published_iff`).
-/

namespace TrackerStream.Catalog
variable {Key Cid Pid Record : Type} {lib : Libs Key Cid Pid Record} {s : IpnsStore} {d : Delivery}
  {ds : List Delivery} {name : String}

/-- The record of a name can be read. -/
def Libs.readable (lib : Libs Key Cid Pid Record) (b : Bytes) : Bool := (seqOf lib b).isSome

/-- The checks of `ingestGossip`. -/
def Libs.accepts (lib : Libs Key Cid Pid Record) (d : Delivery) : Bool :=
  (lib.peerDecode d.msg.name).any fun pid => (lib.unmarshal d.msg.record).any fun incoming =>
    lib.validate d.now incoming pid && (lib.sequence incoming).isSome

/-- The record kept of a name when `d` comes in. -/
def Libs.keeps (lib : Libs Key Cid Pid Record) (cur : Option Bytes) (d : Delivery) : Option Bytes :=
  if lib.accepts d then
    if cur.any fun b => (seqOf lib b).any fun q => (seqOf lib d.msg.record).any (· ≤ q) then cur
    else some d.msg.record
  else cur

theorem Libs.readable_of_accepts (h : lib.accepts d = true) : lib.readable d.msg.record = true := by
  simp only [accepts, Option.any_eq_true, Bool.and_eq_true] at h
  obtain ⟨-, -, incoming, hin, -, hseq⟩ := h
  rw [readable, seqOf, hin]
  exact hseq

/-- What a message does to the store: nothing, or it uses its own name. -/
theorem onCatalogRecord_cases (lib : Libs Key Cid Pid Record) (s : IpnsStore) (d : Delivery) :
    onCatalogRecord lib s d = s ∨ onCatalogRecord lib s d = s.touch d.msg.name ∨
    onCatalogRecord lib s d = s.add d.msg.name d.msg.record ∨
      onCatalogRecord lib s d = (s.touch d.msg.name).add d.msg.name d.msg.record := by
  rw [onCatalogRecord]
  split
  next s' h =>
    simp only [ingestGossip] at h
    split at h
    · cases h
    split at h
    · cases h
    split at h
    · cases h
    split at h
    · cases h
    split at h
    · cases h
      exact .inr (.inr (.inl rfl))
    split at h
    all_goals cases h
    · exact .inr (.inl rfl)
    · exact .inr (.inr (.inr rfl))
  next => exact .inl rfl

/-- A set of fewer names than the store holds, with every name used after `name` or brought by the messages. -/
def Room (s : IpnsStore) (name : String) (ds : List Delivery) : Prop :=
  ∃ A : Finset String, A.card < catalogStoreEnts ∧ s.Behind name A ∧ ∀ d ∈ ds, d.msg.name ≠ name → d.msg.name ∈ A

theorem Room.step (lib : Libs Key Cid Pid Record) (h : Room s name (d :: ds)) : Room (onCatalogRecord lib s d) name ds ∧
    (d.msg.name ≠ name → (onCatalogRecord lib s d).find name = s.find name) := by
  obtain ⟨A, hA, hbehind, hds⟩ := h
  have hcap : 0 < catalogStoreEnts := by decide
  refine ⟨⟨A, hA, ?_, fun d' hd' => hds d' (by simp [hd'])⟩, fun hne => ?_⟩
  · rcases eq_or_ne d.msg.name name with rfl | hne
    · rcases onCatalogRecord_cases lib s d with heq | heq | heq | heq
      all_goals rw [heq]
      exacts [hbehind, Lru.behind_touch hcap hbehind, Lru.behind_add_self hcap, Lru.behind_add_self hcap]
    · have hmem := hds d (by simp) hne
      have htouch := Lru.find_touch_of_behind hne.symm hbehind hmem hA
      rcases onCatalogRecord_cases lib s d with heq | heq | heq | heq
      all_goals rw [heq]
      exacts [hbehind, htouch.2, (Lru.find_add_of_behind hne.symm hbehind hmem hA).2,
        (Lru.find_add_of_behind hne.symm htouch.2 hmem hA).2]
  · have hmem := hds d (by simp) hne
    have htouch := Lru.find_touch_of_behind hne.symm hbehind hmem hA
    rcases onCatalogRecord_cases lib s d with heq | heq | heq | heq
    all_goals rw [heq]
    exacts [htouch.1, (Lru.find_add_of_behind hne.symm hbehind hmem hA).1,
      (Lru.find_add_of_behind hne.symm htouch.2 hmem hA).1.trans htouch.1]

/-- A record of sequence number `q` at least is kept. -/
def Libs.AtLeast (lib : Libs Key Cid Pid Record) (cur : Option Bytes) (q : UInt64) : Prop :=
  ∃ b q', cur = some b ∧ seqOf lib b = some q' ∧ q ≤ q'

theorem Libs.AtLeast.keeps {cur : Option Bytes} {q : UInt64} (h : lib.AtLeast cur q) :
    lib.AtLeast (lib.keeps cur d) q := by
  obtain ⟨b, q', rfl, hq', hle⟩ := h
  rw [Libs.keeps]
  split
  next hacc =>
    split
    · exact ⟨b, q', rfl, hq', hle⟩
    next hnot =>
      obtain ⟨q'', hq''⟩ := Option.isSome_iff_exists.1 (Libs.readable_of_accepts hacc)
      simp only [hq', hq'', Option.any_some, decide_eq_true_eq, UInt64.not_le] at hnot
      exact ⟨_, q'', rfl, hq'', UInt64.le_trans hle (UInt64.le_of_lt hnot)⟩
  · exact ⟨b, q', rfl, hq', hle⟩

theorem Libs.AtLeast.foldl {cur : Option Bytes} {q : UInt64} (h : lib.AtLeast cur q) :
    lib.AtLeast (ds.foldl lib.keeps cur) q := by
  induction ds generalizing cur with
  | nil => exact h
  | cons d ds ih => exact ih h.keeps

variable {n : Node Key} {key lifetime : Option String} {calls : List Call} {msg last : CatalogMsg}

def catalogName : String := "12D3KooWG1562ZJ9zk4Zb8w5fwzgEYk3Z8uTYQ2j6X6tFppccsdB"
def rootOne : String := "bafybeifkvpzgp7a7bribrzn4o5dbom6ccfumx22vtzxhnterjfxcbaor4m"
def rootTwo : String := "bafybeiafafpiwdjl5p7242zxtcb7yqlef7a4d26mjqvpfgnrnmi3t53z74"

def recordOne : Bytes :=
  [10, 65, 47, 105, 112, 102, 115, 47, 98, 97, 102, 121, 98, 101, 105, 102, 107, 118, 112, 122, 103, 112, 55, 97,
  55, 98, 114, 105, 98, 114, 122, 110, 52, 111, 53, 100, 98, 111, 109, 54, 99, 99, 102, 117, 109, 120, 50, 50,
  118, 116, 122, 120, 104, 110, 116, 101, 114, 106, 102, 120, 99, 98, 97, 111, 114, 52, 109, 18, 64, 241, 182,
  227, 109, 250, 54, 244, 47, 223, 139, 158, 44, 126, 2, 126, 126, 80, 132, 184, 94, 138, 193, 133, 91, 94, 223,
  183, 180, 219, 80, 210, 104, 147, 53, 156, 116, 223, 28, 6, 39, 252, 62, 41, 133, 193, 7, 96, 111, 15, 91, 16,
  4, 21, 217, 139, 101, 151, 199, 153, 25, 73, 235, 145, 10, 24, 0, 34, 20, 50, 48, 50, 54, 45, 48, 53, 45, 51,
  48, 84, 50, 48, 58, 50, 54, 58, 52, 48, 90, 40, 0, 48, 128, 240, 146, 203, 221, 8, 66, 64, 78, 249, 20, 120, 8,
  102, 82, 187, 96, 171, 70, 177, 93, 247, 151, 23, 180, 10, 117, 81, 160, 43, 205, 45, 104, 130, 128, 142, 226,
  119, 155, 47, 218, 114, 113, 105, 233, 244, 218, 116, 40, 25, 140, 49, 232, 152, 146, 22, 162, 124, 176, 13, 41,
  146, 3, 142, 79, 190, 250, 9, 195, 181, 63, 8, 74, 141, 1, 165, 99, 84, 84, 76, 27, 0, 0, 0, 69, 217, 100, 184,
  0, 101, 86, 97, 108, 117, 101, 88, 65, 47, 105, 112, 102, 115, 47, 98, 97, 102, 121, 98, 101, 105, 102, 107,
  118, 112, 122, 103, 112, 55, 97, 55, 98, 114, 105, 98, 114, 122, 110, 52, 111, 53, 100, 98, 111, 109, 54, 99,
  99, 102, 117, 109, 120, 50, 50, 118, 116, 122, 120, 104, 110, 116, 101, 114, 106, 102, 120, 99, 98, 97, 111,
  114, 52, 109, 104, 83, 101, 113, 117, 101, 110, 99, 101, 0, 104, 86, 97, 108, 105, 100, 105, 116, 121, 84, 50,
  48, 50, 54, 45, 48, 53, 45, 51, 48, 84, 50, 48, 58, 50, 54, 58, 52, 48, 90, 108, 86, 97, 108, 105, 100, 105,
  116, 121, 84, 121, 112, 101, 0]

def recordTwo : Bytes :=
  [10, 65, 47, 105, 112, 102, 115, 47, 98, 97, 102, 121, 98, 101, 105, 97, 102, 97, 102, 112, 105, 119, 100, 106,
  108, 53, 112, 55, 50, 52, 50, 122, 120, 116, 99, 98, 55, 121, 113, 108, 101, 102, 55, 97, 52, 100, 50, 54, 109,
  106, 113, 118, 112, 102, 103, 110, 114, 110, 109, 105, 51, 116, 53, 51, 122, 55, 52, 18, 64, 143, 17, 51, 34,
  34, 180, 237, 120, 87, 183, 252, 210, 122, 69, 132, 235, 192, 195, 188, 32, 32, 239, 57, 164, 137, 103, 62, 34,
  101, 206, 5, 160, 2, 25, 205, 242, 251, 197, 112, 41, 240, 184, 24, 227, 222, 238, 120, 96, 149, 201, 144, 142,
  77, 185, 165, 64, 60, 18, 107, 103, 47, 5, 203, 0, 24, 0, 34, 20, 50, 48, 50, 54, 45, 48, 53, 45, 51, 48, 84,
  50, 49, 58, 50, 54, 58, 52, 48, 90, 40, 0, 48, 128, 240, 146, 203, 221, 8, 66, 64, 118, 138, 211, 194, 245, 250,
  157, 8, 8, 221, 201, 101, 196, 30, 30, 119, 221, 223, 86, 138, 168, 2, 219, 169, 73, 0, 110, 18, 140, 30, 234,
  64, 156, 188, 33, 53, 15, 185, 135, 49, 174, 116, 12, 79, 113, 159, 111, 235, 77, 61, 70, 237, 94, 179, 214, 31,
  63, 185, 248, 146, 133, 240, 87, 7, 74, 141, 1, 165, 99, 84, 84, 76, 27, 0, 0, 0, 69, 217, 100, 184, 0, 101, 86,
  97, 108, 117, 101, 88, 65, 47, 105, 112, 102, 115, 47, 98, 97, 102, 121, 98, 101, 105, 97, 102, 97, 102, 112,
  105, 119, 100, 106, 108, 53, 112, 55, 50, 52, 50, 122, 120, 116, 99, 98, 55, 121, 113, 108, 101, 102, 55, 97,
  52, 100, 50, 54, 109, 106, 113, 118, 112, 102, 103, 110, 114, 110, 109, 105, 51, 116, 53, 51, 122, 55, 52, 104,
  83, 101, 113, 117, 101, 110, 99, 101, 0, 104, 86, 97, 108, 105, 100, 105, 116, 121, 84, 50, 48, 50, 54, 45, 48,
  53, 45, 51, 48, 84, 50, 49, 58, 50, 54, 58, 52, 48, 90, 108, 86, 97, 108, 105, 100, 105, 116, 121, 84, 121, 112,
  101, 0]

/-- A record with the value, the sequence number and the end of life it was signed with. -/
structure Signed where
  bytes : Bytes
  value : String
  seq : UInt64
  eol : Int
deriving DecidableEq

/-- The records of the two roots. -/
def signedRecords : List Signed :=
  [⟨recordOne, "/ipfs/" ++ rootOne, 0, 1780172800 * 10 ^ 9⟩, ⟨recordTwo, "/ipfs/" ++ rootTwo, 0, 1780176400 * 10 ^ 9⟩]

/-- The packages, for the catalog's key and its two roots. -/
def sample : Libs Unit String {name // name = catalogName} Signed where
  cidDecode s := if s ∈ [rootOne, rootTwo] then some s else none
  cidString c := c
  parseDuration s := if s = "48h" then some (48 * hour) else none
  defaultLifetime := 48 * hour
  idFromKey _ := some ⟨catalogName, rfl⟩
  pidString pid := pid
  peerDecode s := if h : s = catalogName then some ⟨s, h⟩ else none
  newRecord _ value seq eol := signedRecords.find? fun r => r.value = value ∧ r.seq = seq ∧ r.eol = eol
  marshal r := some r.bytes
  unmarshal b := signedRecords.find? (·.bytes = b)
  sequence r := some r.seq
  validate now r _ := now ≤ r.eol

def publisher : Node Unit where
  keystore name := if name = "catalog" then some () else none
  ipns := newIpnsStore

/-- Two roots, an hour apart. -/
def twoCalls : List Call := [⟨rootOne, 1780000000 * 10 ^ 9⟩, ⟨rootTwo, 1780003600 * 10 ^ 9⟩]

end TrackerStream.Catalog
