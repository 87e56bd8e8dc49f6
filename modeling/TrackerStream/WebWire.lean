import TrackerStream.PlaylistDoc
import TrackerStream.PlaylistLink

/-!
# Playlists on the wire, in the browser

`doc.ts`, `wire.ts` and `link.ts`: the check of untrusted document bytes, the gossip message with its check,
and links. The browser reads text with `textDecode` and shifts 32-bit numbers, so its readers are not those
of the desktop. `JSON` is a library of the code, a parameter; so are records and CIDs (`IpnsLib`). What the
browser writes is read back by `decode_encodePlaylistMsg` and `parseLink_buildLink`.
-/

namespace TrackerStream.WebPlaylists
open Playlists

/-! ### Documents -/

/-- A value where a text is expected. -/
inductive Field
  | undefined
  | null
  | text (s : String)
deriving DecidableEq, Repr

/-- `f ?? dflt`. -/
def Field.or : Field → String → String
  | text s, _ => s
  | _, dflt => dflt

/-- `` `${f}` ``. -/
def Field.shown : Field → String
  | undefined => "undefined"
  | null => "null"
  | text s => s

/-- `[md5, module name, song title]`. -/
structure TrackRef where
  md5 : Field
  modName : Field
  title : Field
deriving DecidableEq, Repr

/-- A parsed document; its version, if that is a number. -/
structure PlaylistDoc where
  v : Option Rat
  t : Field := .undefined
  del : Bool := false
  ts : Option (List TrackRef) := none
deriving DecidableEq, Repr

structure WebLib extends IpnsLib where
  /-- `JSON.parse`. -/
  parse : String → Except String PlaylistDoc
  /-- `JSON.stringify`. -/
  stringify : PlaylistDoc → String

variable (lib : WebLib)

/-- The length of a text in the browser. -/
def utf16Length (s : String) : Nat := (s.toList.map fun c => if c.toNat < 0x10000 then 1 else 2).sum

def checkTracks : List TrackRef → Except String Unit
  | [] => .ok ()
  | t :: ts =>
    if t.md5.or "" = "" ∨ MD5_MAX < utf16Length (t.md5.or "") then .error "track md5 key out of bounds"
    else if FIELD_MAX < utf16Length (t.modName.or "") ∨ FIELD_MAX < utf16Length (t.title.or "") then
      .error "track field too long"
    else checkTracks ts

def validateDoc (bytes : Bytes) : Except String PlaylistDoc :=
  if bytes.length = 0 ∨ DOC_MAX < bytes.length then .error s!"doc size {bytes.length} out of bounds"
  else
    match lib.parse (textDecode bytes) with
    | .error e => .error e
    | .ok doc =>
      if doc.v.all (· < (DOC_VERSION : Rat)) then .error "obsolete doc version"
      else if doc.del then .ok doc
      else if TITLE_MAX < utf16Length (doc.t.or "") then .error "title too long"
      else if TRACKS_MAX < (doc.ts.getD []).length then .error s!"too many tracks ({(doc.ts.getD []).length})"
      else
        match checkTracks (doc.ts.getD []) with
        | .error e => .error e
        | .ok _ => .ok doc

/-- The bytes of a document, with the fields that say something. -/
def encodeDoc (doc : PlaylistDoc) : Bytes :=
  utf8 (lib.stringify
    (if doc.del then { v := doc.v, del := true }
    else
      { v := doc.v
        t := if doc.t.or "" = "" then .undefined else doc.t
        ts := doc.ts.filter (·.length ≠ 0) }))

/-! ### Messages -/

def MSG_VERSION : UInt8 := 0x01

/-- Read a number of `n` bytes at most from `i` on, of which `x` is read and `s` bits are gone; the number, and
where it ends. -/
def varint (b : Bytes) : Nat → Int → Nat → BitVec 32 → Option (Int × Int)
  | 0, _, _, _ => none
  | n + 1, i, s, x =>
    match if 0 ≤ i then b[i.toNat]? else none with
    | none => varint b n (i + 1) (s + 7) x
    | some c =>
      let x := x ||| BitVec.ofNat 32 (c.toNat % 0x80) <<< (s % 32)
      if c.toNat < 0x80 then some (x.toInt, i + 1) else varint b n (i + 1) (s + 7) x

def readUvarint (b : Bytes) (at' : Int) : Option (Int × Int) := varint b (min 6 (b.length - at').toNat) at' 0 0

/-- A part of a message, and where it ends. -/
def readFrame (b : Bytes) (max at' : Int) : Except String (Bytes × Int) :=
  match readUvarint b at' with
  | none => .error "malformed playlist envelope frame"
  | some (len, next) =>
    if max < len ∨ b.length < next + len then .error "malformed playlist envelope frame"
    else .ok (subarray b next (next + len), next + len)

def encodePlaylistMsg (name : String) (rec doc : Bytes) : Bytes :=
  MSG_VERSION :: (frame (utf8 name) ++ frame rec ++ frame doc)

def decodePlaylistMsg (b : Bytes) : Except String (String × Bytes × Bytes) :=
  if b.head? ≠ some MSG_VERSION then .error "unknown wire message version"
  else do
    let (nb, at') ← readFrame b NAME_MAX 1
    let (rec, at') ← readFrame b RECORD_MAX at'
    let (doc, at') ← readFrame b DOC_MAX at'
    if at' ≠ b.length then throw "trailing bytes in playlist envelope"
    else return (textDecode nb, rec, doc)

/-- Verify a message; the sequence number of its record. -/
def validatePlaylistMsg (now : Int) (name : String) (rec doc : Bytes) : Except String UInt64 :=
  if doc.length = 0 ∨ DOC_MAX < doc.length then .error s!"playlist doc size {doc.length} out of bounds"
  else if !lib.isPeer name then .error s!"bad name {name}"
  else
    match lib.decode rec with
    | none => .error "malformed record"
    | some r =>
      if !lib.signed name rec then .error "record signature invalid"
      else if r.validity.any (· < now) then .error "record has expired"
      else
        match lib.valueCid r.value with
        | none => .error s!"record value {r.value} is not /ipfs/"
        | some c => if docCid lib.toIpnsLib doc ≠ c then .error "doc does not hash to record cid" else .ok r.sequence

/-! ### Links -/

/-- A part of an envelope, and where it ends. -/
def envelopeFrame (b : Bytes) (max at' : Int) : Except String (Bytes × Int) :=
  match varint b (b.length - at').toNat at' 0 0 with
  | none => .error "malformed envelope frame"
  | some (v, next) =>
    if max < v ∨ b.length - next < v then .error s!"envelope frame out of bounds ({v} > {max})"
    else .ok (subarray b next (next + v), next + v)

def encodeEnvelope (name : String) (record doc : Bytes) : Bytes := frame (utf8 name) ++ frame record ++ frame doc

def decodeEnvelope (b : Bytes) : Except String (String × Bytes × Bytes) := do
  let (name, at') ← envelopeFrame b NAME_MAX 0
  let (record, at') ← envelopeFrame b RECORD_MAX at'
  let (doc, at') ← envelopeFrame b DOC_MAX at'
  if at' ≠ b.length then throw "trailing bytes in envelope"
  else return (textDecode name, record, doc)

def validName (n : String) : Bool := utf16Length n ≠ 0 && utf16Length n ≤ NAME_MAX && n.toList.all Char.isAlphanum

def b64url (b : Bytes) : String := .ofList (Base64.urlSafe.encode false b)

def unb64url (s : List Char) : Option Bytes :=
  let pad := s.map fun c => if c = '-' then '+' else if c = '_' then '/' else c
  atob (.ofList (pad ++ .replicate ((4 - pad.length % 4) % 4) '='))

def buildLink (name recordB64 docJson : String) : Except String String :=
  match atob (jsTrim recordB64) with
  | none => .error "The string to be decoded is not correctly encoded."
  | some record =>
    let url := WEB_BASE ++ name ++ "#" ++ b64url (encodeEnvelope name record (utf8 docJson))
    if URL_CHAR_MAX < utf16Length url then .ok (WEB_BASE ++ name) else .ok url

/-- The name of a link, and its envelope if it has one. -/
def parseLink (url : String) : Except String (String × Option Bytes) :=
  match link_parts (jsTrim url).toList with
  | none => .error s!"not a playlist link: {url}"
  | some (name, frag) =>
    if !validName name then .error "bad playlist name in link"
    else if frag.isEmpty then .ok (name, none)
    else
      match unb64url frag with
      | none => .error "The string to be decoded is not correctly encoded."
      | some envelope => .ok (name, some envelope)

/-! ### Round trips -/

theorem toNat_or_shift {x : BitVec 32} {c s : Nat} (hx : x.toNat < 2 ^ s) (hc : c * 2 ^ s < 2 ^ 32) :
    (x ||| BitVec.ofNat 32 c <<< s).toNat = x.toNat + c * 2 ^ s := by
  have hc' : c < 2 ^ 32 := (Nat.le_mul_of_pos_right c (Nat.two_pow_pos s)).trans_lt hc
  rw [BitVec.toNat_or, BitVec.toNat_shiftLeft, BitVec.toNat_ofNat, Nat.mod_eq_of_lt hc', Nat.shiftLeft_eq,
    Nat.mod_eq_of_lt hc, Nat.or_comm, Nat.mul_comm c, ← Nat.two_pow_add_eq_or_of_lt hx, Nat.add_comm]

theorem varint_put {n v fuel s : Nat} {x : BitVec 32} (pre post : Bytes) (hv : v < 2 ^ (7 * n)) (hn : 0 < n)
    (hx : x.toNat < 2 ^ s) (hsum : x.toNat + v * 2 ^ s < 2 ^ 31) (hs : s < 32)
    (hfuel : (put_uvarint n v).length ≤ fuel) :
    varint (pre ++ put_uvarint n v ++ post) fuel pre.length s x =
      some (((x.toNat + v * 2 ^ s : Nat) : Int), ((pre.length + (put_uvarint n v).length : Nat) : Int)) := by
  induction n generalizing v fuel s x pre with
  | zero => omega
  | succ n ih =>
    have hpow : 2 ^ (7 * (n + 1)) = 2 ^ (7 * n) * 2 ^ 7 := Nat.pow_add ..
    have hget (c : UInt8) (rest : Bytes) :
        (if 0 ≤ (pre.length : Int) then (pre ++ c :: rest ++ post)[(pre.length : Int).toNat]? else none) = some c := by
      rw [if_pos (by omega), Int.toNat_natCast, List.append_assoc, List.getElem?_append_right (Nat.le_refl _),
        Nat.sub_self]
      rfl
    have hmod : v % 0x80 * 2 ^ s ≤ v * 2 ^ s := Nat.mul_le_mul_right _ (Nat.mod_le v 0x80)
    have hor := toNat_or_shift (c := v % 0x80) hx (by omega)
    by_cases hle : 0x80 ≤ v
    · rw [put_uvarint, if_pos hle] at hfuel ⊢
      obtain ⟨fuel, rfl⟩ := Nat.exists_eq_add_of_le' (Nat.one_le_of_lt hfuel)
      have hbyte : (UInt8.ofNat (v % 0x80 + 0x80)).toNat = v % 0x80 + 0x80 := by
        rw [UInt8.toNat_ofNat']
        exact Nat.mod_eq_of_lt (by omega)
      have hs' : s + 7 < 32 := by
        by_contra hge
        have h₁ := Nat.pow_le_pow_right (n := 2) (by omega) (show 25 ≤ s by omega)
        have h₂ := Nat.mul_le_mul hle h₁
        omega
      have hpos : 0 < n := by
        rcases Nat.eq_zero_or_pos n with rfl | h
        · omega
        · exact h
      have hsplit : v * 2 ^ s = v % 0x80 * 2 ^ s + v / 0x80 * 2 ^ (s + 7) := by
        rw [Nat.pow_add, Nat.mul_comm (2 ^ s), ← Nat.mul_assoc, ← Nat.add_mul]
        congr 1
        omega
      have hlt : v % 0x80 * 2 ^ s ≤ 0x7f * 2 ^ s := Nat.mul_le_mul_right _ (by omega)
      have hih := @ih (v / 0x80) fuel (s + 7) (x ||| BitVec.ofNat 32 (v % 0x80) <<< s)
        (pre ++ [.ofNat (v % 0x80 + 0x80)]) (by omega) hpos (by rw [hor, Nat.pow_add]; omega) (by rw [hor]; omega) hs'
        (by simpa using hfuel)
      rw [varint, hget]
      dsimp only
      rw [hbyte, if_neg (by omega), Nat.mod_eq_of_lt hs, show (v % 0x80 + 0x80) % 0x80 = v % 0x80 by omega]
      simp only [List.append_assoc, List.length_append, List.length_cons, List.length_nil,
        hor, List.cons_append, List.nil_append] at hih ⊢
      rw [show ((pre.length : Int) + 1) = ((pre.length + (0 + 1) : Nat) : Int) by omega, hih, hsplit]
      congr 2
      · omega
      · omega
    · rw [put_uvarint, if_neg hle] at hfuel ⊢
      obtain ⟨fuel, rfl⟩ := Nat.exists_eq_add_of_le' (Nat.one_le_of_lt hfuel)
      have hbyte : (UInt8.ofNat v).toNat = v := by
        rw [UInt8.toNat_ofNat']
        exact Nat.mod_eq_of_lt (by omega)
      have hv' : v % 0x80 = v := Nat.mod_eq_of_lt (by omega)
      rw [hv'] at hor
      rw [varint, hget]
      dsimp only
      rw [hbyte, hv', if_pos (by omega), Nat.mod_eq_of_lt hs, BitVec.toInt_eq_toNat_of_lt (by omega), hor]
      simp

theorem length_put_uvarint {n v k : Nat} (hv : v < 2 ^ (7 * k)) (hk : 0 < k) : (put_uvarint n v).length ≤ k := by
  induction n generalizing v k with
  | zero => exact Nat.zero_le _
  | succ n ih =>
    rw [put_uvarint]
    split
    next hle =>
      obtain ⟨k, rfl⟩ : ∃ m, k = m + 1 := Nat.exists_eq_add_of_le' hk
      have hpow : 2 ^ (7 * (k + 1)) = 2 ^ (7 * k) * 2 ^ 7 := Nat.pow_add ..
      have hpos : 0 < k := by
        rcases Nat.eq_zero_or_pos k with rfl | h
        · omega
        · exact h
      exact Nat.succ_le_succ (ih (by omega) hpos)
    next => exact hk

section
variable (pre post : Bytes) {part : Bytes} {max : Nat}

theorem varint_frame {fuel : Nat} (h : part.length ≤ 2 ^ 20)
    (hfuel : (put_uvarint 10 part.length).length ≤ fuel) :
    varint (pre ++ frame part ++ post) fuel pre.length 0 0 =
      some ((part.length : Int), ((pre.length + (put_uvarint 10 part.length).length : Nat) : Int)) := by
  have := varint_put (x := 0) (s := 0) pre (part ++ post) (show part.length < 2 ^ (7 * 10) by omega) (by omega)
    (by simp) (by simp; omega) (by omega) hfuel
  simpa [frame] using this

/-- The part of a frame, cut out of what it stands in. -/
theorem subarray_frame {i : Nat} (hi : i = pre.length + (put_uvarint 10 part.length).length) :
    subarray (pre ++ frame part ++ post) i (i + part.length : Nat) = part := by
  have hsplit : pre ++ frame part ++ post = (pre ++ put_uvarint 10 part.length) ++ part ++ post := by
    simp only [frame, List.append_assoc]
  rw [subarray_nat, Buffer.slice, hsplit, List.take_left' (by simp only [List.length_append, hi]),
    List.drop_left' (by rw [List.length_append, hi])]

theorem readFrame_frame (h : part.length ≤ max) (hmax : max ≤ 2 ^ 20) :
    readFrame (pre ++ frame part ++ post) max pre.length = .ok (part, ((pre ++ frame part).length : Nat)) := by
  have hput := length_put_uvarint (n := 10) (v := part.length) (k := 3) (by omega) (by omega)
  have hlen : (pre ++ frame part ++ post).length =
      pre.length + (put_uvarint 10 part.length).length + part.length + post.length := by
    simp only [frame, List.length_append]
    omega
  rw [readFrame, readUvarint, varint_frame _ _ (by omega) (by rw [hlen]; omega)]
  dsimp only
  rw [if_neg (by rw [hlen]; omega), ← Int.natCast_add, subarray_frame _ _ rfl]
  congr 2
  simp only [frame, List.length_append]
  omega

theorem envelopeFrame_frame (h : part.length ≤ max) (hmax : max ≤ 2 ^ 20) :
    envelopeFrame (pre ++ frame part ++ post) max pre.length = .ok (part, ((pre ++ frame part).length : Nat)) := by
  have hlen : (pre ++ frame part ++ post).length =
      pre.length + (put_uvarint 10 part.length).length + part.length + post.length := by
    simp only [frame, List.length_append]
    omega
  rw [envelopeFrame, varint_frame _ _ (by omega) (by rw [hlen]; omega)]
  dsimp only
  rw [if_neg (by rw [hlen]; omega), ← Int.natCast_add, subarray_frame _ _ rfl]
  congr 2
  simp only [frame, List.length_append]
  omega

end

variable {name : String} {rec doc : Bytes}

/-- A message whose parts are not too long is read back. -/
theorem decode_encodePlaylistMsg (hname : (utf8 name).length ≤ NAME_MAX)
    (hmark : byteOrderMark.isPrefixOf (utf8 name) = false) (hrec : rec.length ≤ RECORD_MAX)
    (hdoc : doc.length ≤ DOC_MAX) : decodePlaylistMsg (encodePlaylistMsg name rec doc) = .ok (name, rec, doc) := by
  have h₁ : readFrame (encodePlaylistMsg name rec doc) NAME_MAX 1 =
      .ok (utf8 name, (([MSG_VERSION] ++ frame (utf8 name)).length : Nat)) := by
    rw [show encodePlaylistMsg name rec doc = [MSG_VERSION] ++ frame (utf8 name) ++ (frame rec ++ frame doc) by
      simp [encodePlaylistMsg]]
    exact readFrame_frame [MSG_VERSION] _ hname (by decide)
  have h₂ : readFrame (encodePlaylistMsg name rec doc) RECORD_MAX (([MSG_VERSION] ++ frame (utf8 name)).length : Nat) =
      .ok (rec, (([MSG_VERSION] ++ frame (utf8 name) ++ frame rec).length : Nat)) := by
    rw [show encodePlaylistMsg name rec doc = [MSG_VERSION] ++ frame (utf8 name) ++ frame rec ++ frame doc by
      simp [encodePlaylistMsg]]
    exact readFrame_frame _ _ hrec (by decide)
  have h₃ : readFrame (encodePlaylistMsg name rec doc) DOC_MAX
      (([MSG_VERSION] ++ frame (utf8 name) ++ frame rec).length : Nat) =
        .ok (doc, ((encodePlaylistMsg name rec doc).length : Nat)) := by
    rw [show encodePlaylistMsg name rec doc = [MSG_VERSION] ++ frame (utf8 name) ++ frame rec ++ frame doc ++ [] by
      simp [encodePlaylistMsg]]
    rw [readFrame_frame _ _ hdoc (by decide), List.append_nil]
  rw [decodePlaylistMsg, if_neg (by simp [encodePlaylistMsg])]
  simp only [h₁, h₂, h₃, bind, Except.bind]
  simp only [ne_eq, not_true_eq_false, ↓reduceIte, textDecode_utf8 hmark]
  rfl

theorem decode_encodeEnvelope (hname : (utf8 name).length ≤ NAME_MAX)
    (hmark : byteOrderMark.isPrefixOf (utf8 name) = false) (hrec : rec.length ≤ RECORD_MAX)
    (hdoc : doc.length ≤ DOC_MAX) : decodeEnvelope (encodeEnvelope name rec doc) = .ok (name, rec, doc) := by
  have h₁ : envelopeFrame (encodeEnvelope name rec doc) NAME_MAX 0 =
      .ok (utf8 name, ((frame (utf8 name)).length : Nat)) := by
    rw [show encodeEnvelope name rec doc = [] ++ frame (utf8 name) ++ (frame rec ++ frame doc) by
      simp [encodeEnvelope]]
    exact envelopeFrame_frame [] _ hname (by decide)
  have h₂ : envelopeFrame (encodeEnvelope name rec doc) RECORD_MAX ((frame (utf8 name)).length : Nat) =
      .ok (rec, ((frame (utf8 name) ++ frame rec).length : Nat)) := by
    rw [encodeEnvelope]
    exact envelopeFrame_frame _ _ hrec (by decide)
  have h₃ : envelopeFrame (encodeEnvelope name rec doc) DOC_MAX ((frame (utf8 name) ++ frame rec).length : Nat) =
      .ok (doc, ((encodeEnvelope name rec doc).length : Nat)) := by
    rw [show encodeEnvelope name rec doc = frame (utf8 name) ++ frame rec ++ frame doc ++ [] by simp [encodeEnvelope]]
    rw [envelopeFrame_frame _ _ hdoc (by decide), List.append_nil]
  simp only [decodeEnvelope, h₁, h₂, h₃, bind, Except.bind, ne_eq, not_true_eq_false, ↓reduceIte,
    textDecode_utf8 hmark]
  rfl

theorem unb64url_b64url (b : Bytes) : unb64url (b64url b).toList = some b := by
  have hletter : ∀ n < 64, (let c := Base64.urlSafe.letter n
      if c = '-' then '+' else if c = '_' then '/' else c) = Base64.standard.letter n := by
    decide
  have hmap : ((Base64.sextets b).map Base64.urlSafe.letter).map
      (fun c => if c = '-' then '+' else if c = '_' then '/' else c) =
        (Base64.sextets b).map Base64.standard.letter := by
    rw [List.map_map]
    exact List.map_congr_left fun n hn => hletter n (Base64.sextets_lt b n hn)
  have hpad : String.ofList ((Base64.sextets b).map Base64.standard.letter ++
      .replicate ((4 - (Base64.sextets b).length % 4) % 4) '=') = base64 b := rfl
  simp only [unb64url, b64url, String.toList_ofList, Base64.encode, Bool.false_eq_true, ↓reduceIte, List.append_nil]
  rw [hmap, List.length_map, hpad, atob_base64]

/-! ### Names -/

theorem utf16Length_of_alphanum {s : String} (h : ∀ c ∈ s.toList, c.isAlphanum = true) :
    utf16Length s = s.toList.length := by
  rw [utf16Length]
  generalize s.toList = cs at h ⊢
  induction cs with
  | nil => rfl
  | cons c cs ih =>
    have := isAlphanum_printable (h c (by simp))
    rw [List.map_cons, List.sum_cons, ih fun d hd => h d (by simp [hd]), if_pos (by omega), List.length_cons,
      Nat.add_comm]

theorem validName_of_valid_name (h : valid_name name = true) : validName name = true := by
  simp only [valid_name, Bool.and_eq_true, bne_iff_ne, decide_eq_true_eq] at h
  obtain ⟨⟨hne, hle⟩, halnum⟩ := h
  have hlen := utf16Length_of_alphanum (List.all_eq_true.1 halnum)
  have hshort := toList_length_le name
  have hpos : name.toList.length ≠ 0 := by
    intro h
    rw [List.length_eq_zero_iff, String.toList_eq_nil_iff] at h
    subst h
    exact hne rfl
  simp only [validName, hlen, Bool.and_eq_true, decide_eq_true_eq]
  exact ⟨⟨hpos, by omega⟩, halnum⟩

/-- A plausible name has no byte order mark before it. -/
theorem mark_of_valid_name (h : valid_name name = true) : byteOrderMark.isPrefixOf (utf8 name) = false := by
  by_contra hmark
  rw [Bool.not_eq_false] at hmark
  obtain ⟨b, hb⟩ := List.isPrefixOf_iff_prefix.1 hmark
  obtain ⟨s, rfl⟩ := utf8_of_mark ⟨_, hb.symm⟩
  have hname : name = .ofList [.ofNat 0xFEFF] ++ s := by
    apply utf8_inj
    rw [← hb]
    have hbom : byteOrderMark = utf8 (.ofList [.ofNat 0xFEFF]) := by decide
    rw [hbom]
    simp [utf8]
  simp only [valid_name, Bool.and_eq_true, List.all_eq_true] at h
  have := h.2 (.ofNat 0xFEFF) (by rw [hname]; simp)
  exact absurd this (by decide)

/-- A link that was built is one to the name alone, or its envelope is the record and the document. -/
theorem parseLink_buildLink {recordB64 docJson url : String} (hname : valid_name name = true)
    (hrecord : atob (jsTrim recordB64) = some rec) (hrec : rec.length ≤ RECORD_MAX)
    (hdoc : (utf8 docJson).length ≤ DOC_MAX) (h : buildLink name recordB64 docJson = .ok url) :
    parseLink url = .ok (name, none) ∨
      ∃ env, parseLink url = .ok (name, some env) ∧ decodeEnvelope env = .ok (name, rec, utf8 docJson) := by
  have parse (frag tail : List Char) (hfrag : ∀ c ∈ frag, 32 < c.toNat ∧ c.toNat < 127)
      (htail : tail = [] ∧ frag = [] ∨ tail = '#' :: frag) : parseLink (WEB_BASE ++ name ++ .ofList tail) =
        if frag.isEmpty then .ok (name, none)
        else
          match unb64url frag with
          | none => .error "The string to be decoded is not correctly encoded."
          | some envelope => .ok (name, some envelope) := by
    obtain ⟨hprint, hparts⟩ := link_parts_web hname frag tail hfrag htail
    have htrim : jsTrim (WEB_BASE ++ name ++ .ofList tail) = WEB_BASE ++ name ++ .ofList tail := by
      rw [jsTrim]
      exact trimBy_of_forall fun c hc => isJsSpace_of_printable (hprint c hc)
    rw [parseLink, htrim, hparts]
    simp only [validName_of_valid_name hname, Bool.not_true, Bool.false_eq_true, ↓reduceIte]
  simp only [buildLink, hrecord] at h
  split at h
  · cases h
    have := parse [] [] (by simp) (.inl ⟨rfl, rfl⟩)
    rw [String.ofList_nil, String.append_empty] at this
    exact .inl this
  · cases h
    have hprint := Base64.urlSafe.printable_encode false (encodeEnvelope name rec (utf8 docJson))
    have htext : WEB_BASE ++ name ++ "#" ++ b64url (encodeEnvelope name rec (utf8 docJson)) =
        WEB_BASE ++ name ++ .ofList ('#' :: (b64url (encodeEnvelope name rec (utf8 docJson))).toList) := by
      apply String.toList_inj.1
      simp only [String.toList_append, String.toList_ofList, List.append_assoc]
      rfl
    have hdecode := decode_encodeEnvelope (by
      rw [utf8_length]
      simp only [valid_name, Bool.and_eq_true, decide_eq_true_eq] at hname
      exact hname.1.2) (mark_of_valid_name hname) hrec hdoc
    have hlink := parse (b64url (encodeEnvelope name rec (utf8 docJson))).toList _
      (by rwa [b64url, String.toList_ofList]) (.inr rfl)
    rw [unb64url_b64url] at hlink
    rw [htext, hlink]
    split
    · exact .inl rfl
    · exact .inr ⟨_, rfl, hdecode⟩

end TrackerStream.WebPlaylists
