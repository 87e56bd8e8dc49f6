import TrackerStream.Text

/-!
# Playlist links

`link.rs`: the fragment of a playlist's URL is the envelope of its name, record and document, each after its
length as a uvarint. `parse_build` says what a link that was built parses to.
-/

namespace TrackerStream.Playlists

def NAME_MAX : Nat := 128
def RECORD_MAX : Nat := 10 * 2 ^ 10
def ENVELOPE_DOC_MAX : Nat := 2 ^ 20
def URL_CHAR_MAX : Nat := 8000
def WEB_BASE : String := "https://trackerstream.xyz/p/"
def SCHEME_BASE : String := "trackerstream://playlist/"

/-! ### Envelopes -/

/-- The bytes of a `u64` in groups of seven bits; ten of them are enough. -/
def put_uvarint (n v : Nat) : Bytes :=
  match n with
  | 0 => []
  | n + 1 => if 0x80 ≤ v then .ofNat (v % 0x80 + 0x80) :: put_uvarint n (v / 0x80) else [.ofNat v]

/-- Read at most `n` bytes of a number of which `v` is read and `i` bytes are gone. -/
def read_uvarint (n i v : Nat) : Bytes → Option (Nat × Nat)
  | [] => none
  | byte :: b =>
    match n with
    | 0 => none
    | n + 1 =>
      let v := (v + byte.toNat % 0x80 * 2 ^ (7 * i)) % 2 ^ 64
      if byte.toNat < 0x80 then some (v, i + 1) else read_uvarint n (i + 1) v b

def read_frame (b : Bytes) (max : Nat) : Except String (Bytes × Bytes) :=
  match read_uvarint 10 0 0 b with
  | none => .error "malformed envelope frame"
  | some (len, n) =>
    if max < len ∨ b.length - n < len then .error s!"envelope frame out of bounds ({len} > {max})"
    else .ok ((b.drop n).take len, b.drop (n + len))

def frame (part : Bytes) : Bytes := put_uvarint 10 part.length ++ part

def encode_envelope (name : String) (record doc : Bytes) : Bytes :=
  frame (utf8 name) ++ frame record ++ frame doc

def decode_envelope (b : Bytes) : Except String (String × Bytes × Bytes) := do
  let (name, rest) ← read_frame b NAME_MAX
  let (record, rest) ← read_frame rest RECORD_MAX
  let (doc, rest) ← read_frame rest ENVELOPE_DOC_MAX
  if !rest.isEmpty then throw "trailing bytes in envelope"
  else
    match from_utf8 name with
    | none => throw "envelope name not utf-8"
    | some name => return (name, record, doc)

/-! ### URLs -/

/-- A plausible PeerId. -/
def valid_name (name : String) : Bool :=
  name.utf8ByteSize != 0 && name.utf8ByteSize ≤ NAME_MAX && name.toList.all Char.isAlphanum

def build_link (name record_b64 doc_json : String) : Except String String :=
  match unbase64 (trim record_b64) with
  | none => .error "record not base64"
  | some record =>
    let frag := String.ofList (Base64.urlSafe.encode false (encode_envelope name record (utf8 doc_json)))
    let url := WEB_BASE ++ name ++ "#" ++ frag
    if URL_CHAR_MAX < url.utf8ByteSize then .ok (WEB_BASE ++ name) else .ok url

/-- The name and the fragment of the text of a link. -/
def link_parts (url : List Char) : Option (String × List Char) :=
  ((url.dropPrefix? SCHEME_BASE.toList).or (url.dropPrefix? WEB_BASE.toList)).map fun rest =>
    (.ofList ((rest.takeWhile (· != '#')).rdropWhile (· == '/')), (rest.dropWhile (· != '#')).drop 1)

/-- The name of a link, and its envelope if it has one. -/
@[irreducible] def parse_link (url : String) : Except String (String × Option Bytes) :=
  let url' := (trim url).toList
  match (url'.dropPrefix? SCHEME_BASE.toList).or (url'.dropPrefix? WEB_BASE.toList) with
  | none => .error s!"not a playlist link: {url}"
  | some rest =>
    let name := String.ofList ((rest.takeWhile (· != '#')).rdropWhile (· == '/'))
    let frag := (rest.dropWhile (· != '#')).drop 1
    if !valid_name name then .error "bad playlist name in link"
    else if frag.isEmpty then .ok (name, none)
    else
      match Base64.urlSafe.decode false frag with
      | none => .error "link fragment not base64url"
      | some envelope => .ok (name, some envelope)

theorem parse_link_eq (url : String) : parse_link url =
    match link_parts (trim url).toList with
    | none => .error s!"not a playlist link: {url}"
    | some (name, frag) =>
      if !valid_name name then .error "bad playlist name in link"
      else if frag.isEmpty then .ok (name, none)
      else
        match Base64.urlSafe.decode false frag with
        | none => .error "link fragment not base64url"
        | some envelope => .ok (name, some envelope) := by
  unfold parse_link link_parts
  dsimp only
  cases ((trim url).toList.dropPrefix? SCHEME_BASE.toList).or ((trim url).toList.dropPrefix? WEB_BASE.toList) <;> rfl

/-! ### Round trips -/

theorem read_put (b : Bytes) {n v : Nat} (i acc : Nat) (hv : v < 2 ^ (7 * n)) (hn : 0 < n)
    (hacc : acc + v * 2 ^ (7 * i) < 2 ^ 64) :
    read_uvarint n i acc (put_uvarint n v ++ b) =
      some (acc + v * 2 ^ (7 * i), i + (put_uvarint n v).length) := by
  induction n generalizing v i acc with
  | zero => omega
  | succ n ih =>
    have hpow : 2 ^ (7 * (n + 1)) = 2 ^ (7 * n) * 2 ^ 7 := Nat.pow_add ..
    rw [put_uvarint]
    split
    next hle =>
      have hbyte : (UInt8.ofNat (v % 0x80 + 0x80)).toNat = v % 0x80 + 0x80 := by
        rw [UInt8.toNat_ofNat']
        exact Nat.mod_eq_of_lt (by omega)
      have hmod : (v % 0x80 + 0x80) % 0x80 = v % 0x80 := by omega
      have hsplit : v * 2 ^ (7 * i) = v % 0x80 * 2 ^ (7 * i) + v / 0x80 * 2 ^ (7 * (i + 1)) := by
        rw [show 2 ^ (7 * (i + 1)) = 2 ^ 7 * 2 ^ (7 * i) by rw [← Nat.pow_add]; congr 1; omega,
          ← Nat.mul_assoc, ← Nat.add_mul]
        congr 1
        omega
      have hpos : 0 < n := by
        rcases Nat.eq_zero_or_pos n with rfl | h
        · omega
        · exact h
      rw [List.cons_append, read_uvarint, hbyte, hmod, if_neg (by omega), Nat.mod_eq_of_lt (by omega),
        ih (i + 1) _ (by omega) hpos (by omega), hsplit, List.length_cons, Nat.add_assoc acc, Nat.add_right_comm i 1, Nat.add_assoc i]
    next hlt =>
      have hbyte : (UInt8.ofNat v).toNat = v := by
        rw [UInt8.toNat_ofNat']
        exact Nat.mod_eq_of_lt (by omega)
      rw [List.cons_append, read_uvarint, hbyte, Nat.mod_eq_of_lt (show v < 0x80 by omega), if_pos (by omega), Nat.mod_eq_of_lt hacc]
      rfl

theorem read_frame_frame (rest : Bytes) {part : Bytes} {max : Nat} (h : part.length ≤ max) (hmax : max < 2 ^ 63) :
    read_frame (frame part ++ rest) max = .ok (part, rest) := by
  have hread := read_put (part ++ rest) 0 0 (show part.length < 2 ^ (7 * 10) by omega) (by omega) (by omega)
  simp only [Nat.mul_zero, Nat.pow_zero, Nat.mul_one, Nat.zero_add] at hread
  rw [read_frame, frame, List.append_assoc, hread]
  dsimp only
  rw [if_neg (by simp only [List.length_append]; omega), List.drop_left, List.take_left,
    ← List.drop_drop, List.drop_left, List.drop_left]

theorem decode_encode_envelope {name : String} {record doc : Bytes} (hname : (utf8 name).length ≤ NAME_MAX)
    (hrecord : record.length ≤ RECORD_MAX) (hdoc : doc.length ≤ ENVELOPE_DOC_MAX) :
    decode_envelope (encode_envelope name record doc) = .ok (name, record, doc) := by
  have h₁ : read_frame (encode_envelope name record doc) NAME_MAX = .ok (utf8 name, frame record ++ frame doc) := by
    rw [encode_envelope, List.append_assoc]
    exact read_frame_frame _ hname (by decide)
  have h₂ := read_frame_frame (frame doc) hrecord (by decide)
  have h₃ : read_frame (frame doc) ENVELOPE_DOC_MAX = .ok (doc, []) := by
    have := read_frame_frame [] hdoc (by decide)
    rwa [List.append_nil] at this
  simp only [decode_envelope, h₁, h₂, h₃, bind, Except.bind, from_utf8_utf8]
  rfl

theorem toList_length_le (s : String) : s.toList.length ≤ s.utf8ByteSize := by
  obtain ⟨l, rfl⟩ : ∃ l, s = String.ofList l := ⟨s.toList, String.ofList_toList.symm⟩
  rw [String.toList_ofList, ← String.size_toByteArray, String.toByteArray_ofList, List.utf8Encode]
  induction l with
  | nil => simp
  | cons c l ih =>
    have := c.utf8Size_pos
    simp only [List.flatMap_cons, List.size_toByteArray, List.length_append, String.length_utf8EncodeChar] at ih ⊢
    simp only [List.length_cons]
    omega

theorem utf8_length (s : String) : (utf8 s).length = s.utf8ByteSize := by
  rw [utf8, Array.length_toList]
  exact String.size_toByteArray

theorem isAlphanum_printable {c : Char} (h : c.isAlphanum = true) : 32 < c.toNat ∧ c.toNat < 127 := by
  simp only [Char.isAlphanum, Char.isAlpha, Char.isUpper, Char.isLower, Char.isDigit, Bool.or_eq_true,
    Bool.and_eq_true, decide_eq_true_eq, ge_iff_le, UInt32.le_iff_toNat_le] at h
  change 32 < c.val.toNat ∧ c.val.toNat < 127
  change (65 ≤ c.val.toNat ∧ c.val.toNat ≤ 90 ∨ 97 ≤ c.val.toNat ∧ c.val.toNat ≤ 122) ∨
    48 ≤ c.val.toNat ∧ c.val.toNat ≤ 57 at h
  omega

/-- The text of a link on the web: the name, and perhaps a fragment. -/
theorem link_parts_web {name : String} (hname : valid_name name = true) (frag tail : List Char)
    (hfrag : ∀ c ∈ frag, 32 < c.toNat ∧ c.toNat < 127) (htail : tail = [] ∧ frag = [] ∨ tail = '#' :: frag) :
    (∀ c ∈ (WEB_BASE ++ name ++ .ofList tail).toList, 32 < c.toNat ∧ c.toNat < 127) ∧
      link_parts (WEB_BASE ++ name ++ .ofList tail).toList = some (name, frag) := by
  have halnum : ∀ c ∈ name.toList, c.isAlphanum = true := by
    simp only [valid_name, Bool.and_eq_true, List.all_eq_true] at hname
    exact hname.2
  have hne (c d : Char) (hc : c ∈ name.toList) (hd : d.isAlphanum = false) : (c != d) = true := by
    rw [bne_iff_ne]
    rintro rfl
    rw [halnum c hc] at hd
    cases hd
  constructor
  · intro c hc
    simp only [String.toList_append, String.toList_ofList, List.mem_append] at hc
    rcases hc with (hc | hc) | hc
    · exact Base64.forall_mem_of_all (p := fun c : Char => 32 < c.toNat ∧ c.toNat < 127) (by decide) c hc
    · exact isAlphanum_printable (halnum c hc)
    · rcases htail with ⟨rfl, -⟩ | rfl
      · cases hc
      · rcases List.mem_cons.1 hc with rfl | hc
        · decide
        · exact hfrag c hc
  have hscheme : (WEB_BASE.toList ++ (name.toList ++ tail)).dropPrefix? SCHEME_BASE.toList = none := by
    rw [show WEB_BASE.toList = 'h' :: WEB_BASE.toList.tail by decide,
      show SCHEME_BASE.toList = 't' :: SCHEME_BASE.toList.tail by decide]
    rfl
  have hweb : (WEB_BASE.toList ++ (name.toList ++ tail)).dropPrefix? WEB_BASE.toList = some (name.toList ++ tail) :=
    List.dropPrefix?_append_of_beq _ (by simp)
  have htake : (name.toList ++ tail).takeWhile (· != '#') = name.toList := by
    rw [List.takeWhile_append_of_pos fun c hc => hne c '#' hc (by decide)]
    rcases htail with ⟨rfl, -⟩ | rfl <;> simp
  have hdrop : ((name.toList ++ tail).dropWhile (· != '#')).drop 1 = frag := by
    rw [List.dropWhile_append_of_pos fun c hc => hne c '#' hc (by decide)]
    rcases htail with ⟨rfl, rfl⟩ | rfl <;> simp
  have hslash : name.toList.rdropWhile (· == '/') = name.toList := by
    rw [List.rdropWhile_eq_self_iff]
    intro hl h
    have := hne _ '/' (List.getLast_mem hl) (by decide)
    rw [bne, h] at this
    cases this
  simp only [link_parts, String.toList_append, String.toList_ofList, List.append_assoc, hscheme, hweb, Option.none_or,
    Option.map_some, htake, hdrop, hslash, String.ofList_toList]

theorem parse_web {name : String} (hname : valid_name name = true) (frag tail : List Char)
    (hfrag : ∀ c ∈ frag, 32 < c.toNat ∧ c.toNat < 127) (htail : tail = [] ∧ frag = [] ∨ tail = '#' :: frag) :
    parse_link (WEB_BASE ++ name ++ .ofList tail) =
      if frag.isEmpty then .ok (name, none)
      else
        match Base64.urlSafe.decode false frag with
        | none => .error "link fragment not base64url"
        | some envelope => .ok (name, some envelope) := by
  obtain ⟨hprint, hparts⟩ := link_parts_web hname frag tail hfrag htail
  have htrim : trim (WEB_BASE ++ name ++ .ofList tail) = WEB_BASE ++ name ++ .ofList tail := by
    rw [trim]
    exact trimBy_of_forall fun c hc => isWhitespace_of_printable (hprint c hc)
  rw [parse_link_eq, htrim, hparts]
  simp only [hname, Bool.not_true, Bool.false_eq_true, ↓reduceIte]

/-- A link that was built is one to the name alone, or its envelope is the record and the document. -/
theorem parse_build {name record_b64 doc_json url : String} {record : Bytes} (hname : valid_name name = true)
    (hrecord : unbase64 (trim record_b64) = some record) (h : build_link name record_b64 doc_json = .ok url) :
    parse_link url = .ok (name, none) ∨
      ∃ env, parse_link url = .ok (name, some env) ∧ decode_envelope env = .ok (name, record, utf8 doc_json) := by
  have hfrag := Base64.urlSafe.printable_encode false (encode_envelope name record (utf8 doc_json))
  have hlen := Base64.urlSafe.length_le_encode false (encode_envelope name record (utf8 doc_json))
  have hdec := Base64.urlSafe.decode_encode false (encode_envelope name record (utf8 doc_json))
  simp only [build_link, hrecord] at h
  generalize hf : Base64.urlSafe.encode false (encode_envelope name record (utf8 doc_json)) = frag at h hfrag hlen hdec
  split at h
  · refine .inl ?_
    cases h
    have := parse_web hname [] [] (by simp) (.inl ⟨rfl, rfl⟩)
    rwa [String.ofList_nil, String.append_empty] at this
  next hsize =>
    cases h
    have htext : WEB_BASE ++ name ++ "#" ++ String.ofList frag = WEB_BASE ++ name ++ .ofList ('#' :: frag) := by
      apply String.toList_inj.1
      simp only [String.toList_append, String.toList_ofList, List.append_assoc]
      rfl
    have hlong := toList_length_le (WEB_BASE ++ name ++ "#" ++ .ofList frag)
    simp only [String.toList_append, String.toList_ofList, List.length_append] at hlong
    have hparts : (encode_envelope name record (utf8 doc_json)).length =
        (frame (utf8 name)).length + (frame record).length + (frame (utf8 doc_json)).length := by
      simp only [encode_envelope, List.length_append]
    have hframe (part : Bytes) : part.length < (frame part).length := by
      rw [frame, List.length_append, put_uvarint]
      split <;> simp only [List.length_cons] <;> omega
    have h₁ := hframe (utf8 name); have h₂ := hframe record; have h₃ := hframe (utf8 doc_json)
    rw [URL_CHAR_MAX] at hsize
    have hne : frag.isEmpty ≠ true := by
      rw [Ne, List.isEmpty_iff]
      rintro rfl
      simp only [List.length_nil] at hlen
      omega
    refine .inr ⟨_, ?_, decode_encode_envelope ?_ ?_ ?_⟩
    · rw [htext, parse_web hname frag _ hfrag (.inr rfl), if_neg hne, hdec]
    · rw [utf8_length]
      simp only [valid_name, Bool.and_eq_true, decide_eq_true_eq] at hname
      exact hname.1.2
    · rw [RECORD_MAX]
      omega
    · rw [ENVELOPE_DOC_MAX]
      omega

end TrackerStream.Playlists
