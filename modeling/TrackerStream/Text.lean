import TrackerStream.Base64
import TrackerStream.Ipld
import Mathlib

/-!
# Texts and their bytes

UTF-8, white space and base64 as the two clients use them. Rust's `from_utf8` gives up on bytes that are not
UTF-8; the browser's `TextDecoder` puts U+FFFD for what it cannot read and takes a byte order mark off the
front, so that it keeps the bytes exactly when they are UTF-8 without a mark (`encode_decode_iff`).
-/

namespace TrackerStream

/-- The UTF-8 bytes of a text. -/
def utf8 (s : String) : Bytes := s.toUTF8.data.toList

def from_utf8 (b : Bytes) : Option String := String.fromUTF8? ⟨b.toArray⟩

@[simp] theorem from_utf8_utf8 (s : String) : from_utf8 (utf8 s) = some s := dif_pos s.isValidUTF8

theorem from_utf8_eq_some {b : Bytes} {s : String} : from_utf8 b = some s ↔ utf8 s = b := by
  constructor
  · intro h
    simp only [from_utf8, String.fromUTF8?] at h
    split at h
    · cases h; rfl
    · cases h
  · rintro rfl
    exact from_utf8_utf8 s

theorem utf8_inj {s t : String} (h : utf8 s = utf8 t) : s = t :=
  Option.some_inj.1 (by rw [← from_utf8_utf8 s, h, from_utf8_utf8])

/-! ### White space -/

def trimBy (space : Char → Bool) (s : String) : String :=
  .ofList ((s.toList.dropWhile space).rdropWhile space)

/-- `White_Space` of Unicode. -/
def isWhitespace (c : Char) : Bool :=
  (9 ≤ c.toNat && c.toNat ≤ 13) || (0x2000 ≤ c.toNat && c.toNat ≤ 0x200A) ||
    c.toNat ∈ [0x20, 0x85, 0xA0, 0x1680, 0x2028, 0x2029, 0x202F, 0x205F, 0x3000]

/-- What a browser trims. -/
def isJsSpace (c : Char) : Bool := (isWhitespace c && c.toNat != 0x85) || c.toNat == 0xFEFF

@[irreducible] def trim (s : String) : String := trimBy isWhitespace s

@[irreducible] def jsTrim (s : String) : String := trimBy isJsSpace s

theorem trimBy_of_forall {space : Char → Bool} {s : String} (h : ∀ c ∈ s.toList, space c = false) :
    trimBy space s = s := by
  have hd : s.toList.dropWhile space = s.toList := by
    rw [List.dropWhile_eq_self_iff]
    intro hl
    rw [h _ (List.getElem_mem hl)]
    exact Bool.false_ne_true
  have hr : s.toList.rdropWhile space = s.toList := by
    rw [List.rdropWhile_eq_self_iff]
    intro hl
    rw [h _ (List.getLast_mem hl)]
    exact Bool.false_ne_true
  rw [trimBy, hd, hr, String.ofList_toList]

theorem isWhitespace_of_printable {c : Char} (h : 32 < c.toNat ∧ c.toNat < 127) : isWhitespace c = false := by
  simp only [isWhitespace, List.mem_cons, List.not_mem_nil, or_false, Bool.or_eq_false_iff, Bool.and_eq_false_iff,
    decide_eq_false_iff_not]
  omega

theorem isJsSpace_of_printable {c : Char} (h : 32 < c.toNat ∧ c.toNat < 127) : isJsSpace c = false := by
  rw [isJsSpace, isWhitespace_of_printable h]
  simp only [Bool.false_and, Bool.false_or, beq_eq_false_iff_ne]
  omega

/-! ### Base64 -/

/-- `STANDARD.encode`, and the browser's `btoa` of the bytes. -/
def base64 (b : Bytes) : String := .ofList (Base64.standard.encode true b)

/-- `STANDARD.decode`. -/
@[irreducible] def unbase64 (s : String) : Option Bytes := Base64.standard.decode true s.toList

/-- `atob`. -/
@[irreducible] def atob (s : String) : Option Bytes := Base64.standard.forgive s.toList

@[simp] theorem unbase64_base64 (b : Bytes) : unbase64 (base64 b) = some b := by
  rw [unbase64, base64, String.toList_ofList, Base64.decode_encode]

@[simp] theorem atob_base64 (b : Bytes) : atob (base64 b) = some b := by
  rw [atob, base64, String.toList_ofList, Base64.forgive_encode]

@[simp] theorem trim_base64 (b : Bytes) : trim (base64 b) = base64 b := by
  rw [trim]
  refine trimBy_of_forall fun c hc => isWhitespace_of_printable ?_
  rw [base64, String.toList_ofList] at hc
  exact Base64.printable_encode _ _ _ c hc

@[simp] theorem jsTrim_base64 (b : Bytes) : jsTrim (base64 b) = base64 b := by
  rw [jsTrim]
  refine trimBy_of_forall fun c hc => isJsSpace_of_printable ?_
  rw [base64, String.toList_ofList] at hc
  exact Base64.printable_encode _ _ _ c hc

/-! ### The browser's decoder -/

/-- The byte order mark in UTF-8. -/
def byteOrderMark : Bytes := [0xEF, 0xBB, 0xBF]

/-- What a first byte begins: a character, one of `needed` further bytes of which the next lies between
`lower` and `upper`, or nothing. -/
inductive Lead
  | char (c : Char)
  | more (bits needed lower upper : Nat)
  | bad

def lead (b : Nat) : Lead :=
  if b ≤ 0x7F then .char (.ofNat b)
  else if 0xC2 ≤ b ∧ b ≤ 0xDF then .more (b % 0x20) 1 0x80 0xBF
  else if 0xE0 ≤ b ∧ b ≤ 0xEF then
    .more (b % 0x10) 2 (if b = 0xE0 then 0xA0 else 0x80) (if b = 0xED then 0x9F else 0xBF)
  else if 0xF0 ≤ b ∧ b ≤ 0xF4 then
    .more (b % 0x08) 3 (if b = 0xF0 then 0x90 else 0x80) (if b = 0xF4 then 0x8F else 0xBF)
  else .bad

/-- U+FFFD. -/
def replacement : Char := .ofNat 0xFFFD

/-- The characters of the bytes, with the replacement character for what is not UTF-8; `needed` bytes of a
character are still to come. -/
def replacing (bits needed lower upper : Nat) : Bytes → List Char
  | [] => if needed = 0 then [] else [replacement]
  | b :: bs =>
    if 0 < needed ∧ lower ≤ b.toNat ∧ b.toNat ≤ upper then
      if needed = 1 then Char.ofNat (bits * 64 + b.toNat % 64) :: replacing 0 0 0 0 bs
      else replacing (bits * 64 + b.toNat % 64) (needed - 1) 0x80 0xBF bs
    else
      (if needed = 0 then [] else [replacement]) ++
        match lead b.toNat with
        | .char c => c :: replacing 0 0 0 0 bs
        | .more bits needed lower upper => replacing bits needed lower upper bs
        | .bad => replacement :: replacing 0 0 0 0 bs

/-- `new TextDecoder().decode(b)`. -/
def textDecode (b : Bytes) : String :=
  let b := if byteOrderMark.isPrefixOf b then b.drop 3 else b
  match from_utf8 b with
  | some s => s
  | none => .ofList (replacing 0 0 0 0 b)

/-- UTF-8 without a byte order mark. -/
def PlainUtf8 (b : Bytes) : Prop := (∃ s, utf8 s = b) ∧ byteOrderMark.isPrefixOf b = false

theorem utf8_of_mark {b : Bytes} (h : ∃ s, utf8 s = byteOrderMark ++ b) : ∃ s, utf8 s = b := by
  obtain ⟨s, hs⟩ := h
  have hbytes : s.toUTF8 = [Char.ofNat 0xFEFF].utf8Encode ++ ⟨b.toArray⟩ := by
    have hmark : [Char.ofNat 0xFEFF].utf8Encode = ⟨byteOrderMark.toArray⟩ := by decide
    rw [hmark]
    ext1
    rw [← Array.toList_inj, ByteArray.data_append, Array.toList_append]
    exact hs
  have hvalid := s.isValidUTF8
  rw [show s.toByteArray = _ from hbytes, ByteArray.isValidUTF8_utf8Encode_singleton_append_iff] at hvalid
  exact ⟨.fromUTF8 _ hvalid, rfl⟩

/-- `TextEncoder` gives back what `TextDecoder` was given for UTF-8 without a mark, and for nothing else. -/
theorem encode_decode_iff (b : Bytes) : utf8 (textDecode b) = b ↔ PlainUtf8 b := by
  constructor
  · intro h
    refine ⟨⟨_, h⟩, ?_⟩
    by_contra hmark
    rw [Bool.not_eq_false] at hmark
    obtain ⟨c, rfl⟩ := List.isPrefixOf_iff_prefix.1 hmark
    obtain ⟨s, rfl⟩ := utf8_of_mark ⟨_, h⟩
    have hs : textDecode (byteOrderMark ++ utf8 s) = s := by
      rw [textDecode, if_pos hmark, show (byteOrderMark ++ utf8 s).drop 3 = utf8 s from rfl, from_utf8_utf8]
    rw [hs] at h
    have := congrArg List.length h
    rw [List.length_append] at this
    exact absurd this (by simp [byteOrderMark])
  · rintro ⟨⟨s, rfl⟩, hmark⟩
    rw [textDecode, hmark, if_neg (by simp), from_utf8_utf8]

theorem textDecode_utf8 {s : String} (h : byteOrderMark.isPrefixOf (utf8 s) = false) : textDecode (utf8 s) = s := by
  rw [textDecode, h, if_neg (by simp), from_utf8_utf8]

example : textDecode [0x61, 0xE2, 0x82, 0x62, 0xFF] = "a\uFFFDb\uFFFD" := by decide

end TrackerStream
