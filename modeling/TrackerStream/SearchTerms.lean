import TrackerStream.Pieces
import TrackerStream.Text

/-!
# Search terms (`catalog.rs` `build_matchstr`, `search.ts` `buildMatchstr`)

A query becomes the terms between its separators, each quoted. The tables are searched without positions, so that a term has
to be one token of their tokenizer. Rust, the browser and the tokenizer each class characters by a version of the Unicode
character database of their own, and by different properties of it.
-/

namespace TrackerStream.SearchTerms
open Pieces (pieces splitRuns)

/-- General categories. -/
inductive Category
  | Lu | Ll | Lt | Lm | Lo | Mn | Mc | Me | Nd | Nl | No
  | Pc | Pd | Ps | Pe | Pi | Pf | Po | Sm | Sc | Sk | So
  | Zs | Zl | Zp | Cc | Cf | Cs | Co | Cn
deriving DecidableEq

namespace Category

def isLetter : Category → Bool
  | Lu | Ll | Lt | Lm | Lo => true
  | _ => false

def isMark : Category → Bool
  | Mn | Mc | Me => true
  | _ => false

def isNumber : Category → Bool
  | Nd | Nl | No => true
  | _ => false

/-- The categories of what the two clients trim. -/
def isBlank : Category → Bool
  | Zs | Zl | Zp | Cc | Cf => true
  | _ => false

end Category

/-- A version of the database. -/
structure Ucd where
  category : Char → Category
  /-- The derived property `Alphabetic`. -/
  alphabetic : Char → Bool
  alphabetic_of_letter : ∀ c, (category c).isLetter = true ∨ category c = .Nl → alphabetic c = true
  blank : ∀ c, isWhitespace c = true ∨ isJsSpace c = true → (category c).isBlank = true ∧ alphabetic c = false

/-- The tokenizer: its database, and the combining marks that do not end a token. -/
structure Unicode61 extends Ucd where
  mark : Char → Bool
  mark_isMark : ∀ c, mark c = true → (category c).isMark = true

/-- `"`, `*`, `:` and `^` -/
def operators : List Char := [.ofNat 0x22, '*', ':', '^']

/-! ### Rust -/

section
variable (std : Ucd)

def is_alphanumeric (c : Char) : Bool := std.alphabetic c || (std.category c).isNumber

def rustTerms (q : String) : List (List Char) :=
  (q.toList.splitOnP fun c => !is_alphanumeric std c).filter (!·.isEmpty)

/-- `format!("\"{s}\"*")` -/
def quoted (s : List Char) : String := .ofList (Char.ofNat 0x22 :: s ++ [Char.ofNat 0x22, '*'])

def build_matchstr (q : String) : Option String :=
  if operators.any (q.toList.contains ·) then some q
  else
    let terms := (rustTerms std q).map quoted
    if terms.isEmpty then none else some (" ".intercalate terms)

end

/-! ### The browser -/

section
variable (js : Ucd)

/-- `[\p{L}\p{N}]` -/
def letterOrNumber (c : Char) : Bool := (js.category c).isLetter || (js.category c).isNumber

def jsTerms (q : String) : List (List Char) := (splitRuns (fun c => !letterOrNumber js c) q.toList).filter (!·.isEmpty)

def buildMatchstr (q : String) : Option String :=
  if operators.any (q.toList.contains ·) then some q
  else
    let terms := (jsTerms js q).map quoted
    if terms.isEmpty then none else some (" ".intercalate terms)

end

/-! ### The tokenizer -/

namespace Unicode61
variable (fts : Unicode61)

def tokenChar (c : Char) : Bool :=
  (fts.category c).isLetter || (fts.category c).isNumber || fts.category c == .Co

def goesOn (c : Char) : Bool := fts.tokenChar c || fts.mark c

def tokens : List Char → List (List Char)
  | [] => []
  | c :: cs =>
    if fts.tokenChar c then (c :: cs.takeWhile fts.goesOn) :: tokens (cs.dropWhile fts.goesOn) else tokens cs
termination_by cs => cs.length
decreasing_by
  · exact Nat.lt_succ_of_le (List.dropWhile_suffix fts.goesOn).length_le
  · exact Nat.lt_succ_self _

variable {fts}

theorem length_le_of_mem_tokens (cs : List Char) : ∀ t ∈ fts.tokens cs, t.length ≤ cs.length := by
  induction cs using tokens.induct fts with
  | case1 =>
    rw [tokens]
    exact fun t ht => absurd ht List.not_mem_nil
  | case2 c cs h ih =>
    rw [tokens, if_pos h]
    refine List.forall_mem_cons.2 ⟨Nat.succ_le_succ (List.takeWhile_prefix fts.goesOn).length_le, fun t ht => ?_⟩
    exact (ih t ht).trans ((List.dropWhile_suffix fts.goesOn).length_le.trans (Nat.le_succ _))
  | case3 c cs h ih =>
    rw [tokens, if_neg h]
    exact fun t ht => (ih t ht).trans (Nat.le_succ _)

/-- A text is one token if it begins with a token character and goes on with those and marks. -/
theorem tokens_eq_self_iff {c : Char} {cs : List Char} :
    fts.tokens (c :: cs) = [c :: cs] ↔ fts.tokenChar c = true ∧ ∀ d ∈ cs, fts.goesOn d = true := by
  rw [tokens]
  constructor
  · intro h
    split at h
    · rename_i hc
      obtain ⟨hhead, -⟩ := List.cons.inj h
      exact ⟨hc, List.takeWhile_eq_self_iff.1 (List.cons.inj hhead).2⟩
    · have hle : (c :: cs).length ≤ cs.length := length_le_of_mem_tokens cs _ (h ▸ List.mem_cons_self)
      exact absurd hle (Nat.not_succ_le_self _)
  · rintro ⟨hc, hcs⟩
    rw [if_pos hc, List.takeWhile_eq_self_iff.2 hcs, List.dropWhile_eq_nil_iff.2 hcs, tokens]

end Unicode61

/-! ### When the terms are tokens -/

section
variable {std js : Ucd} {fts : Unicode61} {query : String}

theorem is_alphanumeric_blank {c : Char} (h : isWhitespace c = true ∨ isJsSpace c = true) :
    is_alphanumeric std c = false := by
  obtain ⟨hcat, halpha⟩ := std.blank c h
  rw [is_alphanumeric, halpha, Bool.false_or]
  cases hc : std.category c <;> rw [hc] at hcat <;> first | rfl | cases hcat

theorem letterOrNumber_blank {c : Char} (h : isWhitespace c = true ∨ isJsSpace c = true) :
    letterOrNumber js c = false := by
  obtain ⟨hcat, -⟩ := js.blank c h
  rw [letterOrNumber]
  cases hc : js.category c <;> rw [hc] at hcat <;> first | rfl | cases hcat

theorem pieces_trimBy {p space : Char → Bool} (h : ∀ c, space c = true → p c = true) (s : String) :
    pieces p (trimBy space s).toList = pieces p s.toList := by
  rw [trimBy, String.toList_ofList, Pieces.pieces_rdropWhile h, Pieces.pieces_dropWhile h]

theorem rustTerms_trim : rustTerms std (trim query) = pieces (fun c => !is_alphanumeric std c) query.toList := by
  rw [rustTerms, trim]
  exact pieces_trimBy (fun c hc => by rw [is_alphanumeric_blank (.inl hc)]; rfl) query

theorem jsTerms_jsTrim : jsTerms js (jsTrim query) = pieces (fun c => !letterOrNumber js c) query.toList := by
  rw [jsTerms, Pieces.filter_splitRuns, jsTrim]
  exact pieces_trimBy (fun c hc => by rw [letterOrNumber_blank (.inr hc)]; rfl) query

/-- The terms of a match, or none. -/
def joined (terms : List (List Char)) : Option String :=
  if (terms.map quoted).isEmpty then none else some (" ".intercalate (terms.map quoted))

theorem any_operators {q : String} (h : ∀ c ∈ q.toList, c ∉ operators) : operators.any (q.toList.contains ·) = false := by
  rw [List.any_eq_false]
  intro c hc
  rw [List.contains_iff_mem]
  exact fun hq => h c hq hc

theorem mem_trimBy {space : Char → Bool} {s : String} {c : Char} (h : c ∈ (trimBy space s).toList) : c ∈ s.toList := by
  rw [trimBy, String.toList_ofList] at h
  exact (List.dropWhile_suffix space).mem ((List.rdropWhile_prefix space _).mem h)

theorem build_matchstr_eq (h : ∀ c ∈ query.toList, c ∉ operators) :
    build_matchstr std (trim query) = joined (pieces (fun c => !is_alphanumeric std c) query.toList) := by
  have hops : ∀ c ∈ (trim query).toList, c ∉ operators := fun c hc => h c (mem_trimBy (by rwa [trim] at hc))
  rw [build_matchstr, any_operators hops, rustTerms_trim]
  rfl

theorem buildMatchstr_eq (h : ∀ c ∈ query.toList, c ∉ operators) :
    buildMatchstr js (jsTrim query) = joined (pieces (fun c => !letterOrNumber js c) query.toList) := by
  have hops : ∀ c ∈ (jsTrim query).toList, c ∉ operators := fun c hc => h c (mem_trimBy (by rwa [jsTrim] at hc))
  rw [buildMatchstr, any_operators hops, jsTerms_jsTrim]
  rfl

theorem joined_eq_none_iff {terms : List (List Char)} : joined terms = none ↔ terms = [] := by
  cases terms with
  | nil => exact ⟨fun _ => rfl, fun _ => rfl⟩
  | cons w ws => exact ⟨fun h => absurd h (by simp [joined]), fun h => absurd h (List.cons_ne_nil _ _)⟩

theorem mem_quoted {c : Char} {w : List Char} (hc : c ∉ operators) : c ∈ (quoted w).toList ↔ c ∈ w := by
  have hquote : c ≠ Char.ofNat 0x22 := fun h => hc (by rw [h]; decide)
  have hstar : c ≠ '*' := fun h => hc (by rw [h]; decide)
  rw [quoted, String.toList_ofList]
  simp [hquote, hstar]

/-- The characters of a match are those of its terms. -/
theorem mem_intercalate {c : Char} {terms : List (List Char)} (hc : c ∉ operators) (hspace : c ≠ ' ') :
    c ∈ (" ".intercalate (terms.map quoted)).toList ↔ ∃ w ∈ terms, c ∈ w := by
  induction terms with
  | nil => simp
  | cons w ws ih =>
    cases ws with
    | nil => simp [mem_quoted hc]
    | cons v vs =>
      rw [List.map_cons, List.map_cons, String.intercalate_cons_cons, ← List.map_cons, String.toList_append,
        String.toList_append, List.mem_append, List.mem_append, mem_quoted hc, ih]
      simp [hspace]

theorem mem_of_joined_eq {c : Char} {terms terms' : List (List Char)} (h : joined terms = joined terms') (hc : c ∉ operators)
    (hspace : c ≠ ' ') (hmem : ∃ w ∈ terms, c ∈ w) : ∃ w ∈ terms', c ∈ w := by
  obtain ⟨w, hw, hcw⟩ := hmem
  have hne : terms ≠ [] := List.ne_nil_of_mem hw
  have hne' : terms' ≠ [] := fun h' => hne (joined_eq_none_iff.1 (h.trans (joined_eq_none_iff.2 h')))
  have heq : " ".intercalate (terms.map quoted) = " ".intercalate (terms'.map quoted) := by
    rw [joined, joined, if_neg (by simpa using hne), if_neg (by simpa using hne')] at h
    exact Option.some.inj h
  rw [← mem_intercalate hc hspace, ← heq, mem_intercalate hc hspace]
  exact ⟨w, hw, hcw⟩

/-- The two matches are the same when the clients class each character of the query alike. -/
theorem joined_eq_iff (h : ∀ c ∈ query.toList, c ∉ operators) :
    joined (pieces (fun c => !is_alphanumeric std c) query.toList) =
        joined (pieces (fun c => !letterOrNumber js c) query.toList) ↔
      ∀ c ∈ query.toList, is_alphanumeric std c = letterOrNumber js c := by
  constructor
  · intro heq c hc
    have hspace : c = ' ' → is_alphanumeric std c = letterOrNumber js c := by
      rintro rfl
      rw [is_alphanumeric_blank (.inl (by decide)), letterOrNumber_blank (.inl (by decide))]
    by_cases hs : c = ' '
    · exact hspace hs
    · rw [Bool.eq_iff_iff]
      have hrust := Pieces.exists_mem_pieces (p := fun c => !is_alphanumeric std c) (l := query.toList) (a := c)
      have hjs := Pieces.exists_mem_pieces (p := fun c => !letterOrNumber js c) (l := query.toList) (a := c)
      simp only [hc, true_and, Bool.not_eq_false'] at hrust hjs
      rw [← hrust, ← hjs]
      exact ⟨mem_of_joined_eq heq (h c hc) hs, mem_of_joined_eq heq.symm (h c hc) hs⟩
  · intro hsame
    rw [Pieces.pieces_congr fun c hc => by rw [hsame c hc]]

variable (fts) in
/-- Every character that is in a term is a token character, or a mark behind another that is. -/
def Splits (alnum : Char → Bool) : Bool → List Char → Prop
  | _, [] => True
  | inside, c :: cs =>
    (alnum c = true → fts.tokenChar c = true ∨ inside = true ∧ fts.mark c = true) ∧ Splits alnum (alnum c) cs

variable (fts) in
/-- The rest of a term that has begun, or a term. -/
def Term : Bool → List Char → Prop
  | true, w => ∀ d ∈ w, fts.goesOn d = true
  | false, w => w ≠ [] → fts.tokens w = [w]

theorem term_cons {inside : Bool} {c : Char} {cs : List Char} : Term fts inside (c :: cs) ↔
    (fts.tokenChar c = true ∨ inside = true ∧ fts.mark c = true) ∧ ∀ d ∈ cs, fts.goesOn d = true := by
  cases inside with
  | true =>
    rw [Term, List.forall_mem_cons, Unicode61.goesOn, Bool.or_eq_true]
    simp
  | false =>
    rw [Term, Unicode61.tokens_eq_self_iff]
    simp

theorem splits_iff_splitOnP {alnum : Char → Bool} (inside : Bool) (cs : List Char) : Splits fts alnum inside cs ↔
    ∃ w ws, cs.splitOnP (fun c => !alnum c) = w :: ws ∧ Term fts inside w ∧ ∀ v ∈ ws, Term fts false v := by
  induction cs generalizing inside with
  | nil =>
    refine ⟨fun _ => ⟨[], [], rfl, ?_, fun v hv => absurd hv List.not_mem_nil⟩, fun _ => trivial⟩
    cases inside with
    | true => exact fun d hd => absurd hd List.not_mem_nil
    | false => exact fun h => absurd rfl h
  | cons c cs ih =>
    rw [Splits, ih, List.splitOnP_cons_eq_if_modifyHead]
    cases hc : alnum c with
    | false =>
      have hnil : Term fts inside [] := by
        cases inside with
        | true => exact fun d hd => absurd hd List.not_mem_nil
        | false => exact fun h => absurd rfl h
      simp only [Bool.false_eq_true, false_implies, true_and, Bool.not_false, if_true]
      constructor
      · rintro ⟨w, ws, heq, hw, hws⟩
        exact ⟨[], _, rfl, hnil, heq ▸ List.forall_mem_cons.2 ⟨hw, hws⟩⟩
      · rintro ⟨w, ws, heq, -, hws⟩
        obtain ⟨-, rfl⟩ := List.cons.inj heq
        obtain ⟨v, vs, hv⟩ := List.exists_cons_of_ne_nil (List.splitOnP_ne_nil (fun c => !alnum c) cs)
        rw [hv] at hws
        exact ⟨v, vs, hv, List.forall_mem_cons.1 hws⟩
    | true =>
      simp only [true_implies, Bool.not_true, Bool.false_eq_true, if_false]
      constructor
      · rintro ⟨hfirst, w, ws, heq, hw, hws⟩
        exact ⟨c :: w, ws, by rw [heq]; rfl, term_cons.2 ⟨hfirst, hw⟩, hws⟩
      · rintro ⟨w, ws, heq, hw, hws⟩
        obtain ⟨v, vs, hv⟩ := List.exists_cons_of_ne_nil (List.splitOnP_ne_nil (fun c => !alnum c) cs)
        rw [hv] at heq
        obtain ⟨rfl, rfl⟩ := List.cons.inj heq
        exact ⟨(term_cons.1 hw).1, v, vs, hv, (term_cons.1 hw).2, hws⟩

/-- Every term is one token. -/
theorem splits_iff {alnum : Char → Bool} {cs : List Char} :
    Splits fts alnum false cs ↔ ∀ w ∈ pieces (fun c => !alnum c) cs, fts.tokens w = [w] := by
  rw [splits_iff_splitOnP, Pieces.pieces]
  obtain ⟨v, vs, hv⟩ := List.exists_cons_of_ne_nil (List.splitOnP_ne_nil (fun c => !alnum c) cs)
  have hall : (∀ w ∈ v :: vs, Term fts false w) ↔ ∀ w ∈ (v :: vs).filter (!·.isEmpty), fts.tokens w = [w] := by
    simp only [List.mem_filter, Bool.not_eq_true', List.isEmpty_eq_false_iff, and_imp, Term]
  rw [hv, ← hall, List.forall_mem_cons]
  constructor
  · rintro ⟨w, ws, heq, hw, hws⟩
    obtain ⟨rfl, rfl⟩ := List.cons.inj heq
    exact ⟨hw, hws⟩
  · exact fun h => ⟨v, vs, rfl, h⟩

variable (std js fts query) in
/-- The clients send the same terms, each one token, and none only where there is no token. -/
structure SingleTokens : Prop where
  same : build_matchstr std (trim query) = buildMatchstr js (jsTrim query)
  rust : ∀ s ∈ rustTerms std (trim query), fts.tokens s = [s]
  browser : ∀ s ∈ jsTerms js (jsTrim query), fts.tokens s = [s]
  none : build_matchstr std (trim query) = none ∨ buildMatchstr js (jsTrim query) = none →
    ∀ c ∈ query.toList, fts.tokenChar c = false

variable (std js fts query) in
/-- The clients class the query's characters alike, those that are in terms are token characters or marks behind another
such, and if there are none no character is a token character. -/
structure ClassedAlike : Prop where
  clients : ∀ c ∈ query.toList, is_alphanumeric std c = letterOrNumber js c
  splits : Splits fts (letterOrNumber js) false query.toList
  none : (∀ c ∈ query.toList, letterOrNumber js c = false) → ∀ c ∈ query.toList, fts.tokenChar c = false

end

/-- The terms of a query without operators are what they should be when its characters are classed alike. -/
theorem single_tokens_iff (std js : Ucd) (fts : Unicode61) (query : String) (h : ∀ c ∈ query.toList, c ∉ operators) :
    SingleTokens std js fts query ↔ ClassedAlike std js fts query := by
  have hrust : build_matchstr std (trim query) = none ↔ ∀ c ∈ query.toList, is_alphanumeric std c = false := by
    rw [build_matchstr_eq h, joined_eq_none_iff, Pieces.pieces_eq_nil_iff]
    simp
  have hjs : buildMatchstr js (jsTrim query) = none ↔ ∀ c ∈ query.toList, letterOrNumber js c = false := by
    rw [buildMatchstr_eq h, joined_eq_none_iff, Pieces.pieces_eq_nil_iff]
    simp
  have hsame : build_matchstr std (trim query) = buildMatchstr js (jsTrim query) ↔
      ∀ c ∈ query.toList, is_alphanumeric std c = letterOrNumber js c := by
    rw [build_matchstr_eq h, buildMatchstr_eq h, joined_eq_iff h]
  constructor
  · intro hsingle
    exact ⟨hsame.1 hsingle.same, splits_iff.2 (jsTerms_jsTrim ▸ hsingle.browser), fun hc => hsingle.none (.inr (hjs.2 hc))⟩
  · intro halike
    have hpieces : pieces (fun c => !is_alphanumeric std c) query.toList =
        pieces (fun c => !letterOrNumber js c) query.toList :=
      Pieces.pieces_congr fun c hc => by rw [halike.clients c hc]
    have hterms := splits_iff.1 halike.splits
    refine ⟨hsame.2 halike.clients, ?_, ?_, fun hnone => halike.none ?_⟩
    · rwa [rustTerms_trim, hpieces]
    · rwa [jsTerms_jsTrim]
    · rcases hnone with hnone | hnone
      · exact fun c hc => (halike.clients c hc).symm.trans (hrust.1 hnone c hc)
      · exact hjs.1 hnone

/-- The Latin letters and digits, the Devanagari letter KA (U+0915) and vowel sign II (U+0940), and what is trimmed. -/
def fewCharacters : Ucd where
  category c :=
    if isWhitespace c || isJsSpace c then .Zs
    else if 'a' ≤ c ∧ c ≤ 'z' then .Ll
    else if 'A' ≤ c ∧ c ≤ 'Z' then .Lu
    else if '0' ≤ c ∧ c ≤ '9' then .Nd
    else if c.toNat = 0x915 then .Lo
    else if c.toNat = 0x940 then .Mc
    else .Cn
  alphabetic c :=
    !(isWhitespace c || isJsSpace c) &&
      (('a' ≤ c && c ≤ 'z') || ('A' ≤ c && c ≤ 'Z') || c.toNat == 0x915 || c.toNat == 0x940)
  alphabetic_of_letter c h := by
    split at h
    · exact absurd h (by decide)
    · rename_i hspace
      simp only [Bool.not_eq_true] at hspace
      simp only [hspace, Bool.not_false, Bool.true_and]
      split at h <;> rename_i h₁
      · simp [h₁]
      split at h <;> rename_i h₂
      · simp [h₂]
      split at h
      · exact absurd h (by decide)
      split at h <;> rename_i h₃
      · simp [h₃]
      · split at h <;> exact absurd h (by decide)
  blank c h := by
    have hspace : (isWhitespace c || isJsSpace c) = true := Bool.or_eq_true_iff.2 h
    rw [hspace]
    exact ⟨rfl, rfl⟩

def fewTokens : Unicode61 where
  toUcd := fewCharacters
  mark _ := false
  mark_isMark _ h := absurd h Bool.false_ne_true

def c20g_j : String := .ofList ['c', '2', '0', 'g', '_', 'j']

theorem single_tokens_c20g_j : SingleTokens fewCharacters fewCharacters fewTokens c20g_j := by
  have hlist : c20g_j.toList = ['c', '2', '0', 'g', '_', 'j'] := String.toList_ofList
  have hops : ∀ c ∈ c20g_j.toList, c ∉ operators := by
    rw [hlist]
    simp only [List.forall_mem_cons]
    exact ⟨by decide, by decide, by decide, by decide, by decide, by decide, fun c hc => absurd hc List.not_mem_nil⟩
  refine (single_tokens_iff fewCharacters fewCharacters fewTokens c20g_j hops).2 ⟨?_, ?_, fun hnone => ?_⟩
  · rw [hlist]
    simp only [List.forall_mem_cons]
    exact ⟨rfl, rfl, rfl, rfl, rfl, rfl, fun c hc => absurd hc List.not_mem_nil⟩
  · rw [hlist]
    simp only [Splits]
    decide
  · exact absurd (hnone 'c' (by rw [hlist]; exact List.mem_cons_self)) (by decide)

/-- KA and the vowel sign II: one term for Rust, for which the sign is alphabetic, and the letter alone for the browser. -/
def ki : String := .ofList [Char.ofNat 0x915, Char.ofNat 0x940]

theorem ki_differs : build_matchstr fewCharacters (trim ki) = some "\"\u0915\u0940\"*" ∧
    buildMatchstr fewCharacters (jsTrim ki) = some "\"\u0915\"*" ∧
      ¬SingleTokens fewCharacters fewCharacters fewTokens ki := by
  have hlist : ki.toList = [Char.ofNat 0x915, Char.ofNat 0x940] := String.toList_ofList
  have hops : ∀ c ∈ ki.toList, c ∉ operators := by
    rw [hlist]
    simp only [List.forall_mem_cons]
    exact ⟨by decide, by decide, fun c hc => absurd hc List.not_mem_nil⟩
  have hrust : build_matchstr fewCharacters (trim ki) = some "\"\u0915\u0940\"*" := by
    rw [build_matchstr_eq hops, hlist]
    rfl
  have hjs : buildMatchstr fewCharacters (jsTrim ki) = some "\"\u0915\"*" := by
    rw [buildMatchstr_eq hops, hlist]
    rfl
  refine ⟨hrust, hjs, fun h => ?_⟩
  have := h.same
  rw [hrust, hjs] at this
  exact absurd this (by decide)

end TrackerStream.SearchTerms
