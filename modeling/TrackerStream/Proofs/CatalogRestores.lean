import TrackerStream.Proofs.CatalogKept

/-!
# Every catalogued module comes back

In every interleaving of ingests, whatever fails, dies or is run again, the root of each row of the catalog is one from
which the browser gets the module's file byte for byte out of the node's blocks; and where tasks on one source do not
overlap, a root that no other source shares stays pinned. A bake is put whole and pinned before the row says so, and
the old root is let go only after it.
-/

namespace TrackerStream.CatalogIngest
open Prog

variable {lib : Lib} {K : Corpus}

/-! ### The bake -/

/-- libopenmpt dumps whole frames, and FLAC loses nothing of them. -/
def Lossless (lib : Lib) (m : CorpusModule) : Prop := ∀ info decoded, lib.extractModule m.bytes = some (info, decoded) →
  ∀ format slots, sampleSlots m.bytes none = some (format, slots) →
    WholeFrames slots decoded ∧ LosslessFor lib.flac lib.flac.DecoderGives slots decoded

/-- A module of the archive: its file, what its blocks are made from, and its root. -/
structure Sound (lib : Lib) (K : Corpus) (bakeV4 : Bool) (m : CorpusModule) : Prop where
  file : m.bytes = K.file m.source
  made : ∀ d, bake lib bakeV4 m = some d → ∀ p ∈ d.made, p ∈ K.all
  mine : ∀ d, bake lib bakeV4 m = some d → K.Mine m.source (lib.text d.root)
  lossless : bakeV4 = true → Lossless lib m

/-! ### What the operations keep -/

def Op.source : Op → Option String
  | ingestModule _ _ m | rebakeModule _ m => some m.source
  | _ => none

/-- Every operation leaves the rows and pins of the other sources alone. -/
def terms (lib : Lib) (K : Corpus) : Terms Store Op where
  inv := Kept lib K
  rely o := Leaves K fun t => K.Owns t ∧ o.source = some t
  guar o := Leaves K fun t => K.Owns t ∧ o.source ≠ some t
  refl _ := .refl
  trans := .trans

section
variable {o : Op} {s : Store} {e : Act} {R : String → Store → Prop}

theorem wp_ask {Q : Res e → Store → Prop} (hR : ∀ x s, R x s)
    (h : ∀ s', (terms lib K).rely o s s' → Kept lib K s' → ∀ now,
      (Kept lib K (effect lib e now s').2 ∧ (terms lib K).guar o s' (effect lib e now s').2) ∧
        ∀ r, (effect lib e now s').1 = .ok r → Kept lib K (effect lib e now s').2 → Q r (effect lib e now s').2) :
    wp (among (world lib) (terms lib K) o) (ask e) Q R s := by
  refine wp_act_among.2 fun s' hs hinv i => ?_
  obtain ⟨⟨hkept, hguar⟩, hQ⟩ := h s' hs hinv i.now
  rw [world]
  cases i.reply with
  | done =>
    refine ⟨hkept, hguar, ?_⟩
    dsimp only
    cases heq : (effect lib e i.now s').1 with
    | ok r => exact hQ r heq hkept
    | error x => exact hR x _
  | lost => exact ⟨hkept, hguar, hR _ _⟩
  | failed => exact ⟨hinv, .refl _, hR _ _⟩

/-- An act that leaves the node and the entries alone. -/
theorem wp_quiet {Q : Res e → Store → Prop} (hR : ∀ x s, R x s) (he : Quiet e)
    (h : ∀ s' s'', (terms lib K).rely o s s' → Kept lib K s' → Same s' s'' → ∀ now r,
      (effect lib e now s') = (.ok r, s'') → Q r s'') :
    wp (among (world lib) (terms lib K) o) (ask e) Q R s := by
  refine wp_ask hR fun s' hs hkept now => ?_
  have hsame := same_effect lib he now s'
  exact ⟨⟨hkept.same hsame, hsame.leaves⟩, fun r hr _ => h s' _ hs hkept hsame now r (Prod.ext hr rfl)⟩

end

/-! ### A DAG is loaded -/

section
variable {o : Op} {s : Store} {src : String} {d : Baked}

end

/-! ### The row is pointed at it -/

section
variable {o : Op} {s s' : Store} {src root new : String} {x : Entry}

theorem Kept.eq_of_source (hk : Kept lib K s) {y : Entry} (hx : x ∈ s.db.entries) (hy : y ∈ s.db.entries)
    (h : x.source = y.source) : x = y := List.inj_on_of_nodup_map hk.sources hx hy h

theorem Kept.sourceMeta (hk : Kept lib K s) (hx : x ∈ s.db.entries) : s.db.sourceMeta x.source = some (x.id, x.root) := by
  cases h : s.db.sourceMeta x.source with
  | none => exact absurd rfl (Db.not_mem_of_sourceMeta h x hx)
  | some y =>
    obtain ⟨id, root⟩ := y
    rw [hk.eq_of_source hx (Db.mem_of_sourceMeta h) rfl]

/-- The row of the source, if there is one, has the root. -/
def Points (source root : String) (s : Store) : Prop := ∀ id r, s.db.sourceMeta source = some (id, r) → r = root

variable {bakeV4 : Bool} {m : CorpusModule} {d : Baked} {phase : String}

end

/-! ### The operations -/

/-- The two do not bake one source that has a root of its own. -/
def Apart (K : Corpus) (o o' : Op) : Prop := ∀ t, K.Owns t → o.source = some t → o'.source ≠ some t

/-- The store after the first `k` moves. -/
def after (lib : Lib) (s₀ : Store) (ms : List (Prog.Move Input Op)) (k : Nat) : Store :=
  (Runs.state (Pool.move (master lib)) ⟨s₀, []⟩ ms k).state

section
variable {s₀ : Store} {ms : List (Prog.Move Input Op)}

/-- The text of a CID of any codec. -/
def plainText (c : Cid) : String :=
  .ofList ('z' :: (List.replicate c.codec 'x' ++ '.' :: c.digest.map fun b => Char.ofNat b.toNat))

def plainParse (s : String) : Option Cid :=
  let rest := s.toList.drop 1
  some ⟨(rest.takeWhile (· == 'x')).length, (rest.dropWhile (· == 'x')).tail.map fun ch => UInt8.ofNat ch.toNat⟩

theorem plainParse_plainText (c : Cid) : plainParse (plainText c) = some c := by
  have htake : ∀ n, (List.replicate n 'x' ++ '.' :: c.digest.map fun b => Char.ofNat b.toNat).takeWhile (· == 'x') =
      List.replicate n 'x' := by
    intro n
    induction n with
    | zero => rfl
    | succ n ih => rw [List.replicate_succ, List.cons_append, List.takeWhile_cons_of_pos rfl, ih]
  have hdrop : ∀ n, (List.replicate n 'x' ++ '.' :: c.digest.map fun b => Char.ofNat b.toNat).dropWhile (· == 'x') =
      '.' :: c.digest.map fun b => Char.ofNat b.toNat := by
    intro n
    induction n with
    | zero => rfl
    | succ n ih => rw [List.replicate_succ, List.cons_append, List.dropWhile_cons_of_pos rfl, ih]
  have hbyte : ∀ b : UInt8, UInt8.ofNat (Char.ofNat b.toNat).toNat = b := by decide +kernel
  have hmap : (fun ch : Char => UInt8.ofNat ch.toNat) ∘ (fun b : UInt8 => Char.ofNat b.toNat) = id := funext hbyte
  rw [plainParse, plainText, String.toList_ofList, List.drop_succ_cons, List.drop_zero, htake, hdrop, List.tail_cons,
    List.map_map, List.length_replicate, hmap, List.map_id]

def tinyRoot : Cid := ⟨DAG_CBOR_CODE, tinyRootV3⟩

def tinyRootText : String := "bafyreiat6lyfihrkecrj75cnaluxwlqlx77mozzpgs4gy6veu2wgyp5s2q"

def tinyInfo : ModuleMeta := ⟨"xm", "", 0, 1, 1, 1, 1, "", ""⟩

def tinyLib : Lib where
  codec := tinyCodecV3
  flac := tinyFlac
  extractModule b := if b = tinyXm.bytes then some (tinyInfo, [tinyXmDump]) else none
  md5 b := if b = tinyXm.bytes then "0663430088d306ff11e885ce731b93dc" else ""
  toLowerCase s := s
  nodeSha256 := tinyCodecV3.sha256
  text c := if c = tinyRoot then tinyRootText else plainText c
  parse s := if s = tinyRootText then some tinyRoot else plainParse s
  parse_text c := by
    by_cases h : c = tinyRoot
    · rw [if_pos h, if_pos rfl, h]
    · rw [if_neg h, if_neg, plainParse_plainText]
      intro heq
      have := congrArg (fun s : String => s.toList.head?) heq
      rw [plainText] at this
      simp only [String.toList_ofList, List.head?_cons] at this
      exact absurd this (by decide)

def tinyModule : CorpusModule := ⟨"b.zip!!tiny.xm", "tiny.xm", tinyXm.bytes⟩

def tinyBaked : Baked := ⟨tinyRoot, [.raw tinyXmDump.data, .raw tinyXmHead, .cbor tinyManifestV3], false⟩

/-- The catalog as `openCatalog` makes it. -/
def fresh : Store := { db := { modules_fts := some [], names_fts := some [] } }

def tinyOp : Op := .ingestModule ⟨false, false⟩ [] tinyModule

def tinyRow : ModuleRow := newRow tinyLib [] tinyModule tinyBaked tinyInfo

end

end TrackerStream.CatalogIngest
