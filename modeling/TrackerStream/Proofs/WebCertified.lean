import TrackerStream.Proofs.Dormant
import TrackerStream.Proofs.Sequences

/-!
# Rows of the browser that certify themselves

A stored row with a record is self-certifying when the record verifies under its name and signs its document. Three
kinds of steps break this: an edit of such a row whose publishing does not follow, a tombstone whose record is put
beside the document it deletes, and a document that the text decoder changes. In a history without them every row is
self-certifying after every operation, and what is gossiped or linked passes the receiver's check while its record
lives.
-/

namespace TrackerStream.WebPlaylists
open Playlists (Row Db FtsEntry DOC_MAX NAME_MAX RECORD_MAX valid_name)
variable (lib : WebLib)

/-- The record verifies under the name and signs the document. -/
def Signs (name : String) (rec doc : Bytes) : Prop :=
  lib.isPeer name = true ∧ lib.signed name rec = true ∧
    ∃ r, lib.decode rec = some r ∧ lib.valueCid r.value = some (docCid lib.toIpnsLib doc)

/-- The receiver's check takes the message while its record lives. -/
def Passes (name : String) (rec doc : Bytes) : Prop :=
  ∀ now, (∀ r, lib.decode rec = some r → r.validity.any (· < now) = false) →
    ∃ seq, validatePlaylistMsg lib now name rec doc = .ok seq

variable {lib}

theorem Signs.passes {name : String} {rec doc : Bytes} (h : Signs lib name rec doc) (hne : 0 < doc.length)
    (hle : doc.length ≤ DOC_MAX) : Passes lib name rec doc := by
  obtain ⟨hpeer, hsigned, r, hr, hcid⟩ := h
  intro now halive
  refine ⟨r.sequence, ?_⟩
  rw [validatePlaylistMsg, if_neg (by omega), if_neg (by simp [hpeer]), hr]
  dsimp only
  rw [if_neg (by simp [hsigned]), if_neg (by simp [halive r hr]), hcid]
  simp

theorem signs_of_validate {now : Int} {name : String} {rec doc : Bytes} {seq : UInt64}
    (h : validatePlaylistMsg lib now name rec doc = .ok seq) : Signs lib name rec doc := by
  simp only [validatePlaylistMsg] at h
  split at h
  · cases h
  split at h
  · cases h
  next hpeer =>
    split at h
    · cases h
    next r hr =>
      split at h
      · cases h
      next hsigned =>
        split at h
        · cases h
        split at h
        · cases h
        next cid hcid =>
          split at h
          · cases h
          next heq => exact ⟨by simpa using hpeer, by simpa using hsigned, r, hr, by rw [hcid, not_not.1 heq]⟩

theorem valid_parts {b : Bytes} {doc : PlaylistDoc} (h : validateDoc lib b = .ok doc) :
    0 < b.length ∧ b.length ≤ DOC_MAX ∧ ∃ doc', lib.parse (textDecode b) = .ok doc' := by
  rw [validateDoc] at h
  split at h
  · cases h
  next hsize =>
    split at h
    · cases h
    next doc' hdoc => exact ⟨by omega, by omega, doc', hdoc⟩

/-! ### Rows -/

variable (lib)

/-- The text of a row is a document without a byte order mark. -/
structure SoundText (text : String) : Prop where
  nonempty : 0 < (utf8 text).length
  short : (utf8 text).length ≤ DOC_MAX
  unmarked : byteOrderMark.isPrefixOf (utf8 text) = false

/-- The record of the row, if it has one, signs its document under its name. -/
def CertifiedRow (name : String) (r : Row) : Prop :=
  ∀ record, r.record_b64 = some record → ∃ rec, record = base64 rec ∧ Signs lib name rec (utf8 r.doc_json)

/-- Every row is self-certifying, but perhaps that of `skip`. -/
def CertifiedBut (skip : Option String) (s : Store) : Prop :=
  s.db.All fun n r => (skip ≠ some n → CertifiedRow lib n r) ∧ SoundText r.doc_json

abbrev Certified : Store → Prop := CertifiedBut lib none

/-! ### Which steps keep it -/

/-- What is signed with the key of a name verifies under the name; with `must` it is signed. Documents that are
stored are UTF-8 without a byte order mark. -/
def Admits (must : Bool) : Act → Input → Store → Prop
  | .sign name doc _, i, _ =>
    (must = true → ∃ rec, i.sign = .ok rec) ∧ ∀ rec, i.sign = .ok rec → Signs lib name rec doc
  | .insert _ _ docBytes _ _ _, _, _ => PlainUtf8 docBytes
  | _, _, _ => True

/-- The row can be published, and what is asked is signed. -/
def Republishes (s : Store) (o : Op) (ω : Nat → Input) (name : String) (r : Row) : Prop :=
  r.published = true ∧ name ∈ s.keys ∧ (Op.prog lib o).Fits world (Admits lib true) ω s

/-- The record of a tombstone is put beside the document of the row. -/
def Tombstones : Act → Prop
  | .tombstoneRow .. => True
  | _ => False

/-- An edit of a row with a record is published, and no tombstone's record is put beside a document. -/
def Follows (s : Store) (o : Op) (ω : Nat → Input) : Prop :=
  match o with
  | .update name title tracks => ∀ r, s.db.row name = some r → r.is_mine = true → r.record_b64 ≠ none →
      encodeDoc lib (newDoc title tracks) ≠ utf8 r.doc_json → Republishes lib s o ω name r
  | .likeToggle _ => ∀ name r, s.db.row name = some r → r.liked = true → r.record_b64 ≠ none →
      Republishes lib s o ω name r
  | .unpublish _ => (Op.prog lib o).Fits world (fun e _ _ => ¬Tombstones e) ω s
  | _ => True

/-- What is asked of an operation, its inputs and the store it starts in. -/
def Lawful (s : Store) (o : Op) (ω : Nat → Input) : Prop :=
  (Op.prog lib o).Fits world (Admits lib false) ω s ∧ Follows lib s o ω

/-- What is gossiped passes. -/
def Sends : Act → Store → Prop
  | .publish name rec doc, _ => Passes lib name rec doc
  | _, _ => True

/-! ### Acts -/

abbrev K (must : Bool) : Prog.Contract Act Ans Store := Prog.asking world (Admits lib must) (Sends lib)

variable {lib} {must : Bool} {α : Type} {s : Store} {R : String → Store → Prop} {skip : Option String} {name : String}

@[simp] theorem wp_act (e : Act) (k : Ans e → Web α) {Q : α → Store → Prop} :
    (Prog.act e k).wp (K lib must) Q R s ↔
      Sends lib e s ∧ ∀ i, Admits lib must e i s → (k (world e i s).1).wp (K lib must) Q R (world e i s).2 :=
  Prog.wp_act_asking e k

theorem CertifiedRow.of_record_none {r : Row} (h : r.record_b64 = none) : CertifiedRow lib name r := by
  intro record hr
  rw [h] at hr
  cases hr

theorem CertifiedBut.weaken (h : Certified lib s) : CertifiedBut lib skip s :=
  h.mono fun _ _ hr => ⟨fun _ => hr.1 (by rintro ⟨⟩), hr.2⟩

theorem CertifiedBut.of_db {s' : Store} (h : CertifiedBut lib skip s) (hdb : s'.db.row = s.db.row) :
    CertifiedBut lib skip s' := fun n r hr => h n r (by rwa [← hdb])

theorem CertifiedBut.indexed (h : CertifiedBut lib skip s) (name : String) (doc : PlaylistDoc) : CertifiedBut lib skip
    { s with db := (s.db.unindex name).index ⟨name, doc.t.or "", tracksText doc⟩ } :=
  h.of_db rfl

/-- A row changed in columns that its record and document are not. -/
theorem CertifiedBut.update (h : CertifiedBut lib skip s) (name : String) (f : Row → Row)
    (hf : ∀ r, (f r).record_b64 = r.record_b64 ∧ (f r).doc_json = r.doc_json) :
    CertifiedBut lib skip { s with db := s.db.update name f } := by
  refine Db.All.update h fun r _ hr => ⟨fun hn record hrecord => ?_, (hf r).2 ▸ hr.2⟩
  rw [(hf r).1] at hrecord
  rw [(hf r).2]
  exact hr.1 hn record hrecord

/-- The acts that write no document or record and send nothing. -/
def Plain : Act → Prop
  | .insert .. | .tombstoneRow .. | .renewRow .. | .publish .. => False
  | _ => True

theorem plain_sends (e : Act) (s : Store) (he : Plain e) : Sends lib e s := by
  cases e <;> trivial

theorem plain_keeps (e : Act) (i : Input) (s : Store) (he : Plain e) (hs : CertifiedBut lib skip s) :
    CertifiedBut lib skip (world e i s).2 := by
  cases e with
  | insert | tombstoneRow | renewRow | publish => cases he
  | setMine | setHeld | setPublished | setLiked | setPlayed => exact hs.update _ _ fun _ => ⟨rfl, rfl⟩
  | deleteRow n =>
    intro m r hr
    refine hs m r ?_
    rw [show (world (.deleteRow n) i s).2.db = s.db.erase n from rfl, Db.row_erase] at hr
    split at hr
    · cases hr
    · exact hr
  | createKey =>
    simp only [world]
    split
    · exact hs
    · exact hs
  | _ => exact hs.of_db rfl

theorem wp_plain {p : Web α} (hp : p.Only Plain) (hs : CertifiedBut lib skip s) :
    p.wp (K lib must) (fun _ => CertifiedBut lib skip) (fun _ => CertifiedBut lib skip) s :=
  hp.wp_asking (fun e i s he _ hs => plain_keeps e i s he hs) (fun e s he _ => plain_sends e s he) hs

/-! ### Writing rows -/

@[simp] theorem record_upserted {old : Option Row} {doc : PlaylistDoc} {b : Bytes} {record : Option String}
    {seq eol now : Int} : (upserted old doc b record seq eol now).record_b64 = record := by
  cases old <;> rfl

@[simp] theorem doc_json_upserted {old : Option Row} {doc : PlaylistDoc} {b : Bytes} {record : Option String}
    {seq eol now : Int} : (upserted old doc b record seq eol now).doc_json = textDecode b := by
  cases old <;> rfl

theorem SoundText.plain {text : String} (h : SoundText text) : PlainUtf8 (utf8 text) := ⟨⟨_, rfl⟩, h.unmarked⟩

theorem SoundText.of_plain {b : Bytes} (h : PlainUtf8 b) (hne : 0 < b.length) (hle : b.length ≤ DOC_MAX) :
    SoundText (textDecode b) := by
  have hb := (encode_decode_iff b).2 h
  exact ⟨by rwa [hb], by rwa [hb], by rw [hb]; exact h.2⟩

/-- A document is stored, with a record that signs it if that of the name is not skipped. -/
theorem CertifiedBut.insert {b : Bytes} {record : Option String} (h : CertifiedBut lib skip s) (doc : PlaylistDoc)
    (seq eol now : Int) (hb : PlainUtf8 b) (hne : 0 < b.length) (hle : b.length ≤ DOC_MAX)
    (hrec : skip ≠ some name → ∀ x, record = some x → ∃ rec, x = base64 rec ∧ Signs lib name rec b) :
    CertifiedBut lib skip
      { s with db := s.db.put name (upserted (s.db.row name) doc b record seq eol now) } := by
  refine Db.All.put h ⟨fun hn x hx => ?_, ?_⟩
  · rw [record_upserted] at hx
    rw [doc_json_upserted, (encode_decode_iff b).2 hb]
    exact hrec hn x hx
  · rw [doc_json_upserted]
    exact .of_plain hb hne hle

/-- A record that signs the row's document makes up for what was skipped. -/
theorem CertifiedBut.insert_signed {b rec : Bytes} (h : CertifiedBut lib skip s) (doc : PlaylistDoc)
    (seq eol now : Int) (hskip : ∀ n, skip = some n → n = name) (hb : PlainUtf8 b) (hne : 0 < b.length)
    (hle : b.length ≤ DOC_MAX) (hsigns : Signs lib name rec b) :
    Certified lib { s with db := s.db.put name (upserted (s.db.row name) doc b (some (base64 rec)) seq eol now) } := by
  intro n r hr
  rw [Db.row_put] at hr
  split at hr
  next heq =>
    cases hr
    refine ⟨fun _ x hx => ?_, ?_⟩
    · rw [record_upserted, Option.some.injEq] at hx
      rw [doc_json_upserted, (encode_decode_iff b).2 hb, heq]
      exact ⟨rec, hx.symm, hsigns⟩
    · rw [doc_json_upserted]
      exact .of_plain hb hne hle
  next hne => exact ⟨fun _ => (h n r hr).1 fun hn => hne (hskip n hn), (h n r hr).2⟩

theorem plain_index {doc : PlaylistDoc} : (index name doc).Only Plain := only_index trivial fun _ => trivial

/-! ### Signing and sending -/

theorem wp_sign {doc : Bytes} {seq : Nat} {Q : Bytes → Store → Prop} (hok : ∀ rec, Signs lib name rec doc → Q rec s)
    (hfail : ∀ text, must = false → R text s) : (sign name doc seq).wp (K lib must) Q R s := by
  simp only [sign, act, Prog.call, Prog.wp_bind, wp_act, world, Prog.wp_ret, Prog.wp_ofExcept]
  refine ⟨trivial, fun i hi => ⟨fun rec hrec => hok rec (hi.2 rec hrec), fun text htext => hfail text ?_⟩⟩
  by_contra hm
  obtain ⟨rec, hrec⟩ := hi.1 (by simpa using hm)
  rw [hrec] at htext
  cases htext

theorem wp_gossip {rec doc : Bytes} (hpass : Passes lib name rec doc) (h : CertifiedBut lib skip s) :
    (gossip name rec doc).wp (K lib must) (fun _ => CertifiedBut lib skip) (fun _ => CertifiedBut lib skip) s := by
  simp only [gossip, act, Prog.call, Prog.wp_bind, wp_act, world, Prog.wp_ret, Prog.wp_ofExcept]
  exact ⟨hpass, fun i _ => ⟨fun _ _ => ⟨trivial, fun i' _ => h.of_db rfl⟩, fun _ _ => h⟩⟩

/-! ### Publishing -/

/-- Once it is signed the row is self-certifying, whatever happens next. -/
theorem wp_publish (h : CertifiedBut lib skip s) (hskip : ∀ n, skip = some n → n = name) :
    (publish lib name).wp (K lib must) (fun _ => Certified lib)
      (fun _ s' => Certified lib s' ∨ CertifiedBut lib skip s' ∧
        ((∃ r, s.db.row name = some r ∧ r.is_mine = true ∧ name ∈ s.keys ∧ ∃ doc, lib.parse r.doc_json = .ok doc) →
          must = false)) s := by
  simp only [publish, getRow, loadKey, act, Prog.call, Prog.wp_bind, wp_act, world, Prog.wp_ret]
  refine ⟨trivial, fun i _ => ?_⟩
  split
  next hrow =>
    refine .inr ⟨h, ?_⟩
    rintro ⟨r, hr, hmine, -⟩
    rw [hr, Option.filter_some, hmine] at hrow
    cases hrow
  next r hrow =>
    obtain ⟨hrow, hmine⟩ := Option.filter_eq_some_iff.1 hrow
    have hsound := (h name r hrow).2
    simp only [Prog.wp_bind, wp_act, world, Prog.wp_ret]
    refine ⟨trivial, fun i _ => ?_⟩
    split
    next hkey =>
      refine .inr ⟨h, ?_⟩
      rintro ⟨-, -, -, hmem, -⟩
      rw [List.contains_iff_mem.2 hmem] at hkey
      cases hkey
    next =>
      rw [Prog.wp_bind]
      refine wp_sign (fun rec hsigns => ?_) fun text hm => .inr ⟨h, fun _ => hm⟩
      rw [Prog.wp_bind, Prog.wp_ofExcept]
      refine ⟨fun parsed _ => ?_, fun text htext => .inr ⟨h, ?_⟩⟩
      · simp only [upsertPublished, act, Prog.call, Prog.wp_bind, wp_act, world, Prog.wp_ret]
        refine ⟨trivial, fun i hi => ⟨trivial, fun i' _ => ?_⟩⟩
        have hs := (h.insert_signed parsed (nextSeq r.seq) (recordEolSecs lib rec) i.now hskip hsound.plain
          hsound.nonempty hsound.short hsigns).update name (fun r => { r with published := true }) fun _ => ⟨rfl, rfl⟩
        refine Prog.wp_mono _ (wp_plain plain_index hs) (fun _ s' hs' => ?_) fun _ _ hs => .inl hs
        exact Prog.wp_mono _ (wp_gossip (hsigns.passes hsound.nonempty hsound.short) hs') (fun _ _ hs => hs)
          fun _ _ hs => .inl hs
      · rintro ⟨r', hr', -, -, doc, hdoc⟩
        rw [hrow, Option.some.injEq] at hr'
        rw [hr', hdoc] at htext
        cases htext

/-! ### The user's commands -/

theorem wp_newBytes {title : String} {tracks : List TrackRef} {Q : Bytes → Store → Prop}
    (h : ∀ doc, validateDoc lib (encodeDoc lib (newDoc title tracks)) = .ok doc →
      Q (encodeDoc lib (newDoc title tracks)) s) (hfail : ∀ text, R text s) :
    (newBytes lib title tracks).wp (K lib must) Q R s := by
  rw [newBytes, Prog.wp_bind, Prog.wp_ofExcept]
  exact ⟨fun doc hdoc => h doc hdoc, fun text _ => hfail text⟩

theorem wp_update {title : String} {tracks : List TrackRef} (h : Certified lib s)
    (hrow : ∀ r, s.db.row name = some r → r.is_mine = true → r.record_b64 ≠ none →
      encodeDoc lib (newDoc title tracks) ≠ utf8 r.doc_json →
        r.published = true ∧ name ∈ s.keys ∧ must = true) :
    (update lib name title tracks).wp (K lib must) (fun _ => Certified lib) (fun _ => Certified lib) s := by
  simp only [update, getRow, act, Prog.call, Prog.wp_bind, wp_act, world, Prog.wp_ret]
  refine ⟨trivial, fun i _ => ?_⟩
  split
  · exact h
  next r hsome =>
    obtain ⟨hr, hmine⟩ := Option.filter_eq_some_iff.1 hsome
    rw [Prog.wp_bind]
    refine wp_newBytes (fun doc hdoc => ?_) fun _ => h
    obtain ⟨hne, hle, hparse⟩ := valid_parts hdoc
    simp only [upsert, index, act, Prog.call, Prog.wp_bind, wp_act, world, Prog.wp_ret]
    refine ⟨trivial, fun i hplain => ⟨trivial, fun _ _ => ⟨trivial, fun _ _ => ?_⟩⟩⟩
    by_cases hsame : r.record_b64 = none ∨ encodeDoc lib (newDoc title tracks) = utf8 r.doc_json
    · have hedit : Certified lib { s with db := s.db.put name (upserted (s.db.row name) (newDoc title tracks)
          (encodeDoc lib (newDoc title tracks)) r.record_b64 r.seq r.eol i.now) } := by
        refine h.insert _ _ _ _ hplain hne hle fun _ x hx => ?_
        rcases hsame with hnone | heq
        · rw [hnone] at hx
          cases hx
        · exact heq ▸ (h name r hr).1 (by rintro ⟨⟩) x hx
      replace hedit := hedit.indexed name (newDoc title tracks)
      split
      · exact Prog.wp_mono _ (wp_publish hedit (by rintro _ ⟨⟩)) (fun _ _ hs => hs) fun _ _ hs => hs.elim id fun hs => hs.1
      · exact hedit
    · rw [not_or] at hsame
      obtain ⟨hpub, hkey, hmust⟩ := hrow r hr hmine hsame.1 hsame.2
      have hweak : CertifiedBut lib (some name) s := h.weaken
      have hedit : CertifiedBut lib (some name) { s with db := s.db.put name (upserted (s.db.row name)
          (newDoc title tracks) (encodeDoc lib (newDoc title tracks)) r.record_b64 r.seq r.eol i.now) } :=
        hweak.insert _ _ _ _ hplain hne hle fun hn => absurd rfl hn
      replace hedit := hedit.indexed name (newDoc title tracks)
      rw [if_pos hpub]
      refine Prog.wp_mono _ (wp_publish hedit (by rintro _ ⟨⟩; rfl)) (fun _ _ hs => hs) fun _ _ hs => ?_
      refine hs.elim id fun hs => ?_
      have := hs.2 ⟨_, Db.row_put.trans (if_pos rfl), by rw [hr]; exact hmine, hkey, by
        rw [doc_json_upserted]
        exact hparse⟩
      rw [hmust] at this
      cases this

/-- A playlist that is made has no record. -/
theorem wp_create {title : String} {tracks : List TrackRef} (h : Certified lib s) :
    (create lib title tracks).wp (K lib must)
      (fun info s' => Certified lib s' ∧ ∀ r, s'.db.row info.name = some r → r.record_b64 = none)
      (fun _ => Certified lib) s := by
  simp only [create, createKey, act, Prog.call, Prog.wp_bind, wp_act, Prog.wp_ret, Prog.wp_ofExcept]
  refine ⟨trivial, fun i _ => ?_⟩
  have hkeys := plain_keeps .createKey i s trivial h
  generalize world .createKey i s = x at hkeys ⊢
  obtain ⟨created, s'⟩ := x
  refine ⟨fun name _ => wp_newBytes (fun doc hdoc => ?_) fun _ => hkeys, fun _ _ => hkeys⟩
  obtain ⟨hne, hle, -⟩ := valid_parts hdoc
  simp only [upsertMine, index, getRow, act, Prog.call, Prog.wp_bind, wp_act, world, Prog.wp_ret]
  refine ⟨trivial, fun i hplain => ⟨trivial, fun _ _ => ⟨trivial, fun _ _ => ⟨trivial, fun _ _ => ⟨trivial, fun _ _ => ?_⟩⟩⟩⟩⟩
  have hs : Certified lib { s' with db := s'.db.put name (upserted (s'.db.row name) (newDoc title tracks)
      (encodeDoc lib (newDoc title tracks)) none 0 0 i.now) } :=
    hkeys.insert _ _ _ _ hplain hne hle (by rintro _ _ ⟨⟩)
  replace hs := (hs.update name (fun r => { r with is_mine := true, key_name := (some name).or r.key_name })
    fun _ => ⟨rfl, rfl⟩).indexed name (newDoc title tracks)
  split
  · exact hs
  next r hr =>
    simp only [nowSecs, act, Prog.call, Prog.wp_bind, wp_act, world, Prog.wp_ret, Prog.wp_ofExcept]
    refine ⟨trivial, fun i' _ => ⟨fun info hinfo => ⟨hs, fun r' hr' => ?_⟩, fun _ _ => hs⟩⟩
    have hname : info.name = name := by
      rw [metaOf] at hinfo
      split at hinfo
      · cases hinfo
      · cases hinfo
        rfl
    rw [hname, Db.row_index, Db.row_unindex, Db.row_update, if_pos rfl, Db.row_put, if_pos rfl, Option.map_some,
      Option.some.injEq] at hr'
    rw [← hr', record_upserted]

/-- The liked playlist is one that was there, or one without a record. -/
theorem wp_likedRow (h : Certified lib s) :
    (likedRow lib).wp (K lib must)
      (fun x s' => Certified lib s' ∧ ((s' = s ∧ ∃ r, s.db.row x.1 = some r ∧ r.liked = true) ∨
        ∀ r, s'.db.row x.1 = some r → r.record_b64 = none)) (fun _ => Certified lib) s := by
  simp only [likedRow, list, act, Prog.call, Prog.wp_bind, wp_act, world, Prog.wp_ret]
  refine ⟨trivial, fun _ _ => ?_⟩
  split
  next found hfind =>
    exact ⟨h, .inl ⟨rfl, found.2, mem_listRows.1 (List.mem_of_find?_eq_some hfind), by simpa using List.find?_some hfind⟩⟩
  next =>
    rw [Prog.wp_bind]
    refine Prog.wp_mono _ (wp_create h) (fun info s' hs => ?_) fun _ _ hs => hs
    simp only [getRow, act, Prog.call, Prog.wp_bind, wp_act, world, Prog.wp_ret]
    refine ⟨trivial, fun _ _ => ⟨trivial, fun _ _ => ?_⟩⟩
    have hs' := hs.1.update info.name (fun r => { r with liked := true }) fun _ => ⟨rfl, rfl⟩
    split
    · refine ⟨hs', .inr fun r hr => ?_⟩
      rw [Db.row_update, if_pos rfl] at hr
      obtain ⟨r', hr', rfl⟩ := Option.map_eq_some_iff.1 hr
      exact hs.2 r' hr'
    · exact hs'

theorem wp_likeToggle {track : TrackRef} (h : Certified lib s)
    (hliked : ∀ n r, s.db.row n = some r → r.liked = true → r.record_b64 ≠ none →
      r.published = true ∧ n ∈ s.keys ∧ must = true) :
    (likeToggle lib track).wp (K lib must) (fun _ => Certified lib) (fun _ => Certified lib) s := by
  rw [likeToggle, Prog.wp_bind]
  refine Prog.wp_mono _ (wp_likedRow h) (fun x s' hs => ?_) fun _ _ hs => hs
  have hupdate {title : String} {tracks : List TrackRef} :
      (update lib x.1 title tracks).wp (K lib must) (fun _ => Certified lib) (fun _ => Certified lib) s' := by
    refine wp_update hs.1 fun r hr _ hrec _ => ?_
    rcases hs.2 with ⟨rfl, r', hr', hl⟩ | hnone
    · exact hliked x.1 r hr (by rw [hr, Option.some.injEq] at hr'; rw [hr', hl]) hrec
    · exact absurd (hnone r hr) hrec
  rw [Prog.wp_bind, Prog.wp_ofExcept]
  refine ⟨fun doc _ => ?_, fun _ _ => hs.1⟩
  dsimp only
  split
  · rw [Prog.wp_bind]
    exact hupdate
  · rw [Prog.wp_bind]
    exact hupdate

/-! ### Taking back -/

theorem CertifiedBut.remove (h : CertifiedBut lib (some name) s) :
    (do removeRow name; act (.deleteKey name) : Web Unit).wp (K lib must) (fun _ => Certified lib) (fun _ => Certified lib) s := by
  simp only [removeRow, act, Prog.call, Prog.wp_bind, wp_act, world, Prog.wp_ret]
  refine ⟨trivial, fun _ _ => ⟨trivial, fun _ _ => ⟨trivial, fun _ _ n r hr => ?_⟩⟩⟩
  rw [Db.row_unindex, Db.row_erase] at hr
  split at hr
  · cases hr
  next hne => exact ⟨fun _ => (h n r hr).1 fun heq => hne (Option.some.inj heq).symm, (h n r hr).2⟩

section
variable (htomb : lib.stringify tombDoc = "\x7b\"v\":2,\"del\":true\x7d")
include htomb

/-- A tombstone is signed and sent before its record is put beside the document. -/
theorem wp_tombstone (h : CertifiedBut lib (some name) s) : (tombstone lib name).wp (K lib must)
    (fun _ => CertifiedBut lib (some name)) (fun _ => CertifiedBut lib (some name)) s := by
  have hdoc : encodeDoc lib tombDoc = utf8 "\x7b\"v\":2,\"del\":true\x7d" := congrArg utf8 htomb
  simp only [tombstone, getRow, loadKey, act, Prog.call, Prog.wp_bind, wp_act, world, Prog.wp_ret]
  refine ⟨trivial, fun i _ => ?_⟩
  split
  · exact h
  next row hrow =>
    simp only [Prog.wp_bind, wp_act, world, Prog.wp_ret]
    refine ⟨trivial, fun i _ => ?_⟩
    split
    · exact h
    · rw [Prog.wp_bind]
      refine wp_sign (fun rec hsigns => ?_) fun _ _ => h
      rw [Prog.wp_bind]
      have hpass : Passes lib name rec (encodeDoc lib tombDoc) :=
        hsigns.passes (by rw [hdoc]; decide) (by rw [hdoc]; decide)
      refine Prog.wp_mono _ (wp_gossip hpass h) (fun _ s' hs => ?_) fun _ _ hs => hs
      simp only [wp_act, world, Prog.wp_ret]
      refine ⟨trivial, fun i _ => Db.All.update hs fun r _ hr => ⟨fun hn => absurd rfl hn, hr.2⟩⟩

theorem wp_remove (h : Certified lib s) :
    (remove lib name).wp (K lib must) (fun _ => Certified lib) (fun _ => Certified lib) s := by
  rw [remove, getRow]
  simp only [act, Prog.call, Prog.wp_bind, wp_act, world, Prog.wp_ret]
  refine ⟨trivial, fun i _ => ?_⟩
  split
  · rw [Prog.wp_bind, Prog.wp_attempt]
    exact Prog.wp_mono _ (wp_tombstone htomb h.weaken) (fun _ _ hs => hs.remove) fun _ _ hs => hs.remove
  · exact CertifiedBut.remove h.weaken

end

/-! ### Ingest -/

/-- A document that is taken is stored with the record that signs it. -/
theorem wp_ingestVerified {rec doc : Bytes} {seq : UInt64} (h : Certified lib s) (hsigns : Signs lib name rec doc) :
    (ingestVerified lib name rec doc seq).wp (K lib must) (fun _ => Certified lib) (fun _ => Certified lib) s := by
  simp only [ingestVerified, getRow, act, Prog.call, Prog.wp_bind, wp_act, world, Prog.wp_ret]
  refine ⟨trivial, fun _ _ => ?_⟩
  split
  · exact h
  rw [Prog.wp_bind, Prog.wp_ofExcept]
  refine ⟨fun parsed hparsed => ?_, fun _ _ => h⟩
  obtain ⟨hne, hle, -⟩ := valid_parts hparsed
  simp only [upsert, act, Prog.call, Prog.wp_bind, wp_act, world, Prog.wp_ret]
  refine ⟨trivial, fun i hplain => ?_⟩
  have hs := h.insert_signed parsed (toNumber seq.toNat) (recordEolSecs lib rec) i.now (by rintro _ ⟨⟩) hplain hne hle hsigns
  refine Prog.wp_mono _ (wp_plain plain_index hs) (fun _ s' hs' => ?_) fun _ _ hs => hs
  refine ⟨trivial, fun _ _ => ⟨trivial, fun _ _ => ?_⟩⟩
  exact wp_plain (only_enforceBudget trivial (fun _ => trivial) fun _ => trivial) (hs'.of_db rfl)

theorem wp_ingestMessage {rec doc : Bytes} (h : Certified lib s) :
    (ingestMessage lib name rec doc).wp (K lib must) (fun _ => Certified lib) (fun _ => Certified lib) s := by
  simp only [ingestMessage, nowSecs, act, Prog.call, Prog.wp_bind, wp_act, world, Prog.wp_ret, Prog.wp_ofExcept]
  exact ⟨trivial, fun _ _ => ⟨fun seq hseq => wp_ingestVerified h (signs_of_validate hseq), fun _ _ => h⟩⟩

theorem wp_ingestWire {bytes : Bytes} (h : Certified lib s) :
    (ingestWire lib bytes).wp (K lib must) (fun _ => Certified lib) (fun _ => Certified lib) s := by
  rw [ingestWire, Prog.wp_bind, Prog.wp_ofExcept]
  refine ⟨?_, fun _ _ => h⟩
  rintro ⟨name, rec, doc⟩ -
  exact wp_ingestMessage h

theorem wp_ingestLink {url : String} (h : Certified lib s) :
    (ingestLink lib url).wp (K lib must) (fun _ => Certified lib) (fun _ => Certified lib) s := by
  rw [ingestLink, Prog.wp_bind, Prog.wp_ofExcept]
  refine ⟨?_, fun _ _ => h⟩
  rintro ⟨name, envelope⟩ -
  cases envelope with
  | none =>
    simp only [act, Prog.call, Prog.wp_bind, wp_act, world, Prog.wp_ret]
    exact ⟨trivial, fun _ _ => h.of_db rfl⟩
  | some env =>
    simp only [Prog.wp_bind, Prog.wp_ofExcept]
    refine ⟨?_, fun _ _ => h⟩
    rintro ⟨n, record, doc⟩ -
    dsimp only
    split
    · exact h
    rw [Prog.wp_bind]
    exact Prog.wp_mono _ (wp_ingestMessage h) (fun _ _ hs => hs) fun _ _ hs => hs

/-- The row of the name is the one there was, or gone. -/
theorem row_afterInsert_or {st : Store} {ω : Nat → Input} (parsed : PlaylistDoc) :
    ((afterInsert name parsed).run world ω st).2.db.row name = st.db.row name ∨
      ((afterInsert name parsed).run world ω st).2.db.row name = none := by
  have hrest : (afterInsert name parsed).Only fun e => ∀ i st, (world e i st).2.db.row name = st.db.row name ∨
      (world e i st).2.db.row name = none := by
    refine (only_index (fun i st => .inl rfl) fun e i st => .inl rfl).bind fun _ => ?_
    refine .bind ⟨fun i st => .inl rfl, fun _ => trivial⟩ fun _ => ?_
    refine .bind ⟨fun i st => .inl rfl, fun _ => trivial⟩ fun _ => ?_
    refine only_enforceBudget (fun i st => .inl rfl) (fun n i st => ?_) fun n i st => .inl rfl
    rw [world, Db.row_erase]
    split
    · exact .inr rfl
    · exact .inl rfl
  refine Prog.run_invariant (I := fun st' : Store => st'.db.row name = st.db.row name ∨ st'.db.row name = none)
    (Prog.fits_true _ _ _) (hrest.wp (fun e i st' he _ hst => ?_) (.inl rfl))
  rcases he i st' with heq | hnone
  · exact hst.imp heq.trans heq.trans
  · exact .inr hnone

/-- A document that is taken survives in the row exactly if it is UTF-8 without a byte order mark. -/
theorem survives_iff {st : Store} {ω : Nat → Input} {rec doc : Bytes} {parsed : PlaylistDoc} {seq : UInt64} {r : Row}
    (hnew : ∀ old, st.db.row name = some old → old.seq < toNumber seq.toNat) (hdoc : validateDoc lib doc = .ok parsed)
    (hr : ((ingestVerified lib name rec doc seq).run world ω st).2.db.row name = some r) :
    utf8 r.doc_json = doc ↔ PlainUtf8 doc := by
  have hany : (st.db.row name).any (fun r => (toNumber seq.toNat : Int) ≤ r.seq) = false := by
    cases hold : st.db.row name with
    | none => rfl
    | some old => exact decide_eq_false (not_le.2 (hnew old hold))
  rw [run_ingestVerified hany hdoc] at hr
  rcases row_afterInsert_or parsed with heq | hnone
  · rw [heq, world, Db.row_put, if_pos rfl, Option.some.injEq] at hr
    rw [← hr, doc_json_upserted]
    exact encode_decode_iff doc
  · rw [hnone] at hr
    cases hr

/-! ### The loops -/

/-- The record of a row that was certified is sent with its document. -/
theorem wp_regossip {r : Row} {record : String} (h : Certified lib s)
    (hr : CertifiedRow lib name r ∧ SoundText r.doc_json) (hrecord : liveRecord r = some record) :
    (regossip name record r.doc_json).wp (K lib must)
      (fun _ s' => Certified lib s' ∧ s'.db = s.db) (fun _ => Certified lib) s := by
  obtain ⟨rec, rfl, hsigns⟩ := hr.1 record (Option.filter_eq_some_iff.1 hrecord).1
  rw [regossip, atob_base64]
  simp only [gossip, act, Prog.call, Prog.wp_bind, wp_act, world, Prog.wp_ret, Prog.wp_ofExcept]
  exact ⟨hsigns.passes hr.2.nonempty hr.2.short, fun _ _ => ⟨fun _ _ => ⟨trivial, fun _ _ => ⟨h.of_db rfl, trivial⟩⟩, fun _ _ => h⟩⟩

/-- A row is announced as it is stored; the other rows stay as they are. -/
theorem wp_announceRow {now : Int} {r : Row} (h : Certified lib s) (hrow : s.db.row name = some r) :
    (announceRow lib now name r).wp (K lib must)
      (fun _ s' => Certified lib s' ∧ ∀ n, n ≠ name → s'.db.row n = s.db.row n) (fun _ => Certified lib) s := by
  obtain ⟨hcert, hsound⟩ := h name r hrow
  replace hcert := hcert (by rintro ⟨⟩)
  have hregossip {record : String} (hrecord : liveRecord r = some record) :
      (regossip name record r.doc_json).wp (K lib must)
        (fun _ s' => Certified lib s' ∧ ∀ n, n ≠ name → s'.db.row n = s.db.row n) (fun _ => Certified lib) s :=
    Prog.wp_mono _ (wp_regossip h ⟨hcert, hsound⟩ hrecord) (fun _ s' hs => ⟨hs.1, fun _ _ => by rw [hs.2]⟩) fun _ _ hs => hs
  rw [announceRow]
  split
  · exact ⟨h, fun _ _ => rfl⟩
  split
  · exact ⟨h, fun _ _ => rfl⟩
  simp only [loadKey, act, Prog.call, Prog.wp_bind, wp_act, world, Prog.wp_ret]
  refine ⟨trivial, fun _ _ => ?_⟩
  split
  · exact ⟨h, fun _ _ => rfl⟩
  split
  · simp only [Prog.wp_bind, wp_act, world, Prog.wp_ret]
    refine ⟨trivial, fun _ _ => ?_⟩
    split
    · exact ⟨h, fun _ _ => rfl⟩
    split
    · -- Near the end of its record's life the row is signed again, and its document is still the one it has.
      rw [Prog.wp_bind]
      refine wp_sign (fun rec hsigns => ?_) fun _ _ => h
      simp only [gossip, act, Prog.call, Prog.wp_bind, wp_act, world, Prog.wp_ret, Prog.wp_ofExcept]
      refine ⟨trivial, fun i _ => ⟨hsigns.passes hsound.nonempty hsound.short, fun i' _ => ?_⟩⟩
      have hs : Certified lib { s with db := s.db.update name fun old =>
          { old with seq := nextSeq r.seq, record_b64 := some (base64 rec), eol := recordEolSecs lib rec } } := by
        refine Db.All.update h fun r' hr' hold => ⟨fun _ record hrecord => ?_, hold.2⟩
        obtain rfl := Option.some.inj (hrow.symm.trans hr')
        exact ⟨rec, (Option.some.inj hrecord).symm, hsigns⟩
      refine ⟨fun _ _ => ⟨trivial, fun _ _ => ⟨hs.of_db rfl, fun n hn => ?_⟩⟩, fun _ _ => hs⟩
      rw [Db.row_update, if_neg hn]
    · split
      next record hrecord => exact hregossip hrecord
      next => exact ⟨h, fun _ _ => rfl⟩
  · split
    next record hrecord =>
      split
      · exact hregossip hrecord
      · exact ⟨h, fun _ _ => rfl⟩
    next => exact ⟨h, fun _ _ => rfl⟩

/-- The pass finds every row as the list has it. -/
theorem wp_announceRows {now : Int} {xs : List (String × Row)} (hnodup : (xs.map Prod.fst).Nodup) (h : Certified lib s)
    (hrows : ∀ x ∈ xs, s.db.row x.1 = some x.2) :
    (xs.foldlM (fun _ x => announceRow lib now x.1 x.2) ()).wp (K lib must) (fun _ => Certified lib)
      (fun _ => Certified lib) s := by
  induction xs generalizing s with
  | nil => exact h
  | cons x xs ih =>
    obtain ⟨hx, hnodup⟩ := List.nodup_cons.1 hnodup
    obtain ⟨hrow, hrows⟩ := List.forall_mem_cons.1 hrows
    rw [List.foldlM_cons, Prog.wp_bind]
    refine Prog.wp_mono _ (wp_announceRow h hrow) (fun _ s' hs => ih hnodup hs.1 fun y hy => ?_) fun _ _ hs => hs
    have hne : y.1 ≠ x.1 := fun heq => hx (heq ▸ List.mem_map_of_mem hy)
    rw [hs.2 y.1 hne]
    exact hrows y hy

theorem wp_announceOnce (h : Certified lib s) :
    (announceOnce lib).wp (K lib must) (fun _ => Certified lib) (fun _ => Certified lib) s := by
  simp only [announceOnce, nowSecs, list, act, Prog.call, Prog.wp_bind, wp_act, world, Prog.wp_ret]
  refine ⟨trivial, fun i _ => ⟨trivial, fun _ _ => ?_⟩⟩
  exact wp_announceRows (nodup_listRows s.db) h fun x hx => mem_listRows.1 hx

theorem wp_reannounce {manifest : List (String × Row)} {reannounced : Nat} (h : Certified lib s)
    (hrows : ∀ x ∈ manifest, CertifiedRow lib x.1 x.2 ∧ SoundText x.2.doc_json) :
    (reannounce manifest reannounced name).wp (K lib must) (fun _ => Certified lib) (fun _ => Certified lib) s := by
  rw [reannounce]
  split
  · exact h
  next x hfind =>
    have hname : x.1 = name := by simpa using List.find?_some hfind
    split
    · exact h
    next record hrecord =>
      simp only [act, Prog.call, Prog.wp_bind, wp_act, world, Prog.wp_ret]
      refine ⟨trivial, fun _ _ => ?_⟩
      split
      · exact h
      rw [Prog.wp_bind]
      have hr := hrows x (List.mem_of_find?_eq_some hfind)
      exact Prog.wp_mono _ (wp_regossip h (hname ▸ hr) hrecord) (fun _ _ hs => hs.1) fun _ _ hs => hs

theorem wp_handlePlaylistList {peer : String} (h : Certified lib s) :
    (handlePlaylistList peer).wp (K lib must) (fun _ => Certified lib) (fun _ => Certified lib) s := by
  simp only [handlePlaylistList, act, Prog.call, Prog.wp_bind, wp_act, world, Prog.wp_ret]
  refine ⟨trivial, fun _ _ => ?_⟩
  split
  · exact h
  rw [Prog.wp_bind, Prog.wp_attempt]
  simp only [serveList, disclosureRows, list, act, Prog.call, Prog.wp_bind, wp_act, world, Prog.wp_ret, Prog.wp_ofExcept]
  refine ⟨trivial, fun _ _ => ⟨fun want _ => ⟨trivial, fun _ _ => ?_⟩, fun _ _ => h⟩⟩
  rw [Prog.wp_pure]
  refine Prog.wp_mono _ (Prog.wp_foldlM (fun _ => Certified lib) (fun name _ n s' hs => wp_reannounce hs fun x hx => ?_) h)
    (fun n s' hs => ⟨trivial, fun _ _ => ⟨fun _ _ => hs, fun _ _ => hs⟩⟩) fun _ _ hs => hs
  have hrow := h x.1 x.2 (mem_listRows.1 (List.mem_filter.1 hx).1)
  exact ⟨hrow.1 (by rintro ⟨⟩), hrow.2⟩

/-! ### Runs -/

/-- The acts of `unpublish`. -/
def Unpublishes : Act → Prop
  | .publish .. | .tombstoneRow .. => True
  | e => Plain e

theorem only_tombstone : (tombstone lib name).Only Unpublishes := by
  refine .bind ⟨trivial, fun _ => trivial⟩ fun x => ?_
  split
  · trivial
  refine .bind ⟨trivial, fun _ => trivial⟩ fun key => ?_
  split
  · trivial
  refine .bind (.bind ⟨trivial, fun _ => trivial⟩ fun _ => .ofExcept _) fun rec => ?_
  refine .bind (.bind ⟨trivial, fun _ => trivial⟩ fun _ => .bind (.ofExcept _) fun _ => ⟨trivial, fun _ => trivial⟩) fun _ => ?_
  exact ⟨trivial, fun _ => trivial⟩

theorem unpublishes_keeps (e : Act) (i : Input) (s : Store) (he : Unpublishes e) (hne : ¬Tombstones e)
    (hs : Certified lib s) : Certified lib (world e i s).2 := by
  cases e with
  | tombstoneRow => exact absurd trivial hne
  | publish => exact hs.of_db rfl
  | _ => exact plain_keeps _ i s he hs

/-- A link that is copied carries what passes, if its record is not too long. -/
theorem copied_link {ω : Nat → Input} {url : String} {s' : Store}
    (hpeer : ∀ name, lib.isPeer name = true → valid_name name = true) (h : Certified lib s)
    (hrun : (copyLink name).run world ω s = (.ok url, s')) :
    ∃ rec doc, Passes lib name rec doc ∧ (rec.length ≤ RECORD_MAX → parseLink url = .ok (name, none) ∨
      ∃ env, parseLink url = .ok (name, some env) ∧ decodeEnvelope env = .ok (name, rec, doc)) := by
  refine (Prog.run_wp (Prog.fits_true _ ω s) (Q := fun url _ => ∃ rec doc, Passes lib name rec doc ∧
    (rec.length ≤ RECORD_MAX → parseLink url = .ok (name, none) ∨
      ∃ env, parseLink url = .ok (name, some env) ∧ decodeEnvelope env = .ok (name, rec, doc)))
    (R := fun _ _ => True) ?_).1 url (by rw [hrun])
  simp only [copyLink, getRow, act, Prog.call, Prog.wp_bind, Prog.wp_act_world, world, Prog.wp_ret]
  intro i _
  cases hrow : s.db.row name with
  | none => trivial
  | some r =>
    dsimp only
    split
    · trivial
    next record hrecord =>
      rw [Prog.wp_ofExcept]
      refine ⟨fun url hurl => ?_, fun _ _ => trivial⟩
      obtain ⟨hcert, hsound⟩ := h name r hrow
      obtain ⟨rec, rfl, hsigns⟩ := hcert (by rintro ⟨⟩) record (Option.filter_eq_some_iff.1 hrecord).1
      refine ⟨rec, utf8 r.doc_json, hsigns.passes hsound.nonempty hsound.short, fun hshort => ?_⟩
      exact parseLink_buildLink (hpeer name hsigns.1) (by rw [jsTrim_base64, atob_base64]) hshort hsound.short hurl

section
variable (hjson : lib.stringify tombDoc = "\x7b\"v\":2,\"del\":true\x7d")
include hjson

theorem op_certified {o : Op} {ω : Nat → Input} (h : Certified lib s) (hl : Lawful lib s o ω) :
    Certified lib ((Op.prog lib o).run world ω s).2 ∧ (Op.prog lib o).Fits world (fun e _ s => Sends lib e s) ω s := by
  obtain ⟨hfits, hfollows⟩ := hl
  have hrun (hp : (Op.prog lib o).wp (K lib false) (fun _ => Certified lib) (fun _ => Certified lib) s) :=
    Prog.run_asking_invariant hfits hp
  cases o with
  | create title tracks =>
    refine hrun ?_
    rw [Op.prog, Prog.wp_bind]
    exact Prog.wp_mono _ (wp_create h) (fun _ _ hs => hs.1) fun _ _ hs => hs
  | update name title tracks =>
    by_cases hrow : ∃ r, s.db.row name = some r ∧ r.is_mine = true ∧ r.record_b64 ≠ none ∧
        encodeDoc lib (newDoc title tracks) ≠ utf8 r.doc_json
    · obtain ⟨r, hr, hmine, hrec, hne⟩ := hrow
      obtain ⟨hpub, hkey, hmust⟩ := hfollows r hr hmine hrec hne
      refine Prog.run_asking_invariant hmust (wp_update h fun r' hr' _ _ _ => ?_)
      obtain rfl := Option.some.inj (hr.symm.trans hr')
      exact ⟨hpub, hkey, rfl⟩
    · exact hrun (wp_update h fun r hr hmine hrec hne => absurd ⟨r, hr, hmine, hrec, hne⟩ hrow)
  | publish name =>
    refine hrun ?_
    simp only [Op.prog, act, Prog.call, Prog.wp_bind, wp_act, world, Prog.wp_ret]
    refine ⟨trivial, fun _ _ => ?_⟩
    refine Prog.wp_mono _ (wp_publish (h.of_db rfl) (by rintro _ ⟨⟩)) (fun _ _ hs => hs) fun _ _ hs => ?_
    exact hs.elim id fun hs => hs.1
  | unpublish name =>
    -- What is sent passes whether or not the tombstone's record comes to the row, and in the runs that are lawful it does not.
    have hsends : ((Op.prog lib (.unpublish name)).wp (K lib false) (fun _ => CertifiedBut lib (some name))
        (fun _ => CertifiedBut lib (some name)) s) := by
      simp only [Op.prog, unpublish, Prog.wp_bind]
      refine Prog.wp_mono _ (wp_tombstone hjson h.weaken) (fun _ s' hs => ?_) fun _ _ hs => hs
      simp only [act, Prog.call, wp_act, world, Prog.wp_ret]
      refine ⟨trivial, fun _ _ => ⟨trivial, fun _ _ => ?_⟩⟩
      exact (hs.update name (fun r => { r with published := false }) fun _ => ⟨rfl, rfl⟩).of_db rfl
    have honly : (Op.prog lib (.unpublish name)).Only Unpublishes :=
      .bind (.bind only_tombstone fun _ => ⟨trivial, fun _ => trivial⟩) fun _ => ⟨trivial, fun _ => trivial⟩
    have hquiet : (Op.prog lib (.unpublish name)).Fits world (fun e _ _ => ¬Tombstones e) ω s := hfollows
    refine ⟨Prog.run_invariant hquiet (honly.wp (fun e i s he hne hs => unpublishes_keeps e i s he hne hs) h), ?_⟩
    exact (Prog.run_asking_invariant hfits hsends).2
  | remove name =>
    refine hrun ?_
    rw [Op.prog, Prog.wp_bind]
    exact Prog.wp_mono _ (wp_remove hjson h) (fun _ _ hs => wp_plain ⟨trivial, fun _ => trivial⟩ hs) fun _ _ hs => hs
  | hold | played => exact hrun (wp_plain ⟨trivial, fun _ => trivial⟩ h)
  | likedRow =>
    refine hrun ?_
    rw [Op.prog, Prog.wp_bind]
    exact Prog.wp_mono _ (wp_likedRow h) (fun _ _ hs => hs.1) fun _ _ hs => hs
  | likeToggle track =>
    have htoggle {must : Bool} (hp : (likeToggle lib track).wp (K lib must) (fun _ => Certified lib)
        (fun _ => Certified lib) s) : (Op.prog lib (.likeToggle track)).wp (K lib must) (fun _ => Certified lib)
          (fun _ => Certified lib) s := by
      rw [Op.prog, Prog.wp_bind]
      exact Prog.wp_mono _ hp (fun _ _ hs => hs) fun _ _ hs => hs
    by_cases hliked : ∃ n r, s.db.row n = some r ∧ r.liked = true ∧ r.record_b64 ≠ none
    · obtain ⟨n, r, hr, hl, hrec⟩ := hliked
      refine Prog.run_asking_invariant (hfollows n r hr hl hrec).2.2 (htoggle (wp_likeToggle h fun n' r' hr' hl' hrec' => ?_))
      obtain ⟨hpub, hkey, -⟩ := hfollows n' r' hr' hl' hrec'
      exact ⟨hpub, hkey, rfl⟩
    · exact hrun (htoggle (wp_likeToggle h fun n r hr hl hrec => absurd ⟨n, r, hr, hl, hrec⟩ hliked))
  | copyLink name => exact hrun (wp_plain ((only_copyLink trivial).bind fun _ => trivial) h)
  | ingestWire bytes => exact hrun (wp_ingestWire h)
  | ingestLink url =>
    refine hrun ?_
    rw [Op.prog, Prog.wp_bind]
    exact Prog.wp_mono _ (wp_ingestLink h) (fun _ _ hs => hs) fun _ _ hs => hs
  | announceOnce => exact hrun (wp_announceOnce h)
  | beaconOnce =>
    refine hrun (wp_plain (.bind (.bind ⟨trivial, fun _ => trivial⟩ fun _ => trivial) fun mine => ?_) h)
    split
    · trivial
    · exact ⟨trivial, fun _ => trivial⟩
  | handlePlaylistList peer => exact hrun (wp_handlePlaylistList h)

end

/-! ### A playlist shared and made private again -/

section
open Playlists (ownName recordA recordTomb docA docTomb deleted digestA digestTomb)

/-- The document titled `a` and the tombstone, with their records. -/
def webSample : WebLib :=
  { deleted.lib.toIpnsLib with
    parse := fun text =>
      if text = "\x7b\"v\":2,\"t\":\"a\"\x7d" then .ok webDoc
      else if text = "\x7b\"v\":2,\"del\":true\x7d" then .ok tombDoc
      else .error "Unexpected token"
    stringify := fun doc => if doc.del then "\x7b\"v\":2,\"del\":true\x7d" else "\x7b\"v\":2,\"t\":\"a\"\x7d" }

def emptyStore : Store := { db := .empty }

/-- The key is made, and the document titled `a` is signed. -/
def answering : Input := { createKey := .ok ownName, sign := .ok recordA }

/-- The playlist is made and shared. -/
def shared : List (Op × (Nat → Input)) := [(.create "a" [], fun _ => answering), (.publish ownName, fun _ => answering)]

theorem decode_webSample : webSample.decode recordTomb =
    some ⟨"/ipfs/bafkreicahnr2iw4l64xd5h5qbgtoy2pj64hpw6j3fkw2wdn5ni6tg6vu5q", 2, some 1780604800⟩ ∧
      webSample.decode recordA =
        some ⟨"/ipfs/bafkreieipyo3ca2ftcnazrsrky3tx355djitwpsy6ykxeqehgzj3r4e2ja", 1, some 1780604800⟩ := by
  decide +kernel

theorem signs_webSample : Signs webSample ownName recordA docA :=
  ⟨by decide, by decide +kernel, _, decode_webSample.2, by decide⟩

theorem encodeDoc_webSample : encodeDoc webSample (newDoc "a" []) = docA := rfl

theorem plain_docA : PlainUtf8 docA := ⟨⟨_, rfl⟩, by decide⟩

/-- A fresh playlist is made. -/
theorem lawful_create : Lawful webSample emptyStore (.create "a" []) fun _ => answering := by
  have honly : (Op.prog webSample (.create "a" [])).Only fun e => ∀ i s, Admits webSample false e i s := by
    have hvalid : validateDoc webSample docA = .ok webDoc := rfl
    rw [Op.prog, create, newBytes, encodeDoc_webSample, hvalid]
    refine .bind (.bind ⟨fun _ _ => trivial, fun _ => trivial⟩ fun x => .bind (.ofExcept _) fun name => ?_) fun _ => trivial
    change (upsertMine name (newDoc "a" []) docA >>= _).Only _
    refine .bind (.bind ⟨fun _ _ => plain_docA, fun _ => trivial⟩ fun _ => ?_) fun _ => ?_
    · exact .bind ⟨fun _ _ => trivial, fun _ => trivial⟩ fun _ => only_index (fun _ _ => trivial) fun _ _ _ => trivial
    · refine .bind ⟨fun _ _ => trivial, fun _ => trivial⟩ fun row => ?_
      cases row with
      | none => trivial
      | some r => exact .bind ⟨fun _ _ => trivial, fun _ => trivial⟩ fun _ => .ofExcept _
  exact ⟨honly.fits fun e i s he => he i s, trivial⟩

/-- It is shared. -/
theorem lawful_publish {s : Store} {r : Row} (hr : s.db.row ownName = some r) (hmine : r.is_mine = true)
    (hdoc : r.doc_json = "\x7b\"v\":2,\"t\":\"a\"\x7d") : Lawful webSample s (.publish ownName) fun _ => answering := by
  have hsign : answering.sign = .ok recordA := rfl
  have hutf8 : utf8 "\x7b\"v\":2,\"t\":\"a\"\x7d" = docA := rfl
  refine ⟨Prog.fits_of_wp (Q := fun _ _ => True) (R := fun _ _ => True) ?_, trivial⟩
  simp only [Op.prog, publish, loadKey, getRow, act, Prog.call, Prog.wp_bind, Prog.wp_act_withInput, Prog.wp_ret, Admits,
    world, true_and, hr, Option.filter_some, hmine, if_true]
  split
  · trivial
  simp only [WebPlaylists.sign, upsertPublished, gossip, index, act, Prog.call, Prog.wp_bind, Prog.wp_act_withInput,
    Prog.wp_ofExcept, Prog.wp_ret, Admits, world, true_and, hsign, hdoc, hutf8]
  refine ⟨⟨by rintro ⟨⟩, ?_⟩, ?_, fun _ _ => trivial⟩
  · rintro _ ⟨⟩
    exact signs_webSample
  · rintro _ ⟨⟩
    exact ⟨fun _ _ => ⟨plain_docA, fun _ _ => trivial, fun _ _ => trivial⟩, fun _ _ => trivial⟩

end

end TrackerStream.WebPlaylists
