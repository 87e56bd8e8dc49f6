import TrackerStream.Proofs.SearchIndex
import TrackerStream.Proofs.WebActs
import TrackerStream.Proofs.WebCertified

/-!
# What the browser's search finds is current

The browser writes a row and its index entry one statement after another, and takes them away so. While a task is
between the two the index of that name is behind; as long as no two tasks are there for one name at a time, the index is
that of the rows for every other name, and a search is right about all of them.
-/

namespace TrackerStream.WebPlaylists
open Playlists (Row Db FtsEntry Fts Finds finds_of_indexed found)
open Prog

/-! ### Programs that write no row -/

/-- The acts that change neither the text of a row nor the index. -/
def Unwritten : Act → Prop
  | .insert .. | .deleteRow _ | .unindex _ | .index _ => False
  | _ => True

variable {lib : WebLib} {name title : String} {tracks : List TrackRef} {doc : PlaylistDoc} {rec b : Bytes}
  {record : Option String}

theorem unwritten_gossip : (gossip name rec b).Only Unwritten :=
  .bind ⟨trivial, fun _ => trivial⟩ fun _ => .bind (.ofExcept _) fun _ => ⟨trivial, fun _ => trivial⟩

theorem unwritten_sign {seq : Nat} : (sign name b seq).Only Unwritten := .bind ⟨trivial, fun _ => trivial⟩ fun _ => .ofExcept _

theorem unwritten_tombstone : (tombstone lib name).Only Unwritten := by
  refine .bind ⟨trivial, fun _ => trivial⟩ fun x => ?_
  split
  · trivial
  refine .bind ⟨trivial, fun _ => trivial⟩ fun key => ?_
  split
  · trivial
  exact unwritten_sign.bind fun rec => unwritten_gossip.bind fun _ => ⟨trivial, fun _ => trivial⟩

theorem unwritten_regossip {text docJson : String} : (regossip name text docJson).Only Unwritten := by
  rw [regossip]
  split
  · trivial
  · exact unwritten_gossip

theorem unwritten_announceRow {now : Int} {row : Row} : (announceRow lib now name row).Only Unwritten := by
  rw [announceRow]
  split
  · trivial
  split
  · trivial
  refine .bind ⟨trivial, fun _ => trivial⟩ fun seen => ?_
  split
  · trivial
  split
  · refine .bind ⟨trivial, fun _ => trivial⟩ fun key => ?_
    split
    · trivial
    split
    · exact unwritten_sign.bind fun rec => .bind ⟨trivial, fun _ => trivial⟩ fun _ => unwritten_gossip
    split
    · exact unwritten_regossip
    · trivial
  · split
    · split
      · exact unwritten_regossip
      · trivial
    · trivial

theorem unwritten_disclosureRows : disclosureRows.Only Unwritten := .bind ⟨trivial, fun _ => trivial⟩ fun _ => trivial

theorem unwritten_reannounce {manifest : List (String × Row)} {n : Nat} : (reannounce manifest n name).Only Unwritten := by
  rw [reannounce]
  split
  · trivial
  split
  · trivial
  refine .bind ⟨trivial, fun _ => trivial⟩ fun allowed => ?_
  split
  · trivial
  · exact unwritten_regossip.bind fun _ => trivial

theorem unwritten_serveList : serveList.Only Unwritten := by
  refine .bind ⟨trivial, fun _ => trivial⟩ fun req => (Prog.Only.ofExcept _).bind fun want => ?_
  refine unwritten_disclosureRows.bind fun manifest => (Prog.Only.foldlM fun _ _ => unwritten_reannounce).bind fun n => ?_
  exact .bind ⟨trivial, fun _ => trivial⟩ fun _ => .ofExcept _

/-! ### Half a write -/

/-- A name whose row a task has written, or deleted where there is no entry, and whose index entry it has not yet. -/
structure Half where
  name : String
  entry : Option FtsEntry
  /-- Whether the old entry is gone. -/
  cleared : Bool

/-- The entry a document gets. -/
def entryOf (name : String) (doc : PlaylistDoc) : FtsEntry := ⟨name, doc.t.or "", tracksText doc⟩

/-- The bytes are what the browser makes of the document, or the document was read from their text. -/
def Sourced (lib : WebLib) (b : Bytes) (doc : PlaylistDoc) : Prop :=
  b = encodeDoc lib doc ∨ lib.parse (textDecode b) = .ok doc ∨ ∃ text, b = utf8 text ∧ lib.parse text = .ok doc

/-- A row is written or deleted when the last write is over, and then the index in order. -/
def halves (lib : WebLib) : Monitor Act Ans Op (Option Half) where
  init _ := none
  track q e _ := match e with
    | .insert n doc .. => some ⟨n, some (entryOf n doc), false⟩
    | .deleteRow n => some ⟨n, none, false⟩
    | .unindex _ => q.bind fun h => if h.entry = none then none else some { h with cleared := true }
    | .index _ => none
    | _ => q
  legal q e := match e with
    | .insert _ doc b _ _ _ => q = none ∧ Sourced lib b doc
    | .deleteRow _ => q = none
    | .unindex n => ∃ h, q = some h ∧ h.name = n ∧ h.cleared = false
    | .index e => ∃ h, q = some h ∧ h.entry = some e ∧ h.cleared = true ∧ e.name = h.name
    | _ => True
  allow _ _ := True

/-- What a text is read as says the same as the document in the index. -/
def Carries (lib : WebLib) (text : String) (doc : PlaylistDoc) : Prop :=
  ∃ d, lib.parse text = .ok d ∧ ∀ n, entryOf n d = entryOf n doc

/-- No two tasks write one name at a time, and what the browser writes is read back. -/
def apart (lib : WebLib) : Pool.Rules Act Ans String Input Store Op where
  start _ _ _ := True
  act _ ts _ e _ := match e with
    | .insert n doc b _ _ _ => (∀ u ∈ ts, ∀ h ∈ (halves lib).view u, h.name ≠ n) ∧
        (b = encodeDoc lib doc → Carries lib (textDecode b) doc)
    | .deleteRow n => ∀ u ∈ ts, ∀ h ∈ (halves lib).view u, h.name ≠ n
    | _ => True

/-! ### The programs -/

/-- Nothing is half written. -/
abbrev Whole (q : Option Half) : Prop := q = none

theorem rounds_unwritten {α : Type} {p : Web α} (hp : p.Only Unwritten) : (halves lib).Rounds Whole p := by
  refine Monitor.Rounds.of_only hp fun e he q => ?_
  cases e <;> first | exact he.elim | exact ⟨trivial, fun _ => rfl⟩

theorem rounds_act {α : Type} {e : Act} {f : Ans e → Web α} (he : Unwritten e) (hf : ∀ r, (halves lib).Rounds Whole (f r)) :
    (halves lib).Rounds Whole (act e >>= f) :=
  .bind (rounds_unwritten (⟨he, fun _ => trivial⟩ : Prog.Only Unwritten (act e))) hf

/-- A write is over once its entry is written. -/
theorem rounds_upsert {seq eol : Int} (h : Sourced lib b doc) :
    (halves lib).Rounds Whole (upsert name doc b record seq eol) := by
  rintro _ rfl
  simp only [Monitor.Follows, upsert, index, act, wp_bind, wp_call]
  refine ⟨⟨rfl, h⟩, ?_⟩
  rintro _ _ ⟨-, rfl⟩
  refine ⟨⟨_, rfl, rfl, rfl⟩, ?_⟩
  rintro _ _ ⟨-, rfl⟩
  refine ⟨⟨_, rfl, rfl, rfl, rfl⟩, ?_⟩
  rintro _ _ ⟨-, rfl⟩
  exact rfl

theorem rounds_upsertMine (h : Sourced lib b doc) : (halves lib).Rounds Whole (upsertMine name doc b) := by
  rintro _ rfl
  simp only [Monitor.Follows, upsertMine, index, act, wp_bind, wp_call]
  refine ⟨⟨rfl, h⟩, ?_⟩
  rintro _ _ ⟨-, rfl⟩
  refine ⟨trivial, ?_⟩
  rintro _ _ ⟨-, rfl⟩
  refine ⟨⟨_, rfl, rfl, rfl⟩, ?_⟩
  rintro _ _ ⟨-, rfl⟩
  refine ⟨⟨_, rfl, rfl, rfl, rfl⟩, ?_⟩
  rintro _ _ ⟨-, rfl⟩
  exact rfl

theorem rounds_upsertPublished {text : String} {seq eol : Int} (h : Sourced lib b doc) :
    (halves lib).Rounds Whole (upsertPublished name doc b text seq eol) := by
  rintro _ rfl
  simp only [Monitor.Follows, upsertPublished, index, act, wp_bind, wp_call]
  refine ⟨⟨rfl, h⟩, ?_⟩
  rintro _ _ ⟨-, rfl⟩
  refine ⟨trivial, ?_⟩
  rintro _ _ ⟨-, rfl⟩
  refine ⟨⟨_, rfl, rfl, rfl⟩, ?_⟩
  rintro _ _ ⟨-, rfl⟩
  refine ⟨⟨_, rfl, rfl, rfl, rfl⟩, ?_⟩
  rintro _ _ ⟨-, rfl⟩
  exact rfl

theorem rounds_removeRow : (halves lib).Rounds Whole (removeRow name) := by
  rintro _ rfl
  simp only [Monitor.Follows, removeRow, act, wp_bind, wp_call]
  refine ⟨rfl, ?_⟩
  rintro _ _ ⟨-, rfl⟩
  refine ⟨⟨_, rfl, rfl, rfl⟩, ?_⟩
  rintro _ _ ⟨-, rfl⟩
  exact rfl

theorem rounds_enforceBudget {budget : Int} : (halves lib).Rounds Whole (enforceBudget budget) := by
  refine rounds_act trivial fun rows => ?_
  generalize (rows.map (·.2)).sum = total
  induction rows generalizing total with
  | nil => exact .pure ()
  | cons x rows ih =>
    rw [evictRows]
    split
    · exact .pure ()
    · exact rounds_removeRow.bind fun _ => ih _

/-- An author's document is of the title and the tracks. -/
theorem rounds_newBytes {α : Type} {f : Bytes → Web α}
    (h : (halves lib).Rounds Whole (f (encodeDoc lib (newDoc title tracks)))) :
    (halves lib).Rounds Whole (newBytes lib title tracks >>= f) := by
  cases hv : validateDoc lib (encodeDoc lib (newDoc title tracks)) with
  | error e =>
    rw [newBytes, hv]
    exact .fail _
  | ok doc =>
    rw [newBytes, hv]
    exact h

theorem rounds_create : (halves lib).Rounds Whole (create lib title tracks) := by
  refine rounds_act trivial fun r => (Monitor.Rounds.ofExcept _).bind fun name => rounds_newBytes ?_
  refine (rounds_upsertMine (.inl rfl)).bind fun _ => rounds_act trivial fun x => ?_
  cases x with
  | none => exact .fail _
  | some row => exact rounds_act trivial fun _ => .ofExcept _

theorem rounds_ofExcept {α β : Type} {x : Except String β} {f : β → Web α}
    (h : ∀ a, x = .ok a → (halves lib).Rounds Whole (f a)) : (halves lib).Rounds Whole (.ofExcept x >>= f) := by
  cases x with
  | error e => exact .fail _
  | ok a => exact h a rfl

theorem rounds_publish : (halves lib).Rounds Whole (publish lib name) := by
  refine rounds_act trivial fun x => ?_
  split
  · exact .fail _
  refine rounds_act trivial fun key => ?_
  split
  · exact .fail _
  refine (rounds_unwritten unwritten_sign).bind fun rec => rounds_ofExcept fun parsed hparsed => ?_
  exact (rounds_upsertPublished (.inr (.inr ⟨_, rfl, hparsed⟩))).bind fun _ => rounds_unwritten unwritten_gossip

theorem rounds_update : (halves lib).Rounds Whole (update lib name title tracks) := by
  refine rounds_act trivial fun x => ?_
  split
  · exact .fail _
  refine rounds_newBytes ((rounds_upsert (.inl rfl)).bind fun _ => ?_)
  split
  · exact rounds_publish
  · exact .pure ()

theorem rounds_remove : (halves lib).Rounds Whole (remove lib name) := by
  refine rounds_act trivial fun row => ?_
  split
  · exact (rounds_unwritten unwritten_tombstone).attempt.bind fun _ => rounds_removeRow.bind fun _ => rounds_unwritten ⟨trivial, fun _ => trivial⟩
  · exact rounds_removeRow.bind fun _ => rounds_unwritten ⟨trivial, fun _ => trivial⟩

theorem rounds_likedRow : (halves lib).Rounds Whole (likedRow lib) := by
  refine rounds_act trivial fun rows => ?_
  split
  · exact .pure _
  refine rounds_create.bind fun info => rounds_act trivial fun _ => rounds_act trivial fun x => ?_
  cases x with
  | none => exact .fail _
  | some row => exact .pure _

theorem rounds_likeToggle {track : TrackRef} : (halves lib).Rounds Whole (likeToggle lib track) := by
  refine rounds_likedRow.bind fun x => (Monitor.Rounds.ofExcept _).bind fun doc => ?_
  dsimp only
  split <;> exact rounds_update.bind fun _ => .pure _

theorem parse_of_validateDoc (h : validateDoc lib b = .ok doc) : lib.parse (textDecode b) = .ok doc := by
  rw [validateDoc] at h
  split at h
  · cases h
  split at h
  · cases h
  next doc' hdoc =>
    suffices doc' = doc by rw [hdoc, this]
    repeat' split at h
    all_goals cases h
    all_goals rfl

theorem rounds_ingestMessage : (halves lib).Rounds Whole (ingestMessage lib name rec b) := by
  refine rounds_act trivial fun now => (Monitor.Rounds.ofExcept _).bind fun seq => rounds_act trivial fun x => ?_
  split
  · exact .pure ()
  refine rounds_ofExcept fun parsed hparsed => ?_
  refine (rounds_upsert (.inr (.inl (parse_of_validateDoc hparsed)))).bind fun _ => ?_
  exact rounds_act trivial fun _ => rounds_act trivial fun _ => rounds_enforceBudget

theorem rounds_ingestLink {url : String} : (halves lib).Rounds Whole (ingestLink lib url) := by
  refine (Monitor.Rounds.ofExcept _).bind fun x => ?_
  obtain ⟨n, envelope⟩ := x
  cases envelope with
  | none => exact rounds_act trivial fun _ => .pure _
  | some env =>
    refine (Monitor.Rounds.ofExcept _).bind fun y => ?_
    obtain ⟨n', record, doc⟩ := y
    dsimp only
    split
    · exact .fail _
    · exact rounds_ingestMessage.bind fun _ => .pure _

/-- Every operation ends with nothing half written. -/
theorem rounds_op (o : Op) : (halves lib).Rounds Whole (Op.prog lib o) := by
  cases o with
  | create title tracks => exact rounds_create.bind fun _ => .pure ()
  | update n title tracks => exact rounds_update
  | publish n => exact rounds_act trivial fun _ => rounds_publish
  | unpublish n =>
    refine .bind (.bind (rounds_unwritten unwritten_tombstone) fun _ => ?_) fun _ => ?_
    · exact rounds_unwritten ⟨trivial, fun _ => trivial⟩
    · exact rounds_unwritten ⟨trivial, fun _ => trivial⟩
  | remove n => exact rounds_remove.bind fun _ => rounds_unwritten ⟨trivial, fun _ => trivial⟩
  | hold n held => exact rounds_unwritten ⟨trivial, fun _ => trivial⟩
  | played n => exact rounds_unwritten ⟨trivial, fun _ => trivial⟩
  | likedRow => exact rounds_likedRow.bind fun _ => .pure ()
  | likeToggle track => exact rounds_likeToggle.bind fun _ => .pure ()
  | copyLink n => exact (rounds_unwritten (only_copyLink trivial)).bind fun _ => .pure ()
  | ingestWire bytes => exact (Monitor.Rounds.ofExcept _).bind fun _ => rounds_ingestMessage
  | ingestLink url => exact rounds_ingestLink.bind fun _ => .pure ()
  | announceOnce =>
    refine rounds_act trivial fun _ => rounds_act trivial fun _ => ?_
    exact .foldlM fun _ _ => rounds_unwritten unwritten_announceRow
  | beaconOnce =>
    refine (rounds_unwritten unwritten_disclosureRows).bind fun mine => ?_
    split
    · exact .pure ()
    · exact rounds_unwritten ⟨trivial, fun _ => trivial⟩
  | handlePlaylistList peer =>
    refine rounds_act trivial fun allowed => ?_
    split
    · exact .pure ()
    · exact (rounds_unwritten unwritten_serveList).attempt.bind fun _ => .pure ()

/-! ### One act -/

/-- The entry is of the document the row's text is read as. -/
def IsEntry (lib : WebLib) (e : FtsEntry) (r : Row) : Prop := ∃ d, lib.parse r.doc_json = .ok d ∧ e = entryOf e.name d

/-- The name whose row or entry an act writes. -/
def touched : Act → Option String
  | .insert n .. | .deleteRow n | .unindex n => some n
  | .index e => some e.name
  | _ => none

/-- What is half written: a row with its entry to come, or no row. -/
def Half.Ready (lib : WebLib) (s : Store) (h : Half) : Prop :=
  match h.entry with
  | none => s.db.row h.name = none
  | some e => e.name = h.name ∧ (∃ r, s.db.row h.name = some r ∧ IsEntry lib e r) ∧
      (h.cleared = true → s.db.entries h.name = [])

section
variable {s : Store} {db db' : Db} {e : Act} {i : Input} {n : String} {h : Half}

theorem text_update {f : Row → Row} (hf : ∀ r, (f r).doc_json = r.doc_json) :
    ((db.update name f).row n).map Row.doc_json = (db.row n).map Row.doc_json := by
  rw [Db.row_update]
  split
  next heq =>
    subst heq
    rw [Option.map_map]
    exact congrArg (Option.map · _) (funext hf)
  next => rfl

/-- An act leaves the text of a row it does not touch. -/
theorem text_world (hn : touched e ≠ some n) :
    ((world e i s).2.db.row n).map Row.doc_json = (s.db.row n).map Row.doc_json := by
  cases e with
  | insert name doc b record seq eol =>
    dsimp only [world]
    rw [Db.row_put, if_neg]
    rintro rfl
    exact hn rfl
  | deleteRow name =>
    dsimp only [world]
    rw [Db.row_erase, if_neg]
    rintro rfl
    exact hn rfl
  | setMine name isMine key => exact text_update fun _ => rfl
  | setHeld name held => exact text_update fun _ => rfl
  | setPublished name published => exact text_update fun _ => rfl
  | setLiked name => exact text_update fun _ => rfl
  | setPlayed name => exact text_update fun _ => rfl
  | tombstoneRow name seq record => exact text_update fun _ => rfl
  | renewRow name seq record eol => exact text_update fun _ => rfl
  | createKey =>
    dsimp only [world]
    split <;> rfl
  | _ => rfl

theorem entries_world (hn : touched e ≠ some n) : (world e i s).2.db.entries n = s.db.entries n := by
  cases e with
  | unindex name =>
    dsimp only [world]
    rw [Db.entries_unindex, if_neg]
    rintro rfl
    exact hn rfl
  | index entry =>
    dsimp only [world]
    rw [Db.entries_index, if_neg]
    rintro rfl
    exact hn rfl
  | setMine name isMine key => exact Db.entries_update
  | setHeld name held => exact Db.entries_update
  | setPublished name published => exact Db.entries_update
  | setLiked name => exact Db.entries_update
  | setPlayed name => exact Db.entries_update
  | tombstoneRow name seq record => exact Db.entries_update
  | renewRow name seq record eol => exact Db.entries_update
  | createKey =>
    dsimp only [world]
    split <;> rfl
  | _ => rfl

/-- A row with the same text has the same entry. -/
theorem isEntry_of_text {entry : FtsEntry} (htext : (db'.row n).map Row.doc_json = (db.row n).map Row.doc_json)
    (hr : ∃ r, db.row n = some r ∧ IsEntry lib entry r) : ∃ r, db'.row n = some r ∧ IsEntry lib entry r := by
  obtain ⟨r, hr, d, hd, he⟩ := hr
  rw [hr, Option.map_some] at htext
  obtain ⟨r', hr', htext⟩ := Option.map_eq_some_iff.1 htext
  exact ⟨r', hr', d, htext ▸ hd, he⟩

theorem indexedAt_of_text (h : db.IndexedAt (IsEntry lib) n)
    (htext : (db'.row n).map Row.doc_json = (db.row n).map Row.doc_json) (hentries : db'.entries n = db.entries n) :
    db'.IndexedAt (IsEntry lib) n := by
  refine ⟨fun r' hr' => ?_, fun hnone => ?_⟩
  · rw [hr', Option.map_some] at htext
    obtain ⟨r, hr, hdoc⟩ := Option.map_eq_some_iff.1 htext.symm
    obtain ⟨entry, he, d, hd, heq⟩ := h.one r hr
    exact ⟨entry, hentries ▸ he, d, hdoc ▸ hd, heq⟩
  · rw [hnone, Option.map_none, eq_comm, Option.map_eq_none_iff] at htext
    rw [hentries]
    exact h.none htext

theorem indexedAt_world (h : s.db.IndexedAt (IsEntry lib) n) (hn : touched e ≠ some n) :
    (world e i s).2.db.IndexedAt (IsEntry lib) n :=
  indexedAt_of_text h (text_world hn) (entries_world hn)

theorem Half.Ready.world (hs : h.Ready lib s) (hn : touched e ≠ some h.name) : h.Ready lib (world e i s).2 := by
  rw [Half.Ready] at hs ⊢
  cases hentry : h.entry with
  | none =>
    rw [hentry] at hs
    have htext := text_world (s := s) (i := i) hn
    rw [show s.db.row h.name = none from hs] at htext
    exact Option.map_eq_none_iff.1 htext
  | some entry =>
    rw [hentry] at hs
    exact ⟨hs.1, isEntry_of_text (text_world hn) hs.2.1, fun hc => (entries_world hn).trans (hs.2.2 hc)⟩

end

/-! ### Runs -/

/-- What a task has half written. -/
abbrev pending (lib : WebLib) (t : Task Act Ans String Op) : Option Half := (halves lib).view t

/-- The two tasks have half written no name both. -/
def Apart (lib : WebLib) (t u : Task Act Ans String Op) : Prop :=
  ∀ h ∈ pending lib t, ∀ h' ∈ pending lib u, h'.name ≠ h.name

theorem Apart.symm {t u : Task Act Ans String Op} (h : Apart lib t u) : Apart lib u t :=
  fun x hx y hy heq => h y hy x hx heq.symm

/-- Each task has half written what it says, no two the same name, and the index is right about every other name. -/
structure Indexing (lib : WebLib) (s : Store) (ts : List (Task Act Ans String Op)) : Prop where
  follows : ∀ t ∈ ts, (halves lib).Follows Whole t.rest (pending lib t)
  ready : ∀ t ∈ ts, ∀ h ∈ pending lib t, h.Ready lib s
  apart : ts.Pairwise (Apart lib)
  index : ∀ n, (∀ t ∈ ts, ∀ h ∈ pending lib t, h.name ≠ n) → s.db.IndexedAt (IsEntry lib) n

namespace Indexing
variable {s : Store} {ts l₁ l₂ : List (Task Act Ans String Op)} {t : Task Act Ans String Op} {e : Act} {i : Input}
  {k : Ans e → Web Unit}

theorem start (h : Indexing lib s ts) (o : Op) : Indexing lib s (ts ++ [⟨o, [], Op.prog lib o⟩]) := by
  have hnone : pending lib (⟨o, [], Op.prog lib o⟩ : Task Act Ans String Op) = none := rfl
  refine ⟨fun t ht => ?_, fun t ht => ?_, ?_, fun n hn => h.index n fun t ht => hn t (by simp [ht])⟩
  · rcases List.mem_append.1 ht with ht | ht
    · exact h.follows t ht
    · rw [List.mem_singleton.1 ht]
      exact rounds_op o none rfl
  · rcases List.mem_append.1 ht with ht | ht
    · exact h.ready t ht
    · rw [List.mem_singleton.1 ht, hnone]
      rintro _ ⟨⟩
  · refine List.pairwise_append.2 ⟨h.apart, List.pairwise_singleton _ _, fun t _ u hu => ?_⟩
    rw [List.mem_singleton.1 hu, Apart, hnone]
    rintro _ _ _ ⟨⟩

/-- What the task that acts has half written afterwards. -/
structure Step (lib : WebLib) (s' : Store) (others : List (Task Act Ans String Op)) (e : Act) (q q' : Option Half) : Prop where
  ready : ∀ h ∈ q', h.Ready lib s'
  named : ∀ h ∈ q', (∃ h₀ ∈ q, h₀.name = h.name) ∨ ∀ u ∈ others, ∀ h' ∈ pending lib u, h'.name ≠ h.name
  /-- Another task has half written none of the names the act touches. -/
  spared : ∀ n, touched e = some n → ∀ u ∈ others, ∀ h' ∈ pending lib u, h'.name ≠ n
  /-- A name that is not half written any more is indexed. -/
  settled : ∀ n, (touched e = some n ∨ ∃ h ∈ q, h.name = n) → (∀ h ∈ q', h.name ≠ n) → s'.db.IndexedAt (IsEntry lib) n

theorem step (h : Indexing lib s (l₁ ++ t :: l₂)) (hrest : t.rest = .act e k)
    (hs : Step lib (world e i s).2 (l₁ ++ l₂) e (pending lib t) (pending lib (t.answered e (world e i s).1 k))) :
    Indexing lib (world e i s).2 (l₁ ++ t.answered e (world e i s).1 k :: l₂) := by
  have ht : t ∈ l₁ ++ t :: l₂ := by simp
  have hothers : ∀ u ∈ l₁ ++ l₂, u ∈ l₁ ++ t :: l₂ := fun u hu => by
    rcases List.mem_append.1 hu with hu | hu <;> simp [hu]
  have hmem : ∀ u ∈ l₁ ++ t.answered e (world e i s).1 k :: l₂, u = t.answered e (world e i s).1 k ∨ u ∈ l₁ ++ l₂ := by
    intro u hu
    rcases List.mem_append.1 hu with hu | hu
    · exact .inr (List.mem_append_left _ hu)
    · exact (List.mem_cons.1 hu).imp_right (List.mem_append_right _)
  obtain ⟨hapart, hrest'⟩ := List.pairwise_cons.1 ((List.pairwise_middle Apart.symm).1 h.apart)
  refine ⟨fun u hu => ?_, fun u hu => ?_, ?_, fun n hn => ?_⟩
  · rcases hmem u hu with rfl | hu
    · exact Monitor.follows_answered (h.follows t ht) hrest trivial
    · exact h.follows u (hothers u hu)
  · rcases hmem u hu with rfl | hu
    · exact hs.ready
    · intro x hx
      exact (h.ready u (hothers u hu) x hx).world fun htouch => hs.spared _ htouch u hu x hx rfl
  · refine (List.pairwise_middle Apart.symm).2 (List.pairwise_cons.2 ⟨fun u hu x hx y hy => ?_, hrest'⟩)
    rcases hs.named x hx with ⟨x₀, hx₀, hname⟩ | hfresh
    · rw [← hname]
      exact hapart u hu x₀ hx₀ y hy
    · exact hfresh u hu y hy
  · by_cases hown : touched e = some n ∨ ∃ x ∈ pending lib t, x.name = n
    · exact hs.settled n hown (hn _ (by simp))
    · refine indexedAt_world (h.index n fun u hu x hx => ?_) fun htouch => hown (.inl htouch)
      rcases List.mem_append.1 hu with hu | hu
      · exact hn u (List.mem_append_left _ hu) x hx
      rcases List.mem_cons.1 hu with rfl | hu
      · exact fun hname => hown (.inr ⟨x, hx, hname⟩)
      · exact hn u (List.mem_append_right _ (List.mem_cons_of_mem _ hu)) x hx

/-- An act that touches no name. -/
theorem step_of_untouched (h : Indexing lib s (l₁ ++ t :: l₂)) (hnone : touched e = none)
    (hq : pending lib (t.answered e (world e i s).1 k) = pending lib t) :
    Step lib (world e i s).2 (l₁ ++ l₂) e (pending lib t) (pending lib (t.answered e (world e i s).1 k)) := by
  rw [hq]
  refine ⟨fun x hx => (h.ready t (by simp) x hx).world fun htouch => ?_, fun x hx => .inl ⟨x, hx, rfl⟩, fun n hn => ?_,
    fun n hn hnot => ?_⟩
  · rw [hnone] at htouch
    cases htouch
  · rw [hnone] at hn
    cases hn
  · rcases hn with hn | ⟨x, hx, rfl⟩
    · rw [hnone] at hn
      cases hn
    · exact absurd rfl (hnot x hx)

/-- A row is written. -/
theorem step_insert {n : String} {doc : PlaylistDoc} {b : Bytes} {record : Option String} {seq eol : Int}
    {others : List (Task Act Ans String Op)} (hcarries : Carries lib (textDecode b) doc)
    (hothers : ∀ u ∈ others, ∀ h ∈ pending lib u, h.name ≠ n) :
    Step lib (world (.insert n doc b record seq eol) i s).2 others (.insert n doc b record seq eol) none
      (some ⟨n, some (entryOf n doc), false⟩) := by
  refine ⟨?_, ?_, ?_, ?_⟩
  · rintro _ ⟨⟩
    obtain ⟨d, hd, hsame⟩ := hcarries
    refine ⟨rfl, ⟨upserted (s.db.row n) doc b record seq eol i.now, ?_, d, ?_, (hsame n).symm⟩, by rintro ⟨⟩⟩
    · dsimp only [world]
      rw [Db.row_put, if_pos rfl]
    · cases s.db.row n <;> exact hd
  · rintro _ ⟨⟩
    exact .inr hothers
  · rintro _ ⟨⟩
    exact hothers
  · rintro m (⟨⟨⟩⟩ | ⟨_, ⟨⟩, -⟩) hnot
    exact absurd rfl (hnot _ rfl)

/-- A row is deleted. -/
theorem step_deleteRow {n : String} {others : List (Task Act Ans String Op)}
    (hothers : ∀ u ∈ others, ∀ h ∈ pending lib u, h.name ≠ n) :
    Step lib (world (.deleteRow n) i s).2 others (.deleteRow n) none (some ⟨n, none, false⟩) := by
  refine ⟨?_, ?_, ?_, ?_⟩
  · rintro _ ⟨⟩
    show (s.db.erase n).row n = none
    rw [Db.row_erase, if_pos rfl]
  · rintro _ ⟨⟩
    exact .inr hothers
  · rintro _ ⟨⟩
    exact hothers
  · rintro m (⟨⟨⟩⟩ | ⟨_, ⟨⟩, -⟩) hnot
    exact absurd rfl (hnot _ rfl)

/-- The old entry goes; where there is no row that is all. -/
theorem step_unindex {x : Half} {others : List (Task Act Ans String Op)} (hready : x.Ready lib s)
    (hothers : ∀ u ∈ others, ∀ h ∈ pending lib u, h.name ≠ x.name) :
    Step lib (world (.unindex x.name) i s).2 others (.unindex x.name) (some x)
      (if x.entry = none then none else some { x with cleared := true }) := by
  have hentries : (s.db.unindex x.name).entries x.name = [] := by rw [Db.entries_unindex, if_pos rfl]
  rw [Half.Ready] at hready
  cases hentry : x.entry with
  | none =>
    rw [hentry] at hready
    rw [if_pos rfl]
    refine ⟨by rintro _ ⟨⟩, by rintro _ ⟨⟩, ?_, ?_⟩
    · rintro _ ⟨⟩
      exact hothers
    · rintro m (⟨⟨⟩⟩ | ⟨_, ⟨⟩, rfl⟩) -
      all_goals
        refine ⟨fun r hr => ?_, fun _ => hentries⟩
        rw [show s.db.row x.name = some r from hr] at hready
        cases hready
  | some entry =>
    rw [hentry] at hready
    rw [if_neg (Option.some_ne_none _)]
    refine ⟨?_, ?_, ?_, ?_⟩
    · rintro _ ⟨⟩
      exact ⟨hready.1, hready.2.1, fun _ => hentries⟩
    · rintro _ ⟨⟩
      exact .inl ⟨x, rfl, rfl⟩
    · rintro _ ⟨⟩
      exact hothers
    · rintro m (⟨⟨⟩⟩ | ⟨_, ⟨⟩, rfl⟩) hnot
      all_goals exact absurd rfl (hnot { x with cleared := true } (by rw [hentry]; rfl))

/-- The new entry comes, and the write is over. -/
theorem step_index {x : Half} {entry : FtsEntry} {others : List (Task Act Ans String Op)} (hready : x.Ready lib s)
    (hentry : x.entry = some entry) (hcleared : x.cleared = true)
    (hothers : ∀ u ∈ others, ∀ h ∈ pending lib u, h.name ≠ x.name) :
    Step lib (world (.index entry) i s).2 others (.index entry) (some x) none := by
  rw [Half.Ready, hentry] at hready
  obtain ⟨hname, ⟨r, hr, hE⟩, hempty⟩ := hready
  refine ⟨by rintro _ ⟨⟩, by rintro _ ⟨⟩, ?_, ?_⟩
  · rintro _ ⟨⟩
    exact hname ▸ hothers
  · rintro m hm -
    have hmx : x.name = m := by
      rcases hm with ⟨⟨⟩⟩ | ⟨_, ⟨⟩, hm⟩
      · exact hname.symm
      · exact hm
    subst hmx
    refine ⟨fun r' hr' => ⟨entry, ?_, ?_⟩, fun hnone => ?_⟩
    · dsimp only [world]
      rw [Db.entries_index, if_pos hname, hempty hcleared, List.nil_append]
    · cases hr.symm.trans (show s.db.row x.name = some r' from hr')
      exact hE
    · cases hr.symm.trans (show s.db.row x.name = none from hnone)

theorem act (h : Indexing lib s (l₁ ++ t :: l₂)) (hrest : t.rest = .act e k)
    (hmark : ∀ text d, lib.parse text = .ok d → textDecode (utf8 text) = text)
    (hlaw : (WebPlaylists.apart lib).act s (l₁ ++ l₂) t e i) :
    Indexing lib (world e i s).2 (l₁ ++ t.answered e (world e i s).1 k :: l₂) := by
  have ht : t ∈ l₁ ++ t :: l₂ := by simp
  have hlegal : (halves lib).legal (pending lib t) e := Monitor.legal_of_follows (h.follows t ht) hrest
  have hapart := (List.pairwise_cons.1 ((List.pairwise_middle Apart.symm).1 h.apart)).1
  refine h.step hrest ?_
  cases e with
  | insert n doc b record seq eol =>
    obtain ⟨hnone, hsource⟩ := hlegal
    obtain ⟨hothers, hback⟩ := hlaw
    rw [show pending lib t = none from hnone]
    refine step_insert ?_ hothers
    rcases hsource with rfl | hparse | ⟨text, rfl, hparse⟩
    · exact hback rfl
    · exact ⟨doc, hparse, fun _ => rfl⟩
    · exact ⟨doc, by rw [hmark text doc hparse, hparse], fun _ => rfl⟩
  | deleteRow n =>
    rw [show pending lib t = none from hlegal]
    exact step_deleteRow hlaw
  | unindex n =>
    obtain ⟨x, hx, rfl, -⟩ := hlegal
    have hstep := step_unindex (i := i) (h.ready t ht x hx) fun u hu y hy => hapart u hu x hx y hy
    rw [show pending lib t = some x from hx]
    rw [show pending lib (t.answered (.unindex x.name) (world (.unindex x.name) i s).1 k) =
      if x.entry = none then none else some { x with cleared := true } by
        rw [pending, Monitor.view_answered, show (halves lib).view t = some x from hx]
        rfl]
    exact hstep
  | index entry =>
    obtain ⟨x, hx, hentry, hcleared, -⟩ := hlegal
    rw [show pending lib t = some x from hx]
    exact step_index (h.ready t ht x hx) hentry hcleared fun u hu y hy => hapart u hu x hx y hy
  | _ => exact h.step_of_untouched rfl rfl

end Indexing

/-! ### Searches -/

/-- The browser after the first `k` moves from a store with nothing in flight. -/
def after (lib : WebLib) (s₀ : Store) (ms : List (Prog.Move Input Op)) (k : Nat) : Pool Act Ans String Store Op :=
  Runs.state (Pool.move (browser lib)) ⟨s₀, []⟩ ms k

/-- No task in flight has half written the name. -/
def Untouched (lib : WebLib) (ts : List (Task Act Ans String Op)) (n : String) : Prop :=
  ∀ t ∈ ts, t.rest.ended = false → ∀ h ∈ pending lib t, h.name ≠ n

variable {s₀ : Store} {ms : List (Prog.Move Input Op)}

theorem indexing_after (hmark : ∀ text d, lib.parse text = .ok d → textDecode (utf8 text) = text)
    (h : s₀.db.Indexed (IsEntry lib))
    (hms : Runs.Along (Pool.move (browser lib)) (Pool.Obeys (browser lib) (apart lib)) ⟨s₀, []⟩ ms) (k : Nat) :
    Indexing lib (after lib s₀ ms k).state (after lib s₀ ms k).tasks := by
  refine hms.always (I := fun p => Indexing lib p.state p.tasks) ?_ (fun p m hm hp => ?_) k
  · exact ⟨by rintro t ⟨⟩, by rintro t ⟨⟩, .nil, fun n _ => h n⟩
  · exact Pool.move_invariant (I := Indexing lib) (fun _ _ o hI _ => hI.start o)
      (fun _ _ _ _ _ _ _ hI hrest _ hlaw => hI.act hrest hmark hlaw) hp hm

/-- An operation that is over has nothing half written. -/
theorem Indexing.indexedAt {s : Store} {ts : List (Task Act Ans String Op)} {n : String} (h : Indexing lib s ts)
    (hn : Untouched lib ts n) : s.db.IndexedAt (IsEntry lib) n := by
  refine h.index n fun t ht x hx => ?_
  cases hended : t.rest.ended with
  | false => exact hn t ht hended x hx
  | true =>
    have hwhole : pending lib t = none := by
      have hfollows := h.follows t ht
      rw [Monitor.Follows] at hfollows
      cases hrest : t.rest with
      | ret a =>
        rw [hrest] at hfollows
        exact hfollows
      | fail e =>
        rw [hrest] at hfollows
        exact hfollows
      | act e k =>
        rw [hrest] at hended
        cases hended
    rw [hwhole] at hx
    cases hx

theorem search_found (lib : WebLib) (hmark : ∀ text d, lib.parse text = .ok d → textDecode (utf8 text) = text)
    (js : SearchTerms.Ucd) (fts : Fts) (s₀ : Store) (h : s₀.db.Indexed (IsEntry lib)) (ms : List (Prog.Move Input Op))
    (hms : Runs.Along (Pool.move (browser lib)) (Pool.Obeys (browser lib) (apart lib)) ⟨s₀, []⟩ ms) (k : Nat) (q : String)
    (hq : (SearchTerms.jsTerms js q).map SearchTerms.quoted ≠ []) (rows : List (String × Row))
    (hsearch : searchRows js fts (after lib s₀ ms k).state.db q = .ok rows) :
    Finds (Untouched lib (after lib s₀ ms k).tasks) (IsEntry lib)
      (fts.hit (" ".intercalate ((SearchTerms.jsTerms js q).map SearchTerms.quoted))) (after lib s₀ ms k).state.db rows := by
  rw [searchRows, if_neg (by rwa [List.isEmpty_iff]), found] at hsearch
  cases hhits : fts.select (" ".intercalate ((SearchTerms.jsTerms js q).map SearchTerms.quoted))
      (after lib s₀ ms k).state.db.fts with
  | error e =>
    rw [hhits] at hsearch
    cases hsearch
  | ok hits =>
    rw [hhits] at hsearch
    cases hsearch
    exact finds_of_indexed (fun n hn => (indexing_after hmark h hms k).indexedAt hn) (fts.perm_of_select _ _ _ hhits)

/-! ### A playlist that is made is found -/

section
open Playlists (ownName docA docTomb wordIndex matchExpr joined SEARCH_LIMIT)

/-- A playlist is made, up to its entry. -/
def making : List (Prog.Move Input Op) :=
  [.start (.create "a" []), .step 0 answering, .step 0 answering, .step 0 answering, .step 0 answering, .step 0 answering]

/-- The row of the playlist. -/
def madeRow : Row := { upserted none (newDoc "a" []) docA none 0 0 0 with is_mine := true, key_name := some ownName }

/-- What a fresh playlist takes: its key, its row and its entry. -/
theorem steps_create : ∃ k, Op.prog webSample (.create "a" []) = .act .createKey k ∧ ∃ k',
    k (.ok ownName) = .act (.insert ownName (newDoc "a" []) docA none 0 0) fun _ =>
      .act (.setMine ownName (some true) (some ownName)) fun _ => .act (.unindex ownName) fun _ =>
        .act (.index ⟨ownName, "a", ""⟩) k' :=
  ⟨_, rfl, _, rfl⟩

theorem apart_making :
    Runs.Along (Pool.move (browser webSample)) (Pool.Obeys (browser webSample) (apart webSample)) ⟨emptyStore, []⟩ making := by
  obtain ⟨k, hprog, k', hk⟩ := steps_create
  refine Runs.along_cons trivial ?_
  refine Pool.along_alone (t := ⟨Op.create "a" [], [], Op.prog webSample (.create "a" [])⟩) hprog rfl trivial ?_
  refine Pool.along_alone hk rfl ⟨by rintro u ⟨⟩, fun _ => ⟨webDoc, rfl, fun _ => rfl⟩⟩ ?_
  refine Pool.along_alone rfl rfl trivial ?_
  refine Pool.along_alone rfl rfl trivial ?_
  exact Pool.along_alone rfl rfl trivial Runs.along_nil

theorem db_making : (after webSample emptyStore making 6).state.db =
    ((((Db.empty.put ownName (upserted none (newDoc "a" []) docA none 0 0 0)).update ownName fun r =>
      { r with is_mine := true, key_name := some ownName }).unindex ownName).index ⟨ownName, "a", ""⟩) := by
  obtain ⟨k, hprog, k', hk⟩ := steps_create
  have hstart : Pool.move (browser webSample) ⟨emptyStore, []⟩ (.start (.create "a" [])) =
      ⟨emptyStore, [⟨.create "a" [], [], Op.prog webSample (.create "a" [])⟩]⟩ := rfl
  rw [after, Runs.state_succ (k := 5) (i := .step 0 answering) rfl, Runs.state_succ (k := 4) (i := .step 0 answering) rfl,
    Runs.state_succ (k := 3) (i := .step 0 answering) rfl, Runs.state_succ (k := 2) (i := .step 0 answering) rfl,
    Runs.state_succ (k := 1) (i := .step 0 answering) rfl, Runs.state_succ (k := 0) (i := .start (.create "a" [])) rfl,
    Runs.state_zero, hstart, Pool.move_alone hprog rfl, Pool.move_alone hk rfl, Pool.move_alone rfl rfl,
    Pool.move_alone rfl rfl, Pool.move_alone rfl rfl]
  rfl

theorem mark_webSample (text : String) (d : PlaylistDoc) (h : webSample.parse text = .ok d) :
    textDecode (utf8 text) = text := by
  by_cases ha : text = "\x7b\"v\":2,\"t\":\"a\"\x7d"
  · rw [ha]
    exact textDecode_utf8 (by decide)
  by_cases htomb : text = "\x7b\"v\":2,\"del\":true\x7d"
  · rw [htomb]
    exact textDecode_utf8 (by decide)
  · simp [webSample, ha, htomb] at h

theorem search_found_making : ∃ rows,
    searchRows SearchTerms.fewCharacters wordIndex (after webSample emptyStore making 6).state.db "a" = .ok rows ∧
      rows.length = 1 ∧ Finds (Untouched webSample (after webSample emptyStore making 6).tasks) (IsEntry webSample)
        (wordIndex.hit (" ".intercalate ((SearchTerms.jsTerms SearchTerms.fewCharacters "a").map SearchTerms.quoted)))
        (after webSample emptyStore making 6).state.db rows := by
  have hterms : (SearchTerms.jsTerms SearchTerms.fewCharacters "a").map SearchTerms.quoted = [matchExpr "a"] := by
    decide +kernel
  have hsearch : searchRows SearchTerms.fewCharacters wordIndex (after webSample emptyStore making 6).state.db "a" =
      .ok [(ownName, madeRow)] := by
    have hhits : [(⟨ownName, "a", ""⟩ : FtsEntry)].filter (fun e => matchExpr e.title = matchExpr "a") =
        [⟨ownName, "a", ""⟩] := by rw [List.filter_cons_of_pos (by simp), List.filter_nil]
    rw [db_making, searchRows, if_neg (by rw [hterms]; simp), hterms, found]
    show (Except.ok ((joined _ ([(⟨ownName, "a", ""⟩ : FtsEntry)].filter
      (fun e => matchExpr e.title = matchExpr "a"))).take SEARCH_LIMIT) : Except String _) = _
    rw [hhits, joined, List.filterMap_cons, Db.row_index, Db.row_unindex, Db.row_update, if_pos rfl, Db.row_put, if_pos rfl]
    rfl
  refine ⟨_, hsearch, rfl, ?_⟩
  exact search_found webSample mark_webSample SearchTerms.fewCharacters wordIndex emptyStore .empty making apart_making 6 "a"
    (by rw [hterms]; simp) _ hsearch

end

end TrackerStream.WebPlaylists
