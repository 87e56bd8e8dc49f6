import TrackerStream.Proofs.Dormant
import TrackerStream.Proofs.Sequences

/-!
# Tombstones of kept playlists

A tombstone leaves a row of the desktop's library its title, its document and its index entries, and no record to
announce. The browser's upsert writes the tombstone over the row, with the tombstone's record. A newer live
document revives the row on both.
-/

namespace TrackerStream

/-- What a tombstone of sequence `seq` is to make of the row `r` of `name`. -/
structure Preserved (before after : Playlists.Db) (name : String) (seq : Int) (r : Playlists.Row) : Prop where
  row : ∃ r', after.row name = some r' ∧ r'.title = r.title ∧ r'.doc_json = r.doc_json ∧ r'.tombstoned = true ∧
    r'.seq = seq ∧ r'.record_b64 = none ∧ r'.published = false
  index : after.fts.filter (·.name = name) = before.fts.filter (·.name = name)

/-- The row of `name` is a live one, with the title and the record. -/
def Revived (db : Playlists.Db) (name title record : String) : Prop :=
  ∃ r, db.row name = some r ∧ r.tombstoned = false ∧ r.title = title ∧ r.record_b64 = some record

namespace Playlists
variable {lib : Lib} {s : Store} {w : PlaylistWire} {ω : Nat → Input} {doc : PlaylistDoc} {b : Bytes} {seq : UInt64}
  {r : Row}

theorem preserved_ingest_wire (hr : s.db.row w.name = some r) (hkept : (r.is_mine || r.held) = true)
    (hf : fate lib (ω 0).now s.db w = .stored doc b seq) (hdel : doc.del = true) :
    Preserved s.db ((ingest_wire lib w).run (world lib) ω s).2.db w.name (as_i64 seq) r := by
  have hany : (s.db.row w.name).any (fun r => r.is_mine || r.held) = true := by rw [hr]; exact hkept
  rw [run_ingest_wire, hf]
  constructor
  · refine ⟨{ r with seq := as_i64 seq, record_b64 := none, tombstoned := true, published := false,
                     last_update_at := (ω 2).now }, ?_, rfl, rfl, rfl, rfl, rfl, rfl⟩
    rw [Fate.settle, row_ingest_tombstone hdel, if_pos rfl, hany, Bool.true_or, if_pos rfl, hr, Option.map_some]
  · simp only [Fate.settle, ingest_row, hdel, hany, Bool.true_or, if_true, Db.fts_update]

theorem revived_ingest_wire (hf : fate lib (ω 0).now s.db w = .stored doc b seq) (hlive : doc.del = false) :
    Revived ((ingest_wire lib w).run (world lib) ω s).2.db w.name doc.t w.record := by
  rw [run_ingest_wire, hf]
  refine ⟨_, (congrArg (·.row w.name) (ingest_row_live hlive)).trans (row_upsert_row.trans (if_pos rfl)), ?_⟩
  cases s.db.row w.name with
  | none => exact ⟨rfl, rfl, rfl⟩
  | some r => exact ⟨rfl, rfl, rfl⟩

end Playlists

namespace WebPlaylists
open Playlists (Row Db)
variable {lib : WebLib} {name : String} {rec doc : Bytes} {parsed : PlaylistDoc} {s : UInt64} {ω : Nat → Input}
  {st : Store} {r : Row}

/-- The row of a name that is not to be evicted stays. -/
theorem row_evictRows {rows : List (String × Int)} {budget total : Int} (h : ∀ x ∈ rows, x.1 ≠ name) :
    ((evictRows budget rows total).run world ω st).2.db.row name = st.db.row name := by
  induction rows generalizing total ω st with
  | nil => rfl
  | cons x rows ih =>
    obtain ⟨hx, hrows⟩ := List.forall_mem_cons.1 h
    rw [evictRows]
    split
    · rfl
    simp only [removeRow, act, Prog.call, Prog.act_bind, Prog.ret_bind, Prog.run_act]
    rw [ih hrows, world, world, Db.row_unindex, Db.row_erase, if_neg hx.symm]

/-- What is kept is not evicted. -/
theorem row_afterInsert_kept (parsed : PlaylistDoc) (hr : st.db.row name = some r)
    (hkept : (r.is_mine || r.held) = true) :
    ((afterInsert name parsed).run world ω st).2.db.row name = some r := by
  have hseen : ∀ x ∈ seenSizes st.db, x.1 ≠ name := by
    rintro ⟨n, size⟩ hx rfl
    obtain ⟨r', hr', hmine, hheld, -⟩ := mem_seenSizes.1 hx
    obtain rfl := Option.some.inj (hr.symm.trans hr')
    rw [hmine, hheld] at hkept
    cases hkept
  simp only [afterInsert, index, enforceBudget, act, Prog.call, Prog.act_bind, Prog.ret_bind, Prog.run_act]
  exact (row_evictRows hseen).trans hr

/-- What becomes of a row that is kept when a newer record is stored. -/
theorem row_ingestVerified_kept (hr : st.db.row name = some r) (hkept : (r.is_mine || r.held) = true)
    (hnew : r.seq < toNumber s.toNat) (hdoc : validateDoc lib doc = .ok parsed) :
    ((ingestVerified lib name rec doc s).run world ω st).2.db.row name =
      some (upserted (some r) parsed doc (some (base64 rec)) (toNumber s.toNat) (recordEolSecs lib rec) (ω 1).now) := by
  have hany : (st.db.row name).any (fun r => (toNumber s.toNat : Int) ≤ r.seq) = false := by
    rw [hr]
    exact decide_eq_false (not_le.2 hnew)
  rw [run_ingestVerified hany hdoc]
  refine row_afterInsert_kept parsed ?_ hkept
  rw [world, Db.row_put, if_pos rfl, hr]

theorem not_preserved_ingestVerified (hr : st.db.row name = some r) (hkept : (r.is_mine || r.held) = true)
    (hnew : r.seq < toNumber s.toNat) (hdoc : validateDoc lib doc = .ok parsed) (seq : Int) :
    ¬Preserved st.db ((ingestVerified lib name rec doc s).run world ω st).2.db name seq r := by
  rintro ⟨⟨r', hr', -, -, -, -, hrecord, -⟩, -⟩
  rw [row_ingestVerified_kept hr hkept hnew hdoc, Option.some.injEq] at hr'
  rw [← hr'] at hrecord
  cases hrecord

theorem revived_ingestVerified (hr : st.db.row name = some r) (hkept : (r.is_mine || r.held) = true)
    (hnew : r.seq < toNumber s.toNat) (hdoc : validateDoc lib doc = .ok parsed) (hlive : parsed.del = false) :
    Revived ((ingestVerified lib name rec doc s).run world ω st).2.db name (parsed.t.or "") (base64 rec) :=
  ⟨_, row_ingestVerified_kept hr hkept hnew hdoc, hlive, rfl, rfl⟩

end WebPlaylists

/-! ### Both clients -/

section
open Playlists (PlaylistWire Row ingest_wire fate)

/-- The desktop preserves every row of its library under a tombstone, the browser none; a newer live document revives the
row on both. -/
theorem tombstones_preserve_on_desktop (lib : Playlists.Lib) (web : WebPlaylists.WebLib) :
    (∀ (w : PlaylistWire) (ω : Nat → Playlists.Input) (s : Playlists.Store) (r : Row)
      (doc : Playlists.PlaylistDoc) (b : Bytes) (seq : UInt64),
      s.db.row w.name = some r → (r.is_mine || r.held) = true → fate lib (ω 0).now s.db w = .stored doc b seq →
      doc.del = true →
        let s' := ((ingest_wire lib w).run (Playlists.world lib) ω s).2
        Preserved s.db s'.db w.name (as_i64 seq) r ∧
          ∀ (w' : PlaylistWire) (ω' : Nat → Playlists.Input) (doc' : Playlists.PlaylistDoc) (b' : Bytes) (seq' : UInt64),
            w'.name = w.name → fate lib (ω' 0).now s'.db w' = .stored doc' b' seq' → doc'.del = false →
              Revived ((ingest_wire lib w').run (Playlists.world lib) ω' s').2.db w.name doc'.t w'.record) ∧
    ∀ (name : String) (rec doc : Bytes) (parsed : WebPlaylists.PlaylistDoc) (seq : UInt64)
      (ω : Nat → WebPlaylists.Input) (s : WebPlaylists.Store) (r : Row),
      s.db.row name = some r → (r.is_mine || r.held) = true → r.seq < WebPlaylists.toNumber seq.toNat →
      WebPlaylists.validateDoc web doc = .ok parsed → parsed.del = true →
        let s' := ((WebPlaylists.ingestVerified web name rec doc seq).run WebPlaylists.world ω s).2
        ¬Preserved s.db s'.db name (WebPlaylists.toNumber seq.toNat) r ∧
          ∀ (rec' doc' : Bytes) (parsed' : WebPlaylists.PlaylistDoc) (seq' : UInt64) (ω' : Nat → WebPlaylists.Input),
            WebPlaylists.toNumber seq.toNat < WebPlaylists.toNumber seq'.toNat →
            WebPlaylists.validateDoc web doc' = .ok parsed' → parsed'.del = false →
              Revived ((WebPlaylists.ingestVerified web name rec' doc' seq').run WebPlaylists.world ω' s').2.db name
                (parsed'.t.or "") (base64 rec') := by
  constructor
  · intro w ω s r doc b seq hr hkept hf hdel
    refine ⟨Playlists.preserved_ingest_wire hr hkept hf hdel, ?_⟩
    intro w' ω' doc' b' seq' hname hf' hlive
    exact hname ▸ Playlists.revived_ingest_wire hf' hlive
  · intro name rec doc parsed seq ω s r hr hkept hnew hdoc hdel
    refine ⟨WebPlaylists.not_preserved_ingestVerified hr hkept hnew hdoc _, ?_⟩
    intro rec' doc' parsed' seq' ω' hnew' hdoc' hlive
    refine WebPlaylists.revived_ingestVerified (WebPlaylists.row_ingestVerified_kept hr hkept hnew hdoc) ?_ ?_ hdoc' hlive
    · exact hkept
    · exact Int.ofNat_lt.2 hnew'

open Playlists (ownName docTomb recordTomb deleted heldStore tombstone quiet)

/-- The texts of the live document and of the tombstone, as the browser reads them. -/
def webDeleted : WebPlaylists.WebLib :=
  { deleted.lib.toIpnsLib with
    parse := fun text =>
      if text = "\x7b\"v\":2,\"t\":\"a\"\x7d" then .ok webDoc
      else if text = "\x7b\"v\":2,\"del\":true\x7d" then .ok WebPlaylists.tombDoc
      else .error "Unexpected token"
    stringify := fun _ => "\x7b\"v\":2,\"del\":true\x7d" }

/-- A playlist titled `a` that is held. -/
def heldRow : Row := { title := "a", doc_json := "\x7b\"v\":2,\"t\":\"a\"\x7d", seq := 1, held := true }

def webHeld : WebPlaylists.Store := { db := .put .empty ownName heldRow }

theorem valid_webTomb : WebPlaylists.validatePlaylistMsg webDeleted 1780000000 ownName recordTomb docTomb = .ok 2 ∧
    WebPlaylists.validateDoc webDeleted docTomb = .ok WebPlaylists.tombDoc := by
  decide +kernel

/-- The tombstone of a playlist that is held on both. -/
theorem tombstones_preserve_held :
    Preserved heldStore.db ((ingest_wire deleted.lib tombstone).run (Playlists.world deleted.lib) (fun _ => quiet)
        heldStore).2.db ownName 2 { doc_json := "\x7b\"v\":2,\"t\":\"a\"\x7d", seq := 1, held := true } ∧
      ¬Preserved webHeld.db ((WebPlaylists.ingestVerified webDeleted ownName recordTomb docTomb 2).run WebPlaylists.world
        (fun _ => {}) webHeld).2.db ownName 2 heldRow := by
  constructor
  · have hf : fate deleted.lib 1780000000 heldStore.db tombstone = .stored Playlists.tombDoc docTomb 2 :=
      Playlists.fate_of_valid Playlists.verify_tombstone (by decide) (Playlists.unbase64_trim docTomb)
        Playlists.checks_deleted.2.2.1 Playlists.valid_docTomb
    exact ((tombstones_preserve_on_desktop deleted.lib webDeleted).1 tombstone (fun _ => quiet) heldStore _ Playlists.tombDoc docTomb 2
      (by decide) (by decide) hf rfl).1
  · exact ((tombstones_preserve_on_desktop deleted.lib webDeleted).2 ownName recordTomb docTomb WebPlaylists.tombDoc 2 (fun _ => {})
      webHeld heldRow (Playlists.Db.row_put.trans (if_pos rfl)) rfl (by decide) valid_webTomb.2 rfl).1

/-- A valid tombstone, newer than a playlist that is held, takes its tracks from the browser. -/
theorem tombstone_overwrites :
    WebPlaylists.validatePlaylistMsg webDeleted 1780000000 ownName recordTomb docTomb = .ok 2 ∧
      webHeld.db.row ownName = some heldRow ∧ heldRow.held = true ∧
        (((WebPlaylists.ingestVerified webDeleted ownName recordTomb docTomb 2).run WebPlaylists.world (fun _ => {})
          webHeld).2.db.row ownName).map (fun r => (r.title, r.doc_json, r.record_b64)) =
            some ("", "\x7b\"v\":2,\"del\":true\x7d", some (base64 recordTomb)) ∧
        ¬Preserved webHeld.db ((WebPlaylists.ingestVerified webDeleted ownName recordTomb docTomb 2).run
          WebPlaylists.world (fun _ => {}) webHeld).2.db ownName 2 heldRow := by
  have hrow : webHeld.db.row ownName = some heldRow := Playlists.Db.row_put.trans (if_pos rfl)
  refine ⟨valid_webTomb.1, hrow, rfl, ?_, ?_⟩
  · rw [WebPlaylists.row_ingestVerified_kept hrow rfl (by decide) valid_webTomb.2]
    rfl
  · exact WebPlaylists.not_preserved_ingestVerified hrow rfl (by decide) valid_webTomb.2 2

end

end TrackerStream
