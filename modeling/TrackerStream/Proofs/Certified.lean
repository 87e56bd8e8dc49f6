import TrackerStream.Proofs.Acts

/-!
# Rows that certify themselves

A stored row with a record is self-certifying when its document hashes to the CID the record signs and its
sequence number is the record's. Two kinds of steps break this: an edit of such a row whose publishing does not
follow, and a record whose number does not fit the column or whose document is not UTF-8. In a history without
them every row is self-certifying after every operation, and what is announced or linked passes the receiver's
check of the document's hash.
-/

namespace TrackerStream.Playlists
variable (lib : Lib)

/-- The record signs the CID with the sequence number. -/
def Signs (record : String) (cid : ContentId) (seq : UInt64) : Prop :=
  ∃ r, recordOf lib.toIpnsLib record = some r ∧ lib.valueCid r.value = some cid ∧ r.sequence = seq

/-- The record of the row, if it has one, signs its document and its sequence number. -/
def Row.Certified (r : Row) : Prop :=
  ∀ record, r.record_b64 = some record →
    ∃ seq, Signs lib record (docCid lib.toIpnsLib (utf8 r.doc_json)) seq ∧ r.seq = seq.toNat

/-- The receiver's check: the record of the pair decodes, and the document hashes to the CID it signs. -/
def DocCheck (record doc : String) : Prop :=
  ∃ cid seq bytes, Signs lib record cid seq ∧ unbase64 (trim doc) = some bytes ∧
    doc_matches_cid lib.toIpnsLib cid bytes = true

/-- Each own row has the key its name is the PeerId of. -/
def Row.Keyed (r : Row) (name : String) : Prop :=
  r.is_mine = true → ∃ key, r.key_name = some key ∧ lib.keyId key = name

/-- Every row is self-certifying, but perhaps for the record of `skip`, and every pair announced passes. -/
structure CertifiedBut (skip : Option String) (s : Store) : Prop where
  rows : s.db.All fun n r => (skip ≠ some n → r.Certified lib) ∧ r.Keyed lib n
  announced : ∀ entries, .announced entries ∈ s.log → ∀ w ∈ entries, DocCheck lib w.record w.doc

abbrev Certified : Store → Prop := CertifiedBut lib none

/-! ### Which steps keep it -/

/-- The node answers a request to sign with the key's name and a record that signs the document; with `must` it
does answer. Sequence numbers fit the column, a live document is UTF-8, and a new key has no record yet. -/
def Admits (must : Bool) : Act → Input → Store → Prop
  | .playlist_publish key_name seq doc, i, _ =>
    (must = true → ∃ name record, i.publish = .answered name record) ∧
      ∀ name record, i.publish = .answered name record →
        name = lib.keyId key_name ∧ Signs lib record (docCid lib.toIpnsLib doc) seq ∧ seq.toNat < 2 ^ 63
  | .ingest_row _ doc doc_bytes _ seq, _, _ => doc.del = false → seq.toNat < 2 ^ 63 ∧ ∃ text, utf8 text = doc_bytes
  | .create_row name _ _ _, _, s => ∀ r, s.db.row name = some r → r.record_b64 = none
  | _, _, _ => True

/-- An edit of a row with a record is published, and the node answers. -/
def Republishes (s : Store) (o : Op) (ω : Nat → Input) : Prop :=
  match o with
  | .update name title tracks => ∀ r, s.db.row name = some r → r.is_mine = true → r.record_b64 ≠ none →
      lib.toJson (newDoc title tracks) ≠ r.doc_json →
      r.published = true ∧ r.liked = false ∧ (Op.prog lib o).Fits (world lib) (Admits lib true) ω s
  | .like_toggle _ => ∀ name r, s.db.row name = some r → r.liked = true → r.record_b64 = none
  | _ => True

/-- What is asked of an operation, its inputs and the store it starts in. -/
def Lawful (s : Store) (o : Op) (ω : Nat → Input) : Prop :=
  (Op.prog lib o).Fits (world lib) (Admits lib false) ω s ∧ Republishes lib s o ω

/-! ### Acts -/

abbrev K (must : Bool) : Prog.Contract Act Ans Store := Prog.ofWorld (world lib) (Admits lib must)

variable {lib} {must : Bool} {α : Type} {s : Store} {R : String → Store → Prop}

@[simp] theorem wp_act (e : Act) (k : Ans e → Desktop α) {Q : α → Store → Prop} :
    (Prog.act e k).wp (K lib must) Q R s ↔
      ∀ i, Admits lib must e i s → (k (world lib e i s).1).wp (K lib must) Q R (world lib e i s).2 :=
  Prog.wp_act_world e k

theorem Row.Certified.of_record_none {r : Row} (h : r.record_b64 = none) : r.Certified lib := by
  intro record hr
  rw [h] at hr
  cases hr

variable {skip : Option String} {name : String}

theorem CertifiedBut.of_log {s' : Store} (h : CertifiedBut lib skip s) (hdb : s'.db = s.db)
    (hlog : ∀ entries, .announced entries ∈ s'.log → .announced entries ∈ s.log) : CertifiedBut lib skip s' :=
  ⟨hdb ▸ h.rows, fun es hes => h.announced es (hlog es hes)⟩

theorem CertifiedBut.weaken (h : Certified lib s) : CertifiedBut lib skip s :=
  ⟨h.rows.mono fun _ _ hr => ⟨fun _ => hr.1 (by rintro ⟨⟩), hr.2⟩, h.announced⟩

/-- Signing leaves the rows and what is announced. -/
theorem CertifiedBut.signed (h : CertifiedBut lib skip s) (key : String) (seq : UInt64) (doc : Bytes) :
    CertifiedBut lib skip (s.did (.signed key seq doc)) :=
  h.of_log rfl fun _ hes => (List.mem_cons.1 hes).resolve_left (by rintro ⟨⟩)

/-- A row changed in columns that neither the record nor the key is about. -/
theorem CertifiedBut.update {f : Row → Row} (h : CertifiedBut lib skip s)
    (hf : ∀ r, r.Certified lib → (f r).Certified lib) (hk : ∀ r, r.Keyed lib name → (f r).Keyed lib name) :
    CertifiedBut lib skip { s with db := s.db.update name f } :=
  ⟨h.rows.update fun r _ hr => ⟨fun hn => hf r (hr.1 hn), hk r hr.2⟩, h.announced⟩

/-! ### Acts that keep every row -/

/-- The acts that write no document, record or entry. -/
def Plain : Act → Prop
  | .ingest_row .. | .mark_published .. | .create_row .. | .edit_row .. | .playlist_announce .. => False
  | _ => True

theorem plain_keeps (e : Act) (i : Input) (s : Store) (he : Plain e) (hs : CertifiedBut lib skip s) :
    CertifiedBut lib skip (world lib e i s).2 := by
  cases e with
  | ingest_row | mark_published | create_row | edit_row | playlist_announce => cases he
  | remember_rejected n seq => exact ⟨hs.rows.reject, hs.announced⟩
  | evict pinned => exact ⟨hs.rows.evict, hs.announced⟩
  | delete_row n => exact ⟨hs.rows.delete, hs.announced⟩
  | make_private n seq => exact hs.update (fun _ _ => .of_record_none rfl) fun _ hk => hk
  | set_liked n => exact hs.update (fun _ hr => hr) fun _ hk => hk
  | set_held n held =>
    refine hs.update (fun r hr => ?_) fun r hk => ?_
    · split <;> exact hr
    · split <;> exact hk
  | mark_played n => exact hs.update (fun _ hr => hr) fun _ hk => hk
  | playlist_publish key seq doc =>
    simp only [world]
    split
    · exact hs
    · exact hs.signed ..
    · exact hs.signed ..
  | playlist_manifest entries => exact hs.of_log rfl fun _ hes => (List.mem_cons.1 hes).resolve_left (by rintro ⟨⟩)
  | _ => exact ⟨hs.rows, hs.announced⟩

theorem plain_of_reads (e : Act) (h : Reads e) : Plain e := by
  cases e <;> trivial

theorem wp_plain {p : Desktop α} (hp : p.Only Plain) (hs : CertifiedBut lib skip s) :
    p.wp (K lib must) (fun _ => CertifiedBut lib skip) (fun _ => CertifiedBut lib skip) s :=
  hp.wp (fun e i s he _ hs => plain_keeps e i s he hs) hs

/-! ### Publishing -/

theorem wp_net_seq {Q : UInt64 → Store → Prop} (h : ∀ seq, Q seq s) : (net_seq lib name).wp (K lib must) Q R s := by
  simp only [net_seq, routing_get, now_secs, act, Prog.call, Prog.wp_bind, wp_act, world, Prog.wp_ret]
  intro i _
  split
  · exact h 0
  · simp only [Prog.wp_bind, wp_act, world, Prog.wp_ret]
    intro i _
    split
    · exact h 0
    · exact h _

theorem wp_next_seq {Q : UInt64 → Store → Prop} {n : Int} (h : ∀ seq, Q seq s) :
    (next_seq lib name n).wp (K lib must) Q R s := by
  rw [next_seq]
  split
  · exact h 1
  · rw [Prog.wp_bind]
    exact wp_net_seq fun _ => h _

/-- A request to sign ends in the log, or leaves the store as it is. -/
theorem wp_playlist_publish {key : String} {seq : UInt64} {doc : Bytes} {Q : String × String → Store → Prop}
    (hok : ∀ record, Signs lib record (docCid lib.toIpnsLib doc) seq → seq.toNat < 2 ^ 63 →
      Q (lib.keyId key, record) (s.did (.signed key seq doc)))
    (hfail : ∀ text s', must = false → s' = s ∨ s' = s.did (.signed key seq doc) → R text s') :
    (playlist_publish key seq doc).wp (K lib must) Q R s := by
  simp only [playlist_publish, act, Prog.call, Prog.wp_bind, wp_act, world, Prog.wp_ret]
  intro i hi
  have hmust (h : ∀ name record, i.publish ≠ .answered name record) : must = false := by
    by_contra hm
    obtain ⟨n, r, hr⟩ := hi.1 (by simpa using hm)
    exact h n r hr
  split
  next text heq => exact hfail text s (hmust (by simp [heq])) (.inl rfl)
  next text heq => exact hfail text _ (hmust (by simp [heq])) (.inr rfl)
  next n record heq =>
    obtain ⟨rfl, hsigns, hlt⟩ := hi.2 n record heq
    exact hok record hsigns hlt


/-- The row of `name` gets the record of its document. -/
theorem CertifiedBut.mark_published {r : Row} {record : String} {seq : UInt64} {now eol : Int}
    (h : CertifiedBut lib skip s) (hskip : ∀ n, skip = some n → n = name) (hrow : s.db.row name = some r)
    (hsigns : Signs lib record (docCid lib.toIpnsLib (utf8 r.doc_json)) seq) (hseq : seq.toNat < 2 ^ 63) :
    Certified lib { s with db := s.db.update name fun r =>
      { r with seq := as_i64 seq, published := true, record_b64 := some record, last_update_at := now, eol } } := by
  refine ⟨fun n r' hr' => ?_, h.announced⟩
  rw [Db.row_update, hrow] at hr'
  split at hr'
  next heq =>
    cases hr'
    refine ⟨fun _ record' hrecord' => ?_, ?_⟩
    · cases hrecord'
      exact ⟨seq, hsigns, as_i64_of_lt hseq⟩
    · exact (h.rows n r (heq ▸ hrow)).2
  next hne => exact ⟨fun _ => (h.rows n r' hr').1 fun hn => hne (hskip n hn), (h.rows n r' hr').2⟩

theorem wp_publish_row {r : Row} {key : String} (h : CertifiedBut lib skip s)
    (hskip : ∀ n, skip = some n → n = name) (hrow : s.db.row name = some r) (hkey : lib.keyId key = name) :
    (publish_row lib name key r.doc_json r.seq).wp (K lib must) (fun _ => Certified lib)
      (fun _ s' => CertifiedBut lib skip s' ∧ must = false) s := by
  rw [publish_row, Prog.wp_bind]
  refine wp_next_seq fun seq => ?_
  rw [Prog.wp_bind]
  refine wp_playlist_publish ?_ ?_
  · intro record hsigns hseq
    simp only [hkey, bne_self_eq_false, Bool.false_eq_true, ↓reduceIte, act, Prog.call, wp_act, world, Prog.wp_ret]
    intro i _
    exact (h.signed key seq (utf8 r.doc_json)).mark_published hskip hrow hsigns hseq
  · rintro text s' hm (rfl | rfl)
    · exact ⟨h, hm⟩
    · exact ⟨h.signed .., hm⟩

theorem wp_publish (h : CertifiedBut lib skip s) (hskip : ∀ n, skip = some n → n = name) :
    (publish lib name).wp (K lib must) (fun _ => Certified lib)
      (fun _ s' => CertifiedBut lib skip s' ∧
        ((∃ r, s.db.row name = some r ∧ r.is_mine = true ∧ r.liked = false) → must = false)) s := by
  simp only [publish, select, act, Prog.call, Prog.wp_bind, wp_act, world, Prog.wp_ret]
  intro i _
  split
  next hrow =>
    refine ⟨h, ?_⟩
    rintro ⟨r, hr, hmine, -⟩
    rw [hr, Option.filter_some, hmine] at hrow
    cases hrow
  next r hrow =>
    obtain ⟨hrow, hmine⟩ := Option.filter_eq_some_iff.1 hrow
    split
    next hliked =>
      refine ⟨h, ?_⟩
      rintro ⟨r', hr', -, hl⟩
      rw [hrow, Option.some.injEq] at hr'
      rw [hr', hl] at hliked
      cases hliked
    next =>
      obtain ⟨key, hkey, hname⟩ := (h.rows name r hrow).2 hmine
      simp only [hkey]
      exact Prog.wp_mono _ (wp_publish_row h hskip hrow hname) (fun _ _ hs => hs) fun _ _ hs => ⟨hs.1, fun _ => hs.2⟩


/-! ### The user's commands -/

theorem wp_newBytes {title : String} {tracks : List TrackRef} {Q : Bytes → Store → Prop}
    (h : Q (utf8 (lib.toJson (newDoc title tracks))) s) (hfail : ∀ text, R text s) :
    (newBytes lib title tracks).wp (K lib must) Q R s := by
  rw [newBytes, Prog.wp_bind, Prog.wp_ofExcept]
  exact ⟨fun _ _ => h, fun text _ => hfail text⟩

/-- A new document without a new record is covered by what is skipped. -/
theorem CertifiedBut.edit (name : String) (doc : PlaylistDoc) (text : String) (now : Int) (h : CertifiedBut lib skip s)
    (hname : ∀ r, s.db.row name = some r → skip = some name ∨ r.record_b64 = none ∨ text = r.doc_json) :
    CertifiedBut lib skip
      ({ s with db := upsert_row s.db name doc (utf8 text) none (-1) (-1) now }.did (.edited name (utf8 text))) := by
  refine .of_log (s := { s with db := _ }) ⟨h.rows.upsert ?_, h.announced⟩ rfl
    fun _ hes => (List.mem_cons.1 hes).resolve_left (by rintro ⟨⟩)
  cases hrow : s.db.row name with
  | none => exact ⟨fun _ => .of_record_none rfl, by rintro ⟨⟩⟩
  | some r =>
    refine ⟨fun hn record hrecord => ?_, (h.rows name r hrow).2⟩
    have hr := (h.rows name r hrow).1 hn record (by simpa [upserted] using hrecord)
    rcases hname r hrow with hs | hnone | rfl
    · exact absurd hs hn
    · simp [upserted, hnone] at hrecord
    · simpa [upserted] using hr

theorem wp_update {title : String} {tracks : List TrackRef} (h : Certified lib s)
    (hrow : ∀ r, s.db.row name = some r → r.is_mine = true → r.record_b64 ≠ none →
      lib.toJson (newDoc title tracks) ≠ r.doc_json → r.published = true ∧ r.liked = false ∧ must = true) :
    (update lib name title tracks).wp (K lib must) (fun _ => Certified lib) (fun _ => Certified lib) s := by
  simp only [update, select, act, Prog.call, Prog.wp_bind, wp_act, world, Prog.wp_ret]
  intro i _
  split
  · exact h
  next r hsome =>
    obtain ⟨hr, hmine⟩ := Option.filter_eq_some_iff.1 hsome
    rw [Prog.wp_bind]
    refine wp_newBytes ?_ fun _ => h
    simp only [Prog.wp_bind, wp_act, world, Prog.wp_ret]
    intro i _
    by_cases hsame : r.record_b64 = none ∨ lib.toJson (newDoc title tracks) = r.doc_json
    · have hedit := h.edit name (newDoc title tracks) (lib.toJson (newDoc title tracks)) i.now fun r' hr' => by
        rw [hr, Option.some.injEq] at hr'
        exact .inr (hr' ▸ hsame)
      split
      · exact Prog.wp_mono _ (wp_publish hedit (by rintro _ ⟨⟩)) (fun _ _ hs => hs) fun _ _ hs => hs.1
      · exact hedit
    · rw [not_or] at hsame
      obtain ⟨hpub, hliked, hmust⟩ := hrow r hr hmine hsame.1 hsame.2
      have hweak : CertifiedBut lib (some name) s := h.weaken
      have hedit := hweak.edit name (newDoc title tracks) (lib.toJson (newDoc title tracks)) i.now fun _ _ => .inl rfl
      rw [if_pos hpub]
      refine Prog.wp_mono _ (wp_publish hedit (by rintro _ ⟨⟩; rfl)) (fun _ _ hs => hs) fun _ _ hs => ?_
      have := hs.2 ⟨upserted (some r) (newDoc title tracks) _ none (-1) (-1) i.now,
        by rw [Store.did, row_upsert_row, if_pos rfl, hr], hmine, hliked⟩
      rw [hmust] at this
      cases this


/-- A row that is made gets no record, and its key is the one its name is of. -/
theorem CertifiedBut.create_row {key : String} (doc : PlaylistDoc) (text : String) (now : Int)
    (h : CertifiedBut lib skip s) (hkey : lib.keyId key = name) (hnone : ∀ r, s.db.row name = some r → r.record_b64 = none) :
    CertifiedBut lib skip { s with db := (upsert_row s.db name doc (utf8 text) none 0 0 now).update name fun r =>
      { r with is_mine := true, key_name := some key } } := by
  have hrow : (upserted (s.db.row name) doc (utf8 text) none 0 0 now).record_b64 = none := by
    cases hr : s.db.row name with
    | none => rfl
    | some r => simpa [upserted] using hnone r hr
  refine ⟨fun n r hr => ?_, h.announced⟩
  rw [Db.row_update, row_upsert_row, if_pos rfl, row_upsert_row] at hr
  split at hr
  next heq =>
    cases hr
    exact ⟨fun _ => .of_record_none hrow, fun _ => ⟨key, rfl, heq ▸ hkey⟩⟩
  next => exact h.rows n r hr

/-- A playlist that is made has no record. -/
theorem wp_create {title : String} {tracks : List TrackRef} (h : Certified lib s) :
    (create lib title tracks).wp (K lib must)
      (fun info s' => Certified lib s' ∧ ∀ r, s'.db.row info.name = some r → r.record_b64 = none)
      (fun _ => Certified lib) s := by
  simp only [create, now_secs, key_gen, act, Prog.call, Prog.wp_bind, wp_act, world, Prog.wp_ret, Prog.wp_ofExcept]
  intro i₀ _ i _
  generalize "playlist-" ++ hex ((lib.sha256 (utf8 s!"{i₀.now}:{title}")).take 8) = key
  refine ⟨fun name hname => wp_newBytes ?_ fun _ => h, fun _ _ => h⟩
  have hkey : lib.keyId key = name := by
    cases hgen : i.key_gen with
    | error e => rw [hgen] at hname; cases hname
    | ok _ => rw [hgen] at hname; cases hname; rfl
  simp only [get, select, now_secs, act, Prog.call, Prog.wp_bind, wp_act, world, Prog.wp_ret]
  intro i hi i' _
  have hs := h.create_row (newDoc title tracks) (lib.toJson (newDoc title tracks)) i.now hkey hi
  rw [Db.row_update, if_pos rfl, row_upsert_row, if_pos rfl, Option.map_some]
  simp only [Prog.wp_bind, wp_act, world, Prog.wp_ret, Prog.wp_ofExcept]
  intro i'' _
  refine ⟨fun _ _ => ⟨hs, fun r hr => ?_⟩, fun _ _ => hs⟩
  rw [row_meta, Db.row_update, if_pos rfl, row_upsert_row, if_pos rfl, Option.map_some, Option.some.injEq] at hr
  subst hr
  cases hrow : s.db.row name with
  | none => rfl
  | some r => simpa [upserted] using hi r hrow


/-- The liked playlist, found or made, is one without a record if those there have none. -/
theorem wp_ensure_liked (h : Certified lib s) :
    (ensure_liked lib).wp (K lib must)
      (fun n s' => Certified lib s' ∧ ((∀ n r, s.db.row n = some r → r.liked = true → r.record_b64 = none) →
        ∀ r, s'.db.row n = some r → r.record_b64 = none)) (fun _ => Certified lib) s := by
  have hunlock {s : Store} (hs : Certified lib s) : Certified lib { s with liked_guard := false } :=
    hs.of_log rfl fun _ hes => hes
  simp only [ensure_liked, liked_or_create, act, Prog.call, Prog.wp_bind, Prog.wp_attempt, wp_act, world, Prog.wp_ret,
    Prog.wp_ofExcept]
  intro i _ i _
  replace h : Certified lib { s with liked_guard := true } := h.of_log rfl fun _ hes => hes
  split
  next n hn =>
    obtain ⟨⟨_, r⟩, hfind, rfl⟩ := Option.map_eq_some_iff.1 hn
    intro _ _
    refine ⟨?_, by rintro _ ⟨⟩⟩
    rintro _ ⟨⟩
    refine ⟨hunlock h, fun hliked r' hr' => hliked _ r' hr' ?_⟩
    have hmem := Db.mem_rows.1 (List.mem_of_find?_eq_some hfind)
    rw [show _ = some r' from hr', Option.some.injEq] at hmem
    simpa [hmem] using List.find?_some hfind
  next =>
    rw [Prog.wp_bind]
    refine Prog.wp_mono _ (wp_create h) (fun info s' hs => ?_) fun x s' hs => ?_
    · simp only [Prog.wp_bind, wp_act, world, Prog.wp_ret]
      intro i _ i _
      refine ⟨?_, by rintro _ ⟨⟩⟩
      rintro _ ⟨⟩
      refine ⟨hunlock (hs.1.update (fun _ hr => hr) fun _ hk => hk), fun _ r hr => ?_⟩
      rw [Db.row_update, if_pos rfl] at hr
      obtain ⟨r', hr', rfl⟩ := Option.map_eq_some_iff.1 hr
      exact hs.2 r' hr'
    · intro i _
      exact ⟨by rintro _ ⟨⟩, fun _ _ => hunlock hs⟩

theorem wp_like_toggle {track : TrackRef} (h : Certified lib s)
    (hliked : ∀ n r, s.db.row n = some r → r.liked = true → r.record_b64 = none) :
    (like_toggle lib track).wp (K lib must) (fun _ => Certified lib) (fun _ => Certified lib) s := by
  rw [like_toggle, Prog.wp_bind]
  refine Prog.wp_mono _ (wp_ensure_liked h) (fun n s' hs => ?_) fun _ _ hs => hs
  simp only [select, act, Prog.call, Prog.wp_bind, wp_act, world, Prog.wp_ret]
  intro i _
  split
  · exact hs.1
  next row hrow =>
    have hupdate {title : String} {tracks : List TrackRef} :
        (update lib n title tracks).wp (K lib must) (fun _ => Certified lib) (fun _ => Certified lib) s' :=
      wp_update hs.1 fun r hr _ hrec => absurd (hs.2 hliked r hr) hrec
    rw [Prog.wp_bind, Prog.wp_ofExcept]
    refine ⟨fun doc _ => ?_, fun _ _ => hs.1⟩
    split
    · rw [Prog.wp_bind]
      exact hupdate
    · rw [Prog.wp_bind]
      exact hupdate

/-! ### Ingest -/

/-- What is ingested is certified by the checks before. -/
theorem CertifiedBut.ingest_row {doc : PlaylistDoc} {text record : String} {seq : UInt64} {now : Int}
    (h : CertifiedBut lib skip s) (hsigns : Signs lib record (docCid lib.toIpnsLib (utf8 text)) seq)
    (hseq : seq.toNat < 2 ^ 63) : CertifiedBut lib skip { s with
      db := upsert_row s.db name doc (utf8 text) (some record) (as_i64 seq) (record_eol_secs lib.toIpnsLib record) now } := by
  refine ⟨h.rows.upsert ?_, h.announced⟩
  have hnat := as_i64_of_lt hseq
  cases hrow : s.db.row name with
  | none =>
    refine ⟨fun _ record' hrecord => ?_, by rintro ⟨⟩⟩
    cases hrecord
    exact ⟨seq, by simpa [upserted] using hsigns, by simp only [upserted]; omega⟩
  | some r =>
    refine ⟨fun _ record' hrecord => ?_, (h.rows name r hrow).2⟩
    cases hrecord
    refine ⟨seq, by simpa [upserted] using hsigns, ?_⟩
    rw [upserted, if_neg (by omega)]
    exact hnat

theorem wp_ingest_wire {w : PlaylistWire} (h : CertifiedBut lib skip s) :
    (ingest_wire lib w).wp (K lib must) (fun _ => CertifiedBut lib skip) (fun _ => CertifiedBut lib skip) s := by
  simp only [ingest_wire, remember_rejected, now_secs, act, Prog.call, Prog.wp_bind, wp_act, world, Prog.wp_ret,
    Prog.wp_ofExcept]
  intro i _
  refine ⟨?_, fun _ _ => h⟩
  rintro ⟨cid, seq⟩ hverify
  obtain ⟨-, record, hrecord, hcid, hseq⟩ := verify_b64_seq_ok _ hverify
  intro i _
  split
  · exact h
  split
  · exact h
  next doc_bytes hbytes =>
    split
    · simp only [Prog.wp_bind, wp_act, world, Prog.wp_ret]
      intro i _
      exact plain_keeps (.remember_rejected ..) i s trivial h
    next hmatch =>
      split
      · simp only [Prog.wp_bind, wp_act, world, Prog.wp_ret]
        intro i _
        exact plain_keeps (.remember_rejected ..) i s trivial h
      next doc hdoc =>
        simp only [Prog.wp_bind, wp_act, world, Prog.wp_ret]
        intro i hi
        rw [Playlists.ingest_row]
        cases hdel : doc.del with
        | true =>
          rw [if_pos rfl]
          dsimp only
          split
          · exact h.update (fun _ _ => .of_record_none rfl) fun _ hk => hk
          · exact ⟨h.rows.delete, h.announced⟩
        | false =>
          obtain ⟨hlt, text, rfl⟩ := hi hdel
          refine h.ingest_row ⟨record, hrecord, ?_, hseq⟩ hlt
          rw [hcid, Option.some.injEq, ← doc_matches_cid_iff]
          simpa using hmatch

theorem wp_ingest_link {url : String} (h : CertifiedBut lib skip s) :
    (ingest_link lib url).wp (K lib must) (fun _ => CertifiedBut lib skip) (fun _ => CertifiedBut lib skip) s := by
  rw [ingest_link, Prog.wp_bind, Prog.wp_ofExcept]
  refine ⟨?_, fun _ _ => h⟩
  rintro ⟨name, envelope⟩ -
  cases envelope with
  | some env =>
    simp only [Prog.wp_bind, Prog.wp_ofExcept]
    refine ⟨?_, fun _ _ => h⟩
    rintro ⟨env_name, record, doc⟩ -
    dsimp only
    split
    · exact h
    rw [Prog.wp_bind]
    refine Prog.wp_mono _ (wp_ingest_wire h) (fun _ s' hs => ?_) fun _ _ hs => hs
    simp only [select, act, Prog.call, Prog.wp_bind, wp_act, world, Prog.wp_ret]
    intro i _
    split <;> exact hs
  | none =>
    simp only [select, act, Prog.call, Prog.wp_bind, wp_act, world, Prog.wp_ret]
    intro i _
    split
    · exact h
    · simp only [Prog.wp_bind, wp_act, world, Prog.wp_ret]
      intro i _
      exact wp_plain (reads_request_from_peers.mono plain_of_reads) (plain_keeps (.add_pending name) i s trivial h)


/-! ### The loops -/

theorem wp_sync_once {cursor : Nat} (h : CertifiedBut lib skip s) :
    (sync_once lib cursor).wp (K lib must) (fun _ => CertifiedBut lib skip) (fun _ => CertifiedBut lib skip) s := by
  simp only [sync_once, act, Prog.call, Prog.wp_bind, wp_act, world, Prog.wp_ret]
  intro i _
  split
  · exact h
  next ver recs _ =>
    rw [Prog.wp_bind]
    refine Prog.wp_mono _ (Prog.wp_foldlM (fun _ => CertifiedBut lib skip) (fun w _ changed s hs => ?_) h)
      (fun changed s' hs => ?_) fun _ _ hs => hs
    · rw [Prog.wp_bind, Prog.wp_attempt]
      refine Prog.wp_mono _ (wp_ingest_wire hs) (fun stored _ hs => ?_) fun _ _ hs => hs
      cases stored <;> exact hs
    · split
      · exact hs
      · rw [Prog.wp_bind]
        exact Prog.wp_mono _ (wp_plain (only_enforce_budget plain_of_reads fun _ => trivial) hs) (fun _ _ hs => hs) fun _ _ hs => hs

theorem docCheck_base64 {record : String} {doc : Bytes} {seq : UInt64}
    (h : Signs lib record (docCid lib.toIpnsLib doc) seq) : DocCheck lib record (base64 doc) :=
  ⟨_, seq, doc, h, by rw [trim_base64, unbase64_base64], (doc_matches_cid_iff _).2 rfl⟩

theorem wp_announce_row {entries : List PlaylistWire} {row : LibraryRow} (h : Certified lib s)
    (hentries : ∀ w ∈ entries, DocCheck lib w.record w.doc)
    (hrow : DocCheck lib row.record (base64 (utf8 row.doc_json))) :
    (announce_row lib entries row).wp (K lib must)
      (fun entries s' => Certified lib s' ∧ ∀ w ∈ entries, DocCheck lib w.record w.doc) (fun _ => Certified lib) s := by
  simp only [announce_row, now_secs, act, Prog.call, Prog.wp_bind, wp_act, world, Prog.wp_ret]
  intro i _ i' _
  split
  · rw [Prog.wp_bind, Prog.wp_attempt]
    exact Prog.wp_mono _ (wp_publish h (by rintro _ ⟨⟩)) (fun _ _ hs => ⟨hs, hentries⟩) fun _ _ hs => ⟨hs.1, hentries⟩
  split
  · exact ⟨h, hentries⟩
  · refine ⟨h, fun w hw => ?_⟩
    rcases List.mem_append.1 hw with hw | hw
    · exact hentries w hw
    · rw [List.mem_singleton.1 hw]
      exact hrow

/-- What the announce query gives are documents with their records. -/
theorem docCheck_libraryRows (h : Certified lib s) :
    ∀ row ∈ libraryRows s.db, DocCheck lib row.record (base64 (utf8 row.doc_json)) := by
  intro row hrow
  obtain ⟨⟨n, r⟩, hmem, hsome⟩ := List.mem_filterMap.1 hrow
  dsimp only at hsome
  split at hsome
  · obtain ⟨record, hrecord, rfl⟩ := Option.map_eq_some_iff.1 hsome
    obtain ⟨seq, hsigns, -⟩ := (h.rows n r (Db.mem_rows.1 hmem)).1 (by rintro ⟨⟩) record hrecord
    exact docCheck_base64 hsigns
  · cases hsome

theorem wp_announce_once (h : Certified lib s) :
    (announce_once lib).wp (K lib must) (fun _ => Certified lib) (fun _ => Certified lib) s := by
  rw [announce_once, Prog.wp_bind]
  refine Prog.wp_mono _ (wp_plain (only_decay_expired plain_of_reads fun _ => trivial) h) (fun decayed s' hs => ?_) fun _ _ hs => hs
  simp only [act, Prog.call, Prog.wp_bind, wp_act, world, Prog.wp_ret]
  intro i _
  refine Prog.wp_mono _ (Prog.wp_foldlM (R := fun _ => Certified lib)
    (fun entries s' => Certified lib s' ∧ ∀ w ∈ entries, DocCheck lib w.record w.doc)
    (fun row hrow entries s'' hs'' => ?_) (c := []) ⟨hs, by simp⟩) (fun entries s'' hs'' => ?_) fun _ _ hs => hs
  · exact Prog.wp_mono _ (wp_announce_row hs''.1 hs''.2 (docCheck_libraryRows hs row hrow)) (fun _ _ h => h) fun _ _ h => h
  · split
    · exact hs''.1
    · simp only [Prog.wp_bind, wp_act, world, Prog.wp_ret]
      intro i _
      refine ⟨hs''.1.rows, fun es hes => ?_⟩
      rcases List.mem_cons.1 hes with heq | hes
      · cases heq
        exact hs''.2
      · exact hs''.1.announced es hes

/-! ### Runs -/

/-- Every operation that is lawful keeps every row self-certifying. -/
theorem op_certified {o : Op} {ω : Nat → Input} (h : Certified lib s) (hl : Lawful lib s o ω) :
    Certified lib ((Op.prog lib o).run (world lib) ω s).2 := by
  obtain ⟨hfits, hrep⟩ := hl
  have hrun (hp : (Op.prog lib o).wp (K lib false) (fun _ => Certified lib) (fun _ => Certified lib) s) :
      Certified lib ((Op.prog lib o).run (world lib) ω s).2 := Prog.run_invariant hfits hp
  have hplain (hp : (Op.prog lib o).Only Plain) : Certified lib ((Op.prog lib o).run (world lib) ω s).2 :=
    hrun (wp_plain hp h)
  cases o with
  | update name title tracks =>
    by_cases hrow : ∃ r, s.db.row name = some r ∧ r.is_mine = true ∧ r.record_b64 ≠ none ∧
        lib.toJson (newDoc title tracks) ≠ r.doc_json
    · obtain ⟨r, hr, hmine, hrec, hne⟩ := hrow
      obtain ⟨hpub, hliked, hmust⟩ := hrep r hr hmine hrec hne
      refine Prog.run_invariant (I := Certified lib) hmust (wp_update h fun r' hr' _ _ _ => ?_)
      rw [hr, Option.some.injEq] at hr'
      exact hr' ▸ ⟨hpub, hliked, rfl⟩
    · exact hrun (wp_update h fun r hr hmine hrec hne => absurd ⟨r, hr, hmine, hrec, hne⟩ hrow)
  | create title tracks =>
    refine hrun ?_
    rw [Op.prog, Prog.wp_bind]
    exact Prog.wp_mono _ (wp_create h) (fun _ _ hs => hs.1) fun _ _ hs => hs
  | publish name =>
    exact hrun (Prog.wp_mono _ (wp_publish h (by rintro _ ⟨⟩)) (fun _ _ hs => hs) fun _ _ hs => hs.1)
  | ensure_liked =>
    refine hrun ?_
    rw [Op.prog, Prog.wp_bind]
    exact Prog.wp_mono _ (wp_ensure_liked h) (fun _ _ hs => hs.1) fun _ _ hs => hs
  | like_toggle track =>
    refine hrun ?_
    rw [Op.prog, Prog.wp_bind]
    exact Prog.wp_mono _ (wp_like_toggle h hrep) (fun _ _ hs => hs) fun _ _ hs => hs
  | ingest_wire w =>
    refine hrun ?_
    rw [Op.prog, Prog.wp_bind]
    exact Prog.wp_mono _ (wp_ingest_wire h) (fun _ _ hs => hs) fun _ _ hs => hs
  | ingest_link url =>
    refine hrun ?_
    rw [Op.prog, Prog.wp_bind]
    exact Prog.wp_mono _ (wp_ingest_link h) (fun _ _ hs => hs) fun _ _ hs => hs
  | sync_once cursor =>
    refine hrun ?_
    rw [Op.prog, Prog.wp_bind]
    exact Prog.wp_mono _ (wp_sync_once h) (fun _ _ hs => hs) fun _ _ hs => hs
  | announce_once =>
    refine hrun ?_
    rw [Op.prog, Prog.wp_bind]
    exact Prog.wp_mono _ (wp_announce_once h) (fun _ _ hs => hs) fun _ _ hs => hs
  | unpublish name => exact hplain (only_unpublish plain_of_reads (fun _ _ => trivial) fun _ => trivial)
  | delete name => exact hplain (only_delete plain_of_reads (fun _ _ => trivial) trivial)
  | copy_link name => exact hplain ((reads_copy_link.mono plain_of_reads).bind fun _ => trivial)
  | set_held | mark_played | pin_playing => exact hplain ⟨trivial, fun _ => trivial⟩
  | enforce_budget => exact hplain ((only_enforce_budget plain_of_reads fun _ => trivial).bind fun _ => trivial)
  | decay_expired => exact hplain ((only_decay_expired plain_of_reads fun _ => trivial).bind fun _ => trivial)
  | push_manifest => exact hplain (only_push_manifest plain_of_reads (fun _ => trivial) fun _ => trivial)

/-- A link that is copied carries the record and the document of the row, or nothing. -/
theorem copied_link {ω : Nat → Input} {url : String} {s' : Store}
    (hpeer : ∀ name, lib.isPeer name = true → valid_name name = true) (h : Certified lib s)
    (hrun : (copy_link lib name).run (world lib) ω s = (.ok url, s')) :
    parse_link url = .ok (name, none) ∨
      ∃ env record doc, parse_link url = .ok (name, some env) ∧ decode_envelope env = .ok (name, record, doc) ∧
        DocCheck lib (base64 record) (base64 doc) := by
  refine (Prog.run_wp (Prog.fits_true _ ω s) (Q := fun url _ => parse_link url = .ok (name, none) ∨
    ∃ env record doc, parse_link url = .ok (name, some env) ∧ decode_envelope env = .ok (name, record, doc) ∧
      DocCheck lib (base64 record) (base64 doc)) (R := fun _ _ => True) ?_).1 url (by rw [hrun])
  simp only [copy_link, select, now_secs, act, Prog.call, Prog.wp_bind, Prog.wp_act_world, world, Prog.wp_ret]
  intro i _
  cases hrow : s.db.row name with
  | none => trivial
  | some r =>
    dsimp only
    split
    · trivial
    split
    · trivial
    next record hrecord =>
      simp only [Prog.wp_bind, Prog.wp_act_world, world, Prog.wp_ret]
      intro i _
      split
      · trivial
      next hverify =>
        rw [Prog.wp_ofExcept]
        refine ⟨fun url hurl => ?_, fun _ _ => trivial⟩
        obtain ⟨hname, rec, hrec, -⟩ := verify_b64_seq_ok _ hverify
        obtain ⟨bytes, hbytes, hdecode⟩ := Option.bind_eq_some_iff.1 hrec
        refine (parse_build (hpeer _ hname) hbytes hurl).imp_right ?_
        rintro ⟨env, hparse, henv⟩
        obtain ⟨seq, ⟨rec', hrec', hsigns⟩, -⟩ := (h.rows name r hrow).1 (by rintro ⟨⟩) record hrecord
        have hof : recordOf lib.toIpnsLib (base64 bytes) = some rec' := by rw [recordOf_base64, ← hrec', hrec, hdecode]
        exact ⟨env, bytes, _, hparse, henv, docCheck_base64 ⟨rec', hof, hsigns⟩⟩

/-- A history of lawful operations: every row is self-certifying, every pair that was announced passes the check of
the document's hash, and so does what a link that is copied carries. -/
theorem certified_runs {lib : Lib} (hpeer : ∀ name, lib.isPeer name = true → valid_name name = true) {s₀ : Store}
    (hdb : s₀.db = .empty) (hlog : s₀.log = []) {ops : List (Op × (Nat → Input))}
    (h : Prog.Along (Op.prog lib) (world lib) (Lawful lib) s₀ ops) :
    ((Prog.runs (Op.prog lib) (world lib) s₀ ops).db.All fun _ r => r.Certified lib) ∧
      (∀ entries, .announced entries ∈ (Prog.runs (Op.prog lib) (world lib) s₀ ops).log →
        ∀ w ∈ entries, DocCheck lib w.record w.doc) ∧
      ∀ name ω url s, (copy_link lib name).run (world lib) ω (Prog.runs (Op.prog lib) (world lib) s₀ ops) = (.ok url, s) →
        parse_link url = .ok (name, none) ∨
          ∃ env record doc, parse_link url = .ok (name, some env) ∧ decode_envelope env = .ok (name, record, doc) ∧
            DocCheck lib (base64 record) (base64 doc) := by
  have h₀ : Certified lib s₀ := ⟨hdb ▸ .empty, by simp [hlog]⟩
  have hs : Certified lib (Prog.runs (Op.prog lib) (world lib) s₀ ops) :=
    Prog.runs_invariant _ (fun _ _ _ hs hl => op_certified hs hl) h₀ h
  refine ⟨hs.rows.mono fun _ _ hr => hr.1 (by rintro ⟨⟩), hs.announced, fun name ω url s hrun => ?_⟩
  exact copied_link hpeer hs hrun


/-! ### A playlist shared and edited -/

def ownName : String := "12D3KooWA82xcGErUhE66LCRMqmeAp8Jq7R1jZ2d2Ey4fXTNDNux"
def ownKey : String := "playlist-f5956e32fa745a60"

def digestA : Bytes :=
  [136, 126, 29, 177, 3, 69, 152, 154, 12, 198, 81, 86, 55, 59, 239, 189, 26, 81, 59, 62, 88, 246, 21, 114, 64, 135,
  54, 83, 184, 240, 154, 72]

def digestB : Bytes :=
  [63, 198, 85, 138, 167, 64, 242, 182, 169, 212, 132, 10, 254, 185, 154, 91, 3, 48, 140, 37, 44, 201, 7, 156, 245,
  124, 140, 122, 212, 2, 206, 98]

def digestTomb : Bytes :=
  [64, 59, 99, 164, 91, 139, 247, 46, 62, 159, 176, 9, 166, 236, 105, 233, 247, 14, 251, 121, 59, 42, 173, 171, 13,
  189, 106, 61, 51, 122, 180, 236]

/-- The record of the document titled `a`, sequence number 1. -/
def recordA : Bytes :=
  [10, 65, 47, 105, 112, 102, 115, 47, 98, 97, 102, 107, 114, 101, 105, 101, 105, 112, 121, 111, 51, 99, 97, 50, 102,
  116, 99, 110, 97, 122, 114, 115, 114, 107, 121, 51, 116, 120, 51, 53, 53, 100, 106, 105, 116, 119, 112, 115, 121,
  54, 121, 107, 120, 101, 113, 101, 104, 103, 122, 106, 51, 114, 52, 101, 50, 106, 97, 18, 64, 148, 82, 214, 112,
  83, 205, 242, 76, 15, 4, 138, 131, 176, 175, 40, 9, 176, 98, 150, 11, 126, 180, 242, 208, 247, 176, 75, 10, 38,
  87, 67, 49, 189, 46, 80, 72, 57, 63, 214, 49, 53, 17, 156, 246, 218, 147, 112, 60, 179, 207, 158, 70, 26, 99, 206,
  90, 5, 144, 23, 53, 51, 41, 181, 2, 24, 0, 34, 20, 50, 48, 50, 54, 45, 48, 54, 45, 48, 52, 84, 50, 48, 58, 50, 54,
  58, 52, 48, 90, 40, 1, 48, 128, 192, 226, 133, 227, 104, 66, 64, 34, 185, 47, 214, 209, 146, 232, 80, 214, 80,
  101, 36, 89, 215, 40, 231, 113, 71, 90, 4, 255, 0, 158, 217, 241, 226, 252, 240, 58, 131, 246, 230, 82, 162, 135,
  240, 53, 5, 154, 131, 152, 115, 100, 10, 182, 173, 16, 178, 168, 168, 27, 133, 5, 33, 122, 188, 158, 8, 160, 14,
  152, 215, 30, 9, 74, 141, 1, 165, 99, 84, 84, 76, 27, 0, 0, 3, 70, 48, 184, 160, 0, 101, 86, 97, 108, 117, 101,
  88, 65, 47, 105, 112, 102, 115, 47, 98, 97, 102, 107, 114, 101, 105, 101, 105, 112, 121, 111, 51, 99, 97, 50, 102,
  116, 99, 110, 97, 122, 114, 115, 114, 107, 121, 51, 116, 120, 51, 53, 53, 100, 106, 105, 116, 119, 112, 115, 121,
  54, 121, 107, 120, 101, 113, 101, 104, 103, 122, 106, 51, 114, 52, 101, 50, 106, 97, 104, 83, 101, 113, 117, 101,
  110, 99, 101, 1, 104, 86, 97, 108, 105, 100, 105, 116, 121, 84, 50, 48, 50, 54, 45, 48, 54, 45, 48, 52, 84, 50,
  48, 58, 50, 54, 58, 52, 48, 90, 108, 86, 97, 108, 105, 100, 105, 116, 121, 84, 121, 112, 101, 0]

/-- One key, the documents titled `a` and `b`, and the record of the first. -/
def sample : Tables where
  keys := [(ownKey, ownName)]
  docs := [(newDoc "a" [], "\x7b\"v\":2,\"t\":\"a\"\x7d"), (newDoc "b" [], "\x7b\"v\":2,\"t\":\"b\"\x7d"), (tombDoc, "\x7b\"v\":2,\"del\":true\x7d")]
  digests := [("\x7b\"v\":2,\"t\":\"a\"\x7d", digestA), ("\x7b\"v\":2,\"t\":\"b\"\x7d", digestB), ("\x7b\"v\":2,\"del\":true\x7d", digestTomb),
    ("1780000000:a", [245, 149, 110, 50, 250, 116, 90, 96, 51, 79, 158, 100, 85, 93, 219, 255, 39, 42, 146, 142, 222, 61, 119, 223,
      193, 142, 24, 194, 160, 200, 247, 110])]
  values := [("/ipfs/bafkreieipyo3ca2ftcnazrsrky3tx355djitwpsy6ykxeqehgzj3r4e2ja", digestA),
    ("/ipfs/bafkreib7yzkyvj2a6k3ktveebl7ltgs3amyiyjjmzedzz5l4rr5niawomi", digestB),
    ("/ipfs/bafkreicahnr2iw4l64xd5h5qbgtoy2pj64hpw6j3fkw2wdn5ni6tg6vu5q", digestTomb)]
  records := [(ownName, recordA, ⟨"/ipfs/bafkreieipyo3ca2ftcnazrsrky3tx355djitwpsy6ykxeqehgzj3r4e2ja", 1, some 1780604800⟩)]

/-- The node makes the key, and answers each request to sign with the record of the document titled `a`. -/
def answering : Input where
  now := 1780000000
  publish := .answered ownName (base64 recordA)

/-- The playlist is made and shared. -/
def shared : List (Op × (Nat → Input)) :=
  [(.create "a" [], fun _ => answering), (.publish ownName, fun _ => answering)]

/-- An edit follows while the node is away. -/
def sharedAndEdited : List (Op × (Nat → Input)) :=
  shared ++ [(.update ownName "b" [], fun _ => { now := 1780000000 })]

def freshStore : Store where
  db := .empty
  budget := 50 * 1024 * 1024

theorem decode_recordA : sample.lib.decode recordA =
    some ⟨"/ipfs/bafkreieipyo3ca2ftcnazrsrky3tx355djitwpsy6ykxeqehgzj3r4e2ja", 1, some 1780604800⟩ := by
  decide +kernel

theorem edited_uncertified :
    ¬(Prog.runs (Op.prog sample.lib) (world sample.lib) freshStore sharedAndEdited).db.All fun _ r =>
      r.Certified sample.lib := by
  intro h
  have hrow : ((Prog.runs (Op.prog sample.lib) (world sample.lib) freshStore sharedAndEdited).db.row ownName).any
      (fun r => r.record_b64.isSome && r.doc_json = "\x7b\"v\":2,\"t\":\"b\"\x7d") = true := by
    decide
  obtain ⟨r, hr, hrec⟩ := (Option.any_eq_true ..).1 hrow
  obtain ⟨hrec, hdoc⟩ := Bool.and_eq_true_iff.1 hrec
  obtain ⟨record, hrecord⟩ := Option.isSome_iff_exists.1 hrec
  obtain ⟨_, ⟨rec, hrec, hcid, -⟩, -⟩ := h ownName r hr record hrecord
  obtain ⟨bytes, -, hdecode⟩ := Option.bind_eq_some_iff.1 hrec
  -- The one record there is signs the other document.
  have hvalue : rec.value = "/ipfs/bafkreieipyo3ca2ftcnazrsrky3tx355djitwpsy6ykxeqehgzj3r4e2ja" := by
    obtain ⟨x, hx, rfl⟩ := Option.map_eq_some_iff.1 hdecode
    rw [List.mem_singleton.1 (List.mem_of_find?_eq_some hx)]
  rw [hvalue, of_decide_eq_true hdoc] at hcid
  exact absurd hcid (by decide)

theorem lawful_create : Lawful sample.lib freshStore (.create "a" []) fun _ => answering := by
  refine ⟨Prog.fits_of_wp (Q := fun _ _ => True) (R := fun _ _ => True) ?_, trivial⟩
  simp only [Op.prog, create, now_secs, key_gen, newBytes, get, select, act, Prog.call, Prog.wp_bind,
    Prog.wp_act_withInput, Prog.wp_ofExcept, Prog.wp_ret, Prog.wp_pure, Admits, world, true_and]
  refine ⟨fun name _ => ⟨fun _ _ => ⟨fun r hr => ?_, ?_⟩, fun _ _ => trivial⟩, fun _ _ => trivial⟩
  · rw [freshStore, Db.row_empty] at hr
    cases hr
  · split
    · trivial
    · simp only [Prog.wp_bind, Prog.wp_act_withInput, Prog.wp_ofExcept, Prog.wp_ret, Prog.wp_pure, Admits, implies_true,
        and_self]

/-- A fresh playlist is shared. -/
theorem lawful_publish {s : Store} {r : Row} (hr : s.db.row ownName = some r) (hmine : r.is_mine = true)
    (hliked : r.liked = false) (hkey : r.key_name = some ownKey) (hseq : r.seq = 0)
    (hdoc : r.doc_json = "\x7b\"v\":2,\"t\":\"a\"\x7d") :
    Lawful sample.lib s (.publish ownName) fun _ => answering := by
  have hpub : answering.publish = .answered ownName (base64 recordA) := rfl
  refine ⟨Prog.fits_of_wp (Q := fun _ _ => True) (R := fun _ _ => True) ?_, trivial⟩
  simp only [Op.prog, publish, publish_row, playlist_publish, next_seq, select, act, Prog.call, Prog.wp_bind,
    Prog.wp_act_withInput, Prog.wp_ofExcept, Prog.wp_ret, Prog.wp_pure, Admits, world, true_and, hr,
    Option.filter_some, hmine, hliked, hkey, hseq, hdoc, hpub, le_refl, ↓reduceIte, Bool.false_eq_true, false_implies]
  refine ⟨?_, ?_⟩
  · rintro _ _ ⟨⟩
    exact ⟨by decide, ⟨_, by rw [recordOf_base64, decode_recordA], by decide, rfl⟩, by decide⟩
  · refine ⟨?_, by rintro _ ⟨⟩⟩
    rintro _ ⟨⟩
    split
    · trivial
    · exact ⟨trivial, fun _ _ _ => trivial⟩

/-- What is made and shared certifies itself. -/
theorem certified_shared :
    (Prog.runs (Op.prog sample.lib) (world sample.lib) freshStore shared).db.All fun _ r => r.Certified sample.lib := by
  have hpeer (name : String) (h : sample.lib.isPeer name = true) : valid_name name = true := by
    have : name = ownName := by simpa [sample, Tables.lib, eq_comm] using h
    rw [this]
    decide
  have hlawful : Prog.Along (Op.prog sample.lib) (world sample.lib) (Lawful sample.lib) freshStore shared := by
    refine ⟨lawful_create, ?_, trivial⟩
    have hrow : (((Op.prog sample.lib (.create "a" [])).run (world sample.lib) (fun _ => answering) freshStore).2.db.row
        ownName).any (fun r => r.is_mine ∧ r.liked = false ∧ r.key_name = some ownKey ∧ r.seq = 0 ∧
          r.doc_json = "\x7b\"v\":2,\"t\":\"a\"\x7d") = true := by
      decide
    obtain ⟨r, hr, hrow⟩ := (Option.any_eq_true ..).1 hrow
    obtain ⟨hmine, hliked, hkey, hseq, hdoc⟩ := of_decide_eq_true hrow
    exact lawful_publish hr hmine hliked hkey hseq hdoc
  exact (certified_runs hpeer rfl rfl hlawful).1

end TrackerStream.Playlists
