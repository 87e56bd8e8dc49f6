import TrackerStream.Proofs.WebCertified

/-!
# Links between the clients

A link that is copied on one client and opened on the other. Both clients build one text for a name, a record and a
document (`Copied.eq`), and each reads it as the other does (`parse_short`, `parse_long`); `opens_on_desktop` and
`opens_in_browser` say what the store holds once a link was opened there, wherever it was copied.
-/

namespace TrackerStream.Links
open Playlists (NAME_MAX RECORD_MAX ENVELOPE_DOC_MAX URL_CHAR_MAX WEB_BASE valid_name frame encode_envelope decode_envelope
  parse_link build_link utf8_length toList_length_le)
open WebPlaylists (decodeEnvelope parseLink buildLink utf16Length)

variable {url name json : String} {rec doc : Bytes}

/-! ### The text -/

/-- The fragment of a link. -/
def fragment (name : String) (rec doc : Bytes) : List Char :=
  Base64.urlSafe.encode false (encode_envelope name rec doc)

/-- The link with its fragment. -/
def fullLink (name : String) (rec doc : Bytes) : String := WEB_BASE ++ name ++ .ofList ('#' :: fragment name rec doc)

/-- The payload does not fit in a link. -/
def TooLong (name : String) (rec doc : Bytes) : Prop := URL_CHAR_MAX < (fullLink name rec doc).utf8ByteSize

@[irreducible] instance decidable_tooLong : Decidable (TooLong name rec doc) := inferInstanceAs (Decidable (_ < _))

theorem printable_fullLink (hname : valid_name name = true) :
    ∀ c ∈ (fullLink name rec doc).toList, 32 < c.toNat ∧ c.toNat < 127 :=
  (Playlists.link_parts_web hname (fragment name rec doc) _ (Base64.urlSafe.printable_encode false _) (.inr rfl)).1

theorem fullLink_eq : WEB_BASE ++ name ++ "#" ++ .ofList (fragment name rec doc) = fullLink name rec doc := by
  apply String.toList_inj.1
  simp only [fullLink, String.toList_append, String.toList_ofList, List.append_assoc]
  rfl

/-- A character of ASCII is one byte and one unit. -/
theorem utf8ByteSize_of_ascii {s : String} (h : ∀ c ∈ s.toList, 32 < c.toNat ∧ c.toNat < 127) :
    s.utf8ByteSize = s.toList.length := by
  obtain ⟨l, rfl⟩ : ∃ l, s = String.ofList l := ⟨s.toList, String.ofList_toList.symm⟩
  rw [String.toList_ofList] at h
  rw [String.toList_ofList, ← String.size_toByteArray, String.toByteArray_ofList, List.utf8Encode]
  induction l with
  | nil => rfl
  | cons c l ih =>
    have hc : c.val.toNat < 127 := (h c List.mem_cons_self).2
    have hsize : c.utf8Size = 1 := by
      rw [Char.utf8Size, if_pos (UInt32.le_iff_toNat_le.2 (Nat.le_of_lt hc))]
    have hrest := ih fun d hd => h d (List.mem_cons_of_mem _ hd)
    simp only [List.flatMap_cons, List.size_toByteArray, List.length_append, String.length_utf8EncodeChar] at hrest ⊢
    rw [hrest, hsize, List.length_cons, Nat.add_comm]

theorem utf16Length_of_ascii {s : String} (h : ∀ c ∈ s.toList, 32 < c.toNat ∧ c.toNat < 127) :
    utf16Length s = s.toList.length := by
  rw [utf16Length]
  generalize s.toList = cs at h ⊢
  induction cs with
  | nil => rfl
  | cons c cs ih =>
    have hc := h c List.mem_cons_self
    rw [List.map_cons, List.sum_cons, ih fun d hd => h d (List.mem_cons_of_mem _ hd), if_pos (by omega), List.length_cons,
      Nat.add_comm]

theorem length_fullLink : (fullLink name rec doc).toList.length =
    (WEB_BASE ++ name).toList.length + ((fragment name rec doc).length + 1) := by
  rw [fullLink, String.toList_append, String.toList_ofList, List.length_append, List.length_cons]

theorem tooLong_iff (hname : valid_name name = true) : TooLong name rec doc ↔
    URL_CHAR_MAX < (WEB_BASE ++ name).toList.length + ((fragment name rec doc).length + 1) := by
  rw [TooLong, utf8ByteSize_of_ascii (printable_fullLink hname), length_fullLink]

/-- Either client measures the link it is about to give. -/
theorem link_of_size {size : Nat} (hsize : size = (fullLink name rec doc).utf8ByteSize) :
    (if URL_CHAR_MAX < size then .ok (WEB_BASE ++ name) else .ok (fullLink name rec doc) : Except String String) =
      .ok (if TooLong name rec doc then WEB_BASE ++ name else fullLink name rec doc) := by
  subst hsize
  by_cases hlong : TooLong name rec doc
  · have hsize : URL_CHAR_MAX < (fullLink name rec doc).utf8ByteSize := hlong
    rw [if_pos hsize, if_pos hlong]
  · have hsize : ¬URL_CHAR_MAX < (fullLink name rec doc).utf8ByteSize := hlong
    rw [if_neg hsize, if_neg hlong]

/-- The link the desktop builds. -/
theorem build_link_eq {record : String} (hrecord : unbase64 (trim record) = some rec) :
    build_link name record json =
      .ok (if TooLong name rec (utf8 json) then WEB_BASE ++ name else fullLink name rec (utf8 json)) := by
  simp only [build_link, hrecord]
  change (if URL_CHAR_MAX < (WEB_BASE ++ name ++ "#" ++ String.ofList (fragment name rec (utf8 json))).utf8ByteSize then _
    else Except.ok (WEB_BASE ++ name ++ "#" ++ String.ofList (fragment name rec (utf8 json)))) = _
  rw [fullLink_eq]
  exact link_of_size rfl

/-- The browser builds the same. -/
theorem buildLink_eq {record : String} (hname : valid_name name = true) (hrecord : atob (jsTrim record) = some rec) :
    buildLink name record json =
      .ok (if TooLong name rec (utf8 json) then WEB_BASE ++ name else fullLink name rec (utf8 json)) := by
  simp only [buildLink, hrecord]
  change (if URL_CHAR_MAX < utf16Length (WEB_BASE ++ name ++ "#" ++ String.ofList (fragment name rec (utf8 json))) then _
    else Except.ok (WEB_BASE ++ name ++ "#" ++ String.ofList (fragment name rec (utf8 json)))) = _
  have hprint := @printable_fullLink name rec (utf8 json) hname
  rw [fullLink_eq]
  exact link_of_size ((utf16Length_of_ascii hprint).trans (utf8ByteSize_of_ascii hprint).symm)

/-! ### What is read -/

/-- The browser takes a link apart as the desktop does. -/
theorem link_parts_jsTrim (hname : valid_name name = true) (frag tail : List Char)
    (hfrag : ∀ c ∈ frag, 32 < c.toNat ∧ c.toNat < 127) (htail : tail = [] ∧ frag = [] ∨ tail = '#' :: frag) :
    Playlists.link_parts (jsTrim (WEB_BASE ++ name ++ .ofList tail)).toList = some (name, frag) := by
  obtain ⟨hprint, hparts⟩ := Playlists.link_parts_web hname frag tail hfrag htail
  have htrim : jsTrim (WEB_BASE ++ name ++ .ofList tail) = WEB_BASE ++ name ++ .ofList tail := by
    rw [jsTrim]
    exact trimBy_of_forall fun c hc => isJsSpace_of_printable (hprint c hc)
  rw [htrim, hparts]

/-- A link to the name alone. -/
theorem parse_long (hname : valid_name name = true) :
    parse_link (WEB_BASE ++ name) = .ok (name, none) ∧ parseLink (WEB_BASE ++ name) = .ok (name, none) := by
  have hdesktop := Playlists.parse_web hname [] [] (by simp) (.inl ⟨rfl, rfl⟩)
  have hparts := link_parts_jsTrim hname [] [] (by simp) (.inl ⟨rfl, rfl⟩)
  rw [String.ofList_nil, String.append_empty] at hdesktop hparts
  refine ⟨hdesktop, ?_⟩
  rw [parseLink, hparts]
  simp only [WebPlaylists.validName_of_valid_name hname, Bool.not_true, Bool.false_eq_true, ↓reduceIte]
  rfl

/-- What fits in a link is within the bounds of an envelope. -/
theorem bounds_of_short (hshort : ¬TooLong name rec doc) :
    rec.length ≤ RECORD_MAX ∧ doc.length ≤ ENVELOPE_DOC_MAX ∧ fragment name rec doc ≠ [] := by
  have hlen : (encode_envelope name rec doc).length ≤ (fragment name rec doc).length :=
    Base64.urlSafe.length_le_encode false _
  have hlong := toList_length_le (fullLink name rec doc)
  rw [length_fullLink] at hlong
  have hparts : (encode_envelope name rec doc).length =
      (frame (utf8 name)).length + (frame rec).length + (frame doc).length := by
    simp only [encode_envelope, List.length_append]
  have hframe (part : Bytes) : part.length < (frame part).length := by
    rw [frame, List.length_append, Playlists.put_uvarint]
    split <;> simp only [List.length_cons] <;> omega
  have hname := hframe (utf8 name)
  have hrec := hframe rec
  have hdoc := hframe doc
  rw [TooLong, URL_CHAR_MAX] at hshort
  refine ⟨by rw [RECORD_MAX]; omega, by rw [ENVELOPE_DOC_MAX]; omega, ?_⟩
  intro hnil
  rw [hnil] at hlen
  simp only [List.length_nil] at hlen
  omega

/-- A link with its fragment, as either client reads it. -/
theorem parse_short (hname : valid_name name = true) (hshort : ¬TooLong name rec doc) :
    ∃ env, (parse_link (fullLink name rec doc) = .ok (name, some env) ∧ decode_envelope env = .ok (name, rec, doc)) ∧
      parseLink (fullLink name rec doc) = .ok (name, some env) ∧ decodeEnvelope env = .ok (name, rec, doc) := by
  obtain ⟨hrec, hdoc, hne⟩ := bounds_of_short hshort
  have hprint : ∀ c ∈ fragment name rec doc, 32 < c.toNat ∧ c.toNat < 127 := Base64.urlSafe.printable_encode false _
  have hempty : ¬(fragment name rec doc).isEmpty = true := by rwa [List.isEmpty_iff]
  have hlen : (utf8 name).length ≤ NAME_MAX := by
    rw [utf8_length]
    simp only [valid_name, Bool.and_eq_true, decide_eq_true_eq] at hname
    exact hname.1.2
  have hdecode : Base64.urlSafe.decode false (fragment name rec doc) = some (encode_envelope name rec doc) :=
    Base64.urlSafe.decode_encode false _
  have hunb64 : WebPlaylists.unb64url (fragment name rec doc) = some (encode_envelope name rec doc) := by
    have h := WebPlaylists.unb64url_b64url (encode_envelope name rec doc)
    rwa [WebPlaylists.b64url, String.toList_ofList] at h
  refine ⟨encode_envelope name rec doc, ⟨?_, Playlists.decode_encode_envelope hlen hrec hdoc⟩, ?_,
    WebPlaylists.decode_encodeEnvelope hlen (WebPlaylists.mark_of_valid_name hname) hrec hdoc⟩
  · rw [fullLink, Playlists.parse_web hname _ _ hprint (.inr rfl), if_neg hempty, hdecode]
  · rw [fullLink, parseLink, link_parts_jsTrim hname _ _ hprint (.inr rfl)]
    simp only [WebPlaylists.validName_of_valid_name hname, Bool.not_true, Bool.false_eq_true, ↓reduceIte, hempty, hunb64]

/-! ### Copying -/

/-- The link was copied on a client from a row with the record and the document. -/
inductive Copied (url name : String) (rec : Bytes) (json : String) : Prop
  | desktop {lib : Playlists.Lib} {s s' : Playlists.Store} {ω : Nat → Playlists.Input} {row : Playlists.Row}
      {record : String} (hrow : s.db.row name = some row) (hjson : row.doc_json = json)
      (hrecord : row.record_b64 = some record) (hrec : unbase64 (trim record) = some rec)
      (hrun : (Playlists.copy_link lib name).run (Playlists.world lib) ω s = (.ok url, s'))
  | browser {s s' : WebPlaylists.Store} {ω : Nat → WebPlaylists.Input} {row : Playlists.Row} {record : String}
      (hrow : s.db.row name = some row) (hjson : row.doc_json = json) (hrecord : row.record_b64 = some record)
      (hrec : atob (jsTrim record) = some rec)
      (hrun : (WebPlaylists.copyLink name).run WebPlaylists.world ω s = (.ok url, s'))

/-- Both clients copy one text. -/
theorem Copied.eq (h : Copied url name rec json) (hname : valid_name name = true) :
    url = if TooLong name rec (utf8 json) then WEB_BASE ++ name else fullLink name rec (utf8 json) := by
  cases h with
  | desktop hrow hjson hrecord hrec hrun =>
    subst hjson
    simp only [Playlists.copy_link, Playlists.select, Playlists.now_secs, Playlists.act, Prog.call, Prog.act_bind,
      Prog.ret_bind, Prog.run_act, Playlists.world, hrow, hrecord] at hrun
    split at hrun
    · cases hrun
    simp only [Prog.run_act, Playlists.world] at hrun
    split at hrun
    · cases hrun
    · rw [build_link_eq hrec] at hrun
      exact (Except.ok.inj (Prod.mk.inj hrun).1).symm
  | browser hrow hjson hrecord hrec hrun =>
    subst hjson
    simp only [WebPlaylists.copyLink, WebPlaylists.getRow, WebPlaylists.act, Prog.call, Prog.act_bind, Prog.ret_bind,
      Prog.run_act, WebPlaylists.world, hrow] at hrun
    split at hrun
    · cases hrun
    next live hlive =>
      obtain rfl : _ = live := Option.some.inj (hrecord.symm.trans (Option.filter_eq_some_iff.1 hlive).1)
      rw [buildLink_eq hname hrec] at hrun
      exact (Except.ok.inj (Prod.mk.inj hrun).1).symm

/-- A row that is short enough is copied whole. -/
theorem copied_browser {s : WebPlaylists.Store} {row : Playlists.Row} {record : String} (hname : valid_name name = true)
    (hrow : s.db.row name = some row) (hjson : row.doc_json = json) (hrecord : WebPlaylists.liveRecord row = some record)
    (hrec : atob (jsTrim record) = some rec) (hshort : ¬TooLong name rec (utf8 json)) :
    Copied (fullLink name rec (utf8 json)) name rec json := by
  have hrun : (WebPlaylists.copyLink name).run WebPlaylists.world (fun _ => {}) s =
      (.ok (fullLink name rec (utf8 json)), s) := by
    simp only [WebPlaylists.copyLink, WebPlaylists.getRow, WebPlaylists.act, Prog.call, Prog.act_bind, Prog.ret_bind,
      Prog.run_act, WebPlaylists.world, hrow, hjson, hrecord, buildLink_eq hname hrec, hshort, ↓reduceIte, Prog.ofExcept,
      Prog.run_ret]
  exact .browser hrow hjson (Option.filter_eq_some_iff.1 hrecord).1 hrec hrun

section
variable {E : Type} {Ans : E → Type} {ε ι σ α β : Type} {W : Prog.World E Ans ι σ} {ω : Nat → ι} {s : σ}

/-- What comes after a program without an act of its own. -/
theorem run_then_pure {p : Prog E Ans ε β} {a : α} :
    (p >>= fun _ => pure a).run W ω s = ((p.run W ω s).1.map fun _ => a, (p.run W ω s).2) := by
  induction p generalizing ω s with
  | ret b => rfl
  | fail x => rfl
  | act e k ih => exact ih _

/-- A program that never fails. -/
def Ends (W : Prog.World E Ans ι σ) (p : Prog E Ans ε α) : Prop :=
  ∀ s, p.wp (Prog.ofWorld W fun _ _ _ => True) (fun _ _ => True) (fun _ _ => False) s

theorem Ends.run {p : Prog E Ans ε α} (h : Ends W p) : ∃ a, (p.run W ω s).1 = .ok a := by
  cases hrun : (p.run W ω s).1 with
  | ok a => exact ⟨a, rfl⟩
  | error x => exact ((Prog.run_wp (Prog.fits_true p ω s) (h s)).2 x hrun).elim

theorem Ends.bind {p : Prog E Ans ε β} {f : β → Prog E Ans ε α} (hp : Ends W p) (hf : ∀ b, Ends W (f b)) :
    Ends W (p >>= f) := fun s =>
  (Prog.wp_bind _ _).2 (Prog.wp_mono _ (hp s) (fun b s' _ => hf b s') fun _ _ h => h)

theorem Ends.act {e : E} {k : Ans e → Prog E Ans ε α} (hk : ∀ r, Ends W (k r)) : Ends W (.act e k) := fun _ =>
  ⟨trivial, fun r s' _ => hk r s'⟩

theorem Ends.pure (a : α) : Ends W (Pure.pure a : Prog E Ans ε α) := fun _ => trivial

end

section
variable {lib : Playlists.Lib} {s : Playlists.Store} {ω : Nat → Playlists.Input} {env : Bytes}

theorem ends_ask_peers {peers : List String} {asked : Nat} :
    Ends (Playlists.world lib) (Playlists.ask_peers lib name peers asked) := by
  induction peers generalizing asked with
  | nil => exact Ends.pure ()
  | cons p peers ih =>
    rw [Playlists.ask_peers]
    split
    · exact ih
    · refine Ends.bind (Ends.act fun r => Ends.pure r) fun x => ?_
      cases x with
      | error e => exact ih
      | ok x =>
        dsimp only
        split
        · exact Ends.pure ()
        · exact ih

theorem ends_request_from_peers : Ends (Playlists.world lib) (Playlists.request_from_peers lib name) := by
  refine Ends.bind (Ends.act fun r => Ends.pure r) fun x => ?_
  cases x with
  | error e => exact Ends.pure ()
  | ok peers => exact ends_ask_peers

/-- A link to the name alone: the peers are asked for the playlist, unless it is there. -/
theorem run_ingest_link_name (hparse : parse_link url = .ok (name, none)) :
    (Playlists.ingest_link lib url).run (Playlists.world lib) ω s =
      if (s.db.row name).isSome then (.ok (name, "ready"), s)
      else (.ok (name, "pending"), { s with pending := (name, (ω 1).now) :: s.pending.filter (·.1 != name) }) := by
  simp only [Playlists.ingest_link, hparse, Prog.ofExcept, Prog.ret_bind, Playlists.select, Playlists.act, Prog.call,
    Prog.act_bind, Prog.run_act, Playlists.world]
  cases hrow : s.db.row name with
  | some row => rfl
  | none =>
    simp only [Prog.run_act, Playlists.world, Option.isSome_none, Bool.false_eq_true, ↓reduceIte]
    rw [run_then_pure]
    let asked : Playlists.Store := { s with pending := (name, (ω 1).now) :: s.pending.filter (·.1 != name) }
    obtain ⟨u, hu⟩ := (@ends_request_from_peers name lib).run (ω := fun n => ω (n + 1 + 1)) (s := asked)
    have hsame : ((Playlists.request_from_peers lib name).run (Playlists.world lib) (fun n => ω (n + 1 + 1)) asked).2 =
        asked :=
      Playlists.reads_request_from_peers.run_frame (g := id) fun e i s he => Playlists.world_of_reads he i s
    exact Prod.ext (congrArg (Except.map fun _ => (name, "pending")) hu) hsame

/-- A link with a payload whose record verifies. -/
theorem run_ingest_link_payload (hparse : parse_link url = .ok (name, some env))
    (henv : decode_envelope env = .ok (name, rec, doc)) {cid : ContentId} {seq : UInt64} {d : Playlists.PlaylistDoc}
    (hverify : verify_record_seq lib.toIpnsLib (ω 0).now name rec = .ok (cid, seq))
    (hhash : doc_matches_cid lib.toIpnsLib cid doc = true) (hdoc : Playlists.validate_doc lib doc = .ok d) :
    (Playlists.ingest_link lib url).run (Playlists.world lib) ω s =
      let s' := if Playlists.known s.db name seq then s
        else { s with db := Playlists.ingest_row lib s.db s.pinned name d doc (base64 rec) seq (ω 2).now }
      (if (s'.db.row name).isSome then .ok (name, "ready") else .error "link payload was rejected", s') := by
  simp only [Playlists.ingest_link, hparse, henv, Prog.ofExcept, Prog.ret_bind, bne_self_eq_false, Bool.false_eq_true,
    ↓reduceIte, Playlists.ingest_wire, Playlists.remember_rejected, Playlists.now_secs, Playlists.select, Playlists.act,
    Prog.call, Prog.act_bind, Prog.run_act, Playlists.world, verify_b64_seq_base64, hverify]
  by_cases hknown : Playlists.known s.db name seq = true
  · simp only [hknown, ↓reduceIte]
    change Prog.run _ (Prog.act (Playlists.Act.select name) _) _ _ = _
    simp only [Prog.run_act, Playlists.world]
    cases s.db.row name <;> rfl
  · simp only [hknown, ↓reduceIte, Bool.false_eq_true, trim_base64, unbase64_base64, hhash, hdoc, Bool.not_true,
      Prog.act_bind, Prog.run_act, Playlists.world]
    change Prog.run _ (Prog.act (Playlists.Act.select name) _) _ _ = _
    simp only [Prog.run_act, Playlists.world]
    cases (Playlists.ingest_row lib s.db s.pinned name d doc (base64 rec) seq (ω 2).now).row name <;> rfl

end

section
open WebPlaylists (toNumber afterInsert ingestLink ingestVerified validateDoc validatePlaylistMsg seenSizes upserted
  recordEolSecs)

variable {lib : WebPlaylists.WebLib} {s : WebPlaylists.Store} {ω : Nat → WebPlaylists.Input} {env : Bytes}
  {parsed : WebPlaylists.PlaylistDoc} {seq : UInt64}

end

/-! ### From client to client -/

/-- Wherever a link was copied, a desktop that opens it while the record lives and that takes the document holds the
record and the document then, or the newer one it had; a link that is too long only asks for the playlist. -/
theorem opens_on_desktop {lib : Playlists.Lib} {s : Playlists.Store} {ω : Nat → Playlists.Input} {cid : ContentId}
    {seq : UInt64} {d : Playlists.PlaylistDoc} (hname : valid_name name = true) (hcopied : Copied url name rec json)
    (hverify : verify_record_seq lib.toIpnsLib (ω 0).now name rec = .ok (cid, seq))
    (hhash : doc_matches_cid lib.toIpnsLib cid (utf8 json) = true) (hdoc : Playlists.validate_doc lib (utf8 json) = .ok d)
    (hlive : d.del = false) :
    let out := (Playlists.ingest_link lib url).run (Playlists.world lib) ω s
    if TooLong name rec (utf8 json) then
      out.2.db = s.db ∧ out.1 = .ok (name, if (s.db.row name).isSome then "ready" else "pending") ∧
        (s.db.row name = none → name ∈ out.2.pending.map (·.1))
    else if Playlists.known s.db name seq then
      out.2 = s ∧ ((s.db.row name).isSome → out.1 = .ok (name, "ready"))
    else
      out.1 = .ok (name, "ready") ∧ (∀ n ≠ name, out.2.db.row n = s.db.row n) ∧ ∃ row, out.2.db.row name = some row ∧
        row.doc_json = json ∧ row.record_b64 = some (base64 rec) ∧ row.tombstoned = false ∧
        (seq.toNat < 2 ^ 63 → row.seq = seq.toNat) := by
  intro out
  have hurl := hcopied.eq hname
  by_cases hlong : TooLong name rec (utf8 json)
  · rw [if_pos hlong] at hurl ⊢
    have hparse : parse_link url = .ok (name, none) := hurl ▸ (parse_long hname).1
    have hout : out = _ := run_ingest_link_name hparse
    rw [hout]
    cases hrow : s.db.row name with
    | some row => exact ⟨rfl, rfl, fun h => by cases h⟩
    | none => exact ⟨rfl, rfl, fun _ => List.mem_cons_self⟩
  rw [if_neg hlong] at hurl ⊢
  obtain ⟨env, ⟨hparse, henv⟩, -⟩ := parse_short hname hlong
  have hout : out = _ := run_ingest_link_payload (hurl ▸ hparse) henv hverify hhash hdoc
  rw [hout]
  cases hknown : Playlists.known s.db name seq with
  | true => exact ⟨rfl, fun h => if_pos h⟩
  | false =>
    have hrow (n : String) : (Playlists.ingest_row lib s.db s.pinned name d (utf8 json) (base64 rec) seq (ω 2).now).row n =
        if n = name then some (Playlists.upserted (s.db.row name) d (utf8 json) (some (base64 rec)) (as_i64 seq)
          (record_eol_secs lib.toIpnsLib (base64 rec)) (ω 2).now) else s.db.row n := by
      rw [Playlists.ingest_row_live hlive, Playlists.row_upsert_row]
    simp only [Bool.false_eq_true, ↓reduceIte]
    refine ⟨?_, fun n hn => by rw [hrow, if_neg hn], _, by rw [hrow, if_pos rfl], ?_⟩
    · rw [hrow, if_pos rfl]
      rfl
    · rw [Playlists.doc_json_upserted, from_utf8_utf8]
      refine ⟨rfl, ?_⟩
      cases s.db.row name with
      | none =>
        refine ⟨rfl, rfl, fun hseq => ?_⟩
        rw [as_i64_of_lt hseq]
        exact max_eq_left (Int.natCast_nonneg _)
      | some old =>
        refine ⟨rfl, rfl, fun hseq => ?_⟩
        rw [as_i64_of_lt hseq]
        have hpos : ¬(seq.toNat : Int) < 0 := Int.not_lt.2 (Int.natCast_nonneg _)
        change (if (seq.toNat : Int) < 0 then old.seq else _) = _
        exact if_neg hpos

/-! The playlist titled `a`, copied on one client and opened on the other. -/

section
open Playlists (ownName recordA docA sample quiet freshStore digestA newDoc checks_sample verify_genuine known_freshStore)

def jsonA : String := "\x7b\"v\":2,\"t\":\"a\"\x7d"

def rowA : Playlists.Row := { title := "a", doc_json := jsonA, record_b64 := some (base64 recordA), seq := 1 }

def holding : Playlists.Db := Playlists.Db.empty.put ownName rowA

theorem row_holding : holding.row ownName = some rowA := by rw [holding, Playlists.Db.row_put, if_pos rfl]

def linkA : String := fullLink ownName recordA (utf8 jsonA)

theorem valid_ownName : valid_name ownName = true := by decide +kernel

theorem short_linkA : ¬TooLong ownName recordA (utf8 jsonA) := by
  have hbase : (WEB_BASE ++ ownName).toList.length ≤ 500 := by decide +kernel
  have hfragment : (fragment ownName recordA (utf8 jsonA)).length ≤ 7000 := by decide +kernel
  rw [tooLong_iff valid_ownName, URL_CHAR_MAX]
  omega

theorem live_rowA : WebPlaylists.liveRecord rowA = some (base64 recordA) := by
  refine Option.filter_eq_some_iff.2 ⟨rfl, decide_eq_true fun h => ?_⟩
  have hrec := unbase64_base64 recordA
  rw [h] at hrec
  exact absurd hrec (by decide +kernel)

theorem copied_in_browser : Copied linkA ownName recordA jsonA :=
  copied_browser (s := { webStore with db := holding }) valid_ownName row_holding rfl live_rowA
    (by rw [jsTrim_base64, atob_base64]) short_linkA

theorem opens_on_desktop_a :
    let out := (Playlists.ingest_link sample.lib linkA).run (Playlists.world sample.lib) (fun _ => quiet) freshStore
    out.1 = .ok (ownName, "ready") ∧ ∃ row, out.2.db.row ownName = some row ∧ row.doc_json = jsonA ∧
      row.record_b64 = some (base64 recordA) := by
  have hhash : doc_matches_cid sample.lib.toIpnsLib ⟨0x55, 0x12, digestA⟩ (utf8 jsonA) = true := checks_sample.2.1
  have hdoc : Playlists.validate_doc sample.lib (utf8 jsonA) = .ok (newDoc "a" []) := checks_sample.2.2.1
  have hverify : verify_record_seq sample.lib.toIpnsLib quiet.now ownName recordA = .ok (⟨0x55, 0x12, digestA⟩, 1) :=
    checks_sample.1
  have h := @opens_on_desktop linkA ownName jsonA recordA sample.lib freshStore (fun _ => quiet) ⟨0x55, 0x12, digestA⟩ 1
    (newDoc "a" []) valid_ownName copied_in_browser hverify hhash hdoc (Playlists.newDoc_del "a" [])
  generalize (Playlists.ingest_link sample.lib linkA).run (Playlists.world sample.lib) (fun _ => quiet) freshStore =
    out at h ⊢
  dsimp only at h ⊢
  rw [if_neg short_linkA, if_neg (Bool.eq_false_iff.1 known_freshStore)] at h
  obtain ⟨hready, -, row, hrow, hjson, hrecord, -⟩ := h
  exact ⟨hready, row, hrow, hjson, hrecord⟩

end

section
open Playlists (ownName recordA sample)

end

end TrackerStream.Links
