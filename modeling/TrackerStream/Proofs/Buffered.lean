import TrackerStream.Proofs.CursorComplete

/-!
# What the buffer of playlists keeps

Between two messages the buffer's count of bytes is that of its documents, it is within its caps, and no two of its
entries have one version (`Sound`). A message that is newer than what was stored is stored, and what goes for it was
seen before all that stays (`Stored`); the order the map is ranged over in makes no difference to that.
-/

namespace TrackerStream.Relay

/-- `playlistDocMax`. -/
def playlistDocMax : Nat := 2 ^ 20

structure Message where
  now : Int
  orders : Nat → MapOrder
  name : String
  record : Bytes
  doc : Bytes
  seq : UInt64

/-- What `validatePlaylistMsg` lets through: a name decodes, so it is not empty, and the document is in bounds. -/
structure Message.Validated (m : Message) : Prop where
  name : m.name ≠ ""
  doc : m.doc.length ≤ playlistDocMax

namespace PlaylistStore

def receive (s : PlaylistStore) (m : Message) : PlaylistStore :=
  (s.ingest {} m.now m.orders m.name m.record m.doc m.seq).1

/-- The bytes of a document, and of all. -/
def size (e : Ranged) : Int := e.2.doc.length
def total (es : List Ranged) : Int := (es.map size).sum

/-- The counts of a buffer last changed at `now` or before. -/
structure Counted (s : PlaylistStore) (now : Int) : Prop where
  docBytes : s.docBytes = total s.entries.entries
  names : ∀ e ∈ s.entries.entries, e.1 ≠ ""
  ver_le : ∀ e ∈ s.entries.entries, e.2.ver ≤ s.version
  vers : (s.entries.entries.map fun e => e.2.ver).Nodup
  seen_le : ∀ e ∈ s.entries.entries, e.2.lastSeen ≤ now
  seen : (s.entries.entries.map fun e => e.2.lastSeen).Nodup

structure Sound (s : PlaylistStore) (now : Int) : Prop extends s.Counted now where
  ents : s.entries.entries.length ≤ 8192
  bytes : s.docBytes ≤ 16 * 2 ^ 20

/-- What a message leaves of the entries that were there, and of its own if it was newer. -/
structure Stored (s : PlaylistStore) (m : Message) : Prop where
  version : s.version ≤ (s.receive m).version
  seq : ∀ n e e', s.entry n = some e → (s.receive m).entry n = some e' →
    e.seq = e'.seq ∧ e.record = e'.record ∧ e.doc = e'.doc ∨ e.seq < e'.seq
  own : (s.ingest {} m.now m.orders m.name m.record m.doc m.seq).2 = true →
    (s.receive m).entry m.name = some ⟨m.record, if s.storeDocs then m.doc else [], m.seq, s.version + 1, m.now⟩
  evicted : ∀ n e, s.entry n = some e → (s.receive m).entry n = none →
    ∀ n' e', (s.receive m).entry n' = some e' → e.lastSeen < e'.lastSeen

variable {caps : Caps} {s : PlaylistStore} {now : Int} {orders : Nat → MapOrder} {name n : String} {record doc : Bytes}
  {seq : UInt64} {e : PlEntry}

theorem mem_entries : (⟨n, e⟩ : Ranged) ∈ s.entries.entries ↔ s.entry n = some e := by
  rw [entry, ← Option.mem_def, AList.mem_lookup_iff]

/-- The entries are that of a name and the rest. -/
theorem perm_cons_erase {l : AList fun _ : String => PlEntry} (h : l.lookup n = some e) :
    l.entries.Perm (⟨n, e⟩ :: (l.erase n).entries) := by
  have hmem := AList.mem_lookup_iff.1 (Option.mem_def.2 h)
  obtain ⟨e', l₁, l₂, hn, hl, hk⟩ := List.exists_of_kerase (List.mem_keys_of_mem hmem)
  have heq : e' = e := by
    have hmem' : (⟨n, e'⟩ : Ranged) ∈ l.entries := by
      rw [hl]
      simp
    exact eq_of_heq (Sigma.mk.inj (List.NodupKeys.eq_of_fst_eq l.nodupKeys hmem' hmem rfl)).2
  subst heq
  change l.entries.Perm (⟨n, e'⟩ :: l.entries.kerase n)
  rw [hk, hl]
  exact List.perm_middle

theorem total_perm {es es' : List Ranged} (h : es.Perm es') : total es = total es' := (h.map _).sum_eq

theorem total_cons {x : Ranged} {es : List Ranged} : total (x :: es) = size x + total es := List.sum_cons

/-! ### What is dropped -/

/-- A range finds the entry seen before all others. -/
theorem foldl_older_le (es : List Ranged) (o : String × Int) (hes : ∀ e ∈ es, e.1 ≠ "") (ho : o.1 ≠ "") :
    (es.foldl older o).2 ≤ o.2 ∧ (∀ e ∈ es, (es.foldl older o).2 ≤ e.2.lastSeen) ∧
      ((es.foldl older o) = o ∨ ∃ e ∈ es, es.foldl older o = (e.1, e.2.lastSeen)) := by
  induction es generalizing o with
  | nil => exact ⟨le_refl _, by simp, .inl rfl⟩
  | cons e es ih =>
    rw [List.foldl_cons]
    have hnext : (older o e).1 ≠ "" ∧ (older o e).2 ≤ o.2 ∧ (older o e).2 ≤ e.2.lastSeen ∧
        (older o e = o ∨ older o e = (e.1, e.2.lastSeen)) := by
      unfold older
      split
      next hlt =>
        rcases hlt with hlt | hlt
        · exact absurd hlt ho
        · exact ⟨hes e (by simp), hlt.le, le_refl _, .inr rfl⟩
      next hge =>
        push Not at hge
        exact ⟨ho, le_refl _, hge.2, .inl rfl⟩
    obtain ⟨hname, hle, hlast, hfrom⟩ := hnext
    obtain ⟨hle', hall, hfound⟩ := ih (older o e) (fun x hx => hes x (by simp [hx])) hname
    refine ⟨hle'.trans hle, ?_, ?_⟩
    · intro x hx
      rcases List.mem_cons.1 hx with rfl | hx
      · exact hle'.trans hlast
      · exact hall x hx
    · rcases hfound with hfound | ⟨x, hx, hfound⟩
      · rcases hfrom with hfrom | hfrom
        · exact .inl (hfound.trans hfrom)
        · exact .inr ⟨e, by simp, hfound.trans hfrom⟩
      · exact .inr ⟨x, by simp [hx], hfound⟩

theorem oldest_spec {es : List Ranged} (hes : ∀ e ∈ es, e.1 ≠ "") (hne : es ≠ []) :
    ∃ e ∈ es, oldest es = e.1 ∧ ∀ x ∈ es, e.2.lastSeen ≤ x.2.lastSeen := by
  rcases es with _ | ⟨e, es⟩
  · exact absurd rfl hne
  have hfirst : older ("", 0) e = (e.1, e.2.lastSeen) := if_pos (.inl rfl)
  obtain ⟨hle, hall, hfound⟩ := foldl_older_le es (e.1, e.2.lastSeen) (fun x hx => hes x (by simp [hx])) (hes e (by simp))
  rw [oldest, List.foldl_cons, hfirst]
  rcases hfound with hfound | ⟨x, hx, hfound⟩
  · refine ⟨e, by simp, by rw [hfound], fun y hy => ?_⟩
    rw [hfound] at hall
    rcases List.mem_cons.1 hy with rfl | hy
    · exact le_refl _
    · exact hall y hy
  · refine ⟨x, by simp [hx], by rw [hfound], fun y hy => ?_⟩
    rw [hfound] at hle hall
    rcases List.mem_cons.1 hy with rfl | hy
    · exact hle
    · exact hall y hy

theorem entry_remove_of_ne {k : String} (h : n ≠ k) : (s.remove k).entry n = s.entry n := AList.lookup_erase_ne h

theorem entry_remove_self {k : String} : (s.remove k).entry k = none := AList.lookup_erase _ _

theorem Counted.remove (h : s.Counted now) {k : String} (hk : s.entry k = some e) : (s.remove k).Counted now := by
  have hperm := perm_cons_erase hk
  have hsub : ∀ x ∈ (s.remove k).entries.entries, x ∈ s.entries.entries := fun x hx =>
    hperm.mem_iff.2 (List.mem_cons_of_mem _ hx)
  refine ⟨?_, fun x hx => h.names x (hsub x hx), fun x hx => h.ver_le x (hsub x hx), ?_, fun x hx => h.seen_le x (hsub x hx), ?_⟩
  · have htotal := total_perm hperm
    rw [total_cons] at htotal
    have hsize : size ⟨k, e⟩ = e.doc.length := rfl
    have hbytes := h.docBytes
    have hafter : (s.remove k).docBytes = s.docBytes - e.doc.length := by
      rw [PlaylistStore.remove, hk]
      rfl
    change (s.remove k).docBytes = total (s.entries.erase k).entries
    omega
  · exact (List.nodup_cons.1 ((hperm.map _).nodup_iff.1 h.vers)).2
  · exact (List.nodup_cons.1 ((hperm.map _).nodup_iff.1 h.seen)).2

/-- Evictions keep the counts, and what they take was seen before what they leave. -/
theorem Counted.evictLocked (h : s.Counted now) (k : Nat) :
    (s.evictLocked caps orders k).Counted now ∧ ∀ n e, s.entry n = some e → (s.evictLocked caps orders k).entry n = none →
      ∀ n' e', (s.evictLocked caps orders k).entry n' = some e' → e.lastSeen < e'.lastSeen := by
  induction k generalizing s with
  | zero =>
    refine ⟨h, ?_⟩
    intro n e he hgone
    rw [PlaylistStore.evictLocked, he] at hgone
    cases hgone
  | succ k ih =>
    rw [PlaylistStore.evictLocked]
    split
    next hbig =>
      have hperm := (orders k).perm s.entries.entries
      obtain ⟨⟨v, ev⟩, hv, hold, hmin⟩ := oldest_spec (fun x hx => h.names x (hperm.mem_iff.1 hx))
        (List.length_pos_iff.1 (hperm.length_eq ▸ hbig.1))
      rw [hold]
      have hev := mem_entries.1 (hperm.mem_iff.1 hv)
      obtain ⟨hcounted, hrest⟩ := ih (h.remove hev)
      refine ⟨hcounted, ?_⟩
      intro n e he hgone n' e' he'
      rcases eq_or_ne n v with rfl | hne
      · rw [hev] at he
        obtain rfl := Option.some.inj he
        have hstay : (s.remove n).entry n' = some e' := by
          rcases @entry_evictLocked caps (s.remove n) orders n' k with hnone | hsame
          · rw [hnone] at he'
            cases he'
          · rw [← hsame, he']
        have hn' : n' ≠ n := by
          rintro rfl
          rw [entry_remove_self] at hstay
          cases hstay
        rw [entry_remove_of_ne hn'] at hstay
        have hle := hmin ⟨n', e'⟩ (hperm.mem_iff.2 (mem_entries.2 hstay))
        refine lt_of_le_of_ne hle fun heq => ?_
        have hsame := List.inj_on_of_nodup_map h.seen (mem_entries.2 hstay) (mem_entries.2 hev) heq.symm
        exact hn' (congrArg Sigma.fst hsame)
      · exact hrest n e ((entry_remove_of_ne hne).trans he) hgone n' e' he'
    next =>
      refine ⟨h, ?_⟩
      intro n e he hgone
      rw [he] at hgone
      cases hgone

/-- Evictions leave the entry seen last, where its document alone fits. -/
theorem Counted.entry_last (h : s.Counted now) (k : Nat) (hents : 1 ≤ caps.ents) (hfits : (e.doc.length : Int) ≤ caps.bytes)
    (he : s.entry n = some e) (hnow : e.lastSeen = now) : (s.evictLocked caps orders k).entry n = some e := by
  induction k generalizing s with
  | zero => exact he
  | succ k ih =>
    rw [PlaylistStore.evictLocked]
    split
    next hbig =>
      have hperm := (orders k).perm s.entries.entries
      obtain ⟨⟨v, ev⟩, hv, hold, hmin⟩ := oldest_spec (fun x hx => h.names x (hperm.mem_iff.1 hx))
        (List.length_pos_iff.1 (hperm.length_eq ▸ hbig.1))
      rw [hold]
      have hev := mem_entries.1 (hperm.mem_iff.1 hv)
      have hne : n ≠ v := by
        rintro rfl
        rw [he] at hev
        obtain rfl := Option.some.inj hev
        -- all entries are as late as the last one, so there is no other
        have hperm' := perm_cons_erase he
        have hrest : (s.entries.erase n).entries = [] := by
          refine List.eq_nil_iff_forall_not_mem.2 fun x hx => ?_
          have hx' := hperm'.mem_iff.2 (List.mem_cons_of_mem _ hx)
          have heq : x = ⟨n, e⟩ := List.inj_on_of_nodup_map h.seen hx' (mem_entries.2 he)
            (le_antisymm ((h.seen_le x hx').trans hnow.ge) (hmin x (hperm.mem_iff.2 hx')))
          exact (AList.mem_erase.1 (List.mem_keys_of_mem (heq ▸ hx))).1 rfl
        rw [hrest] at hperm'
        have htotal := total_perm hperm'
        have hbytes := h.docBytes
        have hsize : total [⟨n, e⟩] = e.doc.length := by simp [total, size]
        obtain ⟨-, hover | hover⟩ := hbig
        · have hlen := hperm'.length_eq
          rw [List.length_singleton] at hlen
          omega
        · omega
      exact ih (h.remove hev) ((entry_remove_of_ne hne).trans he)
    next => exact he

/-! ### What is written -/

def oldSize (s : PlaylistStore) (name : String) : Int := (((s.entry name).map (·.doc.length)).getD 0 : Nat)

theorem total_erase : total (s.entries.erase name).entries = total s.entries.entries - oldSize s name := by
  unfold oldSize entry
  cases he : s.entries.lookup name with
  | some e =>
    have htotal := total_perm (perm_cons_erase he)
    rw [total_cons] at htotal
    have hsize : size ⟨name, e⟩ = e.doc.length := rfl
    rw [Option.map_some, Option.getD_some]
    omega
  | none =>
    rw [Option.map_none, Option.getD_none, Nat.cast_zero, Int.sub_zero, AList.erase]
    change total (s.entries.entries.kerase name) = _
    rw [List.kerase_of_notMem_keys fun hmem => AList.lookup_eq_none.1 he (AList.mem_keys.2 hmem)]

theorem mem_erase {x : Ranged} (hx : x ∈ (s.entries.erase name).entries) : x ∈ s.entries.entries ∧ x.1 ≠ name :=
  ⟨(List.kerase_sublist _ _).subset hx, (AList.mem_erase.1 (List.mem_keys_of_mem hx)).1⟩

/-- An entry put in under a later time. -/
theorem Counted.insert {t : Int} (h : s.Counted t) (ht : t < now) (hname : name ≠ "") {e : PlEntry} {docBytes : Int}
    {version : Nat} (hlast : e.lastSeen = now) (hver : e.ver ≤ version) (hversion : s.version ≤ version)
    (hnew : ∀ x ∈ (s.entries.erase name).entries, x.2.ver ≠ e.ver)
    (hbytes : docBytes = s.docBytes - oldSize s name + e.doc.length) :
    Counted { s with entries := s.entries.insert name e, docBytes, version } now := by
  have hentries : (s.entries.insert name e).entries = ⟨name, e⟩ :: (s.entries.erase name).entries := rfl
  have hsub : (s.entries.erase name).entries.Sublist s.entries.entries := List.kerase_sublist _ _
  constructor <;> simp only [hentries]
  · rw [total_cons, total_erase, ← h.docBytes, hbytes]
    have hsize : size ⟨name, e⟩ = e.doc.length := rfl
    omega
  · intro x hx
    rcases List.mem_cons.1 hx with rfl | hx
    · exact hname
    · exact h.names x (mem_erase hx).1
  · intro x hx
    rcases List.mem_cons.1 hx with rfl | hx
    · exact hver
    · exact (h.ver_le x (mem_erase hx).1).trans hversion
  · rw [List.map_cons, List.nodup_cons]
    refine ⟨fun hmem => ?_, (hsub.map _).nodup h.vers⟩
    obtain ⟨x, hx, heq⟩ := List.mem_map.1 hmem
    exact hnew x hx heq
  · intro x hx
    rcases List.mem_cons.1 hx with rfl | hx
    · exact hlast.le
    · exact (h.seen_le x (mem_erase hx).1).trans ht.le
  · rw [List.map_cons, List.nodup_cons]
    refine ⟨fun hmem => ?_, (hsub.map _).nodup h.seen⟩
    obtain ⟨x, hx, heq⟩ := List.mem_map.1 hmem
    have hle := h.seen_le x (mem_erase hx).1
    have hlater : x.2.lastSeen = now := heq.trans hlast
    omega

theorem Counted.write {t : Int} (h : s.Counted t) (ht : t < now) (hname : name ≠ "") :
    (s.write now name record doc seq).Counted now := by
  refine h.insert ht hname rfl (le_refl _) (Nat.le_succ _) ?_ ?_
  · intro x hx heq
    have hle := h.ver_le x (mem_erase hx).1
    rw [heq] at hle
    exact Nat.not_succ_le_self _ hle
  · rfl

/-! ### One message -/

variable {m : Message} {t : Int}

theorem Sound.empty {storeDocs : Bool} : Sound { storeDocs } t := by
  refine ⟨⟨rfl, ?_, ?_, List.nodup_nil, ?_, List.nodup_nil⟩, Nat.zero_le _, by norm_num⟩
  all_goals
    intro e he
    cases he

theorem doc_write_le (hm : m.Validated) : (((if s.storeDocs then m.doc else [] : Bytes).length : Nat) : Int) ≤ 16 * 2 ^ 20 := by
  have hdoc := hm.doc
  unfold playlistDocMax at hdoc
  split
  · omega
  · simp

/-- A message that is newer than what is stored. -/
theorem receive_newer (h : s.Sound t) (ht : t < m.now) (hm : m.Validated)
    (hs : s.receive m = (s.write m.now m.name m.record m.doc m.seq).evictLocked {} m.orders
      (s.write m.now m.name m.record m.doc m.seq).entries.entries.length)
    (hnew : ∀ e, s.entry m.name = some e → e.seq < m.seq) : (s.receive m).Sound m.now ∧ s.Stored m := by
  set w := s.write m.now m.name m.record m.doc m.seq with hw
  have hcounted : w.Counted m.now := h.write ht hm.name
  obtain ⟨hafter, hevicted⟩ := @Counted.evictLocked {} w m.now m.orders hcounted w.entries.entries.length
  have hbound := @not_tooBig_evictLocked {} w m.orders _ (le_refl _)
  have hself : w.entry m.name = some ⟨m.record, if s.storeDocs then m.doc else [], m.seq, s.version + 1, m.now⟩ :=
    entry_write_self
  have hlast := @Counted.entry_last {} w m.now m.orders _ _ hcounted w.entries.entries.length (by norm_num)
    (doc_write_le hm) hself rfl
  have hversion : (s.receive m).version = s.version + 1 := by
    rw [hs, version_evictLocked]
    rfl
  rw [← hs] at hafter hevicted hbound hlast
  have hpos : 0 < (s.receive m).entries.entries.length := List.length_pos_of_mem (mem_entries.2 hlast)
  have hbound : ¬((8192 : Nat) < (s.receive m).entries.entries.length ∨ (16 * 2 ^ 20 : Int) < (s.receive m).docBytes) :=
    fun hover => hbound ⟨hpos, hover⟩
  push Not at hbound
  refine ⟨⟨hafter, hbound.1, hbound.2⟩, by rw [hversion]; exact Nat.le_succ _, ?_, fun _ => hlast, ?_⟩
  · intro n e e' he he'
    rcases eq_or_ne n m.name with rfl | hne
    · rw [hlast] at he'
      cases he'
      exact .inr (hnew e he)
    · have hstay : (s.receive m).entry n = w.entry n := by
        rcases @entry_evictLocked {} w m.orders n w.entries.entries.length with hnone | hsame
        · rw [hs, hnone] at he'
          cases he'
        · rw [hs, hsame]
      rw [hstay, hw, entry_write_of_ne hne, he] at he'
      cases he'
      exact .inl ⟨rfl, rfl, rfl⟩
  · intro n e he hgone n' e' he'
    have hne : n ≠ m.name := by
      rintro rfl
      rw [hlast] at hgone
      cases hgone
    exact hevicted n e ((entry_write_of_ne hne).trans he) hgone n' e' he'

/-- A message that is not newer leaves all but when its name was seen. -/
theorem receive_older (h : s.Sound t) (ht : t < m.now) (hm : m.Validated) {e : PlEntry} (he : s.entry m.name = some e)
    (hs : s.ingest {} m.now m.orders m.name m.record m.doc m.seq =
      ({ s with entries := s.entries.insert m.name { e with lastSeen := m.now } }, false)) :
    (s.receive m).Sound m.now ∧ s.Stored m := by
  have hreceive : s.receive m = { s with entries := s.entries.insert m.name { e with lastSeen := m.now } } := by
    rw [receive, hs]
  have hperm := perm_cons_erase he
  have hcounted : (s.receive m).Counted m.now := by
    rw [hreceive]
    refine h.insert ht hm.name rfl (h.ver_le _ (mem_entries.2 he)) (le_refl _) ?_ ?_
    · intro x hx heq
      have hnodup := (hperm.map fun e => e.2.ver).nodup_iff.1 h.vers
      exact (List.nodup_cons.1 hnodup).1 (List.mem_map.2 ⟨x, hx, heq⟩)
    · have hold : oldSize s m.name = e.doc.length := by
        rw [oldSize, he]
        rfl
      have hkept : ({ e with lastSeen := m.now } : PlEntry).doc.length = e.doc.length := rfl
      omega
  have hlen : (s.receive m).entries.entries.length = s.entries.entries.length := by
    rw [hreceive, hperm.length_eq]
    rfl
  refine ⟨⟨hcounted, hlen.le.trans h.ents, by rw [hreceive]; exact h.bytes⟩, by rw [hreceive], ?_, ?_, ?_⟩
  · intro n e₁ e₂ he₁ he₂
    rw [hreceive] at he₂
    rcases eq_or_ne n m.name with rfl | hne
    · rw [he] at he₁
      cases he₁
      cases (AList.lookup_insert _).symm.trans he₂
      exact .inl ⟨rfl, rfl, rfl⟩
    · cases he₁.symm.trans ((AList.lookup_insert_ne hne).symm.trans he₂)
      exact .inl ⟨rfl, rfl, rfl⟩
  · intro hnew
    rw [hs] at hnew
    cases hnew
  · intro n e₁ he₁ hgone
    rw [hreceive] at hgone
    rcases eq_or_ne n m.name with rfl | hne
    · cases (AList.lookup_insert _).symm.trans hgone
    · cases he₁.symm.trans ((AList.lookup_insert_ne hne).symm.trans hgone)

theorem Sound.receive (h : s.Sound t) (ht : t < m.now) (hm : m.Validated) : (s.receive m).Sound m.now ∧ s.Stored m := by
  cases he : s.entry m.name with
  | none =>
    refine receive_newer h ht hm ?_ ?_
    · rw [PlaylistStore.receive, ingest, he]
    · intro e he'
      rw [he] at he'
      cases he'
  | some e =>
    by_cases hle : m.seq ≤ e.seq
    · refine receive_older h ht hm he ?_
      rw [ingest, he]
      exact if_pos hle
    · refine receive_newer h ht hm ?_ ?_
      · rw [PlaylistStore.receive, ingest, he]
        simp only [if_neg hle]
      · intro e' he'
        rw [he] at he'
        cases he'
        exact UInt64.not_le.1 hle

end PlaylistStore

open PlaylistStore in
/-- Validated messages at later and later times leave a buffer sound, and each of them does what it should. -/
theorem buffered (storeDocs : Bool) {ms : List Message} (hclock : (ms.map (·.now)).Pairwise (· < ·))
    (hvalid : ∀ m ∈ ms, m.Validated) :
    (∀ k, ∃ now, (Runs.state receive { storeDocs } ms k).Sound now) ∧
      ∀ k m, ms[k]? = some m → (Runs.state receive { storeDocs } ms k).Stored m := by
  have hrun : ∀ k, k ≤ ms.length → ∃ t, (Runs.state receive { storeDocs } ms k).Sound t ∧ ∀ m ∈ ms.drop k, t < m.now := by
    intro k
    induction k with
    | zero =>
      intro _
      rcases ms with _ | ⟨m, ms⟩
      · exact ⟨0, .empty, by simp⟩
      · refine ⟨m.now - 1, .empty, ?_⟩
        intro x hx
        rcases List.mem_cons.1 hx with rfl | hx
        · omega
        · rw [List.map_cons, List.pairwise_cons] at hclock
          have := hclock.1 _ (List.mem_map_of_mem hx)
          omega
    | succ k ih =>
      intro hk
      obtain ⟨t, hs, hlater⟩ := ih (Nat.le_of_lt hk)
      have hm : ms[k]? = some ms[k] := List.getElem?_eq_getElem hk
      have hdrop := List.drop_eq_getElem_cons hk
      rw [hdrop] at hlater
      refine ⟨ms[k].now, ?_, ?_⟩
      · rw [Runs.state_succ hm]
        exact (hs.receive (hlater _ List.mem_cons_self) (hvalid _ (List.getElem_mem hk))).1
      · intro x hx
        have hpair := hclock.sublist ((List.drop_sublist k ms).map _)
        rw [hdrop, List.map_cons, List.pairwise_cons] at hpair
        exact hpair.1 _ (List.mem_map_of_mem hx)
  refine ⟨fun k => ?_, ?_⟩
  · rcases le_total k ms.length with hk | hk
    · obtain ⟨t, hs, -⟩ := hrun k hk
      exact ⟨t, hs⟩
    · obtain ⟨t, hs, -⟩ := hrun ms.length (le_refl _)
      rw [Runs.state_of_le hk]
      exact ⟨t, hs⟩
  · intro k m hm
    obtain ⟨hk, hget⟩ := List.getElem?_eq_some_iff.1 hm
    obtain ⟨t, hs, hlater⟩ := hrun k hk.le
    have hmem : m ∈ ms.drop k := by
      rw [List.drop_eq_getElem_cons hk, hget]
      simp
    exact (hs.receive (hlater m hmem) (hvalid m (List.mem_of_getElem? hm))).2

def again : List Message := [⟨1, fun _ => Sync.asListed, "p", [], [7], 5⟩, ⟨2, fun _ => Sync.asListed, "p", [], [8], 5⟩]

/-- A playlist is stored, and seen again. -/
theorem buffered_again : (Runs.state PlaylistStore.receive { storeDocs := true } again 2).docBytes = 1 := by
  have hclock : (again.map (·.now)).Pairwise (· < ·) := by simp [again]
  have hvalid : ∀ m ∈ again, m.Validated := by
    intro m hm
    rcases List.mem_pair.1 hm with rfl | rfl <;> exact ⟨by decide, by decide⟩
  obtain ⟨now, hs⟩ := (buffered true hclock hvalid).1 2
  rw [hs.docBytes]
  rfl

end TrackerStream.Relay
