import TrackerStream.CatalogIngest
import TrackerStream.Proofs.StoreGrows

/-!
# What the master holds of its catalog

`Kept`: every catalogued root is one from which the module comes back byte for byte, and one that is the source's alone
is pinned. `Leaves` is what an act leaves as it was, for the sources of a set: the rely of one operation and the
guarantee of the others. Each act that keeps the one and does the other is a lemma here.
-/

namespace TrackerStream.CatalogIngest

/-- The archive: the file of each source, what all blocks are made from, and whose a root is if it is only one's. -/
structure Corpus where
  file : String → Bytes
  all : List Payload
  owner : String → Option String

namespace Corpus

/-- The source has a root of its own. -/
def Owns (K : Corpus) (source : String) : Prop := ∃ root, K.owner root = some source

/-- The root is no other source's. -/
def Mine (K : Corpus) (source root : String) : Prop := ∀ t, K.owner root = some t → t = source

end Corpus

/-- A row as the node sees it. -/
structure Entry where
  id : Nat
  source : String
  root : String

def Db.entries (db : Db) : List Entry := db.modules.map fun x => ⟨x.1, x.2.source, x.2.rootCid⟩

/-- The module comes back from the blocks. -/
def Restored (lib : Lib) (blocks : List Block) (root : String) (file : Bytes) : Prop :=
  ∃ cid, lib.parse root = some cid ∧ Web.reassembleAny lib.codec lib.flac (getBlock blocks) cid = .ok file

structure Kept (lib : Lib) (K : Corpus) (s : Store) : Prop where
  ids : (s.db.entries.map Entry.id).Nodup
  sources : (s.db.entries.map Entry.source).Nodup
  blocks : ∀ b ∈ s.blocks, ∀ p ∈ K.all, b.cid = (lib.codec.block p).cid → b.bytes = (lib.codec.block p).bytes
  restored : ∀ x ∈ s.db.entries, Restored lib s.blocks x.root (K.file x.source)
  mine : ∀ x ∈ s.db.entries, K.Mine x.source x.root
  pinned : ∀ x ∈ s.db.entries, K.owner x.root = some x.source → x.root ∈ s.pins

/-- Blocks stay, rows keep their ids, and for the sources of `P` the row's root and their own pins stay. -/
structure Leaves (K : Corpus) (P : String → Prop) (s s' : Store) : Prop where
  blocks : ∀ cid b, BlockStore.find Block.cid s.blocks cid = some b → BlockStore.find Block.cid s'.blocks cid = some b
  entries : ∀ x ∈ s.db.entries, ∃ x' ∈ s'.db.entries, x'.id = x.id ∧ x'.source = x.source
  row : ∀ t, P t → s'.db.sourceMeta t = s.db.sourceMeta t
  pins : ∀ t, P t → ∀ root, K.owner root = some t → root ∈ s.pins → root ∈ s'.pins

namespace Leaves
variable {K : Corpus} {P P' : String → Prop} {s s' s'' : Store}

theorem refl (s : Store) : Leaves K P s s :=
  ⟨fun _ _ h => h, fun x hx => ⟨x, hx, rfl, rfl⟩, fun _ _ => rfl, fun _ _ _ _ h => h⟩

theorem trans (h : Leaves K P s s') (h' : Leaves K P s' s'') : Leaves K P s s'' := by
  refine ⟨fun cid b hb => h'.blocks _ _ (h.blocks _ _ hb), fun x hx => ?_, fun t ht => (h'.row t ht).trans (h.row t ht),
    fun t ht root hroot hr => h'.pins t ht root hroot (h.pins t ht root hroot hr)⟩
  obtain ⟨x', hx', hid, hsource⟩ := h.entries x hx
  obtain ⟨x'', hx'', hid', hsource'⟩ := h'.entries x' hx'
  exact ⟨x'', hx'', hid'.trans hid, hsource'.trans hsource⟩

theorem mono (h : Leaves K P s s') (hP : ∀ t, P' t → P t) : Leaves K P' s s' :=
  ⟨h.blocks, h.entries, fun t ht => h.row t (hP t ht), fun t ht => h.pins t (hP t ht)⟩

theorem covers (h : Leaves K P s s') : Covers (getBlock s.blocks) (getBlock s'.blocks) := by
  intro cid b hb
  rw [getBlock] at hb ⊢
  cases hfind : BlockStore.find Block.cid s.blocks cid with
  | none =>
    rw [hfind] at hb
    cases hb
  | some b' =>
    rw [hfind] at hb
    rw [h.blocks cid b' hfind]
    exact hb

end Leaves

theorem Restored.covers {lib : Lib} {blocks blocks' : List Block} {root : String} {file : Bytes}
    (h : Restored lib blocks root file) (hcov : Covers (getBlock blocks) (getBlock blocks')) :
    Restored lib blocks' root file := by
  obtain ⟨cid, hparse, hre⟩ := h
  exact ⟨cid, hparse, reassembleAny_covers hcov file hre⟩

/-! ### The rows -/

namespace Db
variable {db : Db} {source : String} {id : Nat} {root : String} {m : ModuleRow} {now : Int}

theorem sourceMeta_eq : db.sourceMeta source = (db.entries.find? (·.source = source)).map fun x => (x.id, x.root) := by
  rw [sourceMeta, entries, List.find?_map, Option.map_map]
  rfl

theorem mem_of_sourceMeta (h : db.sourceMeta source = some (id, root)) : ⟨id, source, root⟩ ∈ db.entries := by
  rw [sourceMeta_eq] at h
  obtain ⟨⟨id', source', root'⟩, hfind, heq⟩ := Option.map_eq_some_iff.1 h
  obtain rfl : source' = source := by simpa using List.find?_some hfind
  obtain ⟨rfl, rfl⟩ := Prod.mk.inj heq
  exact List.mem_of_find?_eq_some hfind

theorem not_mem_of_sourceMeta (h : db.sourceMeta source = none) : ∀ x ∈ db.entries, x.source ≠ source := by
  rw [sourceMeta_eq, Option.map_eq_none_iff, List.find?_eq_none] at h
  exact fun x hx hs => h x hx (decide_eq_true hs)

theorem entries_updateWhere {p : Nat × ModuleRow → Bool} {f : ModuleRow → ModuleRow}
    (hf : ∀ m, (f m).source = m.source ∧ (f m).rootCid = m.rootCid) : (db.updateWhere p f).entries = db.entries := by
  rw [entries, entries, updateWhere, List.map_map]
  refine List.map_congr_left fun x _ => ?_
  rw [Function.comp_apply]
  split
  · rw [(hf x.2).1, (hf x.2).2]
  · rfl

@[simp] theorem entries_setMd5 {md5 : String} : (db.setMd5 source md5).entries = db.entries :=
  entries_updateWhere fun _ => ⟨rfl, rfl⟩

@[simp] theorem entries_upsertGenre {label : Nat × String} : (db.upsertGenre label).entries = db.entries := by
  rw [upsertGenre]
  split <;> rfl

@[simp] theorem entries_clearGenres : db.clearGenres.entries = db.entries := entries_updateWhere fun _ => ⟨rfl, rfl⟩

@[simp] theorem entries_stampGenre {x : String × Nat} : (db.stampGenre x).entries = db.entries :=
  entries_updateWhere fun _ => ⟨rfl, rfl⟩

theorem entries_foldl {α : Type} {f : Db → α → Db} (hf : ∀ db a, (f db a).entries = db.entries) (xs : List α) :
    (xs.foldl f db).entries = db.entries := by
  induction xs generalizing db with
  | nil => rfl
  | cons a xs ih => rw [List.foldl_cons, ih, hf]

theorem entries_setRoot {n : Nat} :
    (db.setRoot id root n).entries = db.entries.map fun x => if x.id = id then { x with root } else x := by
  rw [entries, entries, setRoot, updateWhere, List.map_map, List.map_map]
  refine List.map_congr_left fun x _ => ?_
  by_cases h : x.1 = id <;> simp [h]

theorem lt_nextId {x : Entry} (hx : x ∈ db.entries) : x.id < db.nextId := by
  obtain ⟨y, hy, rfl⟩ := List.mem_map.1 hx
  have hle : ∀ {xs : List Nat} {n : Nat}, n ∈ xs → n ≤ xs.foldr max 0 := by
    intro xs n hn
    induction xs with
    | nil => cases hn
    | cons a xs ih =>
      rcases List.mem_cons.1 hn with rfl | hn
      · exact le_max_left _ _
      · exact (ih hn).trans (le_max_right _ _)
  exact Nat.lt_succ_of_le (hle (List.mem_map_of_mem hy))

/-- A row whose source is new is put behind the others. -/
theorem entries_insertRow : (db.insertRow m now).2.entries = db.entries ∨
    (∀ x ∈ db.entries, x.source ≠ m.source) ∧
      (db.insertRow m now).2.entries = db.entries ++ [⟨db.nextId, m.source, m.rootCid⟩] := by
  rw [insertRow]
  split
  · exact .inl rfl
  next h =>
    refine .inr ⟨fun x hx hs => h ?_, ?_⟩
    · obtain ⟨y, hy, rfl⟩ := List.mem_map.1 hx
      exact List.any_eq_true.2 ⟨y, hy, decide_eq_true hs⟩
    · rw [entries, entries, List.map_append]
      rfl

end Db

/-! ### The acts -/

section
variable {lib : Lib} {K : Corpus} {P : String → Prop} {s s' : Store}

/-- An act that leaves the node and the entries alone. -/
structure Same (s s' : Store) : Prop where
  blocks : s'.blocks = s.blocks
  pins : s'.pins = s.pins
  entries : s'.db.entries = s.db.entries

theorem Same.leaves (h : Same s s') : Leaves K P s s' := by
  refine ⟨fun cid b hb => h.blocks ▸ hb, fun x hx => ⟨x, h.entries ▸ hx, rfl, rfl⟩, fun t _ => ?_,
    fun _ _ _ _ hr => h.pins ▸ hr⟩
  rw [Db.sourceMeta_eq, Db.sourceMeta_eq, h.entries]

theorem Kept.same (hk : Kept lib K s) (h : Same s s') : Kept lib K s' :=
  ⟨h.entries ▸ hk.ids, h.entries ▸ hk.sources, h.blocks ▸ hk.blocks,
    fun x hx => h.blocks ▸ hk.restored x (h.entries ▸ hx), fun x hx => hk.mine x (h.entries ▸ hx),
    fun x hx ho => h.pins ▸ hk.pinned x (h.entries ▸ hx) ho⟩

/-- The acts that leave the node and the entries alone. -/
def Quiet : Act → Prop
  | .insertRow _ | .setRoot _ _ _ | .blockPutMany _ | .pinAdd _ | .pinRm _ => False
  | _ => True

theorem same_effect (lib : Lib) {e : Act} (he : Quiet e) (now : Int) (s : Store) : Same s (effect lib e now s).2 := by
  cases e with
  | insertRow m => cases he
  | setRoot id root n => cases he
  | blockPutMany bs => cases he
  | pinAdd root => cases he
  | pinRm root => cases he
  | setMd5 source md5 => exact ⟨rfl, rfl, Db.entries_setMd5⟩
  | upsertGenres labels => exact ⟨rfl, rfl, Db.entries_foldl (fun _ _ => Db.entries_upsertGenre) labels⟩
  | stampGenres byMd5 clearFirst =>
    refine ⟨rfl, rfl, (Db.entries_foldl (fun _ _ => Db.entries_stampGenre) byMd5).trans ?_⟩
    split
    · exact Db.entries_clearGenres
    · rfl
  | insertFts e => dsimp only [effect]; split <;> exact ⟨rfl, rfl, rfl⟩
  | insertNames e => dsimp only [effect]; split <;> exact ⟨rfl, rfl, rfl⟩
  | createFts => dsimp only [effect]; split <;> exact ⟨rfl, rfl, rfl⟩
  | fillFts => dsimp only [effect]; split <;> exact ⟨rfl, rfl, rfl⟩
  | createNames => dsimp only [effect]; split <;> exact ⟨rfl, rfl, rfl⟩
  | fillNames => dsimp only [effect]; split <;> exact ⟨rfl, rfl, rfl⟩
  | createTables => exact ⟨rfl, rfl, rfl⟩
  | getSourceMeta source => exact ⟨rfl, rfl, rfl⟩
  | md5Missing source => exact ⟨rfl, rfl, rfl⟩
  | dropFts => exact ⟨rfl, rfl, rfl⟩
  | dropNames => exact ⟨rfl, rfl, rfl⟩
  | bakeWorker bakeV4 m => exact ⟨rfl, rfl, rfl⟩

/-- The node's hash of one of the payloads is the client's of no other. -/
def Agrees (lib : Lib) (all : List Payload) : Prop := ∀ p ∈ all, ∀ q ∈ all,
  lib.nodeSha256 (lib.codec.block q).bytes = lib.codec.sha256 (lib.codec.block p).bytes →
    (lib.codec.block q).bytes = (lib.codec.block p).bytes

/-- Blocks are put. -/
theorem Kept.blockPutMany (hk : Kept lib K s) (hnode : Agrees lib K.all) {bs : List Block}
    (hbs : ∀ b ∈ bs, ∃ q ∈ K.all, b = lib.codec.block q) (now : Int) :
    Kept lib K (effect lib (.blockPutMany bs) now s).2 ∧ Leaves K P s (effect lib (.blockPutMany bs) now s).2 := by
  have hleaves : Leaves K P s (effect lib (.blockPutMany bs) now s).2 :=
    ⟨fun _ _ hb => BlockStore.find_putAll_of_some hb, fun x hx => ⟨x, hx, rfl, rfl⟩, fun _ _ => rfl, fun _ _ _ _ h => h⟩
  refine ⟨⟨hk.ids, hk.sources, fun b hb p hp hcid => ?_, fun x hx => (hk.restored x hx).covers hleaves.covers, hk.mine,
    hk.pinned⟩, hleaves⟩
  rcases BlockStore.mem_putAll hb with hb | hb
  · exact hk.blocks b hb p hp hcid
  · obtain ⟨b', hb', rfl⟩ := List.mem_map.1 hb
    obtain ⟨q, hq, rfl⟩ := hbs b' hb'
    refine hnode p hp q hq ?_
    rw [← Codec.block_digest, ← hcid]
    rfl

theorem Kept.pinAdd (hk : Kept lib K s) (root : Cid) (now : Int) :
    Kept lib K (effect lib (.pinAdd root) now s).2 ∧ Leaves K P s (effect lib (.pinAdd root) now s).2 :=
  ⟨⟨hk.ids, hk.sources, hk.blocks, hk.restored, hk.mine, fun x hx ho => List.mem_cons_of_mem _ (hk.pinned x hx ho)⟩,
    fun _ _ hb => hb, fun x hx => ⟨x, hx, rfl, rfl⟩, fun _ _ => rfl, fun _ _ _ _ h => List.mem_cons_of_mem _ h⟩

/-- What a root must be for the row of its source. -/
structure Good (lib : Lib) (K : Corpus) (source root : String) (s : Store) : Prop where
  restored : Restored lib s.blocks root (K.file source)
  mine : K.Mine source root
  pinned : K.owner root = some source → root ∈ s.pins

theorem Kept.good (hk : Kept lib K s) {x : Entry} (hx : x ∈ s.db.entries) : Good lib K x.source x.root s :=
  ⟨hk.restored x hx, hk.mine x hx, hk.pinned x hx⟩

theorem Good.leaves {source root : String} (h : Good lib K source root s) (hs : Leaves K P s s')
    (hP : K.Owns source → P source) : Good lib K source root s' :=
  ⟨h.restored.covers hs.covers, h.mine, fun ho => hs.pins source (hP ⟨root, ho⟩) root ho (h.pinned ho)⟩

/-- The parts of `Kept` that are about the entries. -/
theorem Kept.of_good (hk : Kept lib K s) (hblocks : s'.blocks = s.blocks)
    (hids : (s'.db.entries.map Entry.id).Nodup) (hsources : (s'.db.entries.map Entry.source).Nodup)
    (hgood : ∀ x ∈ s'.db.entries, Good lib K x.source x.root s') : Kept lib K s' :=
  ⟨hids, hsources, hblocks ▸ hk.blocks, fun x hx => (hgood x hx).restored, fun x hx => (hgood x hx).mine,
    fun x hx => (hgood x hx).pinned⟩

/-- A row is added. -/
theorem Kept.insertRow (hk : Kept lib K s) {m : ModuleRow} (hm : Good lib K m.source m.rootCid s)
    (hP : ∀ t, P t → t ≠ m.source) (now : Int) :
    Kept lib K (effect lib (.insertRow m) now s).2 ∧ Leaves K P s (effect lib (.insertRow m) now s).2 := by
  have hinsert : (s.db.insertRow m now).2.entries = s.db.entries ∨ _ := Db.entries_insertRow
  rcases hinsert with heq | ⟨hnew, heq⟩
  · have hsame : Same s (effect lib (.insertRow m) now s).2 := ⟨rfl, rfl, heq⟩
    exact ⟨hk.same hsame, hsame.leaves⟩
  have heq' : (effect lib (.insertRow m) now s).2.db.entries = s.db.entries ++ [⟨s.db.nextId, m.source, m.rootCid⟩] := heq
  constructor
  · refine hk.of_good rfl ?_ ?_ fun x hx => ?_
    · rw [heq', List.map_append]
      refine List.nodup_append.2 ⟨hk.ids, List.nodup_singleton _, fun i hi j hj hij => ?_⟩
      obtain ⟨x, hx, rfl⟩ := List.mem_map.1 hi
      rw [List.map_singleton, List.mem_singleton] at hj
      exact absurd (hij.trans hj) (Nat.ne_of_lt (Db.lt_nextId hx))
    · rw [heq', List.map_append]
      refine List.nodup_append.2 ⟨hk.sources, List.nodup_singleton _, fun i hi j hj hij => ?_⟩
      obtain ⟨x, hx, rfl⟩ := List.mem_map.1 hi
      rw [List.map_singleton, List.mem_singleton] at hj
      exact hnew x hx (hij.trans hj)
    · rw [heq'] at hx
      rcases List.mem_append.1 hx with hx | hx
      · exact ⟨hk.restored x hx, hk.mine x hx, hk.pinned x hx⟩
      · obtain rfl := List.mem_singleton.1 hx
        exact ⟨hm.restored, hm.mine, hm.pinned⟩
  · refine ⟨fun _ _ hb => hb, fun x hx => ⟨x, heq' ▸ List.mem_append_left _ hx, rfl, rfl⟩, fun t ht => ?_,
      fun _ _ _ _ h => h⟩
    rw [Db.sourceMeta_eq, Db.sourceMeta_eq, heq', List.find?_append]
    have hlast : ([⟨s.db.nextId, m.source, m.rootCid⟩] : List Entry).find? (fun x => decide (x.source = t)) = none := by
      rw [List.find?_cons_of_neg (by simpa using fun h : m.source = t => hP t ht h.symm), List.find?_nil]
    rw [hlast, Option.or_none]

/-- The row of a source is pointed at another root. -/
theorem Kept.setRoot (hk : Kept lib K s) {source root : String} {id n : Nat} (hroot : Good lib K source root s)
    (hid : ∀ x ∈ s.db.entries, x.id = id → x.source = source) (hP : ∀ t, P t → t ≠ source) (now : Int) :
    Kept lib K (effect lib (.setRoot id root n) now s).2 ∧ Leaves K P s (effect lib (.setRoot id root n) now s).2 := by
  have heq : (effect lib (.setRoot id root n) now s).2.db.entries =
      s.db.entries.map fun x => if x.id = id then { x with root } else x := Db.entries_setRoot
  have hmapid : (effect lib (.setRoot id root n) now s).2.db.entries.map Entry.id = s.db.entries.map Entry.id := by
    rw [heq, List.map_map]
    exact List.map_congr_left fun x _ => by rw [Function.comp_apply]; split <;> rfl
  have hmapsource : (effect lib (.setRoot id root n) now s).2.db.entries.map Entry.source =
      s.db.entries.map Entry.source := by
    rw [heq, List.map_map]
    exact List.map_congr_left fun x _ => by rw [Function.comp_apply]; split <;> rfl
  constructor
  · refine hk.of_good rfl (hmapid ▸ hk.ids) (hmapsource ▸ hk.sources) fun x hx => ?_
    rw [heq] at hx
    obtain ⟨y, hy, rfl⟩ := List.mem_map.1 hx
    split
    next h =>
      have hy' : Good lib K y.source root s := hid y hy h ▸ hroot
      exact ⟨hy'.restored, hy'.mine, hy'.pinned⟩
    next => exact ⟨hk.restored y hy, hk.mine y hy, hk.pinned y hy⟩
  · refine ⟨fun _ _ hb => hb, fun x hx => ?_, fun t ht => ?_, fun _ _ _ _ h => h⟩
    · refine ⟨_, heq ▸ List.mem_map_of_mem hx, ?_, ?_⟩ <;> split <;> rfl
    · rw [Db.sourceMeta_eq, Db.sourceMeta_eq, heq, List.find?_map, Option.map_map]
      have hpred : ((fun x : Entry => decide (x.source = t)) ∘ fun x : Entry => if x.id = id then { x with root } else x) =
          fun x => decide (x.source = t) := by
        funext x
        rw [Function.comp_apply]
        split <;> rfl
      rw [hpred]
      refine Option.map_congr fun x hx => ?_
      have hxt : x.source = t := by simpa using List.find?_some hx
      have hne : x.id ≠ id := fun h => hP t ht (hxt.symm.trans (hid x (List.mem_of_find?_eq_some hx) h))
      rw [Function.comp_apply, if_neg hne]

/-- The pin of a root that the row of its source no longer has goes. -/
theorem Kept.pinRm (hk : Kept lib K s) {source root : String} (hmine : K.Mine source root)
    (hgone : K.owner root = some source → ∀ x ∈ s.db.entries, x.source = source → x.root ≠ root)
    (hP : ∀ t, P t → t ≠ source) (now : Int) :
    Kept lib K (effect lib (.pinRm root) now s).2 ∧ Leaves K P s (effect lib (.pinRm root) now s).2 := by
  refine ⟨⟨hk.ids, hk.sources, hk.blocks, hk.restored, hk.mine, fun x hx ho => ?_⟩, fun _ _ hb => hb,
    fun x hx => ⟨x, hx, rfl, rfl⟩, fun _ _ => rfl, fun t ht r hr h => ?_⟩
  · refine List.mem_filter.2 ⟨hk.pinned x hx ho, decide_eq_true fun hroot => ?_⟩
    have hx' := hmine x.source (hroot ▸ ho)
    exact hgone (hx' ▸ hroot ▸ ho) x hx hx' hroot
  · refine List.mem_filter.2 ⟨h, decide_eq_true fun hroot => ?_⟩
    exact hP t ht (hmine t (hroot ▸ hr))

end

end TrackerStream.CatalogIngest
