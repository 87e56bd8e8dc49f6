import TrackerStream.Ipld
import TrackerStream.Runs

/-!
# The node's keys (`keystore.go`)

`Keystore` keeps named private keys in memory and one file for each. `Get` and `put` hold the lock, and `GetOrCreate` calls
one after the other, so that calls overlap between them; `List` takes the names under the lock and gets each key on its own.
A run is any interleaving of calls, a locked section at a time, with whatever the operating system answers.
-/

namespace TrackerStream.Keys

/-- The key library and `filepath.Join`. -/
structure Lib (κ : Type) where
  /-- `crypto.UnmarshalPrivateKey`. -/
  unmarshal : Bytes → Option κ
  /-- `crypto.MarshalPrivateKey`. -/
  marshal : κ → Option Bytes
  /-- `peer.IDFromPublicKey` of its public key. -/
  id : κ → Option String
  join : String → String → String

/-- What is marshaled is read back. -/
def Lib.RoundTrips {κ : Type} (lib : Lib κ) : Prop := ∀ k data, lib.marshal k = some data → lib.unmarshal data = some k

inductive Failure
  | mkdir | read | unmarshal (name : String) | marshal | write
deriving DecidableEq, Repr

/-- The contents of the files. -/
abbrev Disk := String → Option Bytes

/-- How `os.WriteFile` ends: it may not open the file, or write only its first bytes. -/
inductive Write
  | done | unopened | short (n : Nat)
deriving DecidableEq, Repr

def writeFile (disk : Disk) (path : String) (data : Bytes) : Write → Except Failure Unit × Disk
  | .done => (.ok (), Function.update disk path (some data))
  | .unopened => (.error .write, disk)
  | .short n => (.error .write, Function.update disk path (some (data.take n)))

/-- `dir` is empty for a keystore in memory only. -/
structure Keystore (κ : Type) where
  dir : String
  mem : AList fun _ : String => κ

variable {κ : Type} (lib : Lib κ)

namespace Keystore

def newKeystore (repo : String) (mkdirFails : Bool) : Except Failure (Keystore κ) :=
  if repo = "" then .ok ⟨"", ∅⟩ else if mkdirFails then .error .mkdir else .ok ⟨lib.join repo "keystore", ∅⟩

theorem newKeystore_mem {repo : String} {mkdirFails : Bool} {ks : Keystore κ} (h : newKeystore lib repo mkdirFails = .ok ks) :
    ks.mem = ∅ := by
  rw [newKeystore] at h
  split_ifs at h <;> cases h <;> rfl

variable (ks : Keystore κ) (disk : Disk)

def path (name : String) : String := lib.join ks.dir name

/-- The named key, from its file on first use; `readFails` is for any failure but that there is no file. -/
def Get (readFails : Bool) (name : String) : Except Failure (Option κ) × Keystore κ :=
  match ks.mem.lookup name with
  | some k => (.ok (some k), ks)
  | none =>
    if ks.dir = "" then (.ok none, ks)
    else if readFails then (.error .read, ks)
    else
      match disk (ks.path lib name) with
      | none => (.ok none, ks)
      | some data =>
        match lib.unmarshal data with
        | none => (.error (.unmarshal name), ks)
        | some k => (.ok (some k), { ks with mem := ks.mem.insert name k })

def put (write : Write) (name : String) (priv : κ) : Except Failure Unit × Keystore κ × Disk :=
  let ks : Keystore κ := { ks with mem := ks.mem.insert name priv }
  if ks.dir = "" then (.ok (), ks, disk)
  else
    match lib.marshal priv with
    | none => (.error .marshal, ks, disk)
    | some data =>
      let (r, disk) := writeFile disk (ks.path lib name) data write
      (r, ks, disk)

end Keystore

/-! ### Calls -/

inductive Call
  | get (name : String)
  | getOrCreate (name : String)
  | list

/-- Where a call stands, before its next locked section or system call. -/
inductive Pc (κ : Type)
  | get (name : String)
  /-- `GetOrCreate`: before its `Get`, before the key is generated, before its `put`. -/
  | lookup (name : String)
  | generate (name : String)
  | store (name : String) (priv : κ)
  /-- `List`: before the keys in memory, before the directory, before the `Get` of each name. -/
  | snapshot
  | readDir (names : List String)
  | rows (names : List String) (out : List (String × κ))
  /-- With the keys it gave; a row of `List` shows the ID of its key. -/
  | returned (keys : List (String × κ))
  | failed
deriving DecidableEq

/-- What the system answers while a call moves on. -/
structure Os (κ : Type) where
  readFails : Bool
  /-- `crypto.GenerateEd25519Key`. -/
  fresh : Option κ
  write : Write
  /-- `os.ReadDir`, less the directories. -/
  entries : Option (List String)
  /-- The place of the next name a map is ranged over at. -/
  next : Nat

structure World (κ : Type) where
  ks : Keystore κ
  disk : Disk
  calls : List (Pc κ)

def Call.start : Call → Pc κ
  | .get name => .get name
  | .getOrCreate name => .lookup name
  | .list => .snapshot

/-- The next locked section or system call of a call. -/
def Pc.move (ks : Keystore κ) (disk : Disk) (os : Os κ) : Pc κ → Pc κ × Keystore κ × Disk
  | .get name =>
    match ks.Get lib disk os.readFails name with
    | (.ok k, ks) => (.returned (k.toList.map (name, ·)), ks, disk)
    | (.error _, ks) => (.failed, ks, disk)
  | .lookup name =>
    match ks.Get lib disk os.readFails name with
    | (.ok (some k), ks) => (.returned [(name, k)], ks, disk)
    | (.ok none, ks) => (.generate name, ks, disk)
    | (.error _, ks) => (.failed, ks, disk)
  | .generate name =>
    match os.fresh with
    | some priv => (.store name priv, ks, disk)
    | none => (.failed, ks, disk)
  | .store name priv =>
    match ks.put lib disk os.write name priv with
    | (.ok (), ks, disk) => (.returned [(name, priv)], ks, disk)
    | (.error _, ks, disk) => (.failed, ks, disk)
  | .snapshot => (.readDir ks.mem.keys, ks, disk)
  | .readDir names =>
    if ks.dir = "" then (.rows names [], ks, disk)
    else
      match os.entries with
      | some entries => (.rows (names ++ entries).dedup [], ks, disk)
      | none => (.failed, ks, disk)
  | .rows [] out => (.returned out, ks, disk)
  | .rows (first :: names) out =>
    let name := (first :: names).getD os.next first
    match ks.Get lib disk os.readFails name with
    | (.ok (some k), ks) =>
      (.rows ((first :: names).erase name) (if (lib.id k).isSome then out ++ [(name, k)] else out), ks, disk)
    | (_, ks) => (.rows ((first :: names).erase name) out, ks, disk)
  | .returned keys => (.returned keys, ks, disk)
  | .failed => (.failed, ks, disk)

inductive Act (κ : Type)
  | call (c : Call)
  | move (i : Nat) (os : Os κ)

namespace World

def step (w : World κ) : Act κ → World κ
  | .call c => { w with calls := w.calls ++ [c.start] }
  | .move i os =>
    match w.calls[i]? with
    | some pc =>
      let (pc, ks, disk) := pc.move lib w.ks w.disk os
      ⟨ks, disk, w.calls.set i pc⟩
    | none => w

def after (w : World κ) (acts : List (Act κ)) (n : Nat) : World κ := Runs.state (step lib) w acts n

/-- Some call gave `k` for the key called `name`. -/
def Returned (w : World κ) (name : String) (k : κ) : Prop := ∃ keys, Pc.returned keys ∈ w.calls ∧ (name, k) ∈ keys

/-- A name means one key, and with a directory the one of its file, which a keystore opened anew reads. -/
structure Durable (w : World κ) : Prop where
  one : ∀ name k k', w.Returned name k → w.Returned name k' → k = k'
  stored : ∀ name k, w.Returned name k → w.ks.dir ≠ "" →
    ∃ data, w.disk (w.ks.path lib name) = some data ∧ lib.unmarshal data = some k
  reopened : ∀ name k, w.Returned name k → w.ks.dir ≠ "" →
    ((Keystore.mk w.ks.dir ∅).Get lib w.disk false name).1 = .ok (some k)

/-- A `put` still finds no key of its name and no file at its path, and writes the file. -/
def InOrder (w : World κ) : Act κ → Prop
  | .call _ => True
  | .move i os => ∀ name priv, w.calls[i]? = some (.store name priv) →
    w.ks.mem.lookup name = none ∧ (w.ks.dir ≠ "" → w.disk (w.ks.path lib name) = none ∧ os.write = .done ∧ (lib.marshal priv).isSome)

end World

/-! ### What stays -/

/-- Each key in memory is the one of its file. -/
def Keystore.Backed (ks : Keystore κ) (disk : Disk) : Prop :=
  ∀ name k, ks.mem.lookup name = some k → ks.dir ≠ "" → ∃ data, disk (ks.path lib name) = some data ∧ lib.unmarshal data = some k

/-- The later keystore has every key of the earlier. -/
structure Keystore.Extends (ks ks' : Keystore κ) : Prop where
  dir : ks'.dir = ks.dir
  mem : ∀ name k, ks.mem.lookup name = some k → ks'.mem.lookup name = some k

/-- The keys a call has so far. -/
def Pc.held : Pc κ → List (String × κ)
  | .returned keys => keys
  | .rows _ out => out
  | _ => []

/-- Each of these keys is in memory under its name. -/
def Keystore.Has (ks : Keystore κ) (keys : List (String × κ)) : Prop := ∀ p ∈ keys, ks.mem.lookup p.1 = some p.2

namespace Keystore
variable {ks ks' ks'' : Keystore κ} {disk : Disk}

theorem Extends.refl (ks : Keystore κ) : ks.Extends ks := ⟨rfl, fun _ _ h => h⟩

theorem Has.extends {keys : List (String × κ)} (h : ks.Has keys) (he : ks.Extends ks') : ks'.Has keys :=
  fun p hp => he.mem p.1 p.2 (h p hp)

theorem extends_insert {name : String} {k : κ} (hnone : ks.mem.lookup name = none) :
    ks.Extends { ks with mem := ks.mem.insert name k } where
  dir := rfl
  mem name' k' h := by
    rw [AList.lookup_insert_ne]
    · exact h
    · rintro rfl
      rw [hnone] at h
      cases h

theorem backed_insert {name : String} {k : κ} {data : Bytes} (h : ks.Backed lib disk) (hfile : disk (ks.path lib name) = some data)
    (hk : lib.unmarshal data = some k) : Backed lib { ks with mem := ks.mem.insert name k } disk := by
  intro name' k' hmem hdir
  by_cases hname : name' = name
  · subst hname
    obtain rfl : k = k' := by simpa using hmem
    exact ⟨data, hfile, hk⟩
  · exact h name' k' (by simpa [AList.lookup_insert_ne hname] using hmem) hdir

/-- What a `Get` gives is in memory afterwards, as it is in the file. -/
theorem Get_spec (h : ks.Backed lib disk) (readFails : Bool) (name : String) :
    ks.Extends (ks.Get lib disk readFails name).2 ∧ (ks.Get lib disk readFails name).2.Backed lib disk ∧
      ∀ k, (ks.Get lib disk readFails name).1 = .ok (some k) → (ks.Get lib disk readFails name).2.mem.lookup name = some k := by
  rw [Get]
  cases hmem : ks.mem.lookup name with
  | some k =>
    refine ⟨.refl ks, h, fun k' hk => ?_⟩
    obtain rfl : k = k' := by simpa using hk
    exact hmem
  | none =>
    simp only
    split_ifs with hdir hread
    · exact ⟨.refl ks, h, fun k hk => by simp at hk⟩
    · exact ⟨.refl ks, h, fun k hk => by simp at hk⟩
    · cases hfile : disk (ks.path lib name) with
      | none => exact ⟨.refl ks, h, fun k hk => by simp at hk⟩
      | some data =>
        simp only
        cases hk : lib.unmarshal data with
        | none => exact ⟨.refl ks, h, fun k hk => by simp at hk⟩
        | some k =>
          refine ⟨extends_insert hmem, backed_insert lib h hfile hk, fun k' hk' => ?_⟩
          obtain rfl : k = k' := by simpa using hk'
          exact AList.lookup_insert _

/-- A `put` in order adds its key to memory and, with a directory, the file. -/
theorem put_spec (hlib : lib.RoundTrips) (h : ks.Backed lib disk) {write : Write} {name : String} {priv : κ}
    (hnone : ks.mem.lookup name = none)
    (hfile : ks.dir ≠ "" → disk (ks.path lib name) = none ∧ write = .done ∧ (lib.marshal priv).isSome) :
    ks.Extends (ks.put lib disk write name priv).2.1 ∧
      (ks.put lib disk write name priv).2.1.Backed lib (ks.put lib disk write name priv).2.2 ∧
      (ks.put lib disk write name priv).2.1.mem.lookup name = some priv := by
  rw [put]
  by_cases hdir : ks.dir = ""
  · rw [if_pos hdir]
    exact ⟨extends_insert hnone, fun _ _ _ h => absurd hdir h, AList.lookup_insert _⟩
  · obtain ⟨hfree, rfl, hsome⟩ := hfile hdir
    obtain ⟨data, hdata⟩ := Option.isSome_iff_exists.1 hsome
    rw [if_neg hdir, hdata]
    refine ⟨extends_insert hnone, ?_, AList.lookup_insert _⟩
    refine backed_insert lib (fun name' k' hmem _ => ?_) (Function.update_self _ _ _) (hlib _ _ hdata)
    obtain ⟨data', hdata', hk'⟩ := h name' k' hmem hdir
    refine ⟨data', ?_, hk'⟩
    show Function.update disk (ks.path lib name) (some data) (ks.path lib name') = some data'
    rw [Function.update_of_ne]
    · exact hdata'
    · intro hpath
      rw [hpath, hfree] at hdata'
      cases hdata'

end Keystore

/-- What a call has stays in memory under its name, in memory as in the files. -/
theorem Pc.move_spec (hlib : lib.RoundTrips) {ks : Keystore κ} {disk : Disk} (os : Os κ) {pc : Pc κ} (h : ks.Backed lib disk)
    (hheld : ks.Has pc.held)
    (hput : ∀ name priv, pc = .store name priv → ks.mem.lookup name = none ∧
      (ks.dir ≠ "" → disk (ks.path lib name) = none ∧ os.write = .done ∧ (lib.marshal priv).isSome)) :
    ks.Extends (pc.move lib ks disk os).2.1 ∧ (pc.move lib ks disk os).2.1.Backed lib (pc.move lib ks disk os).2.2 ∧
      (pc.move lib ks disk os).2.1.Has (pc.move lib ks disk os).1.held := by
  have hnil : ∀ ks : Keystore κ, ks.Has [] := fun _ p hp => by simp at hp
  cases pc with
  | get name =>
    obtain ⟨hext, hback, hok⟩ := ks.Get_spec lib h os.readFails name
    rw [move]
    rcases hget : ks.Get lib disk os.readFails name with ⟨r, ks'⟩
    rw [hget] at hext hback hok
    cases r with
    | error e => exact ⟨hext, hback, hnil _⟩
    | ok k =>
      refine ⟨hext, hback, fun p hp => ?_⟩
      obtain ⟨k', hk', rfl⟩ := List.mem_map.1 hp
      exact hok k' (by rw [Option.mem_toList.1 hk'])
  | lookup name =>
    obtain ⟨hext, hback, hok⟩ := ks.Get_spec lib h os.readFails name
    rw [move]
    rcases hget : ks.Get lib disk os.readFails name with ⟨r, ks'⟩
    rw [hget] at hext hback hok
    cases r with
    | error e => exact ⟨hext, hback, hnil _⟩
    | ok k =>
      cases k with
      | none => exact ⟨hext, hback, hnil _⟩
      | some k =>
        refine ⟨hext, hback, fun p hp => ?_⟩
        obtain rfl := List.mem_singleton.1 hp
        exact hok k rfl
  | generate name =>
    rw [move]
    cases os.fresh <;> exact ⟨.refl ks, h, hnil _⟩
  | store name priv =>
    obtain ⟨hnone, hfile⟩ := hput name priv rfl
    obtain ⟨hext, hback, hmem⟩ := Keystore.put_spec lib hlib h hnone hfile
    rw [move]
    rcases hp : ks.put lib disk os.write name priv with ⟨r, ks', disk'⟩
    rw [hp] at hext hback hmem
    cases r with
    | error e => exact ⟨hext, hback, hnil _⟩
    | ok _ =>
      refine ⟨hext, hback, fun p hp => ?_⟩
      obtain rfl := List.mem_singleton.1 hp
      exact hmem
  | snapshot => exact ⟨.refl ks, h, hnil _⟩
  | readDir names =>
    rw [move]
    split
    · exact ⟨.refl ks, h, hnil _⟩
    · cases os.entries <;> exact ⟨.refl ks, h, hnil _⟩
  | rows names out =>
    cases names with
    | nil => exact ⟨.refl ks, h, hheld⟩
    | cons first names =>
      rw [move]
      generalize (first :: names).getD os.next first = name
      obtain ⟨hext, hback, hok⟩ := ks.Get_spec lib h os.readFails name
      rcases hget : ks.Get lib disk os.readFails name with ⟨r, ks'⟩
      rw [hget] at hext hback hok
      have hout : ks'.Has out := hheld.extends hext
      rcases r with e | _ | k
      · exact ⟨hext, hback, hout⟩
      · exact ⟨hext, hback, hout⟩
      · refine ⟨hext, hback, fun p hp => ?_⟩
        have hp : p ∈ (if (lib.id k).isSome then out ++ [(name, k)] else out) := hp
        split at hp
        · rcases List.mem_append.1 hp with hp | hp
          · exact hout p hp
          · obtain rfl := List.mem_singleton.1 hp
            exact hok k rfl
        · exact hout p hp
  | returned keys => exact ⟨.refl ks, h, hheld⟩
  | failed => exact ⟨.refl ks, h, hheld⟩

/-- What holds in every state of a run in order. -/
structure World.Sound (w : World κ) : Prop where
  backed : w.ks.Backed lib w.disk
  calls : ∀ pc ∈ w.calls, w.ks.Has pc.held

namespace World
variable {w : World κ}

theorem Sound.step (hlib : lib.RoundTrips) (h : w.Sound lib) {a : Act κ} (ha : w.InOrder lib a) : (w.step lib a).Sound lib := by
  cases a with
  | call c =>
    refine ⟨h.backed, fun pc hpc => ?_⟩
    rcases List.mem_append.1 hpc with hpc | hpc
    · exact h.calls pc hpc
    · obtain rfl := List.mem_singleton.1 hpc
      cases c <;> exact fun p hp => by cases hp
  | move i os =>
    rw [World.step]
    cases hi : w.calls[i]? with
    | none => exact h
    | some pc =>
      have hmem := List.mem_of_getElem? hi
      obtain ⟨hext, hback, hhas⟩ := Pc.move_spec lib hlib os h.backed (h.calls pc hmem) fun name priv hpc => ha name priv (hpc ▸ hi)
      refine ⟨hback, fun pc' hpc' => ?_⟩
      rcases List.mem_or_eq_of_mem_set hpc' with hpc' | rfl
      · exact (h.calls pc' hpc').extends hext
      · exact hhas

theorem Sound.durable (h : w.Sound lib) : w.Durable lib := by
  have hmem : ∀ name k, w.Returned name k → w.ks.mem.lookup name = some k := by
    rintro name k ⟨keys, hcall, hk⟩
    exact h.calls _ hcall (name, k) hk
  refine ⟨fun name k k' hk hk' => ?_, fun name k hk => h.backed name k (hmem name k hk), fun name k hk hdir => ?_⟩
  · exact Option.some.inj ((hmem name k hk).symm.trans (hmem name k' hk'))
  · obtain ⟨data, hfile, hdata⟩ := h.backed name k (hmem name k hk) hdir
    have hget : (Keystore.mk w.ks.dir ∅ : Keystore κ).path lib name = w.ks.path lib name := rfl
    rw [Keystore.Get, AList.lookup_empty]
    simp only
    rw [if_neg hdir, if_neg Bool.false_ne_true, hget, hfile]
    simp only [hdata]

/-- As long as every `put` still finds no key of its name and no file at its path, and writes the file, all calls that give a
key for a name give the same, and it is the one of the file. -/
theorem keys_durable (hlib : lib.RoundTrips) {repo : String} {mkdirFails : Bool} {ks : Keystore κ}
    (hks : Keystore.newKeystore lib repo mkdirFails = .ok ks) {disk : Disk} {acts : List (Act κ)}
    (hacts : Runs.Along (step lib) (InOrder lib) ⟨ks, disk, []⟩ acts) (n : Nat) : (after lib ⟨ks, disk, []⟩ acts n).Durable lib := by
  have hstart : (⟨ks, disk, []⟩ : World κ).Sound lib := 
    ⟨fun name k h => by simp [Keystore.newKeystore_mem lib hks] at h, fun pc hpc => by simp at hpc⟩
  exact (hacts.always hstart (fun _ _ ha hs => hs.step lib hlib ha) n).durable lib

end World

/-! ### Two runs -/

/-- Keys of one byte, that is also their file. -/
def byteLib : Lib UInt8 where
  unmarshal
    | [k] => some k
    | _ => none
  marshal k := some [k]
  id _ := some ""
  join dir name := dir ++ "/" ++ name

theorem byteLib_roundTrips : byteLib.RoundTrips := by
  rintro k data ⟨⟩
  rfl

/-- A new keystore on an empty directory. -/
def emptyWorld : World UInt8 := ⟨⟨byteLib.join "repo" "keystore", ∅⟩, fun _ => none, []⟩

def answers (fresh : UInt8) (write : Write) : Os UInt8 := ⟨false, some fresh, write, some [], 0⟩

/-- Two calls for one name look before either puts. -/
def overlapping : List (Act UInt8) :=
  [.call (.getOrCreate "catalog"), .call (.getOrCreate "catalog"), .move 0 (answers 1 .done), .move 1 (answers 2 .done),
    .move 0 (answers 1 .done), .move 1 (answers 2 .done), .move 0 (answers 1 .done), .move 1 (answers 2 .done)]

/-- A call that cannot write its file, then one that finds its key in memory. -/
def unwritten : List (Act UInt8) :=
  [.call (.getOrCreate "catalog"), .move 0 (answers 1 .unopened), .move 0 (answers 1 .unopened), .move 0 (answers 1 .unopened),
    .call (.get "catalog"), .move 1 (answers 1 .done)]

/-- Overlapping calls give two keys for one name, and a key that was never written is given as well. -/
theorem keys_lost : ¬(emptyWorld.after byteLib overlapping 8).Durable byteLib ∧ ¬(emptyWorld.after byteLib unwritten 6).Durable byteLib := by
  constructor
  · intro h
    have hfirst : (emptyWorld.after byteLib overlapping 8).Returned "catalog" 1 := ⟨[("catalog", 1)], by decide, by decide⟩
    have hsecond : (emptyWorld.after byteLib overlapping 8).Returned "catalog" 2 := ⟨[("catalog", 2)], by decide, by decide⟩
    exact absurd (h.one _ _ _ hfirst hsecond) (by decide)
  · intro h
    have hgiven : (emptyWorld.after byteLib unwritten 6).Returned "catalog" 1 := ⟨[("catalog", 1)], by decide, by decide⟩
    obtain ⟨data, hfile, -⟩ := h.stored _ _ hgiven (by decide)
    have hnone : (emptyWorld.after byteLib unwritten 6).disk ((emptyWorld.after byteLib unwritten 6).ks.path byteLib "catalog") = none := by
      decide
    rw [hnone] at hfile
    cases hfile

/-- A call on its own. -/
theorem keys_durable_alone : (emptyWorld.after byteLib
    [.call (.getOrCreate "catalog"), .move 0 (answers 1 .done), .move 0 (answers 1 .done), .move 0 (answers 1 .done)] 4).Durable byteLib := by
  have hks : Keystore.newKeystore byteLib "repo" false = .ok emptyWorld.ks := rfl
  refine World.keys_durable byteLib byteLib_roundTrips hks ?_ 4
  refine Runs.along_cons trivial (Runs.along_cons ?_ (Runs.along_cons ?_ (Runs.along_cons ?_ Runs.along_nil)))
  · rintro name priv ⟨⟩
  · rintro name priv ⟨⟩
  · rintro name priv ⟨⟩
    exact ⟨rfl, fun _ => ⟨rfl, rfl, rfl⟩⟩

end TrackerStream.Keys
