import TrackerStream.WebPlaylists
import TrackerStream.Windows

/-!
# Serving playlist lists in the browser (`playlistlist.ts`)

The two guards of the browser and the handler that asks them: a token bucket for each peer, and the time each name was last
gossiped on request. Both tables are maps, which keep their keys in the order they were put in and drop the first when they
are full. What the handler does between two of its `await`s is one act.
-/

namespace TrackerStream

/-- A `Map` of the language. -/
structure JsMap (V : Type) where
  entries : List (String × V)
  nodup : (entries.map Prod.fst).Nodup

namespace JsMap
variable {V : Type}

def empty : JsMap V := ⟨[], .nil⟩

def size (m : JsMap V) : Nat := m.entries.length

def get (m : JsMap V) (k : String) : Option V := (m.entries.find? (·.1 = k)).map (·.2)

def delete (m : JsMap V) (k : String) : JsMap V :=
  ⟨m.entries.filter (·.1 ≠ k), m.nodup.sublist (List.filter_sublist.map _)⟩

/-- `m.delete(m.keys().next().value)`. -/
def deleteFirst (m : JsMap V) : JsMap V := ⟨m.entries.tail, m.nodup.sublist ((List.tail_sublist _).map _)⟩

theorem nodup_last (m : JsMap V) (k : String) (v : V) : (((m.delete k).entries ++ [(k, v)]).map Prod.fst).Nodup := by
  rw [List.map_append, List.map_singleton, ← List.concat_eq_append]
  refine (m.delete k).nodup.concat ?_
  simp [delete]

/-- `m.set(k, v)` for a key that is not there. -/
def setLast (m : JsMap V) (k : String) (v : V) : JsMap V := ⟨(m.delete k).entries ++ [(k, v)], m.nodup_last k v⟩

variable {m : JsMap V} {k n : String} {v : V}

theorem get_eq_none_iff : m.get k = none ↔ ∀ x ∈ m.entries, x.1 ≠ k := by
  rw [get, Option.map_eq_none_iff, List.find?_eq_none]
  exact forall₂_congr fun x _ => by simp

theorem get_setLast_self : (m.setLast k v).get k = some v := by
  rw [get, setLast, List.find?_append, List.find?_eq_none.2, Option.none_or, List.find?_cons_of_pos (by simp)]
  · rfl
  · simp [delete]

theorem get_delete_ne (h : n ≠ k) : (m.delete k).get n = m.get n := by
  rw [get, get, delete, List.find?_filter]
  congr 2
  funext x
  rw [Bool.eq_iff_iff, decide_eq_true_iff, decide_eq_true_iff, decide_eq_true_iff]
  refine ⟨And.right, fun hx => ⟨?_, hx⟩⟩
  rw [hx]
  exact h

theorem get_setLast_ne (h : n ≠ k) : (m.setLast k v).get n = m.get n := by
  have hfind : (m.setLast k v).get n = (((m.delete k).entries ++ [(k, v)]).find? fun x => x.1 = n).map (·.2) := rfl
  rw [hfind, List.find?_append, List.find?_cons_of_neg (by simpa using h.symm), List.find?_nil, Option.or_none]
  exact get_delete_ne h

/-- A key stays with the first one deleted, or is that. -/
theorem get_deleteFirst : m.deleteFirst.get n = none ∨ m.deleteFirst.get n = m.get n := by
  obtain ⟨entries, hnodup⟩ := m
  cases entries with
  | nil => exact .inr rfl
  | cons x xs =>
    by_cases hx : x.1 = n
    · refine .inl (get_eq_none_iff.2 fun y hy heq => ?_)
      exact (List.nodup_cons.1 hnodup).1 (hx.trans heq.symm ▸ List.mem_map_of_mem hy)
    · refine .inr ?_
      rw [get, get, List.find?_cons_of_neg (by simpa using hx)]
      rfl

theorem size_setLast : (m.setLast k v).size = (m.delete k).size + 1 := by
  rw [size, setLast, List.length_append, List.length_singleton, size]

theorem size_delete_le : (m.delete k).size ≤ m.size := List.length_filter_le ..

theorem size_delete_lt (h : m.get k ≠ none) : (m.delete k).size < m.size := by
  refine List.length_filter_lt_length_iff_exists.2 ?_
  by_contra hcon
  exact h (get_eq_none_iff.2 fun x hx heq => hcon ⟨x, hx, by simp [heq]⟩)

end JsMap

namespace WebPlaylistList
open Playlists (Row)
open WebPlaylists (disclosed liveRecord PL_MAX_ENTRIES)
open Windows (Meter)

def PL_WANT_MAX : Nat := 64
def WANT_COOLDOWN_SECS : ℚ := 30
def PEER_RATE_PER_SEC : ℚ := 1 / 10
def PEER_BURST : ℚ := 4
def PEER_TABLE_MAX : Nat := 4096
def COOLDOWN_TABLE_MAX : Nat := 1024

/-- `PeerRateLimiter.allow`: whether a request is served, and the buckets then. -/
def allowPeer (buckets : JsMap Meter) (peer : String) (nowSecs : ℚ) : Bool × JsMap Meter :=
  let (b, buckets) : Meter × JsMap Meter :=
    match buckets.get peer with
    | none => (⟨PEER_BURST, nowSecs⟩, if PEER_TABLE_MAX ≤ buckets.size then buckets.deleteFirst else buckets)
    | some b =>
      (⟨min PEER_BURST (b.tokens + (nowSecs - b.since) * PEER_RATE_PER_SEC), nowSecs⟩, buckets.delete peer)
  if b.tokens < 1 then (false, buckets.setLast peer b) else (true, buckets.setLast peer { b with tokens := b.tokens - 1 })

/-- `ReannounceCooldown.allow`: whether a name is gossiped again, and the times then. -/
def allowName (times : JsMap ℚ) (name : String) (nowSecs : ℚ) : Bool × JsMap ℚ :=
  if (times.get name).any fun last => nowSecs - last < WANT_COOLDOWN_SECS then (false, times)
  else
    let times := times.delete name
    let times := if COOLDOWN_TABLE_MAX ≤ times.size then times.deleteFirst else times
    (true, times.setLast name nowSecs)

structure State where
  /-- What `nowSecs` reads. -/
  clock : Int := 0
  plRate : JsMap Meter := .empty
  plCooldown : JsMap ℚ := .empty
  /-- The peers of the requests that were admitted. -/
  admitted : List String := []
  /-- The names that were let be gossiped again. -/
  reannounced : List String := []

/-- What the environment puts in at an act. -/
structure Input where
  /-- The seconds since the last act. -/
  elapsed : Nat := 0
  /-- The names of the frame of a request. -/
  request : Except String (List String) := .error ""
  rows : Except String (List (String × Row)) := .ok []
  /-- Whether a message, or the reply, could be sent. -/
  sent : Except String Unit := .ok ()

inductive Act
  /-- The clock is read, and the peer's bucket is charged. -/
  | admitPeer (peer : String)
  | read
  | list
  | allowName (name : String) (nowSecs : ℚ)
  | gossip (name record docJson : String)
  | write (rows : List (String × Row)) (reannounced : Nat)
  | abort

abbrev Ans : Act → Type
  | .admitPeer _ => ℚ × Bool
  | .read => Except String (List String)
  | .list => Except String (List (String × Row))
  | .allowName _ _ => Bool
  | .gossip _ _ _ => Except String Unit
  | .write _ _ => Except String Unit
  | .abort => Unit

/-- What each act does and is answered at the time it is done. -/
def serve : (e : Act) → Input → State → Ans e × State
  | .admitPeer peer, _, s =>
    ((s.clock, (allowPeer s.plRate peer s.clock).1),
      { s with
        plRate := (allowPeer s.plRate peer s.clock).2
        admitted := if (allowPeer s.plRate peer s.clock).1 then peer :: s.admitted else s.admitted })
  | .read, i, s => (i.request, s)
  | .list, i, s => (i.rows, s)
  | .allowName name nowSecs, _, s =>
    ((allowName s.plCooldown name nowSecs).1,
      { s with
        plCooldown := (allowName s.plCooldown name nowSecs).2
        reannounced := if (allowName s.plCooldown name nowSecs).1 then name :: s.reannounced else s.reannounced })
  | .gossip _ _ _, i, s => (i.sent, s)
  | .write _ _, i, s => (i.sent, s)
  | .abort, _, s => ((), s)

def world : Prog.World Act Ans Input State := fun e i s => serve e i { s with clock := s.clock + i.elapsed }

abbrev Serving (α : Type) := Prog Act Ans String α

def act (e : Act) : Serving (Ans e) := .call e

/-- One name of a request; how many were gossiped again. -/
def reannounce (now : ℚ) (manifest : List (String × Row)) (reannounced : Nat) (name : String) : Serving Nat :=
  match manifest.find? (·.1 = name) with
  | none => return reannounced
  | some row =>
    match liveRecord row.2 with
    | none => return reannounced
    | some record => do
      let allowed : Bool ← act (.allowName name now)
      if !allowed then return reannounced
      else
        let sent : Except String Unit ← act (.gossip name record row.2.doc_json)
        .ofExcept sent
        return reannounced + 1

/-- What is served once the peer is admitted. -/
def serveList (now : ℚ) : Serving Unit := do
  let frame : Except String (List String) ← act .read
  let want ← .ofExcept frame
  let rows : Except String (List (String × Row)) ← act .list
  let rows ← .ofExcept rows
  let manifest := rows.filter fun x => disclosed x.2
  let reannounced ← (want.take PL_WANT_MAX).foldlM (reannounce now manifest) 0
  let sent : Except String Unit ← act (.write (manifest.take PL_MAX_ENTRIES) reannounced)
  .ofExcept sent

def handlePlaylistList (peer : String) : Serving Unit := do
  let (now, allowed) : ℚ × Bool ← act (.admitPeer peer)
  if !allowed then act .abort
  else
    match ← (serveList now).attempt with
    | .ok _ => return ()
    | .error _ => act .abort

def system : Prog.System Act Ans String Input State String := ⟨world, fun _ _ => true, handlePlaylistList⟩

end WebPlaylistList

end TrackerStream
