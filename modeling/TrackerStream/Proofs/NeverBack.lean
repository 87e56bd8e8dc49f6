import TrackerStream.Resolve
import TrackerStream.Proofs.CatalogPropagates

/-!
# When a name goes back

A step changes the record of a name in one of three ways: it drops it, it stores a newer message, or it puts a record
without a look at the one held (`stored_step`, `cached_step`). So a name goes back just when one is put over a newer
one, or comes again after a newer one was dropped (`neverBack_iff_current`).
-/

namespace TrackerStream.Resolve.Resolver
open Catalog (IpnsStore CatalogMsg)

variable {Key Cid Pid Record : Type} {lib : Catalog.Libs Key Cid Pid Record} {rlib : IpnsLib} {caps : Relay.Caps}
  {r : Resolver Key} {acts : List (Act Cid)} {act : Act Cid} {name : String} {rec : Bytes} {q : Nat} {s : IpnsStore}
  {now : Int} {msg : CatalogMsg}

def idle : Resolver Unit := { node := Catalog.publisher, playlists := some { storeDocs := true }, hasDht := true, cache := ∅ }

end TrackerStream.Resolve.Resolver
