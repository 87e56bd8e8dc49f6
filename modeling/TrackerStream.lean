import TrackerStream.Proofs.LinksTravel
import TrackerStream.Proofs.CatalogIndex
import TrackerStream.Proofs.CatalogRestores
import TrackerStream.Proofs.CatalogKept
import TrackerStream.Proofs.StoreGrows
import TrackerStream.CatalogIngest
import TrackerStream.Rely
import TrackerStream.Proofs.WebSearchIndex
import TrackerStream.PlaylistSearch
import TrackerStream.Proofs.SearchIndex
import TrackerStream.Proofs.Programs
import TrackerStream.Proofs.Newest
import TrackerStream.Proofs.Shares
import TrackerStream.Proofs.WebEvictions
import TrackerStream.Proofs.Evictions
import TrackerStream.Proofs.Creates
import TrackerStream.Proofs.WebPrivacy
import TrackerStream.Proofs.WebCertified
import TrackerStream.Proofs.Tombstones
import TrackerStream.SearchTerms
import TrackerStream.WarmBundle
import TrackerStream.Proofs.ChunkLaws
import TrackerStream.Proofs.SeedLast
import TrackerStream.Proofs.ServeWindows
import TrackerStream.Proofs.FenceSound
import TrackerStream.Proofs.StreamOrder
import TrackerStream.Proofs.StreamReady
import TrackerStream.Proofs.Sequences
import TrackerStream.VersionDispatch
import TrackerStream.Proofs.PlayedPcm
import TrackerStream.Proofs.Resident
import TrackerStream.Proofs.PlanComplete
import TrackerStream.Proofs.SlotsComplete
import TrackerStream.Proofs.Gated
import TrackerStream.Proofs.JoinKey
import TrackerStream.Proofs.RoundTripV1
import TrackerStream.Proofs.Dormant
import TrackerStream.Proofs.CatalogPropagates
import TrackerStream.Proofs.WebActs
import TrackerStream.Proofs.OwnSamples
import TrackerStream.Proofs.Isolation
import TrackerStream.Proofs.CursorComplete
import TrackerStream.Proofs.NeverBack
import TrackerStream.Proofs.PinsDurable
import TrackerStream.Proofs.NotRepeated
import TrackerStream.Proofs.CancelStops
import TrackerStream.Proofs.Transparent
import TrackerStream.Proofs.PanicFree
import TrackerStream.PutMany
import TrackerStream.Beacon
import TrackerStream.BakePool
import TrackerStream.BeaconCounts
import TrackerStream.Safename
import TrackerStream.Tszcat
import TrackerStream.ItPacking
import TrackerStream.Proofs.Checkpoints
import TrackerStream.Proofs.Reuse
import TrackerStream.Proofs.Recipe
import TrackerStream.Keystore
import TrackerStream.DhtFrames
import TrackerStream.Fwd
import TrackerStream.Floors
import TrackerStream.Proofs.FenceLaws
import TrackerStream.PlayQueue
import TrackerStream.PageTakes
import TrackerStream.PageWaves
import TrackerStream.Proofs.Buffered
