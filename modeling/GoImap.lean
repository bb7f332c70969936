import GoImap.Tracker.Delivery
import GoImap.Server.Examine
import GoImap.MemServer.Locking
import GoImap.Wire.Resync
import GoImap.Wire.SevenBit
import GoImap.MemServer.Keywords
import GoImap.Internal.ListMatch
import GoImap.UIDMapping.Compress
import GoImap.Server.Output
import GoImap.Server.SelectAnswer
import GoImap.MemServer.ProgramRun
import GoImap.Client.SearchFraming
import GoImap.MemServer.SavedSearch
import GoImap.MemServer.Resync
import GoImap.MemServer.Fetch
import GoImap.Client.FetchAttribution
import GoImap.Fetch.BodyRoundTrip
import GoImap.Client.Continuations
import GoImap.Client.SearchResults
import GoImap.Wire.FlagList
import GoImap.Client.Snapshot
import GoImap.Client.Draining
import GoImap.MemServer.Metadata
import GoImap.Internal.ListCost
import GoImap.Server.Rights
import GoImap.MemServer.Sort
