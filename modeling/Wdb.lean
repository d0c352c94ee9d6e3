import Wdb.Lib.Table
import Wdb.Lib.Runs
import Wdb.Lib.Versioned
import Wdb.Lib.ReadCommitted
import Wdb.Lib.Snapshots
import Wdb.Lib.NestedSet
import Wdb.Lib.SqlTypes
import Wdb.Provider.Members
import Wdb.Store.GridMax
import Wdb.Store.Clean
import Wdb.Store.FlatMap
import Wdb.Store.ConcurrentMax
import Wdb.Blob.Abort
import Wdb.Blob.Collector
import Wdb.Blob.References
import Wdb.Store.DataProviderQuery
import Wdb.Read.WciReadFloat
import Wdb.Place.SyncRuns
import Wdb.Place.DisjointRuns
import Wdb.Place.Resolve
import Wdb.Place.Paths
import Wdb.Place.Listing
import Wdb.Read.ReadStore
import Wdb.Session.Role
import Wdb.Blob.WriteFile
import Wdb.Blob.Reads
import Wdb.Read.GridPoints
import Wdb.Read.Handles
import Wdb.Store.CleanReferenceTimes
import Wdb.Place.GridCalls
import Wdb.Write.Agree
import Wdb.Read.Fetch
import Wdb.Write.ReadBack
import Wdb.Read.Interpolation
import Wdb.Read.MultiPolygon
import Wdb.Read.SurroundFloat
import Wdb.Read.PlaceNames
import Wdb.Read.Levels
import Wdb.Read.PlanCache
import Wdb.Lib.Traverse
import Wdb.Lib.SqlClauses
import Wdb.Lib.SqlConditions
import Wdb.Query.BuildQuery
import Wdb.Query.Quoting
import Wdb.Query.Additions
import Wdb.Query.Locations
import Wdb.Query.Containment
import Wdb.Query.BrowseTexts
import Wdb.Query.DataVersions
import Wdb.Query.TimesCase
import Wdb.Query.Times
import Wdb.Projection.Memo
import Wdb.Projection.Outline
import Wdb.Projection.Corners
import Wdb.Write.BlobSize
import Wdb.Parameter.Units
import Wdb.Parameter.AddParameter
import Wdb.Read.Median
import Wdb.Write.Patterns
import Wdb.Lib.OrderedMap
import Wdb.Configuration.WdbConfigFile
import Wdb.Lib.HalfAway
import Wdb.Lib.Hexadecimal
import Wdb.Blob.PathGenerator
import Wdb.Read.GeometryCache
import Wdb.Write.Automatic
import Wdb.Write.AutomaticFloats
import Wdb.Provider.Concurrent
import Wdb.Party.Registers
import Wdb.Query.Filters
import Wdb.Query.Selections
