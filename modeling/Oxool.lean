import Oxool.Delta.Client
import Oxool.Net.WebSocket.Connection
import Oxool.Net.Http.RoundTrip
import Oxool.Net.Http.CompactChunks
import Oxool.Wsd.Covered
import Oxool.Wsd.DataLoss
import Oxool.Wsd.Renaming
import Oxool.Wsd.Tracking
import Oxool.Wsd.RequestDetails
import Oxool.Proxy.RoundTrip
import Oxool.Wsd.AdminModel
import Oxool.Kit.Chain
import Oxool.Wsd.DeltaTracking
import Oxool.Wsd.SenderQueue
import Oxool.Kit.TextInput
import Oxool.Kit.TileRequests
import Oxool.Kit.Invalidations
import Oxool.Kit.Windows
import Oxool.Tile.RoundTrip
import Oxool.Wsd.Subscriptions
import Oxool.Wsd.TilesOnFly
import Oxool.Wsd.CacheSize
import Oxool.Wsd.Quarantine
import Oxool.Wsd.TraceReplay
import Oxool.Sheet.Lookup
import Oxool.Wsd.Eviction
import Oxool.Wsd.Invalidation
import Oxool.Net.Http.RangeUpload
import Oxool.Kit.Callbacks
import Oxool.Wsd.KeyframeRequests
import Oxool.Wsd.VisibleTiles
import Oxool.Lib.Paths
import Oxool.Modules.Files
import Oxool.Modules.Agents
import Oxool.Wsd.ClientSession
import Oxool.Wsd.ClientInput
import Oxool.Wsd.ReadOnly
import Oxool.Lib.Fuel
import Oxool.Sheet.GridLines
import Oxool.Sheet.PrintTwips
import Oxool.Sheet.ZoomedPixels
import Oxool.Browser.Tiles
import Oxool.Wsd.Traffic
import Oxool.Browser.GarbageCollect
import Oxool.Browser.TileRequests
import Oxool.Browser.Slurping
import Oxool.Browser.HexUrl
import Oxool.Browser.TileImages
import Oxool.Sheet.FailedUpdates
import Oxool.Delta.Scratch
import Oxool.Wsd.QuarantineNames
import Oxool.Kit.Clipboard
import Oxool.Net.Http.HeadParsing
import Oxool.Wsd.TraceSnapshots
import Oxool.Wsd.QuarantineSpace
import Oxool.Browser.Prefetch
import Oxool.Browser.CPolyUtil
import Oxool.Modules.Details
import Oxool.Modules.Loading
import Oxool.Modules.Dispatch
import Oxool.Modules.AdminService
import Oxool.Modules.IconTheme
import Oxool.Common.Authorization
import Oxool.Common.Timestamps
import Oxool.Delta.Iteration
import Oxool.Sheet.SpanSearch
import Oxool.Common.Tokenizing
import Oxool.Net.SocketOwners
import Oxool.Net.StreamSocket
import Oxool.Browser.TextInput
import Oxool.Kit.StateRecorder
import Oxool.Wsd.Pictures
import Oxool.Net.WebSocket.Link
