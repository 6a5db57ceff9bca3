import Async2.Collections.Expiry
import Async2.Collections.Refines
import Async2.Data.Pool
import Async2.Dns.Cache
import Async2.Hjson.Slices
import Async2.Hjson.Superset
import Async2.Http.Cancel
import Async2.Http.Clients
import Async2.Http.Headers
import Async2.Http.Held
import Async2.Json.RoundTrip
import Async2.MsgPack.Bounds
import Async2.MsgPack.RoundTrip
import Async2.Ownership.Copy
import Async2.Ownership.Cycles
import Async2.Ownership.Equality
import Async2.Ownership.Iteration
import Async2.Ownership.Leaks
import Async2.Ownership.PathReport
import Async2.Ownership.Sent
import Async2.Ownership.Tags
import Async2.Ownership.Unites
import Async2.Plugins.Callbacks
import Async2.Plugins.Unload
import Async2.Socket.Lifecycle
import Async2.Time.Clock
import Async2.Time.Timestamp
