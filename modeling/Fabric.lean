import Fabric.Library.Transition
import Fabric.Library.Linearizability
import Fabric.Counter.Memory
import Fabric.Theorems.Counter.Linearizable
import Fabric.Tcp.Loopback
import Fabric.Tcp.Connection
import Fabric.Theorems.Tcp.Delivery
import Fabric.Theorems.Tcp.Stranding
import Fabric.Theorems.Tcp.Generations
import Fabric.Http.Server
import Fabric.Theorems.Http.Reading
import Fabric.Theorems.Http.Framing
import Fabric.Theorems.Http.Serving
import Fabric.Catalog.Reader
import Fabric.Catalog.Render
import Fabric.Theorems.Catalog.Canonical
import Fabric.Theorems.Catalog.Discovery
import Fabric.Theorems.Catalog.RoundTrip
import Fabric.Theorems.Catalog.Exactness
import Fabric.Theorems.Catalog.Query
import Fabric.Theorems.Catalog.Classification
import Fabric.Theorems.Queue.Fifo
import Fabric.Theorems.Http.Headers
import Fabric.Theorems.Http.Bounds
import Fabric.Theorems.Process.Deadlock
import Fabric.Theorems.Catalog.Search
import Fabric.Theorems.Catalog.Manifests
import Fabric.Theorems.Catalog.Markdown
import Fabric.Theorems.Http.Closing
import Fabric.Theorems.Process.Truthful
import Fabric.Theorems.Sqlite.Lifecycle
import Fabric.Theorems.Logging.Console
import Fabric.Theorems.Tcp.Addresses
import Fabric.Library.Locked
import Fabric.Theorems.KeyValue.Quickstart
import Fabric.Theorems.Queue.Concurrent
import Fabric.Theorems.ObservedQueue.Accounting
import Fabric.Theorems.Counter.LockFree
import Fabric.Theorems.Tcp.Stopping
import Fabric.Theorems.Ed25519.Signing
import Fabric.Theorems.Catalog.Tool
import Fabric.Theorems.Catalog.Answers
import Fabric.Theorems.Logging.Failing
import Fabric.Theorems.Http.Served
import Fabric.Theorems.Sqlite.Serializable
import Fabric.Theorems.LocalBackend.WriteRead
import Fabric.Theorems.Sqlite.Refusals
