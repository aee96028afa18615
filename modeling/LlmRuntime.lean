import LlmRuntime.Base.Transition
import LlmRuntime.Requester.Model
import LlmRuntime.Requester.Steps
import LlmRuntime.Requester.Generation
import LlmRuntime.Requester.Fatal
import LlmRuntime.Base.JsMap
import LlmRuntime.PeerManager.Model
import LlmRuntime.PeerManager.Acts
import LlmRuntime.PeerManager.Accounting
import LlmRuntime.PeerManager.Delivery
import LlmRuntime.Base.Link
import LlmRuntime.PeerManager.Net
import LlmRuntime.PeerManager.Simulation
import LlmRuntime.PeerManager.Fidelity
import LlmRuntime.Base.Segment
import LlmRuntime.VirtualFile.Model
import LlmRuntime.VirtualFile.Table
import LlmRuntime.VirtualFile.Retrying
import LlmRuntime.VirtualFile.Preload
import LlmRuntime.VirtualFile.Reading
import LlmRuntime.Base.Decoder
import LlmRuntime.Base.LittleEndian
import LlmRuntime.Gguf.Model
import LlmRuntime.Gguf.Decoding
import LlmRuntime.Gguf.Prefix
import LlmRuntime.Probe.Model
import LlmRuntime.Probe.Reading
import LlmRuntime.Probe.Agreement
import LlmRuntime.PeerManager.Representation
import LlmRuntime.PeerManager.Callbacks
import LlmRuntime.Base.Mirror
import LlmRuntime.PeerManager.Rest
import LlmRuntime.Requester.Cancelling
import LlmRuntime.Base.Lease
import LlmRuntime.Peer.Model
import LlmRuntime.Peer.Steps
import LlmRuntime.Requester.Stopping
import LlmRuntime.Peer.Stopping
import LlmRuntime.Shutdown
import LlmRuntime.VirtualFile.Short
import LlmRuntime.BackendOps.Model
import LlmRuntime.BackendOps.Counting
import LlmRuntime.BackendOps.Judging
import LlmRuntime.BackendOps.Cases
import LlmRuntime.Gguf.Rounds
import LlmRuntime.Base.Binary64
import LlmRuntime.Gguf.Alignment
import LlmRuntime.VirtualFile.PastEnd
import LlmRuntime.PeerManager.Sending
import LlmRuntime.PeerManager.Stream
import LlmRuntime.Requester.Fitting
import LlmRuntime.Base.Register
import LlmRuntime.LanProbe.Model
import LlmRuntime.LanProbe.Converging
import LlmRuntime.Base.Checks
import LlmRuntime.Base.Ledger
import LlmRuntime.Build.Model
import LlmRuntime.Build.Provenance
import LlmRuntime.Build.Writing
import LlmRuntime.Build.Gate
import LlmRuntime.Base.Cleanup
import LlmRuntime.Build.Publishing
import LlmRuntime.Base.Doubling
import LlmRuntime.Probe.Growth
import LlmRuntime.Probe.Limit
import LlmRuntime.Serving.Model
import LlmRuntime.Serving.Ranges
import LlmRuntime.Base.Ipv4
import LlmRuntime.LanProbe.Origins
import LlmRuntime.Probe.Report
import LlmRuntime.Crosscheck.Model
import LlmRuntime.Crosscheck.Passing
import LlmRuntime.Crosscheck.Output
import LlmRuntime.Crosscheck.Completeness
import LlmRuntime.Base.Kernel
import LlmRuntime.MulMatId.Model
import LlmRuntime.MulMatId.Gathering
import LlmRuntime.MulMatId.Ending
import LlmRuntime.MulMatId.Assigning
import LlmRuntime.MulMatId.Tiles
import LlmRuntime.MulMatId.Writing
import LlmRuntime.MulMatId.Encoding
import LlmRuntime.VirtualFile.Opening
import LlmRuntime.VirtualFile.Sharing
import LlmRuntime.Serving.Loading
import LlmRuntime.PeerManager.Pipe
import LlmRuntime.Base.Utf8
import LlmRuntime.Requester.Output
import LlmRuntime.Base.Promise
import LlmRuntime.Base.Journal
import LlmRuntime.ChunkCache.Model
import LlmRuntime.ChunkCache.Answering
import LlmRuntime.ChunkCache.Reading
import LlmRuntime.Gguf.Lockstep
import LlmRuntime.Serving.Probing
import LlmRuntime.PeerManager.Stats
import LlmRuntime.Soak.Model
import LlmRuntime.Soak.Counting
import LlmRuntime.Soak.Cycles
import LlmRuntime.Soak.Honest
import LlmRuntime.Soak.Ids
import LlmRuntime.BackendOps.Page
import LlmRuntime.LanProbe.Addresses
import LlmRuntime.LanProbe.Digesting
