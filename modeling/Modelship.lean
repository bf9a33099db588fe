import Modelship.OpenAI.BackgroundReport
import Modelship.OpenAI.BackgroundReplay
import Modelship.State.Redis
import Modelship.Deploy.Coordinator
import Modelship.Deploy.Requests
import Modelship.Deploy.Cancel
import Modelship.Deploy.Commit
import Modelship.Deploy.Routing
import Modelship.Deploy.Queue
import Modelship.Deploy.Turns
import Modelship.Deploy.Leases
import Modelship.OpenAI.Mcp.Spec
import Modelship.OpenAI.Adapter
import Modelship.OpenAI.Brackets
import Modelship.OpenAI.Channels
import Modelship.OpenAI.Continuation
import Modelship.State.Fading
import Modelship.OpenAI.FadingLog
import Modelship.OpenAI.FadingHistory
import Modelship.OpenAI.Shaping
import Modelship.OpenAI.OutputOrder
import Modelship.OpenAI.Socket
import Modelship.OpenAI.SocketChain
import Modelship.OpenAI.SocketRuns
import Modelship.OpenAI.Mcp.Loop
import Modelship.OpenAI.Mcp.Turn
import Modelship.Foundation.Slots
import Modelship.OpenAI.Mcp.Alignment
import Modelship.OpenAI.Mcp.Envelope
import Modelship.OpenAI.Mcp.Approval
import Modelship.OpenAI.Mcp.Stored
import Modelship.OpenAI.Mcp.Limit
import Modelship.OpenAI.Auth
import Modelship.Foundation.Glob
import Modelship.State.Shelf
import Modelship.Deploy.Names
import Modelship.Gateway.Table
import Modelship.Gateway.Coordinator
import Modelship.Gateway.Switched
import Modelship.Gateway.Known
import Modelship.Gateway.Cutover
import Modelship.Gateway.Versions
import Modelship.Gateway.Generations
import Modelship.Gateway.Wake
import Modelship.Deploy.Diff
import Modelship.Deploy.Worker
import Modelship.Deploy.Decisions
import Modelship.Deploy.Rollback
import Modelship.Deploy.RequestRouter
import Modelship.Foundation.Tenure
import Modelship.Utils.DownloadLeases
import Modelship.Utils.Published
import Modelship.Deploy.EndState
import Modelship.OpenAI.Mcp.Transparent
import Modelship.OpenAI.Mcp.Policies
import Modelship.Deploy.AppNames
import Modelship.Deploy.Merge
import Modelship.Deploy.ActorOptions
import Modelship.Preflight.Sizing
import Modelship.Preflight.Fitting
import Modelship.Foundation.Saturation
import Modelship.OpenAI.SystemMessage
import Modelship.OpenAI.Anchored
import Modelship.Foundation.Rounding
import Modelship.Preflight.Base
import Modelship.Preflight.Vllm
import Modelship.OpenAI.Prompt
import Modelship.OpenAI.Mcp.Listings
import Modelship.Foundation.Address
import Modelship.Foundation.Url
import Modelship.OpenAI.Mcp.Egress
import Modelship.Foundation.Dumps
import Modelship.OpenAI.Affinity
import Modelship.Infer.Chunks
import Modelship.Infer.EngineOps
import Modelship.Infer.EngineStream
import Modelship.Infer.EngineRuns
import Modelship.Infer.Translated
import Modelship.Foundation.FairLock
import Modelship.Infer.Blocking
import Modelship.Infer.Disconnects
import Modelship.Infer.DisconnectPump
import Modelship.OpenAI.Messages
import Modelship.Foundation.Lines
import Modelship.OpenAI.Transcripts
import Modelship.Infer.Cancellable
import Modelship.Infer.CancellableCall
import Modelship.Foundation.JsonText
import Modelship.OpenAI.Frames
import Modelship.OpenAI.Compaction
import Modelship.OpenAI.Mcp.Connection
import Modelship.OpenAI.Mcp.Connections
