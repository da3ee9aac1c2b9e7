import PeerCall.Lib.Runs
import PeerCall.Lib.Json
import PeerCall.Call.Manager
import PeerCall.Call.Session
import PeerCall.Call.Stale
import PeerCall.Call.Pair
import PeerCall.Call.Consent
import PeerCall.Call.Threads
import PeerCall.Call.Teardown
import PeerCall.Call.Closing
import PeerCall.Server.Registry
import PeerCall.Signal.Message
import PeerCall.Signal.Codec
import PeerCall.Signal.Parsing
import PeerCall.Server.Relay
import PeerCall.Signal.Client
import PeerCall.Signal.Superseded
import PeerCall.Call.Coordinator
import PeerCall.Call.Isolation
import PeerCall.Call.Negotiation
import PeerCall.Call.Course
import PeerCall.Call.Lifetime
import PeerCall.Call.IoThread
import PeerCall.Call.Recovery
import PeerCall.Call.OwnIce
import PeerCall.Server.Offline
import PeerCall.Server.Farewell
import PeerCall.Server.Lists
import PeerCall.Engine.Connection
import PeerCall.Engine.Candidates
import PeerCall.Engine.Media
import PeerCall.Engine.Capture
import PeerCall.Call.Rates
import PeerCall.Call.Renderers
import PeerCall.Call.Views
import PeerCall.Call.Mirror
import PeerCall.Lib.Query
import PeerCall.Signal.Identity
import PeerCall.Lib.JsonText
import PeerCall.Lib.Locks
import PeerCall.Lib.Utf8
import PeerCall.Server.Lenient
import PeerCall.Server.Authenticity
import PeerCall.Lib.Pipe
import PeerCall.Engine.AudioInput
import PeerCall.Engine.Senders
import PeerCall.Engine.VideoRenderer
import PeerCall.Engine.FileSource
import PeerCall.Call.Watchdog
import PeerCall.Signal.Outgoing
import PeerCall.Signal.Url
import PeerCall.Signal.Spellings
import PeerCall.Server.Delivery
import PeerCall.Lib.Simulation
import PeerCall.Call.EndToEnd
import PeerCall.Signal.Retries
import PeerCall.Call.Dialog
import PeerCall.Engine.AudioSwitch
import PeerCall.Lib.Latest
import PeerCall.Engine.Screen
import PeerCall.Server.Heartbeat
import PeerCall.Call.WatchdogWaits
import PeerCall.Signal.Startup
