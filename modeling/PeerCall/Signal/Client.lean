import PeerCall.Lib.Runs

/-!
# Signal.Client — the connection logic of `SignalClient` on its io thread

`resolver`, `websocket` and `reconnect_timer` are made by `RecreateTransport` and reset by `CloseTransport`
together, so one numbered transport stands for the three of them.  An asynchronous operation is started on
a transport; it completes some time later, and its handler runs some time after that.  Cancelling turns
what has not completed yet into an error, what has completed keeps its result.  The handlers capture only
`this`: they work on whatever transport is current when they run.

`Connect` and `Disconnect` set their flags on the caller's thread and leave the rest to the io thread; the
two halves are one step here.  The notifications to the observer have no effect on the client and are left
out.
-/

namespace PeerCall.Signal

open PeerCall.Lib

/-! ### `ParseUrl` -/

structure ParsedUrl where
  host : String
  port : String
  target : String
  deriving DecidableEq, Repr

/-- `ParseUrl`. -/
def parseUrl (url : String) : Except String ParsedUrl :=
  match url.toList with
  | 'w' :: 's' :: ':' :: '/' :: '/' :: remaining =>
    let authority := remaining.takeWhile (· ≠ '/')
    let target := if '/' ∈ remaining then remaining.dropWhile (· ≠ '/') else ['/']
    if ':' ∉ authority then .error "Signaling server URL must include host and port"
    else
      -- `rfind`: the port is what follows the last colon
      let port := (authority.reverse.takeWhile (· ≠ ':')).reverse
      let host := (authority.reverse.dropWhile (· ≠ ':')).tail.reverse
      if host = [] ∨ port = [] then .error "Invalid signaling server URL"
      else .ok ⟨String.ofList host, String.ofList port, String.ofList target⟩
  | _ => .error "Only ws:// URLs are currently supported"

/-! ### The state -/

inductive Kind
  | resolve | connect | handshake | read | write | timer
  deriving DecidableEq, Repr

inductive Status
  | pending | ok | error
  deriving DecidableEq, Repr

/-- An asynchronous operation whose handler has not run yet. -/
structure Operation where
  transport : ℕ
  kind : Kind
  status : Status := .pending
  deriving DecidableEq, Repr

/-- What `QueueJsonMessage` is called with. -/
inductive Outgoing
  | register (clientId : String)
  | listClients (clientId : String)
  | message (text : String)
  deriving DecidableEq, Repr

/-- `SignalClient` and its `Impl`.  `posted` are the tasks of `QueueJsonMessage` that wait for the io
thread; `crashed`: a null `websocket` has been dereferenced.  `launched` is read by nothing: it counts the
resolve, connect and handshake operations started. -/
structure Client where
  serverUrl : String := ""
  clientId : String := ""
  isConnected : Bool := false
  manualDisconnect : Bool := false
  reconnectAttempts : ℕ := 0
  transport : Option ℕ := none
  transports : ℕ := 0
  operations : List Operation := []
  writeQueue : List Outgoing := []
  posted : List Outgoing := []
  crashed : Bool := false
  launched : ℕ := 0
  deriving DecidableEq, Repr

def kMaxReconnectAttempts : ℕ := 5

namespace Client

/-- The operation `kind` is started on the transport `t`. -/
def start (s : Client) (t : ℕ) (kind : Kind) : Client :=
  { s with
    operations := s.operations ++ [⟨t, kind, .pending⟩]
    launched := s.launched + if kind ∈ [Kind.resolve, .connect, .handshake] then 1 else 0 }

/-- The operations `p` of the transport `t` that have not completed are cancelled. -/
def cancel (s : Client) (t : ℕ) (p : Kind → Bool) : Client :=
  { s with
    operations := s.operations.map fun o =>
      if o.transport = t ∧ p o.kind ∧ o.status = .pending then { o with status := .error } else o }

/-- `CloseTransport`. -/
def closeTransport (s : Client) : Client :=
  match s.transport with
  | none => { s with writeQueue := [] }
  | some t => { s.cancel t (fun _ => true) with transport := none, writeQueue := [] }

/-- `RecreateTransport`. -/
def recreateTransport (s : Client) : Client :=
  { s with transport := some s.transports, transports := s.transports + 1, writeQueue := [] }

/-- `ConnectOnIoThread` up to `async_resolve`. -/
def connectOnIoThread (s : Client) : Client :=
  let s' := s.closeTransport.recreateTransport
  match parseUrl s.serverUrl with
  | .error _ => s'
  | .ok _ => s'.start s.transports .resolve

/-- `ReportDisconnected`. -/
def reportDisconnected (s : Client) : Client := { s with isConnected := false }

/-- `AttemptReconnect`; `expires_after` cancels a wait that is still pending on the same timer. -/
def attemptReconnect (s : Client) : Client :=
  if s.manualDisconnect ∨ s.reconnectAttempts ≥ kMaxReconnectAttempts then s
  else
    let s' : Client := { s with reconnectAttempts := s.reconnectAttempts + 1 }
    match s.transport with
    | none => s'
    | some t => (s'.cancel t (· = .timer)).start t .timer

/-- `QueueJsonMessage`, up to the task it posts. -/
def queueJsonMessage (s : Client) (m : Outgoing) : Client := { s with posted := s.posted ++ [m] }

/-- `WriteNextMessage`. -/
def writeNextMessage (s : Client) : Client :=
  match s.transport with
  | none => s
  | some t => if s.writeQueue = [] then s else s.start t .write

/-- The task posted by `QueueJsonMessage`. -/
def enqueue (s : Client) (m : Outgoing) : Client :=
  match s.transport with
  | none => s
  | some _ =>
    let s' : Client := { s with writeQueue := s.writeQueue ++ [m] }
    if s'.writeQueue.length = 1 then s'.writeNextMessage else s'

/-- `StartRead`. -/
def startRead (s : Client) : Client :=
  match s.transport with
  | none => s
  | some t => s.start t .read

/-- `beast::get_lowest_layer(*impl_->websocket)` and an operation on it. -/
def startOnWebsocket (s : Client) (kind : Kind) : Client :=
  match s.transport with
  | none => { s with crashed := true }
  | some t => s.start t kind

/-- The completion handlers of the successful operations.  `requestClientList` is what the dispatch of a
received message asks for. -/
def onSuccess (s : Client) (requestClientList : Bool) : Kind → Client
  | .resolve => s.startOnWebsocket .connect
  | .connect => s.startOnWebsocket .handshake
  | .handshake =>
    ({ s with isConnected := true, reconnectAttempts := 0 }.queueJsonMessage (.register s.clientId)).startRead
  | .read => (if requestClientList then s.queueJsonMessage (.listClients s.clientId) else s).startRead
  | .write => { s with writeQueue := s.writeQueue.tail }.writeNextMessage
  | .timer => s.connectOnIoThread

/-- The completion handlers of the failed operations. -/
def onError (s : Client) : Kind → Client
  | .timer => s
  | .read | .write => s.reportDisconnected.attemptReconnect
  | .resolve | .connect | .handshake => s.attemptReconnect

/-- The handler of the operation `o`, which is no longer outstanding. -/
def handle (s : Client) (o : Operation) (requestClientList : Bool) : Client :=
  match o.status with
  | .pending => s
  | .ok => s.onSuccess requestClientList o.kind
  | .error => s.onError o.kind

end Client

inductive Step
  | connect (serverUrl clientId : String)
  | disconnect
  | queue (m : Outgoing)
  | runPosted
  | finish (i : ℕ) (status : Status)
  | handler (i : ℕ) (requestClientList : Bool)
  deriving DecidableEq, Repr

/-- One step of a client that has not crashed. -/
def Client.take (s : Client) : Step → Client
  | .connect url clientId =>
    { s with
      serverUrl := url, clientId := clientId
      manualDisconnect := false, reconnectAttempts := 0 }.connectOnIoThread
  | .disconnect =>
    { s with manualDisconnect := true, reconnectAttempts := 0 }.closeTransport.reportDisconnected
  | .queue m => s.queueJsonMessage m
  | .runPosted =>
    match s.posted with
    | [] => s
    | m :: rest => { s with posted := rest }.enqueue m
  | .finish n status =>
    { s with
      operations := s.operations.modify n fun o =>
        if o.status = .pending then { o with status := status } else o }
  | .handler n r =>
    match s.operations[n]? with
    | none => s
    | some o =>
      if o.status = .pending then s else { s with operations := s.operations.eraseIdx n }.handle o r

/-- Nothing happens any more after a crash. -/
def step (s : Client) (i : Step) : Client := if s.crashed then s else s.take i

theorem step_live {s : Client} (h : s.crashed = false) (i : Step) : step s i = s.take i := by
  simp [step, h]

end PeerCall.Signal
