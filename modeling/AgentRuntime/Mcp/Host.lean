import AgentRuntime.Lib.Machine
import AgentRuntime.Mcp.Mapping

/-!
# `Mcp.Host` — every allowlisted server, and the calls of the sessions (`agent-mcp-host/src/host.rs`)

A maintenance pass visits the servers in their order: it reconnects the ones that are down, reads the tools of the ones
that announced a change, and then rebuilds the routes. Calls look the routes up in between. A label is one such step, or
something a server, a member or the clock does; a label that is not enabled changes nothing.

`rebuilds` and `allows` are kept for the proofs: how often the routes were rebuilt, and what a member allowed.
-/

namespace AgentRuntime.Mcp.Host

open Json
open Loop (ToolCall ToolOutcome)

/-! ## The state -/

structure EntryState where
  /-- The connection there is. -/
  client : Option ℕ
  error : Option String
  /-- Everything the server listed, before the offer policy. -/
  listed : List Listed
  specs : List Spec
  skipped : List String
  failures : ℕ
  nextRetry : Option Duration
  wasReady : Bool
  reconnects : ℕ
  relists : ℕ

def EntryState.default : EntryState where
  client := none
  error := none
  listed := []
  specs := []
  skipped := []
  failures := 0
  nextRetry := none
  wasReady := false
  reconnects := 0
  relists := 0

structure Entry where
  cfg : ServerConfig
  state : EntryState

structure Route where
  entry : ℕ
  tool : Listed
  spec : Spec

/-- One effectful call as it is put in front of the member. -/
structure CallApproval where
  callId : String
  tool : String
  server : String
  remoteTool : String
  arguments : String
  readOnly : Bool
  destructive : Bool
  idempotent : Bool
  openWorld : Bool
  reason : String

/-- What a pass waits for. -/
inductive Doing where
  | relist
  | reconnect

/-- Where the maintenance stands; `changed`: the routes will be rebuilt. -/
inductive Pass where
  | idle
  | visiting (entry : ℕ) (changed : Bool)
  | doing (entry : ℕ) (changed : Bool) (what : Doing)

/-- One tool call that a session hands to its host. -/
structure Job where
  call : ToolCall
  /-- The specs this session was offered, by their names. -/
  offered : Option (List (String × Spec))
  /-- Why the member is asked first, if it is a call after taint. -/
  reason : Option String
  /-- There is someone to ask. -/
  approver : Bool

/-- What a call runs on. -/
inductive Warrant where
  | direct
  | allowed (card : CallApproval)
  /-- The definition was not the one offered, when the routes had been rebuilt `rebuilds` times. -/
  | differed (rebuilds : ℕ)

inductive Phase where
  | unborn
  /-- About to compare the definition with the one offered. -/
  | looking (j : Job)
  /-- About to make the card. -/
  | carding (j : Job)
  | asking (j : Job) (card : CallApproval)
  /-- Allowed, and about to look at the stop flag. -/
  | allowed (j : Job) (card : CallApproval)
  /-- About to look the route up. -/
  | running (j : Job) (call : ToolCall) (on : Warrant)
  | routed (j : Job) (call : ToolCall) (on : Warrant) (route : Route)
  | ready (j : Job) (call : ToolCall) (on : Warrant) (route : Route) (client : ℕ)
  /-- Waiting for the server's answer. -/
  | sent (cfg : ServerConfig) (route : Route)
  | ended (outcome : ToolOutcome)

/-- A call that was put to a server. -/
structure Sent where
  id : ℕ
  job : Job
  call : ToolCall
  on : Warrant
  route : Route
  client : ℕ
  args : Value

structure World where
  entries : List Entry
  routes : List (String × Route)
  stopped : Bool
  pass : Pass
  /-- The connections so far. -/
  connections : ℕ
  broken : ℕ → Bool
  /-- The server announced a change of its tools. -/
  announced : ℕ → Bool
  clock : Duration
  rebuilds : ℕ
  jobs : ℕ
  phase : ℕ → Phase
  allows : List (ℕ × CallApproval)
  sent : List Sent

inductive Label where
  /-- A pass begins. -/
  | maintain
  /-- The pass goes to its next server, or ends. -/
  | visit
  /-- What a handshake and a listing come to. -/
  | listed (result : Except String (List Listed))
  /-- The two parts of a shutdown. -/
  | stop
  | close
  | breaks (client : ℕ)
  | announces (client : ℕ)
  | tick (time : Duration)
  | call (j : Job)
  /-- The next step of a call; `stopped` is what it sees of the stop flag. -/
  | step (id : ℕ) (stopped : Bool)
  /-- The approver returns. -/
  | answer (id : ℕ) (result : Except String Unit)
  | result (id : ℕ) (result : Except McpError CallResult)

section

variable (ops : JsonOps)

/-! ## The routes -/

/-- The tools of one server are offered one after the other. -/
def offerAll (sc : ServerConfig) (entry : ℕ) :
    List Listed → List (String × Route) → List (String × Route) × List Spec × List String
  | [], next => (next, [], [])
  | t :: tools, next =>
      match offer ops sc t fun name => decide (name ∈ next.map Prod.fst) with
      | .error why =>
          let (next', specs, skipped) := offerAll sc entry tools next
          (next', specs, (t.name ++ ": " ++ why) :: skipped)
      | .ok spec =>
          let (next', specs, skipped) := offerAll sc entry tools (next ++ [(spec.name, { entry, tool := t, spec })])
          (next', spec :: specs, skipped)

/-- There is a connection, and it works. -/
def connected (broken : ℕ → Bool) (st : EntryState) : Bool := st.client.any fun c => !broken c

/-- The specs of every server and the routes, in allowlist order. -/
def rebuildFrom (broken : ℕ → Bool) : ℕ → List Entry → List (String × Route) → List Entry × List (String × Route)
  | _, [], next => ([], next)
  | i, e :: entries, next =>
      let offered := offerAll ops e.cfg i (if connected broken e.state then e.state.listed else []) next
      let rest := rebuildFrom broken (i + 1) entries offered.1
      ({ e with state := { e.state with specs := offered.2.1, skipped := offered.2.2 } } :: rest.1, rest.2)

def World.rebuild (w : World) : World :=
  let built := rebuildFrom ops w.broken 0 w.entries []
  { w with entries := built.1, routes := built.2, rebuilds := w.rebuilds + 1 }

/-- The specs offered to new sessions. -/
def World.specs (w : World) : List Spec := w.entries.flatMap fun e => e.state.specs

def World.route (w : World) (name : String) : Option Route := w.routes.lookup name

/-! ## Maintenance -/

def reconnectBackoffStart : Duration := fromMillis 1000
def reconnectBackoffCap : Duration := fromMillis 60000

def backoff (failures : ℕ) : Duration :=
  min (reconnectBackoffStart * 2 ^ min (failures - 1) 16) reconnectBackoffCap

def World.setState (w : World) (i : ℕ) (f : EntryState → EntryState) : World :=
  { w with entries := w.entries.modify i fun e => { e with state := f e.state } }

/-- The dead connection is dropped, and its tools go away. -/
def EntryState.drop (now : Duration) (st : EntryState) : EntryState :=
  let failures := max st.failures 1
  { st with client := none, failures, nextRetry := some (now + backoff failures),
            error := some "the server stopped; reconnecting" }

def EntryState.relisted (result : Except String (List Listed)) (st : EntryState) : EntryState :=
  match result with
  | .ok tools => { st with listed := tools, relists := st.relists + 1, error := none }
  | .error e => { st with error := some ("re-reading its tools failed: " ++ e) }

def EntryState.reconnected (client : ℕ) (now : Duration) (result : Except String (List Listed)) (st : EntryState) :
    EntryState :=
  match result with
  | .ok tools =>
      { st with
        reconnects := if st.wasReady then st.reconnects + 1 else st.reconnects
        client := some client, listed := tools, error := none, failures := 0, nextRetry := none, wasReady := true }
  | .error e =>
      let failures := min (st.failures + 1) (2 ^ 32 - 1)
      { st with failures, nextRetry := some (now + backoff failures), error := some e }

/-- The next server of the pass is looked at. -/
def World.visit (w : World) (i : ℕ) (changed : Bool) : World :=
  match w.entries[i]? with
  | none => { (if changed then w.rebuild ops else w) with pass := .idle }
  | some e =>
      match e.state.client with
      | some c =>
          if w.broken c then { w.setState i (EntryState.drop w.clock) with pass := .visiting (i + 1) true }
          else if w.announced c then
            { w with announced := Function.update w.announced c false, pass := .doing i changed .relist }
          else { w with pass := .visiting (i + 1) changed }
      | none =>
          if e.state.nextRetry.all fun t => decide (t ≤ w.clock) then { w with pass := .doing i changed .reconnect }
          else { w with pass := .visiting (i + 1) changed }

/-- What the pass waited for is there. -/
def World.listed (w : World) (i : ℕ) (what : Doing) (result : Except String (List Listed)) : World :=
  match what with
  | .relist => { w.setState i (EntryState.relisted result) with pass := .visiting (i + 1) true }
  | .reconnect =>
      { w.setState i (EntryState.reconnected w.connections w.clock result) with
        connections := w.connections + 1, pass := .visiting (i + 1) true }

/-- Every server is stopped. -/
def World.closeAll (w : World) : World :=
  { w with broken := fun c => w.broken c || decide (some c ∈ w.entries.map fun e => e.state.client) }

/-! ## Calls -/

def parseArgs (raw : String) : Except String Value :=
  match ops.parse (if Text.trim raw.toList = [] then "\x7b\x7d" else raw) with
  | some (.object entries) => .ok (.object entries)
  | _ => .error "MCP tool arguments must be a JSON object"

def World.setPhase (w : World) (id : ℕ) (p : Phase) : World := { w with phase := Function.update w.phase id p }

def needsApproval : ToolOutcome := .denied "this action needs a member's explicit approval"

def notOffered (name : String) : ToolOutcome := .error ("'" ++ name ++ "' is not an MCP tool offered in this session")

/-- The spec the session was offered under the name. -/
def Job.offer (j : Job) (name : String) : Option Spec := j.offered.bind fun offered => offered.lookup name

/-- Before the member is asked: the definition is the one that was offered. -/
def World.look (w : World) (j : Job) : Phase :=
  if j.approver = false then .ended needsApproval
  else
    match j.offered with
    | none => if (w.route j.call.name).isSome then .carding j else .ended needsApproval
    | some offered =>
        match offered.lookup j.call.name with
        | none => .ended needsApproval
        | some o =>
            if (w.route j.call.name).any fun r => r.spec.same ops o then .carding j
            else .running j j.call (.differed w.rebuilds)

/-- What the member is shown, or why it cannot be put in front of them. -/
def World.approvalFor (w : World) (call : ToolCall) (reason : String) : Except ToolOutcome CallApproval :=
  match w.route call.name with
  | none => .error (notOffered call.name)
  | some route =>
      match parseArgs ops call.arguments with
      | .error e => .error (.error e)
      | .ok args =>
          let arguments := ops.text args
          if maxReviewArgs < arguments.utf8ByteSize then
            .error (.denied ("the arguments are larger than " ++ toString maxReviewArgs ++
              " bytes, too large to review on an approval card"))
          else
            .ok
              { callId := call.id
                tool := call.name
                server := (w.entries[route.entry]?.map fun e => e.cfg.name).getD ""
                remoteTool := route.tool.name
                arguments
                readOnly := route.spec.readOnly
                destructive := route.spec.destructive
                idempotent := route.spec.idempotent
                openWorld := route.spec.openWorld
                reason }

def World.card (w : World) (j : Job) : Phase :=
  match w.approvalFor ops j.call (j.reason.getD "") with
  | .error outcome => .ended outcome
  | .ok card => .asking j card

/-- The call as it was allowed. -/
def exactCall (j : Job) (card : CallApproval) : ToolCall :=
  { id := j.call.id, name := j.call.name, arguments := card.arguments }

/-- The route of a call, whose definition must be the one that was offered. -/
def World.lookUp (w : World) (j : Job) (call : ToolCall) (on : Warrant) : Phase :=
  match w.route call.name with
  | none =>
      match j.offer j.call.name with
      | some _ => .ended (.error ("'" ++ call.name ++ "' is no longer offered by its MCP server (it was withdrawn or the " ++
          "server is reconnecting); start a new chat once it is back"))
      | none => .ended (notOffered call.name)
  | some route =>
      if (j.offer j.call.name).all fun o => o.same ops route.spec then
        match w.entries[route.entry]? with
        | none => .ended (.error "internal: MCP route without a server")
        | some _ => .routed j call on route
      else .ended (.error ("the MCP server changed '" ++ call.name ++
        "' since this chat started, so it is not run; start a new chat to use the new version"))

def World.connect (w : World) (j : Job) (call : ToolCall) (on : Warrant) (route : Route) : Phase :=
  match w.entries[route.entry]? with
  | none => .ended (.error "internal: MCP route without a server")
  | some e =>
      match e.state.client with
      | none => .ended (.error ("MCP server '" ++ e.cfg.name ++ "' is not connected; it is reconnecting"))
      | some c => .ready j call on route c

/-- The call is put to the server. -/
def World.send (w : World) (id : ℕ) (j : Job) (call : ToolCall) (on : Warrant) (route : Route) (client : ℕ)
    (stopped : Bool) : World :=
  match w.entries[route.entry]? with
  | none => w.setPhase id (.ended (.error "internal: MCP route without a server"))
  | some e =>
      if stopped then w.setPhase id (.ended (.error "stopped before the call was sent"))
      else if w.broken client then
        w.setPhase id (.ended (.error ("MCP server '" ++ e.cfg.name ++
          "' stopped answering and is reconnecting; try again shortly")))
      else
        match parseArgs ops call.arguments with
        | .error why => w.setPhase id (.ended (.error why))
        | .ok args =>
            { w.setPhase id (.sent e.cfg route) with
              sent := w.sent ++ [{ id, job := j, call, on, route, client, args }] }

def World.step (w : World) (id : ℕ) (stopped : Bool) : World :=
  match w.phase id with
  | .looking j => w.setPhase id (w.look ops j)
  | .carding j => w.setPhase id (w.card ops j)
  | .allowed j card =>
      w.setPhase id (if stopped then .ended (.denied "the session was stopped; nothing was sent")
        else .running j (exactCall j card) (.allowed card))
  | .running j call on => w.setPhase id (w.lookUp ops j call on)
  | .routed j call on route => w.setPhase id (w.connect j call on route)
  | .ready j call on route client => w.send ops id j call on route client stopped
  | _ => w

/-- What a call returns once the server has answered; `shown` is how an error is written. -/
def outcomeOf (shown : McpError → String) (cfg : ServerConfig) (route : Route) :
    Except McpError CallResult → ToolOutcome
  | .ok r =>
      let text := fence cfg.name route.tool.name r.text cfg.maxOutputChars r.isError
      if r.isError then .error text else .untrusted text
  | .error e => .error ("MCP server '" ++ cfg.name ++ "': " ++ short (shown e) cfg.maxOutputChars)

variable (shown : McpError → String)

def World.exec (w : World) : Label → World
  | .maintain =>
      match w.pass with
      | .idle => if w.stopped then w else { w with pass := .visiting 0 false }
      | _ => w
  | .visit =>
      match w.pass with
      | .visiting i changed => w.visit ops i changed
      | _ => w
  | .listed result =>
      match w.pass with
      | .doing i _ what => w.listed i what result
      | _ => w
  | .stop => { w with stopped := true }
  | .close =>
      match w.pass with
      | .idle => if w.stopped then w.closeAll else w
      | _ => w
  | .breaks c => { w with broken := Function.update w.broken c true }
  | .announces c => { w with announced := Function.update w.announced c true }
  | .tick time => { w with clock := max w.clock time }
  | .call j =>
      { w.setPhase w.jobs (if j.reason.isSome then .looking j else .running j j.call .direct) with jobs := w.jobs + 1 }
  | .step id stopped => w.step ops id stopped
  | .answer id result =>
      match w.phase id with
      | .asking j card =>
          match result with
          | .ok () => { w.setPhase id (.allowed j card) with allows := w.allows ++ [(id, card)] }
          | .error why => w.setPhase id (.ended (.denied why))
      | _ => w
  | .result id result =>
      match w.phase id with
      | .sent cfg route => w.setPhase id (.ended (outcomeOf shown cfg route result))
      | _ => w

/-! ## The start -/

/-- Every server is connected to, and its tools are listed. -/
def connectAll : ℕ → List (ServerConfig × Except String (List Listed)) → List Entry
  | _, [] => []
  | i, (cfg, .ok tools) :: servers =>
      { cfg, state := { EntryState.default with client := some i, listed := tools, wasReady := true } } ::
        connectAll (i + 1) servers
  | i, (cfg, .error e) :: servers =>
      { cfg, state := { EntryState.default with error := some e, failures := 1, nextRetry := some (backoff 1) } } ::
        connectAll (i + 1) servers

/-- `McpHost::connect`. -/
def World.connected (servers : List (ServerConfig × Except String (List Listed))) : World :=
  World.rebuild ops
    { entries := connectAll 0 servers
      routes := []
      stopped := false
      pass := .idle
      connections := servers.length
      broken := fun _ => false
      announced := fun _ => false
      clock := 0
      rebuilds := 0
      jobs := 0
      phase := fun _ => .unborn
      allows := []
      sent := [] }

/-- The state after any steps of the host, its servers, its sessions and their members. -/
def World.after (servers : List (ServerConfig × Except String (List Listed))) (ls : List Label) : World :=
  Machine.run (World.exec ops shown) (World.connected ops servers) ls

end

end AgentRuntime.Mcp.Host
