import AgentRuntime.Guard.Net
import AgentRuntime.Lib.Base64
import AgentRuntime.Lib.Dialogue
import AgentRuntime.Lib.Json
import AgentRuntime.Lib.JsonValue
import AgentRuntime.Lib.Text

/-!
# `Mcp.Client` — tool calls on an MCP server (`agent-mcp-host/src/client.rs`)

A tool call is a dialogue: requests to the server, looks at the stop flag and the clock, and elicitations that are put
to the member. The server's answers, the moments at which the flag is raised and the times the clock shows may depend
on everything before. A call may be answered with a task, which is then polled until it ends, is stopped or times out.

The JSON texts, the URL parser and the quoted form of a text are parameters.
-/

namespace AgentRuntime.Mcp

open Json

/-! ## Errors and results -/

/-- A time, in nanoseconds. -/
abbrev Duration : Type := ℕ

def fromMillis (ms : ℕ) : Duration := ms * 1000000

inductive McpError where
  | spawn (msg : String)
  | transport (msg : String)
  | timeout (d : Duration)
  | cancelled
  | oversize (bytes : ℕ)
  | badResponse (msg : String)
  | rpc (code : ℤ) (message : String)
  | serverExited (msg : String)
  | unsupported (msg : String)
  | httpStatus (status : ℕ)
  | unsupportedVersion (supported : List String)
  | taskCancelled
  | inputRequired (msg : String)
deriving DecidableEq

structure CallResult where
  text : String
  isError : Bool
deriving DecidableEq

/-- The member's answer to an elicitation. -/
inductive ElicitAction where
  | accept
  | decline
  | cancel
deriving DecidableEq

def ElicitAction.wire : ElicitAction → String
  | .accept => "accept"
  | .decline => "decline"
  | .cancel => "cancel"

/-- An elicitation as the member is shown it. -/
structure UrlElicitation where
  server : String
  tool : String
  message : String
  url : String
  host : String
  warnings : List String
deriving DecidableEq

/-- What is read of a parsed URL. -/
structure Url where
  scheme : String
  username : String
  password : Option String
  host : Option String

/-- How values are written and URLs are read. -/
structure Texts where
  json : Value → String
  debug : String → String
  parseUrl : String → Option Url

/-! ## The dialogue -/

/-- What a call exchanges with what is around it. -/
inductive Event where
  | request (method : String) (params : Value) (answer : Except McpError Value)
  | isStopped (raised : Bool)
  | now (time : Duration)
  | openUrl (key : String) (ask : UrlElicitation) (action : ElicitAction)

/-- How a call ends without a result. A call that is still polling is unfinished. -/
inductive Exit where
  | error (e : McpError)
  | unfinished

abbrev Call : Type → Type := Talk Event Exit

/-- The server behind its transport, the stop flag and the clock. -/
structure Env where
  /-- A request with its timeout, whether the stop flag ends it, and its headers. -/
  request : List Event → String → Value → Duration → Bool → List (String × String) → Except McpError Value
  isStopped : List Event → Bool
  now : List Event → Duration

abbrev Elicitor : Type := List Event → UrlElicitation → ElicitAction

def fail {α : Type} (e : McpError) : Call α := Talk.throw (.error e)

def badResponse {α : Type} (msg : String) : Call α := fail (.badResponse msg)

namespace Env

variable (env : Env)

def requestWithHeaders (method : String) (params : Value) (timeout : Duration) (stoppable : Bool)
    (headers : List (String × String)) : Call Value :=
  Talk.exchange fun log =>
    let answer := env.request log method params timeout stoppable headers
    (answer.mapError .error, .request method params answer)

def ask (method : String) (params : Value) (timeout : Duration) (stoppable : Bool) : Call Value :=
  env.requestWithHeaders method params timeout stoppable []

def stopped : Call Bool := Talk.exchange fun log => (.ok (env.isStopped log), .isStopped (env.isStopped log))

def instant : Call Duration := Talk.exchange fun log => (.ok (env.now log), .now (env.now log))

end Env

def openUrl (elicitor : Elicitor) (key : String) (ask : UrlElicitation) : Call ElicitAction :=
  Talk.exchange fun log => (.ok (elicitor log ask), .openUrl key ask (elicitor log ask))

/-! ## The client -/

def protocolVersion : String := "2026-07-28"
def tasksExtension : String := "io.modelcontextprotocol/tasks"
def maxInputRounds : ℕ := 3
def maxInputRequests : ℕ := 4
def minPollInterval : Duration := fromMillis 100
def maxPollInterval : Duration := fromMillis 10000
def defaultPollInterval : Duration := fromMillis 1000
def maxElicitUrl : ℕ := 2048

/-- What a client reads of its configuration and its server. -/
structure Client where
  name : String
  timeout : Duration
  initTimeout : Duration
  taskTimeout : Duration
  isHttp : Bool
  modernEra : Bool

structure HeaderParam where
  path : List String
  header : String

structure RemoteTool where
  headerParams : Except String (List HeaderParam)

structure CallOpts where
  elicitor : Option Elicitor
  tool : Option RemoteTool

def short (s : String) (n : ℕ) : String := String.ofList (s.toList.take n)

/-- `char::is_control`. -/
def isControl (c : Char) : Bool := c.toNat < 0x20 || (0x7f ≤ c.toNat && c.toNat < 0xa0)

def clean (s : String) (n : ℕ) : String := String.ofList ((s.toList.filter fun c => !isControl c).take n)

/-- `or("")` of a text that may be missing. -/
def strOr (v : Option Value) : String := (v.bind Value.asStr).getD ""

/-- Set a member of an object. -/
def setEntry (v : Value) (key : String) (member : Value) : Value :=
  match v with
  | .object entries => .object (SortedMap.insert key member entries)
  | v => v

def clientInfo : Value := .ofEntries [("name", .string "citrate-hermes"), ("version", .string "0.4.0")]

/-- What every modern request carries. -/
def modernMeta (elicit : Bool) : Value :=
  let caps := Value.ofEntries [("extensions", .ofEntries [(tasksExtension, .ofEntries [])])]
  let caps := if elicit then setEntry caps "elicitation" (.ofEntries [("url", .ofEntries [])]) else caps
  .ofEntries [("io.modelcontextprotocol/protocolVersion", .string protocolVersion),
    ("io.modelcontextprotocol/clientInfo", clientInfo), ("io.modelcontextprotocol/clientCapabilities", caps)]

def Client.withMeta (client : Client) (params : Value) (elicit : Bool) : Value :=
  if client.modernEra then setEntry params "_meta" (modernMeta elicit) else params

/-! ## What a result is -/

inductive Kind where
  | complete
  | inputRequired
  | task
deriving DecidableEq

def kindOf (texts : Texts) (result : Value) (allowMrtr allowTask : Bool) : Except McpError Kind :=
  match result.get "resultType" with
  | none => .ok .complete
  | some other =>
      if other.asStr = some "complete" then .ok .complete
      else if other.asStr = some "input_required" ∧ allowMrtr = true then .ok .inputRequired
      else if other.asStr = some "task" ∧ allowTask = true then .ok .task
      else .error (.badResponse ("unexpected resultType " ++ short (texts.json other) 40))

def isObject (v : Value) : Bool := v.asObject.isSome

def cleanText (s : String) (n : ℕ) : String :=
  String.ofList ((s.toList.filter fun c => !isControl c || c == '\n' || c == '\t').take n)

/-- One item of a content list, as text. -/
def renderItem (texts : Texts) (item : Value) : String :=
  let kind := strOr (item.get "type")
  let s := fun key => strOr (item.get key)
  if kind = "text" then s "text"
  else if kind = "image" ∨ kind = "audio" then
    "[" ++ kind ++ " omitted: " ++ cleanText (s "mimeType") 80 ++ ", about " ++
      toString ((s "data").utf8ByteSize / 4 * 3) ++ " bytes]"
  else if kind = "resource_link" then "[resource link: " ++ cleanText (s "uri") 500 ++ " " ++ cleanText (s "name") 120 ++ "]"
  else if kind = "resource" then
    let r := (item.get "resource").getD .null
    let uri := cleanText (strOr (r.get "uri")) 500
    match (r.get "text").bind Value.asStr with
    | some t => "[resource " ++ uri ++ "]\n" ++ t
    | none => "[binary resource omitted: " ++ uri ++ "]"
  else "[unsupported content type " ++ texts.debug (cleanText kind 40) ++ "]"

def renderContent (texts : Texts) (result : Value) : String :=
  let parts := (((result.get "content").bind Value.asArray).getD []).map (renderItem texts)
  let parts := if parts = [] then ((result.get "structuredContent").map texts.json).toList else parts
  "\n".intercalate parts

def callResult (texts : Texts) (result : Value) : CallResult where
  text := renderContent texts result
  isError := (result.get "isError").bind Value.asBool == some true

/-! ## Elicitations -/

/-- `IpAddr::from_str`. -/
def parseIpAddr (s : String) : Option Guard.IpAddr :=
  match Guard.SocketAddr.readIpv4Addr s.toList with
  | some (ip, []) => some (.v4 ip)
  | _ =>
      match Guard.SocketAddr.readIpv6Addr s.toList with
      | some (ip, []) => some (.v6 ip)
      | _ => none

def isLoopback : Guard.IpAddr → Bool
  | .v4 ip => ip.a == 127
  | .v6 ip => ip.segments == #v[0, 0, 0, 0, 0, 0, 0, 1]

def parseUrlElicitation (texts : Texts) (server tool : String) (params : Value) : Except String UrlElicitation :=
  if (params.get "mode").bind Value.asStr ≠ some "url" then
    .error "a form elicitation (this host only supports URL mode)"
  else
    match (params.get "url").bind Value.asStr with
    | none => .error "a URL elicitation without a url"
    | some url =>
        if maxElicitUrl < url.utf8ByteSize ∨ url.toList.any isControl = true then
          .error "a URL elicitation whose url is too long or has control characters"
        else
          match texts.parseUrl url with
          | none => .error "a URL elicitation with an invalid url"
          | some parsed =>
              if ¬ (parsed.scheme = "https" ∨ parsed.scheme = "http") then
                .error "a URL elicitation that is not an http(s) address"
              else if parsed.username ≠ "" ∨ parsed.password ≠ none then
                .error "a URL elicitation with credentials in the address"
              else
                match parsed.host with
                | none => .error "a URL elicitation without a host"
                | some host =>
                    let bare := (host.toList.dropWhile (· = '[')).rdropWhile (· = ']')
                    let ip := parseIpAddr (String.ofList bare)
                    let loopback := host == "localhost" || ip.any isLoopback
                    .ok {
                      server := server, tool := tool
                      message := clean (strOr (params.get "message")) 500
                      url := url, host := host
                      warnings :=
                        (if parsed.scheme = "http" ∧ loopback = false then ["this address is not encrypted (http)"]
                          else []) ++
                        (if (host.toList.splitOn '.').any fun l => "xn--".toList.isPrefixOf l then
                          ["this host uses international characters (punycode); check it carefully"] else []) ++
                        (if ip.isSome = true ∧ loopback = false then ["this address is a raw IP address"] else []) }

section

variable (texts : Texts) (env : Env) (client : Client) (elicitor : Option Elicitor)

/-- The inputs that were not answered before, one by one: the answers, and what is answered then. -/
def answerEach (tool : String) (answered : List String) :
    List (String × Value) → Call (List (String × Value) × List String)
  | [] => pure ([], answered)
  | (key, req) :: rest =>
      let method := strOr (req.get "method")
      if method ≠ "elicitation/create" then
        fail (.inputRequired ("a " ++ short method 40 ++ " request, which this host does not provide"))
      else
        match elicitor with
        | none => fail (.inputRequired "an elicitation, and no one can be asked in this context")
        | some e =>
            let params := (req.get "params").getD (.ofEntries [])
            match parseUrlElicitation texts client.name tool params with
            | .error why => fail (.inputRequired why)
            | .ok ask => do
                let action ← openUrl e key ask
                let (out, answered) ← answerEach tool (key :: answered) rest
                return ((key, .ofEntries [("action", .string action.wire)]) :: out, answered)

/-- Answer a round of input requests. Keys that are answered are skipped. -/
def answerInputs (tool : String) (reqs : List (String × Value)) (answered : List String) :
    Call (List (String × Value) × List String) :=
  let fresh := (SortedMap.ofEntries reqs).filter fun r => !answered.contains r.1
  if maxInputRequests < fresh.length then
    fail (.inputRequired
      ("the server asked for more than " ++ toString maxInputRequests ++ " inputs at once"))
  else answerEach texts client elicitor tool answered fresh

/-! ## Tasks -/

def validTaskId (s : String) : Bool :=
  s != "" && s.utf8ByteSize ≤ 256 && (utf8 s).all fun b => 0x21 ≤ b && b ≤ 0x7e

def taskIdOf (created : Value) : Option String := ((created.get "taskId").bind Value.asStr).filter validTaskId

/-- Cancel the task, and end with `why`. -/
def cancelTask {α : Type} (taskId : String) (why : McpError) : Call α := do
  let _ ← Talk.attempt (env.ask "tasks/cancel" (client.withMeta (.ofEntries [("taskId", .string taskId)]) false)
    (min client.initTimeout (fromMillis 5000)) false)
  fail why

/-- What stops the polling: the flag, or the deadline. -/
def checkPoll (taskId : String) (deadline : Duration) : Call Unit := do
  let raised ← env.stopped
  if raised then cancelTask env client taskId .cancelled
  else do
    let now ← env.instant
    if deadline ≤ now then cancelTask env client taskId (.timeout client.taskTimeout)
    else return ()

/-- Sleep until `wake`, in short naps. -/
def waitUntil (taskId : String) (deadline wake : Duration) : ℕ → Call Unit
  | 0 => Talk.throw .unfinished
  | fuel + 1 => do
      let now ← env.instant
      if now < wake then do
        checkPoll env client taskId deadline
        waitUntil taskId deadline wake fuel
      else return ()

/-- Answer the inputs a task asks for: the keys that are answered then. -/
def answerTask (tool taskId : String) (state : Value) (answered : List String) : Call (List String) :=
  match (state.get "inputRequests").bind Value.asObject with
  | none => return answered
  | some reqs => do
      let answer ← Talk.attempt (answerInputs texts client elicitor tool reqs answered)
      match answer with
      | .error (.error e) => cancelTask env client taskId e
      | .error .unfinished => Talk.throw .unfinished
      | .ok (responses, answered) =>
          if responses = [] then return answered
          else do
            let _ ← env.ask "tasks/update"
              (client.withMeta (.ofEntries [("taskId", .string taskId), ("inputResponses", .ofEntries responses)])
                elicitor.isSome) client.timeout true
            return answered

def answerState (tool taskId : String) (state : Value) (answered : List String) : Call (List String) :=
  if strOr (state.get "status") = "input_required" then answerTask texts env client elicitor tool taskId state answered
  else pure answered

def pollInterval (state : Value) : Duration :=
  let asked := (((state.get "pollIntervalMs").bind Value.asU64).map fromMillis).getD defaultPollInterval
  max minPollInterval (min asked maxPollInterval)

/-- The state of the task, asked for. -/
def pollTask (taskId : String) : Call Value := do
  let state ← env.ask "tasks/get" (client.withMeta (.ofEntries [("taskId", .string taskId)]) elicitor.isSome)
    client.timeout true
  match kindOf texts state false false with
  | .error e => fail e
  | .ok _ =>
      if (state.get "taskId").bind Value.asStr ≠ some taskId then
        badResponse "tasks/get answered for a different task"
      else return state

/-- Poll a task that is in `state` until it ends. -/
def driveLoop (tool taskId : String) (deadline : Duration) : ℕ → Value → List String → Call CallResult
  | 0, _, _ => Talk.throw .unfinished
  | fuel + 1, state, answered => do
      let status := strOr (state.get "status")
      if status = "completed" then
        match (state.get "result").filter isObject with
        | none => badResponse "a completed task without a result"
        | some result => return callResult texts result
      else if status = "failed" then
        let err := (state.get "error").getD (.ofEntries [])
        fail (.rpc (((err.get "code").bind Value.asI64).getD 0) (short (strOr (err.get "message")) 500))
      else if status = "cancelled" then fail .taskCancelled
      else if ¬ (status = "input_required" ∨ status = "working") then
        badResponse ("a task with status " ++ texts.debug (short status 30))
      else do
        let answered ← answerState texts env client elicitor tool taskId state answered
        let now ← env.instant
        waitUntil env client taskId deadline (now + pollInterval state) fuel
        checkPoll env client taskId deadline
        let state ← pollTask texts env client elicitor taskId
        driveLoop tool taskId deadline fuel state answered

def driveTask (fuel : ℕ) (tool : String) (created : Value) : Call CallResult :=
  match taskIdOf created with
  | none => badResponse "a task without a usable taskId"
  | some taskId => do
      let now ← env.instant
      driveLoop texts env client elicitor tool taskId (now + client.taskTimeout) fuel created []

/-! ## Tool calls -/

/-- A header value, in base64 unless it is plain. -/
def encodeHeaderValue (v : String) : String :=
  let bytes := utf8 v
  let blank := fun b : Option UInt8 => b == some 32 || b == some 9
  let plainOk := bytes ≠ [] && bytes.all (fun b => (0x21 ≤ b && b ≤ 0x7e) || b == 32 || b == 9) &&
    !blank bytes.head? && !blank bytes.getLast? &&
    !("=?base64?".toList.isPrefixOf v.toList && "?=".toList.isSuffixOf v.toList)
  if plainOk then v else "=?base64?" ++ String.ofList (Base64.encode bytes) ++ "?="

def safeInteger : ℤ := 2 ^ 53 - 1

/-- The header of one parameter; a missing or null value omits it. -/
def paramHeader (p : HeaderParam) (args : Value) : Except McpError (Option (String × String)) :=
  let header := fun text => .ok (some (p.header, encodeHeaderValue text))
  match p.path.foldlM Value.get args with
  | none => .ok none
  | some .null => .ok none
  | some (.string s) => header s
  | some (.bool b) => header (toString b)
  | some (.number n) =>
      match n.asI64.filter fun i => -safeInteger ≤ i && i ≤ safeInteger with
      | some i => header (toString i)
      | none =>
          .error (.badResponse
            ("the argument for " ++ p.header ++ " is not an integer in the header-safe range"))
  | some _ =>
      .error (.badResponse ("the argument for " ++ p.header ++ " is not a string, integer or boolean"))

def paramHeaders (params : List HeaderParam) (args : Value) : Except McpError (List (String × String)) := do
  let headers ← params.mapM fun p => paramHeader p args
  return headers.reduceOption

def callHeaders (opts : CallOpts) (args : Value) : Except McpError (List (String × String)) :=
  match opts.tool with
  | none => .ok []
  | some t =>
      if client.modernEra = true ∧ client.isHttp = true then
        match t.headerParams with
        | .ok p => paramHeaders p args
        | .error e => .error (.badResponse e)
      else .ok []

/-- What the next request of a call carries of the answers to the last one. -/
structure Retry where
  responses : Option Value
  state : Option Value

def callParams (name : String) (args : Value) (retry : Option Retry) : Value :=
  let params := Value.ofEntries [("name", .string name), ("arguments", args)]
  match retry with
  | none => params
  | some retry =>
      let params := (retry.responses.map (setEntry params "inputResponses")).getD params
      (retry.state.map (setEntry params "requestState")).getD params

/-- The inputs a call is asked for, answered. -/
def answerCall (name : String) (result : Value) : Call (Option Value) :=
  match result.get "inputRequests" with
  | none => return none
  | some (.object reqs) => do
      let (out, _) ← answerInputs texts client elicitor name reqs []
      return some (.object (SortedMap.ofEntries out))
  | some _ => badResponse "inputRequests was not an object"

/-- The rounds that are left of a call. -/
def callRounds (fuel : ℕ) (name : String) (args : Value) (headers : List (String × String)) :
    ℕ → Option Retry → Call CallResult
  | 0, _ =>
      fail (.inputRequired
        ("the server kept asking for input after " ++ toString maxInputRounds ++ " rounds"))
  | rounds + 1, retry => do
      let result ← env.requestWithHeaders "tools/call"
        (client.withMeta (callParams name args retry) elicitor.isSome) client.timeout true headers
      if isObject result = false then badResponse "tools/call result was not an object"
      else
        match kindOf texts result client.modernEra client.modernEra with
        | .error e => fail e
        | .ok .complete => return callResult texts result
        | .ok .task => driveTask texts env client elicitor fuel name result
        | .ok .inputRequired => do
            let responses ← answerCall texts client elicitor name result
            let state := result.get "requestState"
            if responses.isNone = true ∧ state.isNone = true then
              badResponse "input_required with neither inputRequests nor requestState"
            else do
              let raised ← env.stopped
              if raised then fail .cancelled
              else callRounds fuel name args headers rounds (some ⟨responses, state⟩)

end

/-- Call one tool. -/
def callToolWith (texts : Texts) (env : Env) (client : Client) (fuel : ℕ) (name : String) (args : Value)
    (opts : CallOpts) : Call CallResult :=
  match callHeaders client opts args with
  | .error e => fail e
  | .ok headers => callRounds texts env client opts.elicitor fuel name args headers (maxInputRounds + 1) none

end AgentRuntime.Mcp
