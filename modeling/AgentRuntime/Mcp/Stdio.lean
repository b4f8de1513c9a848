import AgentRuntime.Lib.Machine
import AgentRuntime.Mcp.Client
import AgentRuntime.Mcp.Lines

/-!
# `Mcp.Stdio` — requests over a server's pipes (`agent-mcp-host/src/transport.rs`)

A request takes an id, enters the table of pending requests, sends its line and waits. One reader cuts the server's
output into lines; an answer takes its request out of the table and sends it the reply. A line over the cap cannot be
parsed, and is attributed to a request by its first bytes.

A label is one step of one party: of the thread of a request, of the reader, of the server or of the clock; so a run
is any interleaving. A sender that was taken out of the table is with the reader until it is used. `Line.bytes` and
`stream` are for the statements only.
-/

namespace AgentRuntime.Mcp

open Json Machine

abbrev Reply : Type := Except McpError Value

/-! ## Messages -/

def unsupportedProtocolVersion : ℤ := -32022

/-- The outcome that a response carries. -/
def responseOutcome (msg : Value) : Reply :=
  match msg.get "error" with
  | some err =>
      let code := ((err.get "code").bind Value.asI64).getD 0
      if code = unsupportedProtocolVersion then
        let listed := ((err.pointer ["data", "supported"]).bind Value.asArray).getD []
        .error (.unsupportedVersion (((listed.filterMap Value.asStr).take 16).map fun v => short v 40))
      else .error (.rpc code (short (strOr (err.get "message")) 500))
  | none =>
      match msg.get "result" with
      | some r => .ok r
      | none => .error (.badResponse "a response had neither result nor error")

/-- What a line is to the reader. -/
inductive Heard where
  | blank
  /-- Not a usable message. -/
  | bad
  /-- A request of the server. -/
  | request (id : Value) (method : String)
  | notification (method : String)
  | answer (id : ℕ) (reply : Reply)

def hear (parse : String → Option Value) (line : List UInt8) : Heard :=
  let text := Text.trim (Utf8.textOf line)
  if text = [] then .blank
  else
    match parse (String.ofList text) with
    | none => .bad
    | some msg =>
        if isObject msg = false then .bad
        else
          match (msg.get "method").bind Value.asStr with
          | some method =>
              match msg.get "id" with
              | some id => .request id method
              | none => .notification method
          | none =>
              match (msg.get "id").bind Value.asU64 with
              | some id => .answer id (responseOutcome msg)
              | none => .bad

/-- A line that is queued for the server. -/
inductive Outgoing where
  | request (id : ℕ)
  | cancelled (id : ℕ) (reason : String)
  | answer (id : Value) (method : String)

/-! ## The state -/

/-- Where the thread of a request stands. -/
inductive Phase where
  | unborn
  | numbered (timeout : Duration)
  /-- In the table. -/
  | registered (timeout : Duration)
  | admitted (timeout : Duration)
  | waiting (timeout deadline : Duration)
  /-- About to leave the table, with what it returns then. -/
  | leaving (reply : Reply) (reason : Option String)
  /-- About to tell the server. -/
  | telling (reply : Reply) (reason : String)
  | ended (reply : Reply)

/-- Where the reader stands. -/
inductive Stage where
  | reading
  /-- The output is closed. -/
  | closed
  | draining
  | done
deriving DecidableEq

structure Reader where
  stage : Stage
  cut : Cut
  /-- The lines that were read and not yet treated. -/
  lines : List Line
  /-- The pending requests, as they were looked up for a line over the cap. -/
  seen : Option (List ℕ)
  /-- The senders that were taken out of the table, and what they will send. -/
  hand : List (ℕ × Reply)

structure World where
  nextId : ℕ
  /-- The ids that were given, the last one first. -/
  given : List ℕ
  pending : List ℕ
  exited : Bool
  bad : ℕ
  listChanged : Bool
  /-- The writer takes lines. -/
  writer : Bool
  sent : List Outgoing
  channel : ℕ → Option Reply
  phase : ℕ → Phase
  reader : Reader
  clock : Duration
  /-- What was read of the server's output. -/
  stream : List UInt8

inductive Label where
  | request (timeout : Duration)
  /-- The next step of a request's thread; `stopped` is what it sees of the stop flag. -/
  | step (id : ℕ) (stopped : Bool)
  | listen
  /-- The server's output yields a chunk. -/
  | read (chunk : List UInt8)
  | eof
  /-- The next step of the reader. -/
  | reader
  | tick (time : Duration)
  /-- The writer takes no more lines. -/
  | shut

/-! ## The steps -/

namespace World

def init : World where
  nextId := 0
  given := []
  pending := []
  exited := false
  bad := 0
  listChanged := false
  writer := true
  sent := []
  channel := fun _ => none
  phase := fun _ => .unborn
  reader := ⟨.reading, .fresh, [], none, []⟩
  clock := 0
  stream := []

def setPhase (w : World) (id : ℕ) (p : Phase) : World := { w with phase := Function.update w.phase id p }

def sendLine (w : World) (line : Outgoing) : World := if w.writer then { w with sent := w.sent ++ [line] } else w

/-- The next id. -/
def number (w : World) : ℕ × World := (w.nextId + 1, { w with nextId := w.nextId + 1, given := (w.nextId + 1) :: w.given })

def remove (w : World) (id : ℕ) : World := { w with pending := w.pending.filter (· ≠ id) }

/-- The start of a request; it is refused at once when the server is gone. -/
def request (w : World) (timeout : Duration) : World :=
  if w.exited then w
  else
    let (id, w) := w.number
    w.setPhase id (.numbered timeout)

/-- One round of `wait`. -/
def wait (w : World) (id : ℕ) (timeout deadline : Duration) (stopped : Bool) : World :=
  if stopped then w.setPhase id (.leaving (.error .cancelled) (some "stopped by the member"))
  else if deadline ≤ w.clock then w.setPhase id (.leaving (.error (.timeout timeout)) (some "timed out"))
  else
    match w.channel id with
    | some reply => w.setPhase id (.ended reply)
    | none =>
        -- every sender is in the table or with the reader
        if id ∉ w.pending ∧ id ∉ w.reader.hand.map Prod.fst then
          w.setPhase id (.ended (.error (.serverExited "its output closed")))
        else w

def step (w : World) (id : ℕ) (stopped : Bool) : World :=
  match w.phase id with
  | .unborn => w
  | .numbered timeout => { w.setPhase id (.registered timeout) with pending := id :: w.pending }
  | .registered timeout =>
      if w.exited then w.setPhase id (.leaving (.error (.serverExited "not running")) none)
      else w.setPhase id (.admitted timeout)
  | .admitted timeout =>
      if w.writer then (w.sendLine (.request id)).setPhase id (.waiting timeout (w.clock + timeout))
      else w.setPhase id (.leaving (.error (.serverExited "its input is closed")) none)
  | .waiting timeout deadline => w.wait id timeout deadline stopped
  | .leaving reply (some reason) => (w.remove id).setPhase id (.telling reply reason)
  | .leaving reply none => (w.remove id).setPhase id (.ended reply)
  | .telling reply reason => (w.sendLine (.cancelled id reason)).setPhase id (.ended reply)
  | .ended _ => w

/-! ### The reader -/

def setReader (w : World) (r : Reader) : World := { w with reader := r }

/-- A chunk is read when every line before it was treated. -/
def read (max : ℕ) (w : World) (chunk : List UInt8) : World :=
  if w.reader.stage = .reading ∧ w.reader.lines = [] ∧ w.reader.hand = [] ∧ chunk ≠ [] then
    let (lines, cut) := w.reader.cut.feed max chunk
    { w with reader := { w.reader with cut := cut, lines := lines }, stream := w.stream ++ chunk }
  else w

/-- The senders of these requests are taken out of the table. -/
def take (w : World) (ids : List ℕ) (reply : Reply) : World :=
  { w with
    pending := w.pending.filter fun id => !ids.contains id
    reader := { w.reader with hand := ids.map fun id => (id, reply) } }

def onLine (parse : String → Option Value) (w : World) (line : List UInt8) : World :=
  match hear parse line with
  | .blank => w
  | .bad => { w with bad := w.bad + 1 }
  | .request id method => w.sendLine (.answer id method)
  | .notification method =>
      if method = "notifications/tools/list_changed" then { w with listChanged := true } else w
  | .answer id reply => if id ∈ w.pending then w.take [id] reply else w

end World

/-- The request that a line over the cap is attributed to: the only one, or the first whose id is found. -/
def attributed (seen : List ℕ) (kept : List UInt8) : Option ℕ :=
  match seen with
  | [id] => some id
  | _ => (scanIds kept).find? fun id => seen.contains id

namespace World

/-- A line over the cap, once the pending requests were looked up. -/
def onOversize (max : ℕ) (w : World) (seen : List ℕ) (kept : List UInt8) : World :=
  match (attributed seen kept).filter fun id => w.pending.contains id with
  | some id => w.take [id] (.error (.oversize max))
  | none => w.take w.pending (.error (.oversize max))

/-- One step of the reader: it uses the senders it holds, and then treats the next line. -/
def readerStep (parse : String → Option Value) (max : ℕ) (w : World) : World :=
  match w.reader.hand with
  | (id, reply) :: hand =>
      { w with channel := Function.update w.channel id (some reply), reader := { w.reader with hand := hand } }
  | [] =>
      match w.reader.lines with
      | .whole bytes :: lines => (w.setReader { w.reader with lines := lines }).onLine parse bytes
      | .oversize kept _ :: lines =>
          match w.reader.seen with
          | none => w.setReader { w.reader with seen := some w.pending }
          | some seen => (w.setReader { w.reader with seen := none, lines := lines }).onOversize max seen kept
      | [] =>
          match w.reader.stage with
          | .reading => w
          | .closed => { w.setReader { w.reader with stage := .draining } with exited := true }
          | .draining =>
              (w.setReader { w.reader with stage := .done }).take w.pending (.error (.serverExited "its output closed"))
          | .done => w

def exec (parse : String → Option Value) (max : ℕ) (w : World) : Label → World
  | .request timeout => w.request timeout
  | .step id stopped => w.step id stopped
  | .listen => w.number.2.sendLine (.request (w.nextId + 1))
  | .read chunk => w.read max chunk
  | .eof =>
      if w.reader.stage = .reading ∧ w.reader.lines = [] ∧ w.reader.hand = [] then
        w.setReader { w.reader with stage := .closed }
      else w
  | .reader => w.readerStep parse max
  | .tick time => { w with clock := w.clock + time }
  | .shut => { w with writer := false }

end World

/-! ## Lines over the cap, as they are treated -/

/-- A line over the cap: what is kept of it, all of its bytes, the requests that were pending when they were looked up
    and when one is failed, and those that are failed. -/
structure Treated where
  kept : List UInt8
  bytes : List UInt8
  seen : List ℕ
  pending : List ℕ
  failed : List ℕ

/-- The line over the cap that a step treats. -/
def treated (parse : String → Option Value) (max : ℕ) (w : World) (l : Label) : List Treated :=
  match l, w.reader.hand, w.reader.lines, w.reader.seen with
  | .reader, [], .oversize kept bytes :: _, some seen =>
      [{ kept, bytes, seen, pending := w.pending
         failed := (w.exec parse max l).reader.hand.map Prod.fst }]
  | _, _, _, _ => []

/-- The worlds that a run reaches. -/
def World.Reachable (parse : String → Option Value) (max : ℕ) (w : World) : Prop :=
  ∃ ls, w = run (World.exec parse max) .init ls

end AgentRuntime.Mcp
