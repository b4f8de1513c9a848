import AgentRuntime.Lib.JsonValue
import AgentRuntime.Lib.Machine

/-!
# `Workers.Supervisor` — one supervised worker process (`agent-workers/src/lib.rs`)

Callers, the monitor thread, one reader thread for each child, and the children themselves, interleaved. A step is one
access to what is shared: the table of pending requests, the handle of the child's input, a channel, the pipe.

A request is followed by its id, whoever sent it: `phase id` is where its sender stands. The child's input is a pipe of
bounded room: what is written fills it, and only the child empties it. The writer holds the lock of the handle for as
long as its line is not written.

Times are left open: a wait with a deadline may end at any step at which nothing has ended it before.
-/

namespace AgentRuntime.Workers

/-! ## The data of the source -/

inductive WorkerState where
  | starting | running | restarting | failed | stopped
deriving DecidableEq

inductive WorkerError where
  | notRunning (why : String)
  | crashed (why : String)
  | timeout
  | remote (text : String)

abbrev Reply := Except WorkerError Json.Value

/-- A line of the child's output. -/
structure Response where
  id : ℕ
  result : Option Json.Value
  error : Option String

def Response.reply (resp : Response) : Reply :=
  match resp.result, resp.error with
  | _, some e => .error (.remote e)
  | some v, none => .ok v
  | none, none => .ok .null

inductive ExitStatus where
  | code (n : ℤ)
  | signal (n : ℕ)
  | unknown
deriving DecidableEq

/-- `describe_exit`. -/
def describeExit : ExitStatus → String
  | .code n => s!"exited with code {n}"
  | .signal n => s!"killed by signal {n}"
  | .unknown => "exited"

/-- What the monitor is configured with. `pipe` is the room of the pipe to a child's input. -/
structure Policy where
  program : String
  maxRestarts : ℕ
  windowSecs : ℕ
  healthFailuresToKill : ℕ
  pipe : ℕ

def maxLineBytes : ℕ := 32 * 1024 * 1024

/-- The length of a request's line, without its line feed, when its params take `params` bytes. -/
def lineLength (id : ℕ) (method : String) (params : ℕ) : ℕ :=
  ("\x7b\"id\":" ++ toString id ++ ",\"method\":\"" ++ method ++ "\",\"params\":").length + params + 1

/-! ## The state -/

/-- Where the sender of a request stands. -/
inductive Phase where
  | unborn
  | numbered (bytes : ℕ)
  /-- The request is in the table. -/
  | registered (bytes : ℕ)
  /-- Its sender holds the lock of the handle; `rest` bytes for the child `c` are left. -/
  | writing (c rest : ℕ)
  /-- The write failed; the request is to be taken out of the table. -/
  | refused
  | waiting
  /-- The wait is over without a reply; the request is to be taken out of the table. -/
  | expired
  | ended (reply : Reply)

/-- One call of `Worker::call`. Its params are given by their encoded length, or by why they cannot be encoded. -/
inductive CallPc where
  | idle
  | checking (params : Except String ℕ)
  | admitted (params : Except String ℕ)
  | requesting (id : ℕ)
  | done (id : Option ℕ) (reply : Reply)

structure Child where
  exited : Option ExitStatus
  /-- Some process holds the reading end of its input. -/
  reading : Bool
  /-- Bytes in the pipe. -/
  fill : ℕ
  /-- The requests whose line was written to its input, in part or whole. -/
  begun : List ℕ
  /-- The requests whose line was written whole. -/
  received : List ℕ
  /-- The lines it wrote. -/
  said : List Response
  /-- How many of them its reader has read. -/
  heard : ℕ
  /-- The sender its reader took from the table, and what it will send. -/
  hand : Option (ℕ × Reply)

def Child.new : Child where
  exited := none
  reading := true
  fill := 0
  begun := []
  received := []
  said := []
  heard := 0
  hand := none

/-- What a request of the monitor is for. -/
inductive Ask where
  | startup
  | health (misses : ℕ)
  | shutdown
deriving DecidableEq

def Ask.method : Ask → String
  | .startup => "ping"
  | .health _ => "ping"
  | .shutdown => "shutdown"

inductive Ping where
  | answered | missed | exited
deriving DecidableEq

/-- Where the monitor stands. `requested` says that the child ends because of a shutdown. -/
inductive MonitorPc where
  /-- The top of the loop. -/
  | head
  | stopping
  | starting
  | spawning
  /-- The child is there; its input becomes the handle. -/
  | opening
  | asking (a : Ask)
  /-- In a request; `exited` says that the child was seen to have exited. -/
  | asked (a : Ask) (id : ℕ) (exited : Bool)
  | pinged (a : Ask) (result : Ping)
  /-- The startup ping was missed, and no shutdown was seen. -/
  | unready
  | running (misses : ℕ)
  | sleeping (misses : ℕ)
  | due (misses : ℕ)
  /-- Too many health checks were missed. -/
  | condemned (misses : ℕ)
  | killing (requested : Bool)
  /-- `graceful_stop` closes the child's input. -/
  | closing
  | grace
  /-- The child has exited; its input is closed. -/
  | leaving (requested : Bool)
  | reaping (requested : Bool)
  | draining (requested : Bool) (desc : Option String)
  /-- `fail_pending`, with the senders that are still to be told. -/
  | failing (requested : Bool) (desc : Option String) (ids : Finset ℕ)
  | deciding (requested : Bool) (desc : Option String)
  | restarting (desc : Option String)
  | backoff
  | returned

structure World where
  state : WorkerState
  shuttingDown : Bool
  lastError : Option String
  /-- The last id that was given. -/
  ids : ℕ
  pending : Finset ℕ
  channel : ℕ → Option Reply
  phase : ℕ → Phase
  /-- The handle: the child whose input it is. -/
  stdin : Option ℕ
  /-- The request whose sender holds the lock of the handle. -/
  holder : Option ℕ
  calls : ℕ → CallPc
  monitor : MonitorPc
  /-- The restarts the monitor remembers. -/
  recent : ℕ
  children : ℕ → Child
  spawned : ℕ

inductive Move where
  /-- The next step. -/
  | go
  /-- The next step, when the time of the wait has passed. -/
  | late
  /-- `has_exited` fails. -/
  | fault
  | spawn (failure : Option String)
  /-- `fail_pending` tells one sender. -/
  | fail (id : ℕ)
  /-- `old` of the remembered restarts have left the window. -/
  | restart (old : ℕ)

inductive Label where
  | call (i : ℕ) (params : Except String ℕ)
  | look (i : ℕ)
  /-- The deadline of a call passes while the worker is not running. -/
  | late (i : ℕ)
  | begin (i : ℕ)
  | finish (i : ℕ)
  | register (id : ℕ)
  | lock (id : ℕ)
  | write (id n : ℕ)
  | forget (id : ℕ)
  | recv (id : ℕ)
  | timeout (id : ℕ)
  | monitor (m : Move)
  | shutdown
  /-- The reader of a child reads a line, and takes its sender from the table. -/
  | take (c : ℕ)
  | give (c : ℕ)
  | exit (c : ℕ) (status : ExitStatus)
  | close (c : ℕ)
  | read (c n : ℕ)
  | answer (c : ℕ) (resp : Response)

/-- The steps of the children. -/
def Label.ofChild : Label → Bool
  | .exit .. => true
  | .close _ => true
  | .read .. => true
  | .answer .. => true
  | _ => false

/-! ## The steps -/

namespace World

def init : World where
  state := .starting
  shuttingDown := false
  lastError := none
  ids := 0
  pending := ∅
  channel := fun _ => none
  phase := fun _ => .unborn
  stdin := none
  holder := none
  calls := fun _ => .idle
  monitor := .head
  recent := 0
  children := fun _ => .new
  spawned := 0

/-- A worker whose monitor thread could not be started. -/
def unsupervised : World where
  __ := init
  state := .failed
  lastError := some "could not start the supervisor thread"
  monitor := .returned

def setPhase (w : World) (id : ℕ) (p : Phase) : World := { w with phase := Function.update w.phase id p }

def setCall (w : World) (i : ℕ) (p : CallPc) : World := { w with calls := Function.update w.calls i p }

def setChild (w : World) (c : ℕ) (child : Child) : World :=
  { w with children := Function.update w.children c child }

/-- The child that was spawned last. -/
def current (w : World) : Child := w.children (w.spawned - 1)

/-- The start of `Inner::send`: an id and a line. -/
def begin (w : World) (method : String) (params : Except String ℕ) : Except WorkerError ℕ × World :=
  let id := w.ids + 1
  let w := { w with ids := id }
  match params with
  | .error e => (.error (.remote s!"could not encode the request: {e}"), w)
  | .ok n =>
      let bytes := lineLength id method n
      if maxLineBytes < bytes then
        (.error (.remote s!"the request is too large for the worker wire ({bytes} bytes, limit {maxLineBytes})"), w)
      else (.ok id, w.setPhase id (.numbered bytes))

/-! ### Callers -/

def look (w : World) (i : ℕ) (params : Except String ℕ) : World :=
  match w.state with
  | .running => w.setCall i (.admitted params)
  | .failed =>
      let why := match w.lastError with
        | some e => s!"failed: {e}"
        | none => "failed"
      w.setCall i (.done none (.error (.notRunning why)))
  | .stopped => w.setCall i (.done none (.error (.notRunning "stopped")))
  | .starting => w
  | .restarting => w

def giveUp (w : World) (i : ℕ) : World :=
  match w.state with
  | .starting => w.setCall i (.done none (.error (.notRunning "still restarting at the call's deadline")))
  | .restarting => w.setCall i (.done none (.error (.notRunning "still restarting at the call's deadline")))
  | _ => w

def beginCall (w : World) (i : ℕ) (params : Except String ℕ) : World :=
  match w.begin "call" params with
  | (.error e, w) => w.setCall i (.done none (.error e))
  | (.ok id, w) => w.setCall i (.requesting id)

/-! ### Requests -/

/-- The lock of the handle is taken; without a child behind it, it is given back at once. -/
def lockStdin (w : World) (id bytes : ℕ) : World :=
  match w.stdin with
  | none => w.setPhase id .refused
  | some c =>
      let child := w.children c
      { (w.setPhase id (.writing c (bytes + 1))).setChild c { child with begun := child.begun ++ [id] } with
        holder := some id }

/-- One write into the pipe, of at most `n` bytes. -/
def writeSome (pipe : ℕ) (w : World) (id c rest n : ℕ) : World :=
  let child := w.children c
  if child.reading then
    let k := min n (min rest (pipe - child.fill))
    if k = rest then
      { (w.setPhase id .waiting).setChild c
          { child with fill := child.fill + k, received := child.received ++ [id] } with
        holder := none }
    else (w.setPhase id (.writing c (rest - k))).setChild c { child with fill := child.fill + k }
  else { w.setPhase id .refused with holder := none }

/-- The request is taken out of the table, and its sender returns. -/
def drop (w : World) (id : ℕ) (reply : Reply) : World :=
  { w.setPhase id (.ended reply) with pending := w.pending.erase id }

/-! ### The monitor -/

def goto (w : World) (m : MonitorPc) : World := { w with monitor := m }

/-- What the monitor does after a request it made. -/
def afterAsk (w : World) (a : Ask) (p : Ping) : World :=
  match a with
  | .shutdown => w.goto .closing
  | _ => w.goto (.pinged a p)

def ask (w : World) (a : Ask) : World :=
  match w.begin a.method (.ok 4) with
  | (.error _, w) => w.afterAsk a .missed
  | (.ok id, w) => w.goto (.asked a id false)

/-- The monitor in a request: at its end the ping has a result; while it waits, it watches the child. -/
def asked (w : World) (a : Ask) (id : ℕ) (exited : Bool) : World :=
  match w.phase id with
  | .ended (.ok _) => w.afterAsk a (if exited then .exited else .answered)
  | .ended (.error _) => w.afterAsk a (if exited then .exited else .missed)
  | .waiting =>
      if a ≠ .shutdown ∧ (w.channel id).isNone ∧ w.current.exited.isSome then
        (w.setPhase id .expired).goto (.asked a id true)
      else w
  | _ => w

/-- After a ping. -/
def pinged (policy : Policy) (w : World) (a : Ask) (p : Ping) : World :=
  match a, p with
  | _, .exited => w.goto (.leaving false)
  | .startup, .answered => { w with state := .running, monitor := .running 0 }
  | .startup, .missed => w.goto (if w.shuttingDown then .asking .shutdown else .unready)
  | .health _, .answered => w.goto (.running 0)
  | .health misses, .missed =>
      w.goto (if policy.healthFailuresToKill ≤ misses + 1 then .condemned (misses + 1) else .running (misses + 1))
  | .shutdown, _ => w.goto .closing

/-- `kill_and_wait`: the child has exited after it. -/
def kill (w : World) (requested : Bool) : World :=
  let c := w.spawned - 1
  let child := w.children c
  (w.setChild c { child with exited := some (child.exited.getD (.signal 9)) }).goto (.leaving requested)

/-- A restart within the policy, or the worker is given up. -/
def restart (policy : Policy) (w : World) (desc : Option String) (old : ℕ) : World :=
  if policy.maxRestarts ≤ w.recent - old then
    let tail := w.lastError.getD (desc.getD "the worker could not be started")
    { w with
      state := .failed
      lastError := some
        s!"gave up after {policy.maxRestarts} restarts in {policy.windowSecs}s; last problem: {tail}"
      recent := w.recent - old
      monitor := .returned }
  else { w with state := .restarting, recent := w.recent - old + 1, monitor := .backoff }

/-- One step of the monitor. -/
def step (policy : Policy) (w : World) (m : Move) : World :=
  match w.monitor, m with
  | .head, .go => w.goto (if w.shuttingDown then .stopping else .starting)
  | .stopping, .go => { w with state := .stopped, monitor := .returned }
  | .starting, .go => { w with state := .starting, monitor := .spawning }
  | .spawning, .spawn (some e) =>
      { w with lastError := some s!"could not start {policy.program}: {e}", monitor := .draining false none }
  | .spawning, .spawn none =>
      { w.setChild w.spawned .new with spawned := w.spawned + 1, monitor := .opening }
  | .opening, .go =>
      if w.holder = none then { w with stdin := some (w.spawned - 1), monitor := .asking .startup } else w
  | .asking a, .go => w.ask a
  | .asked a id exited, .go => w.asked a id exited
  | .pinged a p, .go => w.pinged policy a p
  | .unready, .go =>
      if w.current.exited.isSome then w.goto (.leaving false)
      else { w with lastError := some "did not answer its startup health check", monitor := .killing false }
  | .running misses, .go => w.goto (if w.current.exited.isSome then .leaving false else .sleeping misses)
  | .running _, .fault => w.goto (.killing false)
  | .sleeping misses, .late => w.goto (if w.shuttingDown then .asking .shutdown else .due misses)
  | .sleeping _, .go => if w.shuttingDown then w.goto (.asking .shutdown) else w
  | .due misses, .go => w.goto (.running misses)
  | .due misses, .late => w.goto (.asking (.health misses))
  | .condemned misses, .go =>
      if w.current.exited.isSome then w.goto (.leaving false)
      else
        { w with
          lastError := some s!"stopped answering health checks ({misses} missed in a row)"
          monitor := .killing false }
  | .killing requested, .go => w.kill requested
  | .closing, .go => if w.holder = none then { w with stdin := none, monitor := .grace } else w
  | .grace, .go => if w.current.exited.isSome then w.goto (.leaving true) else w
  | .grace, .late => w.goto (if w.current.exited.isSome then .leaving true else .killing true)
  | .grace, .fault => w.goto (.killing true)
  | .leaving requested, .go =>
      if w.holder = none then { w with stdin := none, monitor := .reaping requested } else w
  | .reaping requested, .go => w.goto (.draining requested (w.current.exited.map describeExit))
  | .draining requested desc, .go => { w with pending := ∅, monitor := .failing requested desc w.pending }
  | .failing requested desc ids, .fail id =>
      if id ∈ ids then
        { w with
          channel := Function.update w.channel id
            (some (.error (.crashed (desc.getD "the worker could not be started"))))
          monitor := .failing requested desc (ids.erase id) }
      else w
  | .failing requested desc ids, .go => if ids = ∅ then w.goto (.deciding requested desc) else w
  | .deciding requested desc, .go =>
      w.goto (if requested ∨ w.shuttingDown then .stopping else .restarting desc)
  | .restarting desc, .restart old => w.restart policy desc old
  | .backoff, .go => if w.shuttingDown then w.goto .stopping else w
  | .backoff, .late => w.goto (if w.shuttingDown then .stopping else .head)
  | _, _ => w

/-! ### One step of anyone -/

def exec (policy : Policy) (w : World) : Label → World
  | .call i params =>
      match w.calls i with
      | .idle => w.setCall i (.checking params)
      | _ => w
  | .look i =>
      match w.calls i with
      | .checking params => w.look i params
      | _ => w
  | .late i =>
      match w.calls i with
      | .checking _ => w.giveUp i
      | _ => w
  | .begin i =>
      match w.calls i with
      | .admitted params => w.beginCall i params
      | _ => w
  | .finish i =>
      match w.calls i with
      | .requesting id =>
          match w.phase id with
          | .ended reply => w.setCall i (.done (some id) reply)
          | _ => w
      | _ => w
  | .register id =>
      match w.phase id with
      | .numbered bytes => { w.setPhase id (.registered bytes) with pending := insert id w.pending }
      | _ => w
  | .lock id =>
      match w.phase id with
      | .registered bytes => if w.holder = none then w.lockStdin id bytes else w
      | _ => w
  | .write id n =>
      match w.phase id with
      | .writing c rest => w.writeSome policy.pipe id c rest n
      | _ => w
  | .forget id =>
      match w.phase id with
      | .refused => w.drop id (.error (.crashed "the worker's input is closed"))
      | .expired => w.drop id (.error .timeout)
      | _ => w
  | .recv id =>
      match w.phase id, w.channel id with
      | .waiting, some reply => w.setPhase id (.ended reply)
      | _, _ => w
  | .timeout id =>
      match w.phase id, w.channel id with
      | .waiting, none => w.setPhase id .expired
      | _, _ => w
  | .monitor m => w.step policy m
  | .shutdown => { w with shuttingDown := true }
  | .take c =>
      let child := w.children c
      match child.hand, child.said[child.heard]? with
      | none, some resp =>
          { w.setChild c { child with
              heard := child.heard + 1
              hand := if resp.id ∈ w.pending then some (resp.id, resp.reply) else none } with
            pending := w.pending.erase resp.id }
      | _, _ => w
  | .give c =>
      match (w.children c).hand with
      | some (id, reply) =>
          { w.setChild c { w.children c with hand := none } with
            channel := Function.update w.channel id (some reply) }
      | none => w
  | .exit c status =>
      if (w.children c).exited = none then w.setChild c { w.children c with exited := some status } else w
  | .close c => w.setChild c { w.children c with reading := false }
  | .read c n => w.setChild c { w.children c with fill := (w.children c).fill - n }
  | .answer c resp =>
      -- a child answers what it was sent
      if (w.children c).exited = none ∧ resp.id ∈ (w.children c).received then
        w.setChild c { w.children c with said := (w.children c).said ++ [resp] }
      else w

end World

/-- The worlds that a run reaches. -/
def World.Reachable (policy : Policy) (w : World) : Prop :=
  ∃ w₀ ls, (w₀ = World.init ∨ w₀ = World.unsupervised) ∧ w = Machine.run (World.exec policy) w₀ ls

end AgentRuntime.Workers
