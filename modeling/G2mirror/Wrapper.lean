import G2mirror.Control
import G2mirror.Library.Machine
import G2mirror.Mirror
import Mathlib.Algebra.Group.Nat.Defs
import Mathlib.Data.List.MinMax
import Mathlib.Data.Prod.Lex

/-!
# The wrapper's event loop

`main.rs`: the state of a running wrapper and what each event of its loop does.
The view is re-decided whenever the set of viewing clients or their sizes may
have changed.
-/

namespace G2mirror

variable {vt : Vt100}

/-- `HOTKEY`: Ctrl+G simulates a device connect or disconnect. -/
def hotkey : UInt8 := 0x07

/-- `REFRESH_KEY`: Ctrl+L refreshes the mirrored scrollback. -/
def refreshKey : UInt8 := 0x0c

/-- `BELL_DEBOUNCE`, in milliseconds. -/
def bellDebounce : ℕ := 3000

/-- `ACTIVITY_REPORT_INTERVAL`, in milliseconds. -/
def activityReportInterval : ℕ := 2000

/-- `u32::MAX`. -/
def u32Max : ℕ := 2 ^ 32 - 1

/-- What is fixed when a wrapper starts. -/
structure Config where
  headless : Bool
  readonly : Bool
  pid : ℕ
  commandLine : String
  cwd : String
  launched : Option String
  /-- The size of the host terminal, or the one given for a headless session. -/
  size : ℕ × ℕ
  scrollback : ℕ
  title : Option String

/-- What `refresh_view`, `sweep_and_refresh` and `handle_viewer_message` work on. -/
structure Stage (vt : Vt100) where
  viewers : List Client
  monitor : Option Client
  mirror : Mirror vt
  /-- A host-role client currently holds a headless session's host slot. -/
  hostAttached : Bool
  /-- The size of the pty. -/
  pty : ℕ × ℕ
  log : Log

/-- A client that is connected and viewing. -/
def Client.isViewing (c : Client) : Bool := !c.dead && c.state = .viewing

/-- A client that is connected and holds the host role. -/
def Client.isHost (c : Client) : Bool := !c.dead && c.role = .host

namespace Stage

/-- Add entries to the log, the first of them last. -/
def note (s : Stage vt) (entries : Log) : Stage vt := { s with log := entries ++ s.log }

/-- The stage with another mirror. -/
def withMirror (s : Stage vt) (mirror : Mirror vt) : Stage vt := { s with mirror := mirror }

/-- The stage with other viewers. -/
def withViewers (s : Stage vt) (viewers : List Client) : Stage vt := { s with viewers := viewers }

/-- `pty_write.resize`. -/
def resizePty (s : Stage vt) (env : Env) (rows cols : ℕ) : Stage vt :=
  { s with
    pty := if env.succeeds s.log then (rows, cols) else s.pty
    log := .ptyResized rows cols (env.succeeds s.log) :: s.log }

/-- `HostTerm::write`: in headless mode writes are discarded. -/
def writeHost (s : Stage vt) (env : Env) (headless : Bool) (bytes : Bytes) :
    Option String × Stage vt :=
  if headless || bytes = [] then (none, s)
  else (env.failure s.log, s.note [.hostWrote bytes (env.succeeds s.log)])

/-- `pty_write.write_all`. -/
def writePty (s : Stage vt) (env : Env) (bytes : Bytes) : Option String × Stage vt :=
  if bytes = [] then (none, s)
  else (env.failure s.log, s.note [.ptyWrote bytes (env.succeeds s.log)])

/-- `apply_transition`. -/
def applyTransition (s : Stage vt) (env : Env) (headless : Bool) (t : Transition) :
    Option String × Stage vt :=
  match t.childSize with
  | none => s.writeHost env headless (render t.hostOutput)
  | some (rows, cols) =>
    match env.failure s.log with
    | some error => (some error, s.resizePty env rows cols)
    | none => (s.resizePty env rows cols).writeHost env headless (render t.hostOutput)

/-- Start a view and apply its transition. -/
def startView (s : Stage vt) (env : Env) (headless : Bool) (view : View) :
    Option String × Stage vt :=
  let (t, mirror) := s.mirror.startView view
  let (error, s) := (s.withMirror mirror).applyTransition env headless t
  (error, s.note [.viewStarted view.rows view.cols error.isNone])

/-- End the view and apply its transition. -/
def endView (s : Stage vt) (env : Env) (headless : Bool) : Option String × Stage vt :=
  let (t, mirror) := s.mirror.endView
  (s.withMirror mirror).applyTransition env headless t

/-- Send a message to some of the viewers. -/
def tell (s : Stage vt) (env : Env) (msg : FromSession) (wanted : ℕ → Client → Bool) :
    Stage vt :=
  let sent := broadcast env msg wanted 0 s.viewers s.log
  { s with viewers := sent.clients, log := sent.log }

/-- Send a message to the monitor, if there is one, dropping it if the send fails. -/
def tellMonitor (s : Stage vt) (env : Env) (msg : FromSession) : Stage vt :=
  match s.monitor with
  | none => s
  | some m =>
    { s with
      monitor := if env.succeeds s.log then some m else none
      log := env.send m msg s.log }

/-- The best-ranked of the viewing clients. -/
def best (s : Stage vt) (hostRank : ℕ) : Option Client :=
  (s.viewers.filter Client.isViewing).argmin fun c => toLex (c.effectiveRank hostRank, c.id)

/-- The size that the view should have: none if nobody is viewing, and the host's
if a physical host terminal outranks every viewer. -/
def target (s : Stage vt) (hostRank : ℕ) (headless : Bool) : Option (ℕ × ℕ) :=
  (s.best hostRank).map fun c =>
    if headless || c.effectiveRank hostRank ≤ hostRank then (c.height, c.width)
    else s.mirror.hostSize

/-- The current view is not one for clients at this size. -/
def needsView (s : Stage vt) (rows cols : ℕ) : Bool :=
  match s.mirror.view with
  | none => true
  | some v => v.simulated || (v.rows, v.cols) ≠ (rows, cols)

/-- The snapshot message of a view. -/
def snapshotMessage (s : Stage vt) (env : Env) (data : Bytes) (rows cols : ℕ) : FromSession :=
  .snapshot (env.base64.encode data) cols rows s.mirror.historyExtent.1

/-- `refresh_view`: re-decide the view from the ranks of everyone currently viewing. -/
def refreshView (s : Stage vt) (env : Env) (headless : Bool) (hostRank : ℕ)
    (forceFor : Option ℕ) : Option String × Stage vt :=
  match s.target hostRank headless with
  | none =>
    if !headless && s.mirror.view.any fun v => !v.simulated then s.endView env headless
    else (none, s)
  | some (rows, cols) =>
    let changed := s.needsView rows cols
    if changed || forceFor.isSome then
      let remote := (s.mirror.startView ⟨rows, cols, false⟩).1.remoteOutput
      match s.startView env headless ⟨rows, cols, false⟩ with
      | (some error, s) => (some error, s)
      | (none, s) =>
        (none, s.tell env (s.snapshotMessage env (remote.getD []) rows cols) fun i c =>
          c.isViewing && (changed || forceFor = some i))
    else (none, s)

/-- The first half of a pass of `sweep_and_refresh`: notice and report a change
of the host-role occupancy. -/
def announceHost (s : Stage vt) (env : Env) : Stage vt :=
  let now := s.viewers.any Client.isHost
  if now = s.hostAttached then s
  else
    let s := { s with hostAttached := now }
    (s.tellMonitor env (.hostChanged now)).tell env (.hostChanged now) fun _ c => !c.dead

/-- Remove dead clients. -/
def removeDead (s : Stage vt) : Stage vt := s.withViewers (s.viewers.filter fun c => !c.dead)

/-- The loop of `sweep_and_refresh`. Every pass but the last loses a client. -/
def sweepLoop (env : Env) (headless : Bool) (hostRank : ℕ) :
    ℕ → Stage vt → Option String × Stage vt
  | 0, s => (none, s)
  | fuel + 1, s =>
    match ((s.announceHost env).removeDead).refreshView env headless hostRank none with
    | (some error, s) => (some error, s)
    | (none, s) =>
      if s.viewers.all fun c => !c.dead then (none, s) else sweepLoop env headless hostRank fuel s

/-- `sweep_and_refresh`: remove dead clients and re-decide the view, until no
further client dies. -/
def sweepAndRefresh (s : Stage vt) (env : Env) (headless : Bool) (hostRank : ℕ) :
    Option String × Stage vt :=
  sweepLoop env headless hostRank (s.viewers.length + 1) s

/-- `toggle_simulated`: ignored while a real client is viewing. -/
def toggleSimulated (s : Stage vt) (env : Env) (headless : Bool) : Option String × Stage vt :=
  match s.mirror.view with
  | none => s.startView env headless ⟨simRows, simCols, true⟩
  | some v => if v.simulated then s.endView env headless else (none, s)

/-- The reply to a history request. -/
def historyReply (s : Stage vt) (env : Env) (before : ℕ) (limit : Option ℕ) : FromSession :=
  let (start, records) := s.mirror.history.fetch before
    (min (limit.getD defaultFetchLimit) defaultFetchLimit)
  let (next, oldest) := s.mirror.historyExtent
  .historyLines start oldest next
    (records.map fun r => ⟨env.base64.encode r.bytes, r.width, r.wrapped⟩)

/-- A message to viewer `c` whose failure the caller handles. -/
def reply (s : Stage vt) (env : Env) (c : Client) (msg : FromSession) :
    Option String × Stage vt :=
  (env.failure s.log, { s with log := env.send c msg s.log })

/-- `handle_viewer_message`: one message from viewer `i`, who is `c`. An error
drops that viewer. -/
def handleViewerMessage (s : Stage vt) (env : Env) (config : Config) (hostRank : ℕ)
    (msg : ToSession) (i : ℕ) (c : Client) (now : ℕ → ℕ) (queue : InputQueue) :
    Option String × Stage vt × InputQueue :=
  match msg with
  | .init _ => (some "duplicate init", s, queue)
  | .monitor _ => (some "already initialized as a viewer", s, queue)
  | .resize width height =>
    if 0 < width ∧ 0 < height then
      let resized := s.withViewers (s.viewers.set i { c with width := width, height := height })
      let (error, s) := resized.refreshView env config.headless hostRank none
      (error, s, queue)
    else (some "invalid resize dimensions", s, queue)
  | .input data delays =>
    if config.readonly then
      let (error, s) := s.reply env c (.error "session is read-only")
      (error, s, queue)
    else
      match env.base64.decode data with
      | .error e => (some ("invalid input encoding: " ++ e), s, queue)
      | .ok bytes =>
        if maxInputDelays < delays.length then
          (some "too many input delays (max 32)", s, queue)
        else if !InputQueue.delaysInOrder bytes.length 0 delays then
          (some "input delay offsets must be non-decreasing and within the data", s, queue)
        else
          let (error, queue, log) := (queue.push bytes delays).pump env now s.log
          (error, { s with log := log }, queue)
  | .view =>
    let viewing := s.withViewers (s.viewers.set i { c with state := .viewing })
    let (error, s) := viewing.refreshView env config.headless hostRank (some i)
    (error, s, queue)
  | .history before limit =>
    let (error, s) := s.reply env c (s.historyReply env before limit)
    (error, s, queue)
  | .unview =>
    if c.state = .viewing then
      let ready := s.withViewers (s.viewers.set i { c with state := .ready })
      let (error, s) := ready.refreshView env config.headless hostRank none
      (error, s, queue)
    else (none, s, queue)

end Stage

/-- A running wrapper, as its event loop has it between two events. -/
structure Wrapper (vt : Vt100) extends Stage vt where
  pendings : List Client
  /-- Rank of the host terminal, as reported by the most recent init. -/
  hostRank : ℕ
  nextClientId : ℕ
  bell : BellDebouncer
  lastOutputAt : Option ℕ
  lastActivityReport : Option ℕ
  inputQueue : InputQueue
  stdinOpen : Bool

/-- Readings of the monotonic and the epoch clock, in milliseconds. -/
structure Clock where
  now : ℕ
  epoch : ℕ

/-- The events of the loop that do not end it. -/
inductive Event
  | stdin (bytes : Bytes)
  | stdinEof
  /-- A chunk of child output, with the clocks read for its bells and for its activity. -/
  | output (bytes : Bytes) (rung wrote : Clock)
  | bellDue (now : ℕ)
  | inputDue (now : ℕ → ℕ)
  /-- The host terminal was resized. -/
  | winch (size : Option (ℕ × ℕ))
  | accept (size : Option (ℕ × ℕ))
  | pendingMessage (i : ℕ) (received : Received)
  | viewerMessage (i : ℕ) (received : Received) (now : ℕ → ℕ)
  | monitorMessage (received : Received)

/-- `host_size`: what the host terminal reports, unless it is degenerate. -/
def hostSize (reported : Option (ℕ × ℕ)) : ℕ × ℕ :=
  match reported with
  | some (rows, cols) => if 0 < rows ∧ 0 < cols then (rows, cols) else (24, 80)
  | none => (24, 80)

/-- `char::is_control`. -/
def isControl (c : Char) : Bool := c.toNat < 0x20 || (0x7f ≤ c.toNat && c.toNat < 0xa0)

namespace Wrapper

/-- The wrapper before its first event. A title given by option is shown on the
host terminal, without control characters. -/
def start (vt : Vt100) (env : Env) (config : Config) : Option (Wrapper vt) :=
  let mirror := (Mirror.new vt config.size.1 config.size.2).setHistoryLimit config.scrollback
  let stage : Stage vt := ⟨[], none, mirror, false, config.size, []⟩
  let wrapper (stage : Stage vt) : Wrapper vt :=
    { stage with
      pendings := []
      hostRank := u32Max
      nextClientId := 0
      bell := .new bellDebounce
      lastOutputAt := none
      lastActivityReport := none
      inputQueue := .empty
      stdinOpen := !config.headless }
  match config.title with
  | none => some (wrapper stage)
  | some t =>
    let clean := String.ofList (t.toList.filter fun c => !isControl c)
    match stage.writeHost env config.headless (TermOp.windowTitle clean).bytes with
    | (some _, _) => none
    | (none, stage) => some (wrapper (stage.withMirror (stage.mirror.setTitle clean)))

/-- The wrapper with another stage. -/
def withStage (w : Wrapper vt) (stage : Stage vt) : Wrapper vt := { w with toStage := stage }

/-- The wrapper without one of its pending connections. -/
def forget (w : Wrapper vt) (i : ℕ) : Wrapper vt := { w with pendings := w.pendings.eraseIdx i }

/-- Go on with another stage, unless there was an error. -/
def proceed (w : Wrapper vt) (result : Option String × Stage vt) : Option (Wrapper vt) :=
  match result with
  | (none, stage) => some (w.withStage stage)
  | (some _, _) => none

/-- `sweep_and_refresh` in the loop: an error ends the run. -/
def sweep (w : Wrapper vt) (env : Env) (config : Config) : Option (Wrapper vt) :=
  w.proceed (w.toStage.sweepAndRefresh env config.headless w.hostRank)

/-- Keyboard input: what precedes a hotkey is forwarded, and then the hotkey is
handled. `held` is what was not forwarded yet. -/
def typeKeys (env : Env) (headless : Bool) :
    Bytes → Bytes → Stage vt → Option String × Stage vt
  | held, [], s => s.writePty env held
  | held, b :: bs, s =>
    if b = hotkey then
      match s.writePty env held with
      | (some error, s) => (some error, s)
      | (none, s) =>
        match s.toggleSimulated env headless with
        | (some error, s) => (some error, s)
        | (none, s) => typeKeys env headless [] bs s
    else typeKeys env headless (held ++ [b]) bs s

/-- The keyboard branch: Ctrl+L also refreshes the mirrored scrollback. -/
def onStdin (w : Wrapper vt) (env : Env) (config : Config) (bytes : Bytes) :
    Option (Wrapper vt) :=
  match typeKeys env config.headless [] bytes w.toStage with
  | (some _, _) => none
  | (none, s) =>
    if refreshKey ∈ bytes then
      w.proceed (s.writeHost env config.headless (render s.mirror.refreshScrollback))
    else w.proceed (none, s)

/-- Report the bells of a chunk to the monitor. -/
def reportBells (w : Wrapper vt) (env : Env) (bells : ℕ) (clock : Clock) : Wrapper vt :=
  if 0 < bells && w.monitor.isSome then
    match w.bell.onBell clock.now clock.epoch with
    | (none, bell) => { w with bell := bell }
    | (some epoch, bell) =>
      { w with bell := bell, toStage := w.toStage.tellMonitor env (.bell epoch) }
  else w

/-- Note that the app wrote output, and report it to the monitor from time to time. -/
def reportActivity (w : Wrapper vt) (env : Env) (clock : Clock) : Wrapper vt :=
  let w := { w with lastOutputAt := some clock.epoch }
  let due := match w.lastActivityReport with
    | none => true
    | some sent => activityReportInterval ≤ clock.now - sent
  if w.monitor.isSome && due then
    { w with
      lastActivityReport := some clock.now
      toStage := w.toStage.tellMonitor env (.activity clock.epoch) }
  else w

/-- Stream a chunk's output to the viewing clients; answers whether one was lost. -/
def streamOutput (s : Stage vt) (env : Env) (remote : Option Bytes) : Bool × Stage vt :=
  match remote with
  | none => (false, s)
  | some data =>
    let s := s.note [.produced data]
    if data = [] then (false, s)
    else
      let sent := broadcast env (.output (env.base64.encode data))
        (fun _ c => c.state = .viewing) 0 s.viewers s.log
      (sent.lost, { s with viewers := sent.clients, log := sent.log })

/-- Report a new title to everyone; answers whether a viewer was lost. -/
def streamTitle (s : Stage vt) (env : Env) (title : Option String) : Bool × Stage vt :=
  match title with
  | none => (false, s)
  | some title =>
    let s := s.tellMonitor env (.title title)
    let sent := broadcast env (.title title) (fun _ _ => true) 0 s.viewers s.log
    (sent.lost, { s with viewers := sent.clients, log := sent.log })

/-- The child output branch. -/
def onOutput (w : Wrapper vt) (env : Env) (config : Config) (bytes : Bytes)
    (rung wrote : Clock) : Option (Wrapper vt) :=
  let (out, mirror) := w.mirror.process bytes
  match (w.toStage.withMirror mirror).writeHost env config.headless (render out.host) with
  | (some _, _) => none
  | (none, s) =>
    let w := (w.withStage s).reportBells env out.bells rung
    let w := w.reportActivity env wrote
    let (lostOutput, s) := streamOutput w.toStage env out.remote
    let (lostTitle, s) := streamTitle s env out.title
    let w := w.withStage s
    if lostOutput || lostTitle then w.sweep env config else some w

/-- The greeting of a new connection. -/
def greeting (w : Wrapper vt) (config : Config) (size : Option (ℕ × ℕ)) : Connect :=
  let (rows, cols) := if config.headless then w.mirror.hostSize else hostSize size
  let (next, oldest) := w.mirror.historyExtent
  { version := protocolVersion
    pid := config.pid
    command := config.commandLine
    cwd := config.cwd
    hostWidth := cols
    hostHeight := rows
    readonly := config.readonly
    history := ⟨next, oldest⟩
    title := w.mirror.title
    headless := config.headless
    detached := config.headless && !w.hostAttached
    launched := config.launched
    lastOutputAt := w.lastOutputAt }

/-- The accept branch: greet a new connection and wait for its first message. -/
def onAccept (w : Wrapper vt) (env : Env) (config : Config) (size : Option (ℕ × ℕ)) :
    Wrapper vt :=
  let client := Client.new w.nextClientId
  { w with
    nextClientId := w.nextClientId + 1
    pendings := if env.succeeds w.log then w.pendings ++ [client] else w.pendings
    log := env.send client (.connect (w.greeting config size)) w.log }

/-- Why an init is refused, if it is. -/
def refusal (w : Wrapper vt) (config : Config) (init : Init) : Option String :=
  if init.version ≠ protocolVersion then
    some ("unsupported protocol version " ++ toString init.version ++ " (expected " ++
      toString protocolVersion ++ ")")
  else if init.width = 0 ∨ init.height = 0 then some "invalid device dimensions"
  else if init.role = .host ∧ !config.headless then
    some "this session has a real host terminal; use g2mirror-view to watch it"
  else if init.role = .host ∧ w.viewers.any Client.isHost ∧ !init.force then
    some "session is already attached; g2mirror --attach --force takes it over"
  else none

/-- The message to a host-role client that is displaced. -/
def takenOver : FromSession := .error "host role taken over by another attach client"

/-- A forced takeover: every earlier holder is told and dropped. -/
def displaceHosts (env : Env) : List Client → Log → List Client × Log
  | [], log => ([], log)
  | c :: cs, log =>
    if c.role = .host then
      let (cs, log) := displaceHosts env cs (env.send c takenOver log)
      (c.die :: cs, log)
    else
      let (cs, log) := displaceHosts env cs log
      (c :: cs, log)

/-- The client that an accepted init makes of a pending connection. -/
def Init.client (init : Init) (p : Client) : Client :=
  { p with
    device := init.device
    width := init.width
    height := init.height
    sizeRank := init.sizeRank.getD 0
    role := init.role
    state := .ready }

/-- An accepted init: the connection joins the viewers, and is told the title if there is one. -/
def acceptInit (w : Wrapper vt) (env : Env) (init : Init) (p : Client) : Wrapper vt :=
  let kept :=
    if init.role = .host ∧ w.viewers.any Client.isHost then displaceHosts env w.viewers w.log
    else (w.viewers, w.log)
  let client := Init.client init p
  let joined := match w.mirror.title with
    | none => (kept.1 ++ [client], kept.2)
    | some title =>
      (if env.succeeds kept.2 then kept.1 ++ [client] else kept.1,
        env.send client (.title title) kept.2)
  { w with
    hostRank := init.hostSizeRank.getD w.hostRank
    viewers := joined.1
    log := joined.2 }

/-- A message to a connection that is dropped afterwards. -/
def dismiss (w : Wrapper vt) (env : Env) (p : Client) (message : String) : Wrapper vt :=
  { w with log := env.send p (.error message) w.log }

/-- A pending connection's first message classifies it. -/
def onPendingMessage (w : Wrapper vt) (env : Env) (config : Config) (i : ℕ)
    (received : Received) : Option (Wrapper vt) :=
  match w.pendings[i]? with
  | none => none
  | some p =>
    let w := w.forget i
    match received with
    | .message (.init init) =>
      match w.refusal config init with
      | some message => (w.dismiss env p message).sweep env config
      | none => (w.acceptInit env init p).sweep env config
    | .message (.monitor version) =>
      if version = protocolVersion then
        let w := { w with monitor := some p }
        match w.mirror.title with
        | none => some w
        | some title => some (w.withStage (w.toStage.tellMonitor env (.title title)))
      else
        some (w.dismiss env p ("unsupported protocol version " ++ toString version))
    | .message _ => some (w.dismiss env p "first message must be init or monitor")
    | .closed => some w

/-- Mark a viewer dead. -/
def killViewer (s : Stage vt) (i : ℕ) : Stage vt :=
  s.withViewers (s.viewers.modify i Client.die)

/-- A viewer's message was refused: the viewer is told why and dropped. -/
def dropViewer (s : Stage vt) (env : Env) (i : ℕ) (error : String) : Stage vt :=
  match s.viewers[i]? with
  | none => s
  | some c => killViewer { s with log := env.send c (.error error) s.log } i

/-- A message from one of the viewers. -/
def onViewerMessage (w : Wrapper vt) (env : Env) (config : Config) (i : ℕ)
    (received : Received) (now : ℕ → ℕ) : Option (Wrapper vt) :=
  match w.viewers[i]? with
  | none => none
  | some c =>
    match received with
    | .closed => (w.withStage (killViewer w.toStage i)).sweep env config
    | .message msg =>
      let (error, s, queue) :=
        w.toStage.handleViewerMessage env config w.hostRank msg i c now w.inputQueue
      let s := match error with
        | none => s
        | some error => dropViewer s env i error
      ({ w with inputQueue := queue }.withStage s).sweep env config

/-- The host terminal was resized: if the host outranks the viewers, the view follows. -/
def onWinch (w : Wrapper vt) (env : Env) (config : Config) (size : Option (ℕ × ℕ)) :
    Option (Wrapper vt) :=
  let (rows, cols) := hostSize size
  let (t, mirror) := w.mirror.hostResized rows cols
  match (w.toStage.withMirror mirror).applyTransition env config.headless t with
  | (some _, _) => none
  | (none, s) => (w.withStage s).sweep env config

/-- One event of the loop; no wrapper where the event cannot happen or its error ends the run. -/
def step (env : Env) (config : Config) (w : Wrapper vt) : Event → Option (Wrapper vt)
  | .stdin bytes => if w.stdinOpen then w.onStdin env config bytes else none
  | .stdinEof => if w.stdinOpen then some { w with stdinOpen := false } else none
  | .output bytes rung wrote => w.onOutput env config bytes rung wrote
  | .bellDue now =>
    match w.bell.deadline, w.bell.fire now with
    | none, _ => none
    | some _, (none, _) => some w
    | some _, (some epoch, bell) =>
      some { w with bell := bell, toStage := w.toStage.tellMonitor env (.bell epoch) }
  | .inputDue now =>
    match w.inputQueue.deadline, w.inputQueue.pump env now w.log with
    | some _, (none, queue, log) => some { w with inputQueue := queue, log := log }
    | _, _ => none
  | .winch size => if config.headless then none else w.onWinch env config size
  | .accept size => some (w.onAccept env config size)
  | .pendingMessage i received => w.onPendingMessage env config i received
  | .viewerMessage i received now => w.onViewerMessage env config i received now
  | .monitorMessage received =>
    if w.monitor.isSome then
      match received with
      | .message _ => some w
      | .closed => some { w with monitor := none }
    else none

/-- The wrapper after these events, if each of them was possible and none ended the run. -/
def session (vt : Vt100) (env : Env) (config : Config) (events : List Event) :
    Option (Wrapper vt) :=
  (start vt env config).bind fun w => Machine.run (step env config) w events

/-- `drain_pty`: what the app wrote just before it exited still goes to the host
terminal and the viewing clients. -/
def drainPty (env : Env) (headless : Bool) : List Bytes → Stage vt → Option String × Stage vt
  | [], s => (none, s)
  | bytes :: rest, s =>
    let (out, mirror) := s.mirror.process bytes
    match (s.withMirror mirror).writeHost env headless (render out.host) with
    | (some error, s) => (some error, s)
    | (none, s) =>
      let (_, s) := streamOutput s env out.remote
      drainPty env headless rest (if out.remote.getD [] = [] then s else s.removeDead)

/-- The end of a run: everyone is told the app's exit status, and the host
terminal is restored. -/
def finish (w : Wrapper vt) (env : Env) (config : Config) (chunks : List Bytes)
    (status : Option ℤ) : Option String × Stage vt :=
  match drainPty env config.headless chunks w.toStage with
  | (some error, s) => (some error, s)
  | (none, s) =>
    let s := s.tell env (.exit status) fun _ _ => true
    (s.withViewers []).writeHost env config.headless (render s.mirror.cleanup)

/-- A small session, of five rows and columns. -/
def smallConfig (headless : Bool) : Config :=
  ⟨headless, false, 1, "sh", "/", none, (5, 5), 100, none⟩

/-- A client connects and introduces itself. -/
def joins (init : Init) : List Event :=
  [.accept none, .pendingMessage 0 (.message (.init init))]

/-- Two devices of these ranks connect, and both view. -/
def twoViewers (rank rank' : ℕ) : List Event :=
  joins ⟨1, "a", 4, 2, some rank, some 2, .viewer, false⟩ ++
    joins ⟨1, "b", 6, 3, some rank', some 2, .viewer, false⟩ ++
    [.viewerMessage 0 (.message .view) fun _ => 0, .viewerMessage 1 (.message .view) fun _ => 0]

end Wrapper

end G2mirror
