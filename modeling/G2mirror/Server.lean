import G2mirror.Library.CappedQueue
import G2mirror.Library.Json
import G2mirror.ServerConfig

/-!
# The server's tasks

`g2mirror-server` while one device is connected: the monitor tasks, one for each
live session, record what they learn of their terminals and queue events; the
task of the device relays its session, handles its messages and passes on the
events that its token may see. Steps of the tasks come in any order. A run ends
where a write to a connection fails.
-/

namespace G2mirror

/-- `TerminalState`: what is known of a terminal through its monitor connection. -/
structure TerminalState where
  lastBellAt : Option ℕ
  lastOutputAt : Option ℕ
  title : Option String
  cwd : Option String
  /-- Headless session with no host-role client. -/
  detached : Bool
  launched : Option String
  deriving DecidableEq

/-- `TerminalState::default`. -/
def TerminalState.default : TerminalState := ⟨none, none, none, none, false, none⟩

/-- `SessionInfo`. -/
structure SessionInfo where
  socket : String
  pid : ℕ
  cwdHint : String
  lastBellAt : Option ℕ
  lastOutputAt : Option ℕ
  title : Option String
  detached : Bool
  launched : Option String
  deriving DecidableEq

/-- `ServerToDevice`, of what is sent after a device has authenticated. -/
inductive ServerToDevice
  | sessions (sessions : List SessionInfo)
  | launched (socket : String)
  | detached (socket : String) (detached : Bool)
  | disconnected (reason : String)
  | bell (socket : String) (lastBellAt : ℕ)
  | activity (socket : String) (lastOutputAt : ℕ)
  | title (socket : String) (title : String)
  | error (message : String)
  deriving DecidableEq

/-- The terminal that an event is about. -/
def ServerToDevice.socket? : ServerToDevice → Option String
  | .bell socket _ => some socket
  | .activity socket _ => some socket
  | .title socket _ => some socket
  | .detached socket _ => some socket
  | _ => none

/-- `u64::MAX`. -/
def u64Max : ℕ := 2 ^ 64 - 1

/-- The tag of a message, as its `type` has it. -/
def ToSession.tag : ToSession → String
  | .init _ => "init"
  | .monitor _ => "monitor"
  | .view => "view"
  | .unview => "unview"
  | .input .. => "input"
  | .history .. => "history"
  | .resize .. => "resize"

/-- `serde_json` and the decoder it derives for `ToSession`: which numbers are in
range, why bytes are no value or no message, and what a value decodes to. -/
structure SerdeJson where
  inRange : List Char → Bool
  syntaxError : Bytes → String
  toSession : Json → Except String ToSession
  text : ToSession → String
  /-- An object is decoded by its `type`, which it has exactly once. -/
  tagged : ∀ members msg, toSession (.object members) = .ok msg →
    (members.filter (·.1 = "type".toList)).map (·.2) = [.string msg.tag.toList]

namespace SerdeJson

/-- The recursion limit of 128 leaves 127 levels. -/
def limits (serde : SerdeJson) : Json.Limits := ⟨127, serde.inRange⟩

/-- `serde_json::from_str` to a `Value`. -/
def fromStr (serde : SerdeJson) (text : String) : Except String Json :=
  match Json.read serde.limits text.toList with
  | some value => .ok value
  | none => .error (serde.syntaxError (utf8 text))

/-- `serde_json::from_slice` to a message for a session. -/
def fromSlice (serde : SerdeJson) (bytes : Bytes) : Except String ToSession :=
  match (Utf8.decode? bytes).bind (Json.read serde.limits) with
  | some value => serde.toSession value
  | none => .error (serde.syntaxError bytes)

/-- The decoder of the wrapper's end of a connection. -/
def wrapperEnd (serde : SerdeJson) : Serde ToSession := ⟨serde.text, serde.fromSlice⟩

end SerdeJson

/-- The string under a key of an object. -/
def getStr (value : Json) (key : String) : Option String :=
  ((value.get? key.toList).bind Json.string?).map String.ofList

/-- Decoding of the messages without further fields, and of input without pauses. -/
def sampleToSession (value : Json) : Except String ToSession :=
  match value with
  | .object members =>
    match (members.filter (·.1 = "type".toList)).map (·.2) with
    | [Json.string tag] =>
      if tag = "view".toList then .ok .view
      else if tag = "unview".toList then .ok .unview
      else if tag = "input".toList then
        match getStr value "data" with
        | some data => .ok (.input data [])
        | none => .error "missing field `data`"
      else .error "unknown variant"
    | [] => .error "missing field `type`"
    | _ => .error "duplicate field `type`"
  | _ => .error "invalid type"

/-- `serde_json` as far as these messages go. -/
def sampleSerde : SerdeJson where
  inRange := fun _ => true
  syntaxError := fun _ => "expected value at line 1 column 1"
  toSession := sampleToSession
  text := fun msg => "\x7b\"type\":\"" ++ msg.tag ++ "\"\x7d"
  tagged := by
    intro members msg h
    unfold sampleToSession at h
    dsimp only at h
    split at h
    · rename_i tag htag
      rw [htag]
      split_ifs at h with hview hunview hinput
      · obtain rfl := Except.ok.inj h
        rw [hview]
        rfl
      · obtain rfl := Except.ok.inj h
        rw [hunview]
        rfl
      · split at h
        · obtain rfl := Except.ok.inj h
          rw [hinput]
          rfl
        · cases h
    · cases h
    · cases h

/-- The number under a key of an object. -/
def getU64 (value : Json) (key : String) : Option ℕ :=
  (value.get? key.toList).bind (Json.nat? u64Max)

/-- The truth value under a key of an object. -/
def getBool (value : Json) (key : String) : Option Bool :=
  (value.get? key.toList).bind Json.bool?

/-- `paths::socket_pid`. -/
def socketPid (name : String) : Option ℕ :=
  parseUnsigned (2 ^ 32 - 1) (name.toList.takeWhile (· ≠ '-'))

/-- `paths::is_valid_socket_name`. -/
def isValidSocketName (name : String) : Bool :=
  (socketPid name).isSome && !name.isEmpty &&
    name.toList.all fun c => c.isAlphanum || c = '-' || c = '_' || c = '.'

/-- What a command that was run has written, and whether it was successful. -/
structure CommandOutput where
  success : Bool
  stdout : Bytes
  stderr : Bytes

/-- What the server finds around it when it handles a message. -/
structure Surroundings where
  /-- The names in the runtime directory. -/
  entries : List String
  pidExists : ℕ → Bool
  home : Option String
  canonicalize : String → Except String String
  /-- Running the wrapper with these arguments, in this directory and environment. -/
  wrapper : List String → String → List (String × String) → Except String CommandOutput

/-- Surroundings without any file or process. -/
def noWorld : Surroundings := ⟨[], fun _ => false, none, fun _ => .error "", fun _ _ _ => .error ""⟩

/-- `live_session_sockets`. -/
def liveSessionSockets (world : Surroundings) : List String :=
  world.entries.filter fun name =>
    isValidSocketName name && (socketPid name).any world.pidExists

/-- `SessionConn`: its name, the init it began with, and what was forwarded to the session. -/
structure Conn where
  name : String
  init : Init
  forwarded : Bytes
  deriving DecidableEq

/-- What a device was sent. -/
inductive Sent
  | line (line : String)
  | message (msg : ServerToDevice)
  | ping
  deriving DecidableEq

/-- What is fixed for the task of a device. -/
structure DeviceTask where
  serde : SerdeJson
  crates : Crates
  config : ServerConfig
  token : TokenConfig
  rules : List CompiledRule
  init : DeviceInit

/-- The server and one of its devices, as far as the two have to do with each other. -/
structure Gateway where
  /-- The device has authenticated: its task receives events. -/
  connected : Bool
  terminals : String → Option TerminalState
  /-- Socket names that have a live monitor task. -/
  monitored : List String
  /-- What a monitor task has recorded but not queued yet. -/
  recorded : String → Option ServerToDevice
  session : Option Conn
  /-- The session that is being connected to. -/
  opening : Option Conn
  /-- Events that the device's task has not received, oldest first. -/
  events : List ServerToDevice
  /-- Events were overwritten since the last one was received. -/
  lagged : Bool
  /-- Connections that were dropped, newest first. -/
  dropped : List Conn
  /-- What the device was sent, newest first. -/
  out : List Sent

namespace Gateway

/-- `BellState::terminal`. -/
def terminal (g : Gateway) (socket : String) : TerminalState :=
  (g.terminals socket).getD .default

/-- `session_allowed`: whether a terminal is visible through a filter. -/
def sessionAllowed (rules : List CompiledRule) (g : Gateway) (socket : String) : Bool :=
  rules.isEmpty || filterAllows rules (g.terminal socket).cwd (g.terminal socket).title

/-- `send`. -/
def send (g : Gateway) (msg : ServerToDevice) : Gateway := { g with out := .message msg :: g.out }

/-- The session's connection is dropped, or replaced by another one. -/
def setSession (g : Gateway) (session : Option Conn) : Gateway :=
  { g with session := session, dropped := g.session.toList ++ g.dropped }

/-- `list_sessions`. -/
def listSessions (g : Gateway) (world : Surroundings) (rules : List CompiledRule) :
    List SessionInfo :=
  ((liveSessionSockets world).filter (g.sessionAllowed rules)).map fun name =>
    let terminal := g.terminal name
    { socket := name
      pid := (socketPid name).getD 0
      cwdHint := String.ofList ((name.toList.dropWhile (· ≠ '-')).drop 1)
      lastBellAt := terminal.lastBellAt
      lastOutputAt := terminal.lastOutputAt
      title := terminal.title
      detached := terminal.detached
      launched := terminal.launched }

end Gateway

/-- `expand_tilde`. -/
def expandTilde (world : Surroundings) (path : String) : String :=
  match path.toList, world.home with
  | '~' :: rest, some home =>
    if rest = [] ∨ rest.head? = some '/' then home ++ String.ofList rest else path
  | _, _ => path

/-- The arguments that a preset is launched with. -/
def launchArgs (name title : String) (preset : LaunchPreset) : List String :=
  ["--detached", "--launched", name, "--title", title] ++
    (if preset.readonly then ["--readonly"] else []) ++
    (match preset.scrollback with
      | none => []
      | some lines => ["--scrollback", toString lines]) ++
    (match preset.size with
      | none => []
      | some size => ["--initial-size", size]) ++
    "--" :: preset.argv

/-- The working directory that a launch asks for. -/
def launchCwd (crates : Crates) (name : String) (preset : LaunchPreset)
    (cwdOverride : Option String) : Except String String :=
  match cwdOverride with
  | some cwd =>
    if preset.allowCwd then .ok cwd
    else .error ("preset " ++ crates.debug name ++
      " does not allow overriding the working directory")
  | none => .ok (preset.cwd.getD "~")

/-- What the wrapper printed is the name of the new session. -/
def launchedSocket (crates : Crates) (output : CommandOutput) : Except String String :=
  if !output.success then
    .error ("g2mirror --detached failed: " ++
      String.ofList (trim (fromUtf8Lossy output.stderr).toList))
  else
    let socket := String.ofList (trim (fromUtf8Lossy output.stdout).toList)
    if isValidSocketName socket then .ok socket
    else .error ("g2mirror --detached printed an unexpected socket name " ++ crates.debug socket)

/-- `launch_session`: the new session's socket name. -/
def launchSession (task : DeviceTask) (world : Surroundings) (name : String)
    (cwdOverride : Option String) : Except String String :=
  if task.token.readonly || !task.token.launch.allows name then
    .error ("your token may not launch " ++ task.crates.debug name)
  else
    match task.config.launch.lookup name with
    | none => .error ("no launch preset named " ++ task.crates.debug name)
    | some preset =>
      match launchCwd task.crates name preset cwdOverride with
      | .error e => .error e
      | .ok cwd =>
        match world.canonicalize (expandTilde world cwd) with
        | .error e => .error ("bad working directory " ++ task.crates.debug cwd ++ ": " ++ e)
        | .ok dir =>
          let title := preset.title.getD name
          if !filterAllows task.rules (some dir) (some title) then
            .error "your token's filter would hide the launched session"
          else
            match world.wrapper (launchArgs name title preset) dir preset.env with
            | .error e => .error ("failed to run g2mirror --detached: " ++ e)
            | .ok output => launchedSocket task.crates output

/-- `SessionConn::open`: the connection that begins with the init of this device. -/
def DeviceTask.open (task : DeviceTask) (name : String) : Conn :=
  let (sizeRank, hostSizeRank) := task.config.sizeRanks task.token.name
  { name := name
    init := ⟨protocolVersion, task.init.device, task.init.width, task.init.height,
      some sizeRank, some hostSizeRank, .viewer, false⟩
    forwarded := [] }

namespace Gateway

/-- A `connect` request: what is checked before the connection is opened. -/
def onConnect (g : Gateway) (task : DeviceTask) (socket : Option String) : Gateway :=
  match socket with
  | none => g.send (.error "connect requires a socket name")
  | some name =>
    if !isValidSocketName name then g.send (.error "invalid socket name")
    else if !g.sessionAllowed task.rules name then
      g.send (.error "terminal does not match your token's filter")
    else { g with opening := some (task.open name) }

/-- `SessionConn::send_line` of a device's message. -/
def forward (g : Gateway) (text : String) : Gateway :=
  match g.session with
  | none => g.send (.error "not connected to a session")
  | some conn =>
    { g with session := some { conn with
        forwarded := conn.forwarded ++ (utf8 text ++ [newline]) } }

/-- `handle_device_message`. A `connect` goes on when the connection is open. -/
def handleDeviceMessage (g : Gateway) (task : DeviceTask) (text : String)
    (world : Surroundings) : Gateway :=
  match task.serde.fromStr text with
  | .error e => g.send (.error ("invalid JSON: " ++ e))
  | .ok parsed =>
    match getStr parsed "type" with
    | none => g.send (.error "message has no type")
    | some "list" => g.send (.sessions (g.listSessions world task.rules))
    | some "connect" => g.onConnect task (getStr parsed "socket")
    | some "launch" =>
      match launchSession task world ((getStr parsed "command").getD "shell")
        (getStr parsed "cwd") with
      | .ok socket => g.send (.launched socket)
      | .error e => g.send (.error ("launch failed: " ++ e))
    | some "disconnect" => (g.setSession none).send (.disconnected "requested")
    | some type =>
      if type = "input" && task.token.readonly then g.send (.error "server is read-only")
      else g.forward text

end Gateway

/-- What a line of a monitored session says: the state of the terminal with it, and the
event for the devices if there is one. -/
def readMonitored (name : String) (msg : Json) (terminal : TerminalState) :
    Option (TerminalState × Option ServerToDevice) :=
  match getStr msg "type" with
  | some "connect" => some ({ terminal with
      cwd := (getStr msg "cwd").or terminal.cwd
      title := (getStr msg "title").or terminal.title
      lastOutputAt := match getU64 msg "last_output_at" with
        | some epoch => some (max (terminal.lastOutputAt.getD 0) epoch)
        | none => terminal.lastOutputAt
      detached := (getBool msg "detached").getD false
      launched := getStr msg "launched" }, none)
  | some "host_changed" => (getBool msg "attached").map fun attached =>
      ({ terminal with detached := !attached }, some (.detached name (!attached)))
  | some "bell" => (getU64 msg "at").map fun epoch =>
      ({ terminal with lastBellAt := some epoch }, some (.bell name epoch))
  | some "activity" => (getU64 msg "at").map fun epoch =>
      ({ terminal with lastOutputAt := some epoch }, some (.activity name epoch))
  | some "title" => (getStr msg "title").map fun title =>
      ({ terminal with title := some title }, some (.title name title))
  | _ => none

/-- The capacity of the channel of events. -/
def eventCapacity : ℕ := 256

/-- A step of one of the tasks. -/
inductive Gateway.Action
  /-- The monitor manager finds these sockets. -/
  | scan (live : List String)
  /-- A monitor task receives a line, and records what it says. -/
  | monitorLine (name line : String)
  /-- It queues the event that it has recorded. -/
  | queue (name : String)
  | monitorEnd (name : String)
  /-- The device has authenticated. -/
  | subscribe
  | message (text : String) (world : Surroundings)
  /-- The connection that a `connect` asked for is open, or could not be opened. -/
  | opened (result : Except String Unit)
  | sessionLine (line : String)
  /-- The session's connection is closed, or reading from it failed. -/
  | sessionEnd
  | event
  | ping

namespace Gateway

/-- A server that has just started. -/
def start : Gateway := ⟨false, fun _ => none, [], fun _ => none, none, none, [], false, [], []⟩

/-- The device's task waits in its loop. -/
def idle (g : Gateway) : Bool := g.connected && g.opening.isNone

/-- A scan of `monitor_manager`: terminals whose socket is gone are forgotten. -/
def scan (g : Gateway) (live : List String) : Gateway :=
  { g with
    terminals := fun name => if name ∈ live then some (g.terminal name) else none
    monitored := live ∪ g.monitored }

/-- What a line of a monitored session says, if it says something. -/
def readLine (g : Gateway) (serde : SerdeJson) (name line : String) :
    Option (TerminalState × Option ServerToDevice) :=
  match serde.fromStr line with
  | .error _ => none
  | .ok msg => readMonitored name msg (g.terminal name)

/-- `run_monitor`, what is done with a line up to where its event is queued. -/
def monitorLine (g : Gateway) (serde : SerdeJson) (name line : String) : Gateway :=
  match g.readLine serde name line with
  | none => g
  | some (terminal, event) =>
    { g with
      terminals := Function.update g.terminals name (some terminal)
      recorded := Function.update g.recorded name event }

/-- An event is sent to all devices, and dropped where nobody is connected. The
receiver loses its oldest event when the channel is full. -/
def queue (g : Gateway) (name : String) (event : ServerToDevice) : Gateway :=
  { g with
    recorded := Function.update g.recorded name none
    events := if g.connected then CappedQueue.push eventCapacity g.events event else g.events
    lagged := g.lagged || g.connected && eventCapacity ≤ g.events.length }

/-- The end of `SessionConn::open`. -/
def opened (g : Gateway) (conn : Conn) (result : Except String Unit) : Gateway :=
  let g := { g with opening := none }
  match result with
  | .ok _ => g.setSession (some conn)
  | .error e => g.send (.error ("connect failed: " ++ e))

/-- `handle_device`, an event: it is passed on if the terminal is visible. A terminal
that is not is disconnected. -/
def onEvent (g : Gateway) (rules : List CompiledRule) (event : ServerToDevice) : Gateway :=
  match event.socket? with
  | none => g.send event
  | some socket =>
    if g.sessionAllowed rules socket then g.send event
    else if g.session.any (·.name = socket) then
      (g.setSession none).send (.disconnected "terminal no longer matches your token's filter")
    else g

/-- The next event is received. A receiver that has lost some is told so first. -/
def receive (g : Gateway) (rules : List CompiledRule) : Option Gateway :=
  if g.lagged then some { g with lagged := false }
  else
    match g.events with
    | [] => none
    | event :: events => some ({ g with events := events }.onEvent rules event)

end Gateway

/-- What a step comes to, if it is possible. The task of a terminal's monitor has to
queue what it has recorded before it goes on, and the device's task has to
wait until a connection is open. -/
def Gateway.step (task : DeviceTask) (g : Gateway) : Action → Option Gateway
  | .scan live => some (g.scan live)
  | .monitorLine name line =>
    if name ∈ g.monitored ∧ g.recorded name = none then
      some (g.monitorLine task.serde name line)
    else none
  | .queue name => (g.recorded name).map (g.queue name)
  | .monitorEnd name =>
    if name ∈ g.monitored ∧ g.recorded name = none then
      some { g with monitored := g.monitored.filter (· ≠ name) }
    else none
  | .subscribe => if g.connected then none else some { g with connected := true }
  | .message text world =>
    if g.idle then some (g.handleDeviceMessage task text world) else none
  | .opened result => g.opening.map fun conn => g.opened conn result
  | .sessionLine line =>
    if g.idle && g.session.isSome then some { g with out := .line line :: g.out } else none
  | .sessionEnd =>
    if g.idle && g.session.isSome then
      some ((g.setSession none).send (.disconnected "session closed"))
    else none
  | .event => if g.idle then g.receive task.rules else none
  | .ping => if g.idle then some { g with out := .ping :: g.out } else none

end G2mirror
