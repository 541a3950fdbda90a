import G2mirror.Library.Splice
import G2mirror.LocalView
import G2mirror.Server

/-!
# The viewing client

`g2mirror-view.rs` after its handshake with the server: a list of the live
terminals, from which one is attached and mirrored until it is detached. A run
ends where the connection, the standard input or a write does. The screen that
shows the list is left out, and so is what only appears there.
-/

namespace G2mirror

variable {vt : Vt100}

/-- `ENTER_ALT`. -/
def enterAlt : Bytes := ascii "\x1b[?1049h\x1b[?25l"

/-- `LEAVE_ALT`. -/
def leaveAlt : Bytes := ascii "\x1b[?25h\x1b[?1049l"

/-- `u16::MAX + 1`. -/
def u16Size : ℕ := 2 ^ 16

/-- `i64::MAX`. -/
def i64Max : ℕ := 2 ^ 63 - 1

/-- Third-party code of the client: `serde_json` with the decoder of session lists, where
what is no list counts as an empty one, and base64. -/
structure ViewCrates where
  serde : SerdeJson
  sessions : Json → List SessionInfo
  base64 : Base64

/-- The integer under a key of an object. A negative zero is read as a float. -/
def getI64 (value : Json) (key : String) : Option ℤ :=
  match value.get? key.toList with
  | some (.number ('-' :: digits)) =>
    match (Json.number digits).nat? (i64Max + 1) with
    | some (n + 1) => some (Int.negSucc n)
    | _ => none
  | some number => (number.nat? i64Max).map Int.ofNat
  | none => none

/-- The items of the array under a key of an object, if there is one. -/
def getArray (value : Json) (key : String) : List Json :=
  match value.get? key.toList with
  | some (.array items) => items
  | _ => []

/-- A message from the server, as far as the client reads it. -/
inductive FromServer
  | sessions (sessions : List SessionInfo)
  | bell (socket : Option String) (lastBellAt : Option ℕ)
  /-- A title of a terminal in the list. -/
  | listTitle (socket : Option String) (title : Option String)
  | title (title : Option String)
  | connect (readonly : Bool) (oldest : ℕ)
  | snapshot (snapshot : Bytes) (width height historyNext : ℕ)
  | output (bytes : Bytes)
  | historyLines (lines : List Json)
  | exit (status : Option ℤ)
  | disconnected (reason : Option String)
  | error (message : Option String)
  /-- A message that is ignored. -/
  | other

/-- The fields of a message, as `on_ws_text` and `on_snapshot` take them out. -/
def readServer (crates : ViewCrates) (msg : Json) : FromServer :=
  let data := (getStr msg "data").bind fun data => (crates.base64.decode data).toOption
  let socket := getStr msg "socket"
  match getStr msg "type" with
  | some "sessions" => .sessions (crates.sessions ((msg.get? "sessions".toList).getD .null))
  | some "bell" =>
    if (msg.get? "socket".toList).isSome then .bell socket (getU64 msg "last_bell_at") else .other
  | some "title" =>
    if (msg.get? "socket".toList).isSome then .listTitle socket (getStr msg "title")
    else .title (getStr msg "title")
  | some "connect" =>
    .connect ((getBool msg "readonly").getD false)
      (((msg.get? "history".toList).bind fun history => getU64 history "oldest").getD 0)
  | some "snapshot" =>
    match data with
    | none => .other
    | some snapshot =>
      .snapshot snapshot ((getU64 msg "width").getD 0 % u16Size)
        ((getU64 msg "height").getD 0 % u16Size) ((getU64 msg "history_next").getD 0)
  | some "output" =>
    match data with
    | none => .other
    | some bytes => .output bytes
  | some "history_lines" => .historyLines (getArray msg "lines")
  | some "exit" => .exit (getI64 msg "status")
  | some "disconnected" => .disconnected (getStr msg "reason")
  | some "error" => .error (getStr msg "message")
  | _ => .other

/-- A line of a history reply, as it is printed. -/
def printedLine (base64 : Base64) (line : Json) : PrintedLine where
  data := (getStr line "data").bind fun data => (base64.decode data).toOption
  wrapped := (getBool line "wrapped").getD false

/-- The messages that the client sends after its handshake. -/
inductive ViewMessage
  | list
  | connect (socket : String)
  | view
  | history (before : ℕ)
  | input (data : String)
  | unview
  | disconnect
  deriving DecidableEq

/-- `Mode` of a viewing client. -/
inductive AppMode (vt : Vt100)
  /-- The session list. -/
  | list
  /-- Sent `connect`, waiting for the session's greeting. -/
  | connecting
  /-- Sent `view`, waiting for the snapshot. -/
  | awaitSnapshot
  /-- Got the snapshot, waiting for the history reply. -/
  | fetchingHistory (f : Fetching)
  | live (mirror : Mirror vt)

/-- `ListKey`. -/
inductive ListKey
  | up
  | down
  | enter
  | refresh
  | quit
  deriving DecidableEq

/-- The key of one byte, if it is one. -/
def listKey (b : UInt8) : Option ListKey :=
  if b = 0x03 ∨ b = 0x04 ∨ b = 'q'.toNat.toUInt8 then some .quit
  else if b = '\r'.toNat.toUInt8 ∨ b = '\n'.toNat.toUInt8 then some .enter
  else if b = 'k'.toNat.toUInt8 then some .up
  else if b = 'j'.toNat.toUInt8 then some .down
  else if b = 'r'.toNat.toUInt8 then some .refresh
  else none

/-- `parse_list_keys`, after the bytes of an arrow key that are still to be skipped. -/
def parseListKeys (skip : ℕ) : Bytes → List ListKey
  | [] => []
  | b :: bytes =>
    match skip with
    | skip + 1 => parseListKeys skip bytes
    | 0 =>
      match bytes with
      | bracket :: arrow :: _ =>
        if b = 0x1b ∧ (bracket = '['.toNat.toUInt8 ∨ bracket = 'O'.toNat.toUInt8) then
          (if arrow = 'A'.toNat.toUInt8 then [.up]
            else if arrow = 'B'.toNat.toUInt8 then [.down] else []) ++ parseListKeys 2 bytes
        else (listKey b).toList ++ parseListKeys 0 bytes
      | _ => (listKey b).toList ++ parseListKeys 0 bytes

example : parseListKeys 0 (ascii "\x1b[A\x1b[Bjkr\rq\x03") =
    [.up, .down, .down, .up, .refresh, .enter, .quit, .quit] := by decide

/-- The first session of this name is changed. -/
def updateSession (socket : Option String) (change : SessionInfo → SessionInfo) :
    List SessionInfo → List SessionInfo
  | [] => []
  | s :: sessions =>
    if some s.socket = socket then change s :: sessions
    else s :: updateSession socket change sessions

/-- `App` of `g2mirror-view`. -/
structure ViewApp (vt : Vt100) where
  rows : ℕ
  cols : ℕ
  /-- The dimensions declared in our init, fixed for the connection. -/
  initRows : ℕ
  initCols : ℕ
  mode : AppMode vt
  sessions : List SessionInfo
  selected : ℕ
  status : String
  tokenReadonly : Bool
  sessionReadonly : Bool
  /-- Oldest fetchable history index of the attached session. -/
  historyOldest : ℕ
  quit : Bool
  /-- What it has sent to the server, oldest first. -/
  sent : List ViewMessage
  /-- What it has written to its terminal besides the list that `render_list` draws. -/
  stdout : Bytes

namespace ViewApp

/-- `send_json`. -/
def send (app : ViewApp vt) (msg : ViewMessage) : ViewApp vt :=
  { app with sent := app.sent ++ [msg] }

/-- `write_all` to the terminal. -/
def write (app : ViewApp vt) (bytes : Bytes) : ViewApp vt :=
  { app with stdout := app.stdout ++ bytes }

/-- The client after its handshake. -/
def start (vt : Vt100) (rows cols : ℕ) (tokenReadonly : Bool) : ViewApp vt where
  rows := rows
  cols := cols
  initRows := rows
  initCols := cols
  mode := .list
  sessions := []
  selected := 0
  status := ""
  tokenReadonly := tokenReadonly
  sessionReadonly := false
  historyOldest := 0
  quit := false
  sent := []
  stdout := enterAlt

/-- `App::back_to_list`. -/
def backToList (app : ViewApp vt) : ViewApp vt :=
  let app :=
    match app.mode with
    | .live mirror => app.write (render mirror.cleanup ++ enterAlt)
    | _ => app
  { app with mode := .list, sessionReadonly := false }.send .list

/-- `App::go_live`. -/
def goLive (app : ViewApp vt) (base64 : Base64) (lines : List Json) : ViewApp vt :=
  match app.mode with
  | .fetchingHistory f =>
    let (out, mirror) :=
      launchView vt app.rows app.cols (lines.map (printedLine base64)) f.shown f.pending
    { app.write (leaveAlt ++ render out) with mode := .live mirror, status := "" }
  | _ => { app with mode := .list }

/-- `App::on_snapshot`. -/
def onSnapshot (app : ViewApp vt) (base64 : Base64) (snapshot : Bytes) (rows cols historyNext : ℕ) :
    ViewApp vt :=
  let (streamRows, streamCols) := streamSize rows cols (app.initRows, app.initCols)
  let s : Snapshot := ⟨streamRows, streamCols, snapshot⟩
  match app.mode with
  | .awaitSnapshot =>
    if app.historyOldest < historyNext then
      { app.send (.history historyNext) with mode := .fetchingHistory ⟨s, [], 0⟩ }
    else { app with mode := .fetchingHistory ⟨s, [], 0⟩ }.goLive base64 []
  | .live mirror =>
    let (out, mirror) := restartView mirror s
    { app.write (render out) with mode := .live mirror }
  | .fetchingHistory f =>
    if app.historyOldest < historyNext then
      { app with mode := .fetchingHistory ⟨s, [], f.skipReplies + 1⟩ }.send (.history historyNext)
    else { app with mode := .fetchingHistory ⟨s, [], f.skipReplies⟩ }.goLive base64 []
  | _ => app

/-- `App::on_ws_text`, a message that could be read. -/
def onMessage (app : ViewApp vt) (base64 : Base64) : FromServer → ViewApp vt
  | .sessions sessions =>
    { app with sessions := sessions, selected := min app.selected (sessions.length - 1) }
  | .bell socket lastBellAt =>
    { app with sessions :=
        updateSession socket (fun s => { s with lastBellAt := lastBellAt }) app.sessions }
  | .listTitle socket title =>
    { app with sessions := updateSession socket (fun s => { s with title := title }) app.sessions }
  | .title title =>
    match app.mode, title with
    | .live _, some title => app.write (TermOp.windowTitle (cleanTitle title)).bytes
    | _, _ => app
  | .connect readonly oldest =>
    match app.mode with
    | .connecting =>
      { app.send .view with
        sessionReadonly := readonly
        historyOldest := oldest
        mode := .awaitSnapshot
        status := "attaching..." }
    | _ => app
  | .snapshot snapshot width height historyNext =>
    app.onSnapshot base64 snapshot height width historyNext
  | .output bytes =>
    match app.mode with
    | .live mirror =>
      let (out, mirror) := processLive mirror bytes
      { app.write out with mode := .live mirror }
    | .fetchingHistory f =>
      { app with mode := .fetchingHistory { f with pending := f.pending ++ [bytes] } }
    | _ => app
  | .historyLines lines =>
    match app.mode with
    | .fetchingHistory f =>
      if 0 < f.skipReplies then
        { app with mode := .fetchingHistory { f with skipReplies := f.skipReplies - 1 } }
      else app.goLive base64 lines
    | _ => app
  | .exit status =>
    let ended :=
      match status with
      | none => "killed by a signal"
      | some s => "exit status " ++ toString s
    { app with status := "session ended (" ++ ended ++ ")" }
  | .disconnected reason =>
    let app :=
      if app.status = "" ∨ ¬"session ended".toList <+: app.status.toList then
        { app with status := "disconnected (" ++ reason.getD "unknown" ++ ")" }
      else app
    app.backToList
  | .error message =>
    let failed := { app with status := "error: " ++ message.getD "unknown error" }
    match app.mode with
    -- An error during attach setup aborts the attach; while live, errors are dropped.
    | .list => failed
    | .live _ => app
    | _ => failed.backToList
  | .other => app

/-- `App::on_ws_text`. What is no JSON is ignored. -/
def onText (app : ViewApp vt) (crates : ViewCrates) (text : String) : ViewApp vt :=
  match crates.serde.fromStr text with
  | .error _ => app
  | .ok msg => app.onMessage crates.base64 (readServer crates msg)

/-- The loop of `on_keys` over the keys of the session list. -/
def onListKeys (app : ViewApp vt) : List ListKey → ViewApp vt
  | [] => app
  | .up :: keys => { app with selected := app.selected - 1 }.onListKeys keys
  | .down :: keys =>
    { app with selected := min (app.selected + 1) (app.sessions.length - 1) }.onListKeys keys
  | .enter :: keys =>
    match app.sessions[app.selected]? with
    | some session =>
      { app.send (.connect session.socket) with
        status := "connecting to " ++ session.socket ++ "..."
        mode := .connecting }.onListKeys keys
    | none => app.onListKeys keys
  | .refresh :: keys => (app.send .list).onListKeys keys
  | .quit :: _ => { app with quit := true }

/-- `App::on_keys`. -/
def onKeys (app : ViewApp vt) (base64 : Base64) (bytes : Bytes) : ViewApp vt :=
  match app.mode with
  | .list => app.onListKeys (parseListKeys 0 bytes)
  | .live mirror =>
    let (input, detach) := splitKeys (some 0x04) bytes
    let app :=
      if refreshKey ∈ input then app.write (render mirror.refreshScrollback) else app
    let app :=
      if input = [] ∨ app.tokenReadonly ∨ app.sessionReadonly then app
      else app.send (.input (base64.encode input))
    if detach then
      (({ app with status := "detached" }.send .unview).send .disconnect).backToList
    else app
  -- Mid-attach, only Ctrl+D is meaningful.
  | _ =>
    if 0x04 ∈ bytes then { app with status := "detached" }.send .disconnect else app

/-- `App::on_winch`. -/
def onWinch (app : ViewApp vt) (size : Option (ℕ × ℕ)) : ViewApp vt :=
  let (rows, cols) := hostSize size
  let app := { app with rows := rows, cols := cols }
  match app.mode with
  | .live mirror =>
    let (t, mirror) := mirror.hostResized rows cols
    { app.write (render t.hostOutput) with mode := .live mirror }
  | _ => app

/-- `LIST_REFRESH` has passed: the list is fetched again while it is on screen. -/
def onTick (app : ViewApp vt) : ViewApp vt :=
  match app.mode with
  | .list => app.send .list
  | _ => app

/-- What the loop of a viewing client waits for. -/
inductive Event
  | text (text : String)
  | keys (bytes : Bytes)
  | winch (size : Option (ℕ × ℕ))
  | tick

/-- One round of `run`, unless it is the last one. -/
def step (crates : ViewCrates) (app : ViewApp vt) : Event → Option (ViewApp vt)
  | .text text => some (app.onText crates text)
  | .keys bytes =>
    let app := app.onKeys crates.base64 bytes
    if app.quit then none else some app
  | .winch size => some (app.onWinch size)
  | .tick => some app.onTick

end ViewApp

end G2mirror
