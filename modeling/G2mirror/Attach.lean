import G2mirror.Library.Splice
import G2mirror.LocalView

/-!
# The attach client

`attach.rs` after it has found its session: `g2mirror --attach` claims the host
role, views the session and mirrors it until the app exits or the detach key is
pressed. Its writes succeed while it runs.
-/

namespace G2mirror

variable {vt : Vt100}

/-- `Mode` of an attach client. -/
inductive AttachMode (vt : Vt100)
  /-- Sent `view`, waiting for the snapshot. -/
  | awaitSnapshot
  /-- Got the snapshot; waiting for the history reply before printing. -/
  | fetchingHistory (f : Fetching)
  | live (mirror : Mirror vt)

/-- `Attached`. -/
structure Attached (vt : Vt100) where
  rows : ℕ
  cols : ℕ
  mode : AttachMode vt
  historyOldest : ℕ
  detachKey : Option UInt8
  /-- Set when the wrapped app exits. -/
  exitStatus : Option ℤ
  /-- Last error the wrapper sent while live. -/
  lastError : Option String
  detached : Bool
  /-- What it has sent to the session, oldest first. -/
  sent : List ToSession
  /-- What it has written to its terminal. -/
  stdout : Bytes

namespace Attached

/-- `SessionClient::send`. -/
def send (a : Attached vt) (msg : ToSession) : Attached vt := { a with sent := a.sent ++ [msg] }

/-- `write_all` to the terminal. -/
def write (a : Attached vt) (bytes : Bytes) : Attached vt := { a with stdout := a.stdout ++ bytes }

/-- `run_attached` up to its loop, given the greeting of the session. -/
def start (vt : Vt100) (rows cols : ℕ) (force : Bool) (detachKey : Option UInt8)
    (greeting : Connect) : Attached vt where
  rows := rows
  cols := cols
  mode := .awaitSnapshot
  historyOldest := greeting.history.oldest
  detachKey := detachKey
  exitStatus := none
  lastError := none
  detached := false
  sent := [.init ⟨protocolVersion, "g2mirror --attach", cols, rows, none, none, .host, force⟩,
    .view]
  stdout := match greeting.title with
    | none => []
    | some title => (TermOp.windowTitle (cleanTitle title)).bytes

/-- `Attached::go_live`. -/
def goLive (a : Attached vt) (base64 : Base64) (lines : List HistoryLine) : Attached vt :=
  match a.mode with
  | .fetchingHistory f =>
    let printed := lines.map fun l => ⟨(base64.decode l.data).toOption, l.wrapped⟩
    let (out, mirror) := launchView vt a.rows a.cols printed f.shown f.pending
    { a.write (render out) with mode := .live mirror }
  | _ => { a with mode := .awaitSnapshot }

/-- `Attached::on_snapshot`. -/
def onSnapshot (a : Attached vt) (base64 : Base64) (snapshot : Bytes) (rows cols historyNext : ℕ) :
    Attached vt :=
  let (streamRows, streamCols) := streamSize rows cols (a.rows, a.cols)
  let s : Snapshot := ⟨streamRows, streamCols, snapshot⟩
  match a.mode with
  | .awaitSnapshot =>
    let a := { a with mode := .fetchingHistory ⟨s, [], 0⟩ }
    if a.historyOldest < historyNext then a.send (.history historyNext none)
    else a.goLive base64 []
  | .live mirror =>
    let (out, mirror) := restartView mirror s
    { a.write (render out) with mode := .live mirror }
  | .fetchingHistory f =>
    if a.historyOldest < historyNext then
      { a with mode := .fetchingHistory ⟨s, [], f.skipReplies + 1⟩ }.send
        (.history historyNext none)
    else { a with mode := .fetchingHistory ⟨s, [], f.skipReplies⟩ }.goLive base64 []

/-- What `Attached::on_message` does with child output. -/
def onOutput (a : Attached vt) (bytes : Bytes) : Attached vt :=
  match a.mode with
  | .live mirror =>
    let (out, mirror) := processLive mirror bytes
    { a.write out with mode := .live mirror }
  | .fetchingHistory f =>
    { a with mode := .fetchingHistory { f with pending := f.pending ++ [bytes] } }
  | .awaitSnapshot => a

/-- `Attached::on_message`; an error ends the client. -/
def onMessage (a : Attached vt) (base64 : Base64) : FromSession → Except String (Attached vt)
  | .snapshot data width height historyNext =>
    match base64.decode data with
    | .error _ => .ok a
    | .ok snapshot => .ok (a.onSnapshot base64 snapshot height width historyNext)
  | .output data =>
    match base64.decode data with
    | .error _ => .ok a
    | .ok bytes => .ok (a.onOutput bytes)
  | .historyLines _ _ _ lines =>
    match a.mode with
    | .fetchingHistory f =>
      if 0 < f.skipReplies then
        .ok { a with mode := .fetchingHistory { f with skipReplies := f.skipReplies - 1 } }
      else .ok (a.goLive base64 lines)
    | _ => .ok a
  | .title title => .ok (a.write (TermOp.windowTitle (cleanTitle title)).bytes)
  | .exit status => .ok { a with exitStatus := some (status.getD 1) }
  | .error message =>
    match a.mode with
    | .live _ => .ok { a with lastError := some message }
    -- Before the view is up an error is fatal.
    | _ => .error message
  | _ => .ok a

/-- Ctrl+L heals the local scrollback. -/
def refresh (a : Attached vt) (input : Bytes) : Attached vt :=
  match a.mode with
  | .live mirror =>
    if refreshKey ∈ input then a.write (render mirror.refreshScrollback) else a
  | _ => a

theorem onMessage_snapshot_ok {a : Attached vt} {base64 : Base64} {data : String} {bytes : Bytes}
    {width height next : ℕ} (h : base64.decode data = .ok bytes) :
    a.onMessage base64 (.snapshot data width height next) =
      .ok (a.onSnapshot base64 bytes height width next) := by
  simp only [onMessage, h]

theorem onMessage_snapshot_error {a : Attached vt} {base64 : Base64} {data e : String}
    {width height next : ℕ} (h : base64.decode data = .error e) :
    a.onMessage base64 (.snapshot data width height next) = .ok a := by
  simp only [onMessage, h]

theorem onMessage_output_ok {a : Attached vt} {base64 : Base64} {data : String} {bytes : Bytes}
    (h : base64.decode data = .ok bytes) :
    a.onMessage base64 (.output data) = .ok (a.onOutput bytes) := by
  simp only [onMessage, h]

theorem onMessage_output_error {a : Attached vt} {base64 : Base64} {data e : String}
    (h : base64.decode data = .error e) : a.onMessage base64 (.output data) = .ok a := by
  simp only [onMessage, h]

/-- `Attached::on_keys`. -/
def onKeys (a : Attached vt) (base64 : Base64) (bytes : Bytes) : Attached vt :=
  let (input, detach) := splitKeys a.detachKey bytes
  let a := a.refresh input
  let a := if input = [] then a else a.send (.input (base64.encode input) [])
  if detach then { a with detached := true }.send .unview else a

/-- The terminal was resized. -/
def onWinch (a : Attached vt) (size : Option (ℕ × ℕ)) : Attached vt :=
  let (rows, cols) := hostSize size
  let a := { a with rows := rows, cols := cols }
  let a :=
    match a.mode with
    | .live mirror =>
      let (t, mirror) := mirror.hostResized rows cols
      { a.write (render t.hostOutput) with mode := .live mirror }
    | _ => a
  a.send (.resize cols rows)

/-- What the loop of an attach client waits for. -/
inductive Event
  | message (msg : FromSession)
  /-- A line that is no message, or an error of the connection. -/
  | readError (error : String)
  | closed
  | keys (bytes : Bytes)
  | stdinEof
  | stdinError (error : String)
  | winch (size : Option (ℕ × ℕ))

/-- How `Attached::run` returns. -/
inductive Ended
  | done
  | failed (error : String)
  deriving DecidableEq

/-- The clean end of a connection: after `exit` this is the normal end. -/
def onClosed (a : Attached vt) : Ended :=
  if a.exitStatus.isNone && !a.detached then
    match a.lastError with
    | some e => .failed ("session closed: " ++ e)
    | none => .failed "session closed unexpectedly"
  else .done

/-- One round of `Attached::run`. -/
def step (base64 : Base64) (a : Attached vt) : Event → Except Ended (Attached vt)
  | .message msg =>
    match a.onMessage base64 msg with
    | .ok a => .ok a
    | .error message => .error (.failed message)
  | .readError error => .error (.failed error)
  | .closed => .error a.onClosed
  | .keys bytes =>
    let a := a.onKeys base64 bytes
    if a.detached then .error .done else .ok a
  | .stdinEof => .error .done
  | .stdinError error => .error (.failed ("error reading stdin: " ++ error))
  | .winch size => .ok (a.onWinch size)

end Attached

end G2mirror
