import G2mirror.GoingLive
import G2mirror.SessionWire
import G2mirror.ViewLink

/-!
# What the server and the viewing client read

`g2mirror-server` and `g2mirror-view` take the fields they need out of a message as loosely
typed JSON, and `g2mirror-view` writes its requests by hand. What they read in a message is
what its sender meant, and what they write is read so.
-/

namespace G2mirror

open Json

section Fields

variable (value : Json) (key : String)

theorem getStr_eq : getStr value key = (value.valuesOf key).getLast?.bind text? := by
  rw [getStr, get?_eq_getLast?, Option.map_bind]
  rfl

theorem getU64_eq : getU64 value key = (value.valuesOf key).getLast?.bind (nat? u64Max) := by
  rw [getU64, get?_eq_getLast?]

theorem getBool_eq : getBool value key = (value.valuesOf key).getLast?.bind bool? := by
  rw [getBool, get?_eq_getLast?]

theorem getI64_eq_some {field : Json} (h : value.get? key.toList = some field) :
    getI64 value key = int? (i64Max + 1) field := by
  unfold getI64 int?
  rw [h]
  split
  · rename_i digits hfield
    obtain rfl := Option.some.inj hfield
    rfl
  · rename_i number hneg hfield
    obtain rfl := Option.some.inj hfield
    split
    · rename_i digits
      exact absurd rfl (hneg digits)
    · rfl
  · rename_i hnone
    cases hnone

end Fields

/-- What a monitor task of the server makes of a message of its session. -/
def TerminalState.hear (name : String) (terminal : TerminalState) :
    FromSession → Option (TerminalState × Option ServerToDevice)
  | .connect c => some ({ terminal with
      cwd := some c.cwd
      title := c.title.or terminal.title
      lastOutputAt := match c.lastOutputAt with
        | some epoch => some (max (terminal.lastOutputAt.getD 0) epoch)
        | none => terminal.lastOutputAt
      detached := c.detached
      launched := c.launched }, none)
  | .hostChanged attached =>
      some ({ terminal with detached := !attached }, some (.detached name (!attached)))
  | .bell epoch => some ({ terminal with lastBellAt := some epoch }, some (.bell name epoch))
  | .activity epoch =>
      some ({ terminal with lastOutputAt := some epoch }, some (.activity name epoch))
  | .title title => some ({ terminal with title := some title }, some (.title name title))
  | _ => none

theorem FromSession.getStr_type (msg : FromSession) : getStr msg.toJson "type" = some msg.tag := by
  cases msg <;> simp [getStr_eq, toJson, valuesOf_record, members, Connect.members, skipFalse_eq,
      filter_skipNone]

/-- A field that may be left out is its last value, too. -/
theorem getLast?_toList {α : Type*} (field : Option α) : field.toList.getLast? = field := by
  cases field <;> rfl

theorem bind_text (text : Option String) : (text.map ofString).bind text? = text := by
  cases text <;> simp

theorem bind_number {n : Option ℕ} {max : ℕ} (hn : ∀ k ∈ n, k ≤ max) :
    (n.map ofNat).bind (nat? max) = n := by
  cases n with
  | none => rfl
  | some k => exact nat?_ofNat (hn k rfl)

theorem getD_flag (b : Bool) :
    ((if b then some (Json.bool true) else none).bind bool?).getD false = b := by
  cases b <;> rfl

/-- What a monitor task reads in the JSON of a message is the message. -/
theorem readMonitored_toJson (name : String) {msg : FromSession} (h : msg.Typed)
    (terminal : TerminalState) :
    readMonitored name msg.toJson terminal = terminal.hear name msg := by
  unfold readMonitored
  rw [msg.getStr_type]
  cases msg with
  | connect c =>
    have hepoch : getU64 (FromSession.connect c).toJson "last_output_at" = c.lastOutputAt := by
      have hvalues : (FromSession.connect c).toJson.valuesOf "last_output_at" =
          (c.lastOutputAt.map ofNat).toList := by
        simp [FromSession.valuesOf_toJson, FromSession.members, Connect.members, skipFalse_eq,
          filter_skipNone, map_skipNone]
      rw [getU64_eq, hvalues, getLast?_toList, bind_number h.lastOutputAt]
    simp only [FromSession.tag, hepoch, TerminalState.hear]
    cases c.lastOutputAt <;>
      simp [getStr_eq, getBool_eq, FromSession.valuesOf_toJson, FromSession.members,
        Connect.members, skipFalse_eq, filter_skipNone, map_skipNone, getLast?_toList, bind_text,
        getD_flag]
  | bell epoch =>
    simp [FromSession.tag, TerminalState.hear, getU64_eq, FromSession.valuesOf_toJson,
      FromSession.members, nat?_ofNat h]
  | activity epoch =>
    simp [FromSession.tag, TerminalState.hear, getU64_eq, FromSession.valuesOf_toJson,
      FromSession.members, nat?_ofNat h]
  | title text =>
    simp [FromSession.tag, TerminalState.hear, getStr_eq, FromSession.valuesOf_toJson,
      FromSession.members]
  | hostChanged attached =>
    simp [FromSession.tag, TerminalState.hear, getBool_eq, FromSession.valuesOf_toJson,
      FromSession.members, bool?]
  | _ => rfl

/-- What the viewing client makes of a message of its session. -/
def FromSession.read (base64 : Base64) : FromSession → FromServer
  | .connect c => .connect c.readonly c.history.oldest
  | .snapshot data width height historyNext =>
    match (base64.decode data).toOption with
    | none => .other
    | some bytes => .snapshot bytes width height historyNext
  | .output data =>
    match (base64.decode data).toOption with
    | none => .other
    | some bytes => .output bytes
  | .historyLines _ _ _ lines => .historyLines (lines.map HistoryLine.toJson)
  | .title text => .title (some text)
  | .exit status => .exit status
  | .error message => .error (some message)
  | _ => .other

theorem get?_eq_none {value : Json} {key : String} (h : value.valuesOf key = []) :
    value.get? key.toList = none := by
  rw [get?_eq_getLast?, h]
  rfl

theorem get?_eq_some {value field : Json} {key : String} (h : value.valuesOf key = [field]) :
    value.get? key.toList = some field := by
  rw [get?_eq_getLast?, h]
  rfl

/-- A width or a height that fits its type survives the conversion to it. -/
theorem mod_U16_SIZE {n : ℕ} (hn : n ≤ u16Max) : n % u16Size = n :=
  Nat.mod_eq_of_lt (Nat.lt_of_le_of_lt hn (by decide))

/-- What the viewing client reads in the JSON of a session's message is the message. -/
theorem readServer_toJson (crates : ViewCrates) {msg : FromSession} (h : msg.Typed) :
    readServer crates msg.toJson = msg.read crates.base64 := by
  unfold readServer
  dsimp only
  rw [msg.getStr_type]
  cases msg with
  | connect c =>
    have hhistory : (FromSession.connect c).toJson.valuesOf "history" = [c.history.toJson] := by
      simp [FromSession.valuesOf_toJson, FromSession.members, Connect.members, skipFalse_eq,
        filter_skipNone]
    have holdest : getU64 c.history.toJson "oldest" = some c.history.oldest := by
      simp [getU64_eq, HistoryExtent.toJson, valuesOf_record, nat?_ofNat h.oldest]
    have hreadonly : getBool (FromSession.connect c).toJson "readonly" = some c.readonly := by
      simp [getBool_eq, FromSession.valuesOf_toJson, FromSession.members, Connect.members,
        skipFalse_eq, filter_skipNone, bool?]
    simp only [FromSession.tag, FromSession.read, hreadonly, get?_eq_getLast?, hhistory,
      List.getLast?_singleton, Option.bind_some, holdest, Option.getD_some]
  | snapshot data width height historyNext =>
    obtain ⟨hwidth, hheight, hnext⟩ := h
    have hsize : u16Max ≤ u64Max := by decide
    have hdata : getStr (FromSession.snapshot data width height historyNext).toJson "data" =
        some data := by
      simp [getStr_eq, FromSession.valuesOf_toJson, FromSession.members]
    simp only [FromSession.tag, FromSession.read, hdata, Option.bind_some]
    cases (crates.base64.decode data).toOption with
    | none => rfl
    | some bytes =>
      simp [getU64_eq, FromSession.valuesOf_toJson, FromSession.members, nat?_ofNat hnext,
        nat?_ofNat (hwidth.trans hsize), nat?_ofNat (hheight.trans hsize), mod_U16_SIZE hwidth,
        mod_U16_SIZE hheight]
  | output data =>
    have hdata : getStr (FromSession.output data).toJson "data" = some data := by
      simp [getStr_eq, FromSession.valuesOf_toJson, FromSession.members]
    cases hdecoded : (crates.base64.decode data).toOption <;>
      simp only [FromSession.tag, FromSession.read, hdata, Option.bind_some, hdecoded]
  | bell epoch =>
    have hsocket : (FromSession.bell epoch).toJson.get? "socket".toList = none :=
      get?_eq_none (by simp [FromSession.valuesOf_toJson, FromSession.members])
    simp only [FromSession.tag, FromSession.read, hsocket]
    rfl
  | activity epoch => rfl
  | title text =>
    have hsocket : (FromSession.title text).toJson.get? "socket".toList = none :=
      get?_eq_none (by simp [FromSession.valuesOf_toJson, FromSession.members])
    have htitle : getStr (FromSession.title text).toJson "title" = some text := by
      simp [getStr_eq, FromSession.valuesOf_toJson, FromSession.members]
    simp only [FromSession.tag, FromSession.read, hsocket, htitle]
    rfl
  | exit status =>
    have hstatus : (FromSession.exit status).toJson.get? "status".toList =
        some ((status.map ofInt).getD .null) :=
      get?_eq_some (by simp [FromSession.valuesOf_toJson, FromSession.members])
    simp only [FromSession.tag, FromSession.read, getI64_eq_some _ _ hstatus]
    cases status with
    | none => rfl
    | some code =>
      obtain ⟨hlow, hhigh⟩ := h code rfl
      have hsize : i32Size ≤ i64Max + 1 := by decide
      rw [Option.map_some, Option.getD_some, int?_ofInt (by omega) (by omega)]
  | hostChanged attached => rfl
  | historyLines start oldest next lines =>
    have hlines : (FromSession.historyLines start oldest next lines).toJson.get? "lines".toList =
        some (.array (lines.map HistoryLine.toJson)) :=
      get?_eq_some (by simp [FromSession.valuesOf_toJson, FromSession.members])
    simp only [FromSession.tag, FromSession.read, getArray, hlines]
  | error message =>
    simp [FromSession.tag, FromSession.read, getStr_eq, FromSession.valuesOf_toJson,
      FromSession.members]

/-- A line of a history reply is printed as the attach client prints it. -/
theorem printedLine_toJson (base64 : Base64) (line : HistoryLine) :
    printedLine base64 line.toJson = ⟨(base64.decode line.data).toOption, line.wrapped⟩ := by
  simp [printedLine, getStr_eq, getBool_eq, HistoryLine.toJson, valuesOf_record, bool?]

/-- `SessionInfo` as it is written. -/
def SessionInfo.toJson (info : SessionInfo) : Json :=
  record ([("socket", ofString info.socket), ("pid", ofNat info.pid),
      ("cwd_hint", ofString info.cwdHint),
      ("last_bell_at", (info.lastBellAt.map ofNat).getD .null)] ++
    skipNone "last_output_at" (info.lastOutputAt.map ofNat) ++
    [("title", (info.title.map ofString).getD .null)] ++ skipFalse "detached" info.detached ++
    skipNone "launched" (info.launched.map ofString))

/-- What is read as a `SessionInfo`. -/
def SessionInfo.ofJson (value : Json) : Option SessionInfo := do
  let socket ← required text? "socket" value
  let pid ← required (nat? u32Max) "pid" value
  let cwdHint ← required text? "cwd_hint" value
  let lastBellAt ← withDefault (nullable (nat? u64Max)) none "last_bell_at" value
  let lastOutputAt ← withDefault (nullable (nat? u64Max)) none "last_output_at" value
  let title ← withDefault (nullable text?) none "title" value
  let detached ← withDefault bool? false "detached" value
  let launched ← withDefault (nullable text?) none "launched" value
  return ⟨socket, pid, cwdHint, lastBellAt, lastOutputAt, title, detached, launched⟩

/-- Every number of the entry fits its type. -/
structure SessionInfo.Typed (info : SessionInfo) : Prop where
  pid : info.pid ≤ u32Max
  lastBellAt : ∀ epoch ∈ info.lastBellAt, epoch ≤ u64Max
  lastOutputAt : ∀ epoch ∈ info.lastOutputAt, epoch ≤ u64Max

/-- A title is written even if there is none. -/
theorem nullable_text_getD (text : Option String) :
    nullable text? ((text.map ofString).getD .null) = some text := by
  have h := elim_nullable_text text
  cases text with
  | none => rfl
  | some text => exact h

/-- An entry of the list reads back. -/
theorem SessionInfo.ofJson_toJson {info : SessionInfo} (h : info.Typed) :
    SessionInfo.ofJson info.toJson = some info := by
  simp [ofJson, toJson, required, withDefault, valuesOf_record, skipFalse_eq, filter_skipNone,
    map_skipNone, nat?_ofNat h.pid, nullable_getD h.lastBellAt, elim_nullable h.lastOutputAt,
    nullable_text_getD, elim_flag, elim_nullable_text]

/-- The tag of a message, as its `type` has it. -/
def ServerToDevice.tag : ServerToDevice → String
  | .sessions _ => "sessions"
  | .launched _ => "launched"
  | .detached .. => "detached"
  | .disconnected _ => "disconnected"
  | .bell .. => "bell"
  | .activity .. => "activity"
  | .title .. => "title"
  | .error _ => "error"

/-- The fields of a `ServerToDevice` as they are written. -/
def ServerToDevice.members : ServerToDevice → List (String × Json)
  | .sessions infos => [("sessions", .array (infos.map SessionInfo.toJson))]
  | .launched socket => [("socket", ofString socket)]
  | .detached socket held => [("socket", ofString socket), ("detached", .bool held)]
  | .disconnected reason => [("reason", ofString reason)]
  | .bell socket lastBellAt => [("socket", ofString socket), ("last_bell_at", ofNat lastBellAt)]
  | .activity socket lastOutputAt =>
      [("socket", ofString socket), ("last_output_at", ofNat lastOutputAt)]
  | .title socket text => [("socket", ofString socket), ("title", ofString text)]
  | .error message => [("message", ofString message)]

/-- `ServerToDevice` as it is written. -/
def ServerToDevice.toJson (msg : ServerToDevice) : Json :=
  record (("type", ofString msg.tag) :: msg.members)

/-- Every number of the message fits its type. -/
def ServerToDevice.Typed : ServerToDevice → Prop
  | .sessions infos => ∀ info ∈ infos, info.Typed
  | .bell _ lastBellAt => lastBellAt ≤ u64Max
  | .activity _ lastOutputAt => lastOutputAt ≤ u64Max
  | _ => True

theorem ServerToDevice.valuesOf_toJson (msg : ServerToDevice) {key : String}
    (hkey : key ≠ "type") :
    msg.toJson.valuesOf key = (msg.members.filter (·.1 = key)).map (·.2) := by
  rw [toJson, valuesOf_record, List.filter_cons_of_neg (by simpa using hkey.symm)]

theorem ServerToDevice.getStr_type (msg : ServerToDevice) :
    getStr msg.toJson "type" = some msg.tag := by
  cases msg <;> simp [getStr_eq, toJson, valuesOf_record, members]

/-- A message of the server fits. -/
theorem ServerToDevice.fits_toJson {limits : Limits} (levels : ℕ) (h : limits.Admits u64Max)
    {msg : ServerToDevice} (hmsg : msg.Typed) : Fits limits (levels + 3) msg.toJson := by
  refine fits_record (List.forall_mem_cons.mpr ⟨fits_text _, ?_⟩)
  cases msg with
  | sessions infos =>
    have harray : Fits limits (levels + 2) (.array (infos.map SessionInfo.toJson)) := by
      refine .array (List.forall_mem_map.mpr fun info hinfo => fits_record ?_)
      obtain ⟨hpid, hbell, houtput⟩ := hmsg info hinfo
      have htitle : Fits limits levels ((info.title.map ofString).getD .null) := by
        cases info.title with
        | none => exact .null _
        | some text => exact fits_text text
      have hlast : Fits limits levels ((info.lastBellAt.map ofNat).getD .null) := by
        cases hepoch : info.lastBellAt with
        | none => exact .null _
        | some epoch => exact fits_number h (hbell epoch hepoch)
      simp only [skipFalse_eq, List.forall_mem_append, forall_mem_skipNone]
      refine ⟨⟨⟨⟨?_, fits_optional h houtput⟩, ?_⟩, fits_flag _⟩, fits_optional_text _⟩
      · simp [fits_text, fits_number h hpid, hlast]
      · simp [htitle]
    simp [members, harray]
  | bell socket lastBellAt => simp [members, fits_text, fits_number h hmsg]
  | activity socket lastOutputAt => simp [members, fits_text, fits_number h hmsg]
  | detached socket held => simp [members, fits_text, Fits.bool]
  | _ => simp [members, fits_text]

/-- What the viewing client reads in the JSON of a message of the server is the message. -/
theorem readServer_message {crates : ViewCrates}
    (hsessions : ∀ items infos, items? SessionInfo.ofJson items = some infos →
      crates.sessions items = infos)
    {msg : ServerToDevice} (h : msg.Typed) : readServer crates msg.toJson = msg.read := by
  unfold readServer
  dsimp only
  rw [msg.getStr_type]
  have hsocket {socket : String} (hmem : msg.toJson.valuesOf "socket" = [ofString socket]) :
      (msg.toJson.get? "socket".toList).isSome = true ∧
        getStr msg.toJson "socket" = some socket := by
    rw [get?_eq_some hmem, getStr_eq, hmem]
    simp
  cases msg with
  | sessions infos =>
    have hlist : (ServerToDevice.sessions infos).toJson.get? "sessions".toList =
        some (.array (infos.map SessionInfo.toJson)) :=
      get?_eq_some (by simp [ServerToDevice.valuesOf_toJson, ServerToDevice.members])
    have hback := items?_map fun info hinfo => SessionInfo.ofJson_toJson (h info hinfo)
    simp only [ServerToDevice.tag, hlist, Option.getD_some, hsessions _ _ hback]
    rfl
  | launched socket => rfl
  | detached socket held => rfl
  | disconnected reason =>
    have hreason : getStr (ServerToDevice.disconnected reason).toJson "reason" = some reason := by
      simp [getStr_eq, ServerToDevice.valuesOf_toJson, ServerToDevice.members]
    simp only [ServerToDevice.tag, hreason]
    rfl
  | bell socket lastBellAt =>
    have hbell : getU64 (ServerToDevice.bell socket lastBellAt).toJson "last_bell_at" =
        some lastBellAt := by
      simp [getU64_eq, ServerToDevice.valuesOf_toJson, ServerToDevice.members, nat?_ofNat h]
    obtain ⟨hsome, hstr⟩ := @hsocket socket
      (by simp [ServerToDevice.valuesOf_toJson, ServerToDevice.members])
    simp only [ServerToDevice.tag, hsome, hstr, hbell, if_true]
    rfl
  | activity socket lastOutputAt => rfl
  | title socket text =>
    have htitle : getStr (ServerToDevice.title socket text).toJson "title" = some text := by
      simp [getStr_eq, ServerToDevice.valuesOf_toJson, ServerToDevice.members]
    obtain ⟨hsome, hstr⟩ := @hsocket socket
      (by simp [ServerToDevice.valuesOf_toJson, ServerToDevice.members])
    simp only [ServerToDevice.tag, hsome, hstr, htitle, if_true]
    rfl
  | error message =>
    have hmessage : getStr (ServerToDevice.error message).toJson "message" = some message := by
      simp [getStr_eq, ServerToDevice.valuesOf_toJson, ServerToDevice.members]
    simp only [ServerToDevice.tag, hmessage]
    rfl

/-- The fields of a request before its type. The keys of a `json!` object are sorted. -/
def ViewMessage.members : ViewMessage → List (String × Json)
  | .connect socket => [("socket", ofString socket)]
  | .history before => [("before", ofNat before)]
  | .input data => [("data", ofString data)]
  | _ => []

/-- A request of the viewing client. -/
def ViewMessage.toJson (msg : ViewMessage) : Json :=
  record (msg.members ++ [("type", ofString msg.tag)])

/-- `send_json`: the text of a request. -/
def ViewMessage.text (msg : ViewMessage) : String := String.ofList (write msg.toJson)

/-- Every number of the request fits its type. -/
def ViewMessage.Typed : ViewMessage → Prop
  | .history before => before ≤ u64Max
  | _ => True

/-- What a request means to the session, if it is for the session. -/
def ViewMessage.toSession? : ViewMessage → Option ToSession
  | .view => some .view
  | .history before => some (.history before none)
  | .input data => some (.input data [])
  | .unview => some .unview
  | _ => none

theorem ViewMessage.fits_toJson {limits : Limits} (levels : ℕ) (h : limits.Admits u64Max)
    {msg : ViewMessage} (hmsg : msg.Typed) : Fits limits (levels + 1) msg.toJson := by
  refine fits_record (List.forall_mem_append.mpr ⟨?_, by simp [fits_text]⟩)
  cases msg with
  | history before => simp [members, fits_number h hmsg]
  | _ => simp [members, fits_text]

/-- The server reads a request's type, and the session that a `connect` asks for. -/
theorem ViewMessage.isReadAs_text {serde : SerdeJson} (h : serde.limits.Admits u64Max)
    {msg : ViewMessage} (hmsg : msg.Typed) : msg.isReadAs serde msg.text = true := by
  have hread : serde.fromStr msg.text = .ok msg.toJson := by
    have hfits : Fits serde.limits serde.limits.depth msg.toJson := msg.fits_toJson 126 h hmsg
    unfold SerdeJson.fromStr text
    rw [String.toList_ofList, read_write hfits]
  have htype : getStr msg.toJson "type" = some msg.tag := by
    cases msg <;> simp [getStr_eq, toJson, valuesOf_record, members]
  unfold isReadAs
  rw [hread]
  simp only [htype, decide_true, Bool.true_and]
  cases msg with
  | connect socket =>
    have hsocket : getStr (ViewMessage.connect socket).toJson "socket" = some socket := by
      simp [getStr_eq, toJson, valuesOf_record, members]
    exact decide_eq_true hsocket
  | _ => rfl

/-- A request for the session is the message that the wrapper reads in it. -/
theorem ViewMessage.ofJson_toJson {msg : ViewMessage} (hmsg : msg.Typed) {m : ToSession}
    (h : msg.toSession? = some m) : ToSession.ofJson msg.toJson = some m := by
  have htag : required text? "type" msg.toJson = some msg.tag := by
    cases msg <;> simp [required, toJson, valuesOf_record, members]
  unfold ToSession.ofJson
  rw [htag, Option.bind_eq_bind, Option.bind_some]
  cases msg with
  | view =>
    obtain rfl := Option.some.inj h
    rfl
  | unview =>
    obtain rfl := Option.some.inj h
    rfl
  | history before =>
    obtain rfl := Option.some.inj h
    simp [tag, required, withDefault, toJson, valuesOf_record, members, nat?_ofNat hmsg]
  | input data =>
    obtain rfl := Option.some.inj h
    simp [tag, required, withDefault, toJson, valuesOf_record, members]
  | _ => cases h

/-- What a request's line is to the wrapper. -/
theorem ViewMessage.fromSlice_text {serde : SerdeJson} (hserde : serde.Derives)
    {msg : ViewMessage} (hmsg : msg.Typed) {m : ToSession} (h : msg.toSession? = some m) :
    serde.fromSlice (utf8 msg.text) = .ok m := by
  have hfits : Fits serde.limits serde.limits.depth msg.toJson :=
    msg.fits_toJson 126 hserde.admits hmsg
  obtain ⟨-, -, hvalue⟩ := line_of_fits hfits
  unfold SerdeJson.fromSlice text
  rw [hvalue]
  exact hserde.reads _ _ m (read_write hfits) (ViewMessage.ofJson_toJson hmsg h)

/-- What `serde_json` and the decoder of session lists do, as far as the client relies on it. -/
structure ViewCrates.Derives (crates : ViewCrates) : Prop where
  admits : crates.serde.limits.Admits u64Max
  sessions : ∀ items infos, items? SessionInfo.ofJson items = some infos →
    crates.sessions items = infos

/-- The text of a message of the server. -/
def ServerToDevice.text (msg : ServerToDevice) : String := String.ofList (write msg.toJson)

/-- Text of a value that fits is read as that value. -/
theorem Sent.read_write (crates : ViewCrates) {value : Json}
    (h : Fits crates.serde.limits crates.serde.limits.depth value) :
    (Sent.line (String.ofList (write value))).read crates = readServer crates value := by
  unfold Sent.read SerdeJson.fromStr
  dsimp only
  rw [String.toList_ofList, Json.read_write h]

/-- A session's message, relayed as the text it is, is read as what it means. -/
theorem Sent.read_text {crates : ViewCrates} (hcrates : crates.serde.limits.Admits u64Max)
    {fromSession : Serde FromSession} (hfrom : crates.serde.DerivesFrom fromSession)
    {msg : FromSession} (hmsg : msg.Typed) :
    (Sent.line (fromSession.text msg)).read crates = msg.read crates.base64 := by
  have hfits : Fits crates.serde.limits crates.serde.limits.depth msg.toJson :=
    FromSession.fits_toJson 124 hcrates hmsg
  rw [hfrom.text, Sent.read_write crates hfits, readServer_toJson crates hmsg]

/-- Whatever is said over the websocket reaches the other side as it is meant: what a session
writes, cut into lines and relayed by the server, what the server itself sends, and what the
client requests of the server and of the session. -/
theorem device_messages_lossless {crates : ViewCrates} (hcrates : crates.Derives)
    {serde : SerdeJson} (hserde : serde.Derives) {fromSession : Serde FromSession}
    (hfrom : crates.serde.DerivesFrom fromSession) :
    (∀ msgs : List FromSession, (∀ msg ∈ msgs, msg.Typed) →
      ∃ lines, Delivers SessionConn.nextLine (msgs.flatMap fromSession.send) lines ∧
        lines.map (fun line => (Sent.line line).read crates) =
          msgs.map (·.read crates.base64)) ∧
    (∀ msg : ServerToDevice, msg.Typed →
      (Sent.line msg.text).read crates = (Sent.message msg).read crates) ∧
    (∀ msg : ViewMessage, msg.Typed → msg.isReadAs serde msg.text = true ∧
      ∀ m ∈ msg.toSession?, serde.fromSlice (utf8 msg.text) = .ok m) := by
  refine ⟨fun msgs hmsgs => ?_, fun msg hmsg => ?_, fun msg hmsg => ?_⟩
  · have hfaithful : ∀ msg ∈ msgs, fromSession.Faithful msg :=
      fun msg hmsg => hfrom.faithful hcrates.admits (hmsgs msg hmsg)
    have hlines : Delivers SessionConn.nextLine (msgs.flatMap fromSession.send) _ :=
      delivers_lines rfl (fun _ => lossyLine_of_ne) _
    rw [map_linesOf_send hfaithful fun msg _ => fromUtf8Lossy_utf8 (fromSession.text msg)] at hlines
    refine ⟨_, hlines, ?_⟩
    rw [List.map_map]
    exact List.map_congr_left fun msg hmsg => Sent.read_text hcrates.admits hfrom (hmsgs msg hmsg)
  · have hfits : Fits crates.serde.limits crates.serde.limits.depth msg.toJson :=
      ServerToDevice.fits_toJson 124 hcrates.admits hmsg
    exact (Sent.read_write crates hfits).trans (readServer_message hcrates.sessions hmsg)
  · exact ⟨ViewMessage.isReadAs_text hserde.admits hmsg,
      fun m hm => ViewMessage.fromSlice_text hserde hmsg hm⟩

/-- The third-party code of a viewing client with the derived decoders. -/
def derivedCrates : ViewCrates where
  serde := derivedSerde
  sessions := fun items => (items? SessionInfo.ofJson items).getD []
  base64 := helloBase64

/-- A session's output and title, the reply to a disconnect, and a view. -/
theorem device_messages_lossless_of_output :
    (∃ lines, Delivers SessionConn.nextLine
        ([FromSession.output "SGVsbG8=", .title "é"].flatMap derivedFrom.send) lines ∧
      lines.map (fun line => (Sent.line line).read derivedCrates) =
        [.output (ascii "Hello"), .title (some "é")]) ∧
    (Sent.line (ServerToDevice.disconnected "requested").text).read derivedCrates =
      .disconnected (some "requested") ∧
    derivedSerde.fromSlice (utf8 ViewMessage.view.text) = .ok .view := by
  have hcrates : derivedCrates.Derives :=
    ⟨derives_derivedSerde.admits, fun items infos h => by simp [derivedCrates, h]⟩
  obtain ⟨hrelayed, hserver, hrequest⟩ :=
    device_messages_lossless hcrates derives_derivedSerde derivesFrom_derivedFrom
  have houtput : (FromSession.output "SGVsbG8=").Typed := trivial
  have htitle : (FromSession.title "é").Typed := trivial
  obtain ⟨lines, hlines, hread⟩ :=
    hrelayed [.output "SGVsbG8=", .title "é"] (by simp [houtput, htitle])
  exact ⟨⟨lines, hlines, hread⟩, hserver (.disconnected "requested") trivial,
    (hrequest .view trivial).2 .view rfl⟩

end G2mirror
