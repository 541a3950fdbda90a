import G2mirror.Library.JsonRecord
import G2mirror.LineFraming
import G2mirror.Server
import G2mirror.Wrapper

/-!
# Session messages on the wire

What the attributes in `protocol.rs` make of the messages between a wrapper and its clients:
the JSON that serde writes, with the fields it leaves out, and the objects it reads, with the
defaults of what is missing. A message survives being written, framed, sent in whatever
pieces, and read.
-/

namespace G2mirror

open Json

/-- The magnitude of `i32::MIN`. -/
def i32Size : ℕ := 2 ^ 31

/-- `Role`, in snake case. -/
def Role.name : Role → String
  | .viewer => "viewer"
  | .host => "host"

/-- What is read as a `Role`. -/
def Role.ofJson (value : Json) : Option Role :=
  (text? value).bind fun name =>
    if name = "viewer" then some .viewer else if name = "host" then some .host else none

/-- `InputDelay` as it is written. -/
def InputDelay.toJson (delay : InputDelay) : Json :=
  record [("at", ofNat delay.offset), ("ms", ofNat delay.ms)]

/-- What is read as an `InputDelay`. -/
def InputDelay.ofJson (value : Json) : Option InputDelay := do
  let offset ← required (nat? u64Max) "at" value
  let ms ← required (nat? u64Max) "ms" value
  return ⟨offset, ms⟩

/-- The fields of `Init` as they are written. -/
def Init.members (i : Init) : List (String × Json) :=
  [("version", ofNat i.version), ("device", ofString i.device), ("width", ofNat i.width),
    ("height", ofNat i.height)] ++
  skipNone "size_rank" (i.sizeRank.map ofNat) ++
  skipNone "host_size_rank" (i.hostSizeRank.map ofNat) ++
  skipNone "role" (if i.role = .viewer then none else some (ofString i.role.name)) ++
  skipFalse "force" i.force

/-- What is read as an `Init`. -/
def Init.ofJson (value : Json) : Option Init := do
  let version ← required (nat? u32Max) "version" value
  let device ← required text? "device" value
  let width ← required (nat? u16Max) "width" value
  let height ← required (nat? u16Max) "height" value
  let sizeRank ← withDefault (nullable (nat? u32Max)) none "size_rank" value
  let hostSizeRank ← withDefault (nullable (nat? u32Max)) none "host_size_rank" value
  let role ← withDefault Role.ofJson .viewer "role" value
  let force ← withDefault bool? false "force" value
  return ⟨version, device, width, height, sizeRank, hostSizeRank, role, force⟩

/-- The fields of a `ToSession` as they are written. -/
def ToSession.members : ToSession → List (String × Json)
  | .init i => i.members
  | .monitor version => [("version", ofNat version)]
  | .view => []
  | .unview => []
  | .input data delays => [("data", ofString data)] ++
      skipNone "delays"
        (if delays = [] then none else some (.array (delays.map InputDelay.toJson)))
  | .history before limit =>
      [("before", ofNat before), ("limit", (limit.map ofNat).getD .null)]
  | .resize width height => [("width", ofNat width), ("height", ofNat height)]

/-- `ToSession` as it is written. -/
def ToSession.toJson (msg : ToSession) : Json :=
  record (("type", ofString msg.tag) :: msg.members)

/-- What is read as a `ToSession`. -/
def ToSession.ofJson (value : Json) : Option ToSession := do
  match ← required text? "type" value with
  | "init" => return .init (← Init.ofJson value)
  | "monitor" => return .monitor (← required (nat? u32Max) "version" value)
  | "view" => return .view
  | "unview" => return .unview
  | "input" =>
    let data ← required text? "data" value
    let delays ← withDefault (items? InputDelay.ofJson) [] "delays" value
    return .input data delays
  | "history" =>
    let before ← required (nat? u64Max) "before" value
    let limit ← withDefault (nullable (nat? u32Max)) none "limit" value
    return .history before limit
  | "resize" =>
    let width ← required (nat? u16Max) "width" value
    let height ← required (nat? u16Max) "height" value
    return .resize width height
  | _ => none

/-- Every number of the message fits its type. -/
def ToSession.Typed : ToSession → Prop
  | .init i => i.version ≤ u32Max ∧ i.width ≤ u16Max ∧ i.height ≤ u16Max ∧
      (∀ rank ∈ i.sizeRank, rank ≤ u32Max) ∧ ∀ rank ∈ i.hostSizeRank, rank ≤ u32Max
  | .monitor version => version ≤ u32Max
  | .view => True
  | .unview => True
  | .input _ delays => ∀ delay ∈ delays, delay.offset ≤ u64Max ∧ delay.ms ≤ u64Max
  | .history before limit => before ≤ u64Max ∧ ∀ n ∈ limit, n ≤ u32Max
  | .resize width height => width ≤ u16Max ∧ height ≤ u16Max

theorem InputDelay.ofJson_toJson {delay : InputDelay} (hoffset : delay.offset ≤ u64Max)
    (hms : delay.ms ≤ u64Max) : InputDelay.ofJson delay.toJson = some delay := by
  simp [ofJson, toJson, required, valuesOf_record, nat?_ofNat hoffset, nat?_ofNat hms]

/-- The values under a key of a message. -/
theorem ToSession.valuesOf_toJson (msg : ToSession) {key : String} (hkey : key ≠ "type") :
    msg.toJson.valuesOf key = (msg.members.filter (·.1 = key)).map (·.2) := by
  rw [toJson, valuesOf_record, List.filter_cons_of_neg (by simpa using hkey.symm)]

/-- A role that is left out if it is the default reads back. -/
theorem Role.elim_name (role : Role) :
    (if role = .viewer then none else some (ofString role.name)).elim (some .viewer) ofJson =
      some role := by
  cases role <;> rfl

/-- An init reads back. -/
theorem Init.ofJson_toJson {i : Init} (h : (ToSession.init i).Typed) :
    Init.ofJson (ToSession.init i).toJson = some i := by
  obtain ⟨hversion, hwidth, hheight, hrank, hhost⟩ := h
  unfold Init.ofJson
  simp [required, withDefault, ToSession.valuesOf_toJson, ToSession.members, members, skipFalse_eq,
    filter_skipNone, map_skipNone, nat?_ofNat hversion, nat?_ofNat hwidth, nat?_ofNat hheight,
    elim_nullable hrank, elim_nullable hhost, Role.elim_name, elim_flag]

/-- The limit of a history request is written even if there is none. -/
theorem nullable_getD {max : ℕ} {n : Option ℕ} (hn : ∀ k ∈ n, k ≤ max) :
    nullable (nat? max) ((n.map ofNat).getD .null) = some n := by
  have h := elim_nullable hn
  cases n with
  | none => rfl
  | some k => exact h

/-- Pauses read back, whether there are any or not. -/
theorem elim_delays {delays : List InputDelay}
    (h : ∀ delay ∈ delays, delay.offset ≤ u64Max ∧ delay.ms ≤ u64Max) :
    (if delays = [] then none else some (.array (delays.map InputDelay.toJson))).elim (some [])
      (items? InputDelay.ofJson) = some delays := by
  split_ifs with hnil
  · rw [hnil]
    rfl
  · exact items?_map fun delay hdelay =>
      InputDelay.ofJson_toJson (h delay hdelay).1 (h delay hdelay).2

/-- What is written reads back. -/
theorem ToSession.ofJson_toJson {msg : ToSession} (h : msg.Typed) :
    ToSession.ofJson msg.toJson = some msg := by
  have htag : required text? "type" msg.toJson = some msg.tag := by
    cases msg <;> simp [required, toJson, valuesOf_record, members, Init.members, skipFalse_eq,
      filter_skipNone]
  unfold ofJson
  rw [htag, Option.bind_eq_bind, Option.bind_some]
  cases msg with
  | init i => simp [tag, Init.ofJson_toJson h]
  | monitor version => simp [tag, required, valuesOf_toJson, members, nat?_ofNat h]
  | view => rfl
  | unview => rfl
  | input data delays =>
    simp [tag, required, withDefault, valuesOf_toJson, members, filter_skipNone, map_skipNone,
      elim_delays h]
  | history before limit =>
    simp [tag, required, withDefault, valuesOf_toJson, members, nat?_ofNat h.1, nullable_getD h.2]
  | resize width height =>
    simp [tag, required, valuesOf_toJson, members, nat?_ofNat h.1, nat?_ofNat h.2]

/-- `HistoryExtent` as it is written. -/
def HistoryExtent.toJson (extent : HistoryExtent) : Json :=
  record [("next", ofNat extent.next), ("oldest", ofNat extent.oldest)]

/-- What is read as a `HistoryExtent`. -/
def HistoryExtent.ofJson (value : Json) : Option HistoryExtent := do
  let next ← required (nat? u64Max) "next" value
  let oldest ← required (nat? u64Max) "oldest" value
  return ⟨next, oldest⟩

/-- `HistoryLine` as it is written. -/
def HistoryLine.toJson (line : HistoryLine) : Json :=
  record [("data", ofString line.data), ("width", ofNat line.width),
    ("wrapped", .bool line.wrapped)]

/-- What is read as a `HistoryLine`. -/
def HistoryLine.ofJson (value : Json) : Option HistoryLine := do
  let data ← required text? "data" value
  let width ← required (nat? u16Max) "width" value
  let wrapped ← required bool? "wrapped" value
  return ⟨data, width, wrapped⟩

/-- The fields of `Connect` as they are written. -/
def Connect.members (c : Connect) : List (String × Json) :=
  [("version", ofNat c.version), ("pid", ofNat c.pid), ("command", ofString c.command),
    ("cwd", ofString c.cwd), ("host_width", ofNat c.hostWidth),
    ("host_height", ofNat c.hostHeight), ("readonly", .bool c.readonly),
    ("history", c.history.toJson)] ++
  skipNone "title" (c.title.map ofString) ++ skipFalse "headless" c.headless ++
  skipFalse "detached" c.detached ++ skipNone "launched" (c.launched.map ofString) ++
  skipNone "last_output_at" (c.lastOutputAt.map ofNat)

/-- What is read as a `Connect`. -/
def Connect.ofJson (value : Json) : Option Connect := do
  let version ← required (nat? u32Max) "version" value
  let pid ← required (nat? u32Max) "pid" value
  let command ← required text? "command" value
  let cwd ← required text? "cwd" value
  let hostWidth ← required (nat? u16Max) "host_width" value
  let hostHeight ← required (nat? u16Max) "host_height" value
  let readonly ← required bool? "readonly" value
  let history ← required HistoryExtent.ofJson "history" value
  let title ← withDefault (nullable text?) none "title" value
  let headless ← withDefault bool? false "headless" value
  let detached ← withDefault bool? false "detached" value
  let launched ← withDefault (nullable text?) none "launched" value
  let lastOutputAt ← withDefault (nullable (nat? u64Max)) none "last_output_at" value
  return ⟨version, pid, command, cwd, hostWidth, hostHeight, readonly, history, title, headless,
    detached, launched, lastOutputAt⟩

/-- The tag of a message, as its `type` has it. -/
def FromSession.tag : FromSession → String
  | .connect _ => "connect"
  | .snapshot .. => "snapshot"
  | .output _ => "output"
  | .bell _ => "bell"
  | .activity _ => "activity"
  | .title _ => "title"
  | .exit _ => "exit"
  | .hostChanged _ => "host_changed"
  | .historyLines .. => "history_lines"
  | .error _ => "error"

/-- The fields of a `FromSession` as they are written. -/
def FromSession.members : FromSession → List (String × Json)
  | .connect c => c.members
  | .snapshot data width height historyNext =>
      [("data", ofString data), ("width", ofNat width), ("height", ofNat height),
        ("history_next", ofNat historyNext)]
  | .output data => [("data", ofString data)]
  | .bell epoch => [("at", ofNat epoch)]
  | .activity epoch => [("at", ofNat epoch)]
  | .title text => [("title", ofString text)]
  | .exit status => [("status", (status.map ofInt).getD .null)]
  | .hostChanged attached => [("attached", .bool attached)]
  | .historyLines start oldest next lines =>
      [("start", ofNat start), ("oldest", ofNat oldest), ("next", ofNat next),
        ("lines", .array (lines.map HistoryLine.toJson))]
  | .error message => [("message", ofString message)]

/-- `FromSession` as it is written. -/
def FromSession.toJson (msg : FromSession) : Json :=
  record (("type", ofString msg.tag) :: msg.members)

/-- What is read as a `FromSession`. -/
def FromSession.ofJson (value : Json) : Option FromSession := do
  match ← required text? "type" value with
  | "connect" => return .connect (← Connect.ofJson value)
  | "snapshot" =>
    let data ← required text? "data" value
    let width ← required (nat? u16Max) "width" value
    let height ← required (nat? u16Max) "height" value
    let historyNext ← required (nat? u64Max) "history_next" value
    return .snapshot data width height historyNext
  | "output" => return .output (← required text? "data" value)
  | "bell" => return .bell (← required (nat? u64Max) "at" value)
  | "activity" => return .activity (← required (nat? u64Max) "at" value)
  | "title" => return .title (← required text? "title" value)
  | "exit" => return .exit (← withDefault (nullable (int? i32Size)) none "status" value)
  | "host_changed" => return .hostChanged (← required bool? "attached" value)
  | "history_lines" =>
    let start ← required (nat? u64Max) "start" value
    let oldest ← required (nat? u64Max) "oldest" value
    let next ← required (nat? u64Max) "next" value
    let lines ← required (items? HistoryLine.ofJson) "lines" value
    return .historyLines start oldest next lines
  | "error" => return .error (← required text? "message" value)
  | _ => none

/-- Every number of the greeting fits its type. -/
structure Connect.Typed (c : Connect) : Prop where
  version : c.version ≤ u32Max
  pid : c.pid ≤ u32Max
  hostWidth : c.hostWidth ≤ u16Max
  hostHeight : c.hostHeight ≤ u16Max
  next : c.history.next ≤ u64Max
  oldest : c.history.oldest ≤ u64Max
  lastOutputAt : ∀ epoch ∈ c.lastOutputAt, epoch ≤ u64Max

/-- Every number of the message fits its type. -/
def FromSession.Typed : FromSession → Prop
  | .connect c => c.Typed
  | .snapshot _ width height historyNext =>
      width ≤ u16Max ∧ height ≤ u16Max ∧ historyNext ≤ u64Max
  | .output _ => True
  | .bell epoch => epoch ≤ u64Max
  | .activity epoch => epoch ≤ u64Max
  | .title _ => True
  | .exit status => ∀ code ∈ status, -i32Size ≤ code ∧ code < i32Size
  | .hostChanged _ => True
  | .historyLines start oldest next lines =>
      start ≤ u64Max ∧ oldest ≤ u64Max ∧ next ≤ u64Max ∧ ∀ line ∈ lines, line.width ≤ u16Max
  | .error _ => True

theorem HistoryExtent.ofJson_toJson {extent : HistoryExtent} (hnext : extent.next ≤ u64Max)
    (holdest : extent.oldest ≤ u64Max) : HistoryExtent.ofJson extent.toJson = some extent := by
  simp [ofJson, toJson, required, valuesOf_record, nat?_ofNat hnext, nat?_ofNat holdest]

theorem HistoryLine.ofJson_toJson {line : HistoryLine} (h : line.width ≤ u16Max) :
    HistoryLine.ofJson line.toJson = some line := by
  simp [ofJson, toJson, required, valuesOf_record, nat?_ofNat h, bool?]

/-- The values under a key of a message. -/
theorem FromSession.valuesOf_toJson (msg : FromSession) {key : String} (hkey : key ≠ "type") :
    msg.toJson.valuesOf key = (msg.members.filter (·.1 = key)).map (·.2) := by
  rw [toJson, valuesOf_record, List.filter_cons_of_neg (by simpa using hkey.symm)]

/-- A greeting reads back. -/
theorem Connect.ofJson_toJson {c : Connect} (h : c.Typed) :
    Connect.ofJson (FromSession.connect c).toJson = some c := by
  unfold Connect.ofJson
  simp [required, withDefault, FromSession.valuesOf_toJson, FromSession.members, members,
    skipFalse_eq, filter_skipNone, map_skipNone, nat?_ofNat h.version, nat?_ofNat h.pid,
    nat?_ofNat h.hostWidth, nat?_ofNat h.hostHeight, bool?, elim_nullable h.lastOutputAt,
    HistoryExtent.ofJson_toJson h.next h.oldest, elim_nullable_text, elim_flag]

/-- An exit status reads back, whether there is one or not. -/
theorem nullable_status {status : Option ℤ}
    (h : ∀ code ∈ status, -(i32Size : ℤ) ≤ code ∧ code < i32Size) :
    nullable (int? i32Size) ((status.map ofInt).getD .null) = some status := by
  cases status with
  | none => rfl
  | some code =>
    obtain ⟨hlow, hhigh⟩ := h code rfl
    have hsome : nullable (int? i32Size) (ofInt code) = (int? i32Size (ofInt code)).map some :=
      rfl
    rw [Option.map_some, Option.getD_some, hsome, int?_ofInt hlow hhigh]
    rfl

/-- What is written reads back. -/
theorem FromSession.ofJson_toJson {msg : FromSession} (h : msg.Typed) :
    FromSession.ofJson msg.toJson = some msg := by
  have htag : required text? "type" msg.toJson = some msg.tag := by
    cases msg <;> simp [required, toJson, valuesOf_record, members, Connect.members, skipFalse_eq,
      filter_skipNone]
  unfold ofJson
  rw [htag, Option.bind_eq_bind, Option.bind_some]
  cases msg with
  | connect c => simp [tag, Connect.ofJson_toJson h]
  | snapshot data width height historyNext =>
    simp [tag, required, valuesOf_toJson, members, nat?_ofNat h.1, nat?_ofNat h.2.1,
      nat?_ofNat h.2.2]
  | output data => simp [tag, required, valuesOf_toJson, members]
  | bell epoch => simp [tag, required, valuesOf_toJson, members, nat?_ofNat h]
  | activity epoch => simp [tag, required, valuesOf_toJson, members, nat?_ofNat h]
  | title text => simp [tag, required, valuesOf_toJson, members]
  | exit status => simp [tag, withDefault, valuesOf_toJson, members, nullable_status h]
  | hostChanged attached => simp [tag, required, valuesOf_toJson, members, bool?]
  | historyLines start oldest next lines =>
    obtain ⟨hstart, holdest, hnext, hlines⟩ := h
    have hback := items?_map fun line hline => HistoryLine.ofJson_toJson (hlines line hline)
    simp [tag, required, valuesOf_toJson, members, nat?_ofNat hstart, nat?_ofNat holdest,
      nat?_ofNat hnext, hback]
  | error message => simp [tag, required, valuesOf_toJson, members]

section Fits

variable {limits : Limits} {levels : ℕ}

/-- Numbers of at most 64 bits fit. -/
theorem fits_number (h : limits.Admits u64Max) {n max : ℕ} (hn : n ≤ max)
    (hmax : max ≤ u64Max := by decide) : Fits limits levels (ofNat n) :=
  h.fits_ofNat (hn.trans hmax)

/-- Numbers that may be missing fit. -/
theorem fits_optional (h : limits.Admits u64Max) {n : Option ℕ} {max : ℕ}
    (hn : ∀ k ∈ n, k ≤ max) (hmax : max ≤ u64Max := by decide) :
    ∀ field ∈ n.map ofNat, Fits limits levels field := by
  intro field hfield
  obtain ⟨k, hk, rfl⟩ := Option.map_eq_some_iff.mp hfield
  exact fits_number h (hn k hk) hmax

theorem fits_text (s : String) : Fits limits levels (ofString s) := .string levels s.toList

/-- Texts that may be missing fit. -/
theorem fits_optional_text (text : Option String) :
    ∀ field ∈ text.map ofString, Fits limits levels field := by
  cases text <;> simp [fits_text]

/-- Flags that are left out if they are not set fit. -/
theorem fits_flag (b : Bool) :
    ∀ field ∈ if b then some (Json.bool true) else none, Fits limits levels field := by
  cases b <;> simp [Fits.bool]

/-- A message for a session fits. -/
theorem ToSession.fits_toJson (levels : ℕ) (h : limits.Admits u64Max) {msg : ToSession}
    (hmsg : msg.Typed) : Fits limits (levels + 3) msg.toJson := by
  refine fits_record (List.forall_mem_cons.mpr ⟨fits_text _, ?_⟩)
  cases msg with
  | init i =>
    obtain ⟨hversion, hwidth, hheight, hrank, hhost⟩ := hmsg
    have hrole : ∀ field ∈ if i.role = .viewer then none else some (ofString i.role.name),
        Fits limits (levels + 2) field := by
      split_ifs <;> simp [fits_text]
    simp only [members, Init.members, skipFalse_eq, List.forall_mem_append, forall_mem_skipNone]
    refine ⟨⟨⟨⟨?_, fits_optional h hrank⟩, fits_optional h hhost⟩, hrole⟩, fits_flag i.force⟩
    simp [fits_number h hversion, fits_text, fits_number h hwidth, fits_number h hheight]
  | monitor version => simp [members, fits_number h hmsg]
  | view => exact List.forall_mem_nil _
  | unview => exact List.forall_mem_nil _
  | input data delays =>
    have hdelays : Fits limits (levels + 2) (.array (delays.map InputDelay.toJson)) := by
      refine .array (List.forall_mem_map.mpr fun delay hdelay => fits_record ?_)
      obtain ⟨hoffset, hms⟩ := hmsg delay hdelay
      simp [fits_number h hoffset, fits_number h hms]
    simp only [members, List.forall_mem_append, forall_mem_skipNone]
    refine ⟨by simp [fits_text], ?_⟩
    split_ifs <;> simp [hdelays]
  | history before limit =>
    have hlimit : Fits limits (levels + 2) ((limit.map ofNat).getD .null) := by
      cases limit with
      | none => exact .null _
      | some n => exact fits_number h (hmsg.2 n rfl)
    simp [members, fits_number h hmsg.1, hlimit]
  | resize width height => simp [members, fits_number h hmsg.1, fits_number h hmsg.2]

/-- A message of a session fits. -/
theorem FromSession.fits_toJson (levels : ℕ) (h : limits.Admits u64Max) {msg : FromSession}
    (hmsg : msg.Typed) : Fits limits (levels + 3) msg.toJson := by
  refine fits_record (List.forall_mem_cons.mpr ⟨fits_text _, ?_⟩)
  cases msg with
  | connect c =>
    have hextent : Fits limits (levels + 2) c.history.toJson := by
      refine fits_record ?_
      simp [fits_number h hmsg.next, fits_number h hmsg.oldest]
    simp only [members, Connect.members, skipFalse_eq, List.forall_mem_append, forall_mem_skipNone]
    refine ⟨⟨⟨⟨⟨?_, fits_optional_text _⟩, fits_flag _⟩, fits_flag _⟩, fits_optional_text _⟩,
      fits_optional h hmsg.lastOutputAt⟩
    simp [fits_number h hmsg.version, fits_number h hmsg.pid, fits_text, Fits.bool, hextent,
      fits_number h hmsg.hostWidth, fits_number h hmsg.hostHeight]
  | snapshot data width height historyNext =>
    simp [members, fits_text, fits_number h hmsg.1, fits_number h hmsg.2.1,
      fits_number h hmsg.2.2]
  | output data => simp [members, fits_text]
  | bell epoch => simp [members, fits_number h hmsg]
  | activity epoch => simp [members, fits_number h hmsg]
  | title text => simp [members, fits_text]
  | exit status =>
    have hstatus : Fits limits (levels + 2) ((status.map ofInt).getD .null) := by
      cases status with
      | none => exact .null _
      | some code =>
        obtain ⟨hlow, hhigh⟩ := hmsg code rfl
        have hsize : i32Size ≤ u64Max := by decide
        exact h.fits_ofInt (by omega)
    simp [members, hstatus]
  | hostChanged attached => simp [members, Fits.bool]
  | historyLines start oldest next lines =>
    obtain ⟨hstart, holdest, hnext, hlines⟩ := hmsg
    have harray : Fits limits (levels + 2) (.array (lines.map HistoryLine.toJson)) := by
      refine .array (List.forall_mem_map.mpr fun line hline => fits_record ?_)
      simp [fits_text, fits_number h (hlines line hline), Fits.bool]
    simp [members, fits_number h hstart, fits_number h holdest, fits_number h hnext, harray]
  | error message => simp [members, fits_text]

end Fits

/-- What the code relies on in `serde_json` and the code derived for `ToSession`: integers are
in range, a message is written as its attributes say, and what they read is read so. -/
structure SerdeJson.Derives (serde : SerdeJson) : Prop where
  admits : serde.limits.Admits u64Max
  text : ∀ msg, serde.text msg = String.ofList (write msg.toJson)
  reads : ∀ text value msg, Json.read serde.limits text = some value →
    ToSession.ofJson value = some msg → serde.toSession value = .ok msg

/-- The same of the code derived for `FromSession`. -/
structure SerdeJson.DerivesFrom (serde : SerdeJson) (fromSession : Serde FromSession) : Prop where
  text : ∀ msg, fromSession.text msg = String.ofList (write msg.toJson)
  reads : ∀ bytes value msg, (Utf8.decode? bytes).bind (Json.read serde.limits) = some value →
    FromSession.ofJson value = some msg → fromSession.fromSlice bytes = .ok msg

section Lines

variable {serde : SerdeJson} {value : Json}

/-- A line with a value that fits is not empty, has no newline, and is that value. -/
theorem line_of_fits (h : Fits serde.limits serde.limits.depth value) :
    utf8 (String.ofList (write value)) ≠ [] ∧ newline ∉ utf8 (String.ofList (write value)) ∧
      (Utf8.decode? (utf8 (String.ofList (write value)))).bind (Json.read serde.limits) =
        some value := by
  have hread : Json.read serde.limits (write value) = some value := read_write h
  have hbytes : utf8 (String.ofList (write value)) = Utf8.encode (write value) := by
    rw [utf8, String.toList_ofList]
  rw [hbytes]
  refine ⟨fun hnil => ?_, fun hmem => ?_, ?_⟩
  · rw [Utf8.encode_eq_nil.mp hnil] at hread
    cases hread
  · obtain ⟨c, hc, hbyte⟩ := List.mem_flatMap.mp hmem
    have hten : c.toNat = newline.toNat := Utf8.toNat_eq_of_mem_encodeChar (by decide) hbyte
    have hprintable : 0x20 ≤ c.toNat := printable_write h c hc
    rw [hten] at hprintable
    exact absurd hprintable (by decide)
  · rw [Utf8.decode?_encode, Option.bind_some, hread]

/-- What the wrapper gets from a client is what the client has sent. -/
theorem SerdeJson.Derives.faithful (hserde : serde.Derives) {msg : ToSession} (hmsg : msg.Typed) :
    serde.wrapperEnd.Faithful msg := by
  have hfits : Fits serde.limits serde.limits.depth msg.toJson :=
    ToSession.fits_toJson 124 hserde.admits hmsg
  obtain ⟨hne, hline, hvalue⟩ := line_of_fits hfits
  have htext : serde.wrapperEnd.text msg = String.ofList (write msg.toJson) := hserde.text msg
  refine ⟨?_, ?_, ?_⟩
  · rwa [htext]
  · rwa [htext]
  · have hdecoded : serde.toSession msg.toJson = .ok msg :=
      hserde.reads (write msg.toJson) _ msg (read_write hfits) (ToSession.ofJson_toJson hmsg)
    have hslice : serde.fromSlice (utf8 (String.ofList (write msg.toJson))) = .ok msg := by
      unfold SerdeJson.fromSlice
      rw [hvalue]
      exact hdecoded
    have hend : serde.wrapperEnd.fromSlice = serde.fromSlice := rfl
    rw [htext, hend]
    exact hslice

/-- What a client gets from the wrapper is what the wrapper has sent. -/
theorem SerdeJson.DerivesFrom.faithful {fromSession : Serde FromSession}
    (hadmits : serde.limits.Admits u64Max) (hserde : serde.DerivesFrom fromSession)
    {msg : FromSession} (hmsg : msg.Typed) : fromSession.Faithful msg := by
  obtain ⟨hne, hline, hvalue⟩ :=
    @line_of_fits serde _ (FromSession.fits_toJson 124 hadmits hmsg)
  rw [← hserde.text msg] at hne hline hvalue
  exact ⟨hne, hline, hserde.reads _ _ msg hvalue (FromSession.ofJson_toJson hmsg)⟩

end Lines

/-- Whatever is sent over a session's socket, in whatever chunks it arrives and whichever calls
are cancelled, the wrapper and the attach client get exactly the messages that were sent. -/
theorem session_messages_lossless {serde : SerdeJson} {fromSession : Serde FromSession}
    (hserde : serde.Derives) (hfrom : serde.DerivesFrom fromSession) :
    (∀ msgs : List ToSession, (∀ msg ∈ msgs, msg.Typed) →
      Delivers (Client.nextMessage serde.wrapperEnd) (msgs.flatMap serde.wrapperEnd.send)
        (msgs.map .ok)) ∧
    (∀ msgs : List FromSession, (∀ msg ∈ msgs, msg.Typed) →
      Delivers (SessionClient.next fromSession) (msgs.flatMap fromSession.send)
        (msgs.map .ok)) := by
  refine ⟨fun msgs hmsgs => ?_, fun msgs hmsgs => ?_⟩
  · have hlines : Delivers (Client.nextMessage serde.wrapperEnd)
        (msgs.flatMap serde.wrapperEnd.send) _ := delivers_lines rfl (fun _ hline => if_neg hline) _
    rwa [map_linesOf_send (fun msg hmsg => hserde.faithful (hmsgs msg hmsg))
      fun msg hmsg => hmsg.decoded _] at hlines
  · have hlines : Delivers (SessionClient.next fromSession) (msgs.flatMap fromSession.send) _ :=
      delivers_lines rfl (fun _ hline => if_neg hline) _
    rwa [map_linesOf_send (fun msg hmsg => hfrom.faithful hserde.admits (hmsgs msg hmsg))
      fun msg hmsg => hmsg.decoded _] at hlines

/-- A message is read by its tag. -/
theorem ToSession.tag_of_ofJson {value : Json} {msg : ToSession}
    (h : ToSession.ofJson value = some msg) : value.valuesOf "type" = [.string msg.tag.toList] := by
  unfold ofJson at h
  obtain ⟨tag, htag, h⟩ := Option.bind_eq_some_iff.mp h
  rw [valuesOf_of_required htag]
  split at h
  · obtain ⟨i, -, heq⟩ := Option.bind_eq_some_iff.mp h
    obtain rfl := Option.some.inj heq
    rfl
  · obtain ⟨version, -, heq⟩ := Option.bind_eq_some_iff.mp h
    obtain rfl := Option.some.inj heq
    rfl
  · obtain rfl := Option.some.inj h
    rfl
  · obtain rfl := Option.some.inj h
    rfl
  · obtain ⟨data, -, h⟩ := Option.bind_eq_some_iff.mp h
    obtain ⟨delays, -, heq⟩ := Option.bind_eq_some_iff.mp h
    obtain rfl := Option.some.inj heq
    rfl
  · obtain ⟨before, -, h⟩ := Option.bind_eq_some_iff.mp h
    obtain ⟨limit, -, heq⟩ := Option.bind_eq_some_iff.mp h
    obtain rfl := Option.some.inj heq
    rfl
  · obtain ⟨width, -, h⟩ := Option.bind_eq_some_iff.mp h
    obtain ⟨height, -, heq⟩ := Option.bind_eq_some_iff.mp h
    obtain rfl := Option.some.inj heq
    rfl
  · cases h

/-- `serde_json` with the code derived for these messages, but for the texts of errors. -/
def derivedSerde : SerdeJson where
  inRange := fun _ => true
  syntaxError := fun _ => "expected value at line 1 column 1"
  toSession := fun value => (ToSession.ofJson value).elim (.error "invalid message") .ok
  text := fun msg => String.ofList (write msg.toJson)
  tagged := by
    intro members msg h
    cases hread : ToSession.ofJson (.object members) with
    | none =>
      rw [hread] at h
      cases h
    | some read =>
      rw [hread] at h
      obtain rfl := Except.ok.inj h
      exact ToSession.tag_of_ofJson hread

/-- The same for the other direction. -/
def derivedFrom : Serde FromSession where
  text := fun msg => String.ofList (write msg.toJson)
  fromSlice := fun bytes =>
    ((Utf8.decode? bytes).bind fun text =>
      (Json.read derivedSerde.limits text).bind FromSession.ofJson).elim
        (.error "invalid message") .ok

theorem derives_derivedSerde : derivedSerde.Derives where
  admits := ⟨fun _ _ => rfl, fun _ _ => rfl⟩
  text := fun _ => rfl
  reads := fun text value msg _ hread => by
    have hdecoded : derivedSerde.toSession value =
      (ToSession.ofJson value).elim (.error "invalid message") .ok := rfl
    rw [hdecoded, hread]
    rfl

theorem derivesFrom_derivedFrom : derivedSerde.DerivesFrom derivedFrom where
  text := fun _ => rfl
  reads := fun bytes value msg hvalue hread => by
    have hdecoded : derivedFrom.fromSlice bytes =
      ((Utf8.decode? bytes).bind fun text =>
        (Json.read derivedSerde.limits text).bind FromSession.ofJson).elim
          (.error "invalid message") .ok := rfl
    rw [hdecoded, ← Option.bind_assoc, hvalue, Option.bind_some, hread]
    rfl

/-- A resize and its exit. -/
theorem session_messages_lossless_of_resize :
    Delivers (Client.nextMessage derivedSerde.wrapperEnd)
        ([ToSession.view, .resize 80 24].flatMap derivedSerde.wrapperEnd.send)
        [.ok .view, .ok (.resize 80 24)] ∧
      Delivers (SessionClient.next derivedFrom)
        ([FromSession.title "é", .exit (some (-1))].flatMap derivedFrom.send)
        [.ok (.title "é"), .ok (.exit (some (-1)))] := by
  obtain ⟨hto, hfrom⟩ := session_messages_lossless derives_derivedSerde derivesFrom_derivedFrom
  have hview : ToSession.view.Typed := trivial
  have hresize : (ToSession.resize 80 24).Typed := ⟨by decide, by decide⟩
  have htitle : (FromSession.title "é").Typed := trivial
  have hexit : (FromSession.exit (some (-1))).Typed := by simp [FromSession.Typed, i32Size]
  exact ⟨hto [.view, .resize 80 24] (by simp [hview, hresize]),
    hfrom [.title "é", .exit (some (-1))] (by simp [htitle, hexit])⟩

end G2mirror
