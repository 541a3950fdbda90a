import G2mirror.Library.JsonLines
import G2mirror.Library.Machine
import G2mirror.ServerSteps
import G2mirror.TokenPermissions

/-!
# Relayed device messages

The server parses the text of a websocket frame but forwards the text itself, and
the wrapper cuts what arrives at newlines and parses the lines. A text that the
server forwards arrives as one message if its raw newlines stand at its ends, and
as garbage otherwise, after which the wrapper handles nothing more. So a message
that the server would refuse is never handled.
-/

namespace G2mirror

/-- `handle_device_message`: whether the text of a device is for the session. -/
def DeviceTask.forwards (task : DeviceTask) (text : String) : Bool :=
  match task.serde.fromStr text with
  | .error _ => false
  | .ok parsed =>
    match getStr parsed "type" with
    | none => false
    | some type => type ∉ ["list", "connect", "launch", "disconnect"] &&
        !(type = "input" && task.token.readonly)

/-- The bytes that a text is forwarded as. -/
def forwardedBytes (text : String) : Bytes := utf8 text ++ [newline]

/-- What the wrapper decodes a stream to, line by line. -/
def receivedFrom (serde : SerdeJson) (stream : Bytes) : List (Except String ToSession) :=
  (linesOf stream).map (serde.wrapperEnd.decoded "bad message: ")

/-- The messages that the wrapper handles: it drops a client at the first line that is none. -/
def handled : List (Except String ToSession) → List ToSession
  | .ok msg :: rest => msg :: handled rest
  | _ => []

section Lines

/-- The lines of a forwarded text are the encoded lines of the text. -/
theorem linesOf_forwardedBytes (text : String) :
    linesOf (forwardedBytes text) = (Json.lines text.toList).map Utf8.encode := by
  unfold linesOf forwardedBytes utf8 Json.lines
  have hhead : List.modifyHead (([] : Bytes) ++ ·) = id := List.modifyHead_id
  rw [LineReader.pieces_terminated, hhead, id, Utf8.splitOn_encode (by decide) '\n' (by decide),
    List.filter_map]
  congr 2
  funext line
  simp [Utf8.encode_eq_nil]

/-- Whatever comes before a forwarded text, its lines are separate ones. -/
theorem linesOf_append_forwardedBytes (text : String) (rest : Bytes) :
    linesOf (forwardedBytes text ++ rest) = linesOf (forwardedBytes text) ++ linesOf rest := by
  unfold linesOf forwardedBytes
  rw [List.append_assoc, List.singleton_append, LineReader.pieces_sep_append, List.filter_append]

/-- The wrapper gets what its decoder makes of the lines, however they arrive. -/
theorem delivers_receivedFrom (serde : SerdeJson) (stream : Bytes) :
    Delivers (Client.nextMessage serde.wrapperEnd) stream (receivedFrom serde stream) :=
  delivers_lines rfl (fun _ hline => if_neg hline) stream

theorem prefix_linesOf {stream whole : Bytes} (h : stream <+: whole) :
    linesOf stream <+: linesOf whole := by
  obtain ⟨rest, rfl⟩ := h
  exact (LineReader.prefix_pieces [] stream rest).filter _

end Lines

section Handled

/-- What is handled of a stream so far is handled of the whole. -/
theorem mem_handled_of_isPrefix {results whole : List (Except String ToSession)}
    (h : results <+: whole) :
    ∀ msg ∈ handled results, msg ∈ handled whole := by
  obtain ⟨rest, rfl⟩ := h
  intro msg hmsg
  induction results with
  | nil => cases hmsg
  | cons result results ih =>
    cases result with
    | error e => cases hmsg
    | ok first =>
      rw [List.cons_append, handled]
      exact List.mem_cons.mpr ((List.mem_cons.mp hmsg).imp_right ih)

/-- What is handled of two streams is handled of one of them. -/
theorem handled_append {front back : List (Except String ToSession)} {msg : ToSession}
    (h : msg ∈ handled (front ++ back)) : msg ∈ handled front ∨ msg ∈ handled back := by
  induction front with
  | nil => exact .inr h
  | cons result front ih =>
    cases result with
    | error e => cases h
    | ok first =>
      rw [List.cons_append, handled] at h
      rcases List.mem_cons.mp h with rfl | hrest
      · exact .inl List.mem_cons_self
      · exact (ih hrest).imp_left (List.mem_cons_of_mem _)

theorem handled_error {results : List (Except String ToSession)}
    (h : ∀ result ∈ results, ∃ e, result = .error e) : handled results = [] := by
  cases results with
  | nil => rfl
  | cons result results =>
    obtain ⟨e, rfl⟩ := h result List.mem_cons_self
    rfl

end Handled

section Texts

variable {serde : SerdeJson} {text : String} {value : Json}

/-- A line of text that is a value decodes as this value does. -/
theorem decoded_encode {line : List Char} (h : Json.read serde.limits line = some value) :
    (serde.wrapperEnd.decoded "bad message: " (Utf8.encode line)).toOption =
      (serde.toSession value).toOption := by
  unfold Serde.decoded SerdeJson.wrapperEnd SerdeJson.fromSlice
  dsimp only
  rw [Utf8.decode?_encode, Option.bind_some, h]
  dsimp only
  cases serde.toSession value <;> rfl

/-- A line of text that is no value is garbage. -/
theorem decoded_encode_none {line : List Char} (h : Json.read serde.limits line = none) :
    ∃ e, serde.wrapperEnd.decoded "bad message: " (Utf8.encode line) = .error e := by
  unfold Serde.decoded SerdeJson.wrapperEnd SerdeJson.fromSlice
  dsimp only
  rw [Utf8.decode?_encode, Option.bind_some, h]
  exact ⟨_, rfl⟩

theorem read_of_fromStr (h : serde.fromStr text = .ok value) :
    Json.read serde.limits text.toList = some value := by
  unfold SerdeJson.fromStr at h
  split at h
  · rename_i value' hread
    rwa [← Except.ok.inj h]
  · cases h

theorem receivedFrom_text (text : String) :
    receivedFrom serde (forwardedBytes text) =
      (Json.lines text.toList).map fun line =>
        serde.wrapperEnd.decoded "bad message: " (Utf8.encode line) := by
  unfold receivedFrom
  rw [linesOf_forwardedBytes, List.map_map]
  rfl

/-- Of a text that is a value, the wrapper handles at most the message that the value is. -/
theorem handled_text (h : serde.fromStr text = .ok value) {msg : ToSession}
    (hmsg : msg ∈ handled (receivedFrom serde (forwardedBytes text))) :
    serde.toSession value = .ok msg := by
  obtain ⟨line, rest, hlines, hcases⟩ := Json.read_lines (read_of_fromStr h)
  rw [receivedFrom_text, hlines, List.map_cons] at hmsg
  rcases hcases with hnone | ⟨hread, hrest⟩
  · obtain ⟨e, he⟩ := decoded_encode_none hnone
    rw [he] at hmsg
    cases hmsg
  · have hgarbage : handled (rest.map fun line =>
        serde.wrapperEnd.decoded "bad message: " (Utf8.encode line)) = [] := by
      apply handled_error
      intro result hresult
      obtain ⟨other, hother, rfl⟩ := List.mem_map.mp hresult
      exact decoded_encode_none (hrest other hother)
    have hdecoded := decoded_encode hread
    cases hfirst : serde.wrapperEnd.decoded "bad message: " (Utf8.encode line) with
    | error e =>
      rw [hfirst] at hmsg
      cases hmsg
    | ok first =>
      rw [hfirst, handled, hgarbage] at hmsg
      obtain rfl := List.mem_singleton.mp hmsg
      rw [hfirst] at hdecoded
      cases hvalue : serde.toSession value with
      | error e =>
        rw [hvalue] at hdecoded
        cases hdecoded
      | ok msg' =>
        rw [hvalue] at hdecoded
        rw [Option.some.inj hdecoded]

/-- The type of a decoded message is the one that the server looks at. -/
theorem getStr_type {msg : ToSession} {type : String} (hdecoded : serde.toSession value = .ok msg)
    (htype : getStr value "type" = some type) : type = msg.tag := by
  unfold getStr at htype
  cases value with
  | object members =>
    have htagged := serde.tagged members msg hdecoded
    have hlast : Json.get? "type".toList (.object members) = some (.string msg.tag.toList) := by
      unfold Json.get?
      dsimp only
      rw [← List.head?_filter, List.filter_reverse, ← List.head?_map, List.map_reverse, htagged]
      rfl
    rw [hlast] at htype
    obtain rfl := Option.some.inj htype
    exact String.ofList_toList
  | _ => cases htype

end Texts

namespace Gateway

variable {task : DeviceTask} {g g' : Gateway}

/-- The connections that the server has made to sessions. -/
def conns (g : Gateway) : List Conn := g.session.toList ++ g.opening.toList ++ g.dropped

/-- What went to a session are texts that were for it, each on lines of its own. -/
def Forwarded (task : DeviceTask) (bytes : Bytes) : Prop :=
  ∃ texts : List String, (∀ text ∈ texts, task.forwards text = true) ∧
    bytes = texts.flatMap forwardedBytes

theorem Forwarded.snoc {bytes : Bytes} {text : String} (h : Forwarded task bytes)
    (htext : task.forwards text = true) : Forwarded task (bytes ++ forwardedBytes text) := by
  obtain ⟨texts, htexts, rfl⟩ := h
  refine ⟨texts ++ [text], ?_, by simp⟩
  intro other hother
  rcases List.mem_append.mp hother with hold | hnew
  · exact htexts other hold
  · obtain rfl := List.mem_singleton.mp hnew
    exact htext

/-- Dropping the connection to the session keeps it among the connections. -/
theorem mem_conns_drop {conn : Conn} (h : conn ∈ (g.setSession none).conns) : conn ∈ g.conns := by
  unfold conns setSession at h
  unfold conns
  simp only [Option.toList_none, List.nil_append, List.mem_append] at h ⊢
  tauto

/-- A new connection has nothing forwarded to it. -/
theorem conns_onConnect (g : Gateway) (task : DeviceTask) (socket : Option String) :
    ∀ conn ∈ (g.onConnect task socket).conns, conn ∈ g.conns ∨ conn.forwarded = [] := by
  intro conn hconn
  unfold onConnect at hconn
  split at hconn
  · exact .inl hconn
  · split_ifs at hconn
    · exact .inl hconn
    · exact .inl hconn
    · unfold conns at hconn ⊢
      simp only [Option.toList_some, List.mem_append, List.mem_singleton] at hconn ⊢
      rcases hconn with (hsession | rfl) | hdropped
      · exact .inl (.inl (.inl hsession))
      · exact .inr rfl
      · exact .inl (.inr hdropped)

/-- The text of a device is forwarded as it is, or no connection but a new one changes. -/
theorem handleDeviceMessage_cases (g : Gateway) (task : DeviceTask) (text : String)
    (world : Surroundings) :
    (task.forwards text = true ∧ g.handleDeviceMessage task text world = g.forward text) ∨
      task.forwards text = false ∧ ∀ conn ∈ (g.handleDeviceMessage task text world).conns,
        conn ∈ g.conns ∨ conn.forwarded = [] := by
  have hkept : ∀ conn ∈ g.conns, conn ∈ g.conns ∨ conn.forwarded = [] := fun _ => .inl
  unfold DeviceTask.forwards handleDeviceMessage
  cases task.serde.fromStr text with
  | error e => exact .inr ⟨rfl, hkept⟩
  | ok parsed =>
    dsimp only
    cases getStr parsed "type" with
    | none => exact .inr ⟨rfl, hkept⟩
    | some type =>
      dsimp only
      split
      · rename_i heq
        cases heq
      · rename_i heq
        obtain rfl := Option.some.inj heq
        exact .inr ⟨rfl, hkept⟩
      · rename_i heq
        obtain rfl := Option.some.inj heq
        exact .inr ⟨rfl, conns_onConnect g task _⟩
      · rename_i heq
        obtain rfl := Option.some.inj heq
        refine .inr ⟨rfl, ?_⟩
        split
        · exact hkept
        · exact hkept
      · rename_i heq
        obtain rfl := Option.some.inj heq
        exact .inr ⟨rfl, fun conn hconn => .inl (mem_conns_drop hconn)⟩
      · rename_i type' hlist hconnect hlaunch hdisconnect heq
        obtain rfl := Option.some.inj heq
        by_cases hrefused : (type = "input" && task.token.readonly) = true
        · rw [if_pos hrefused, hrefused]
          exact .inr ⟨Bool.and_false _, hkept⟩
        · rw [if_neg hrefused]
          have hother : type ∉ ["list", "connect", "launch", "disconnect"] := by
            simp only [List.mem_cons, List.not_mem_nil, or_false, not_or]
            exact ⟨hlist, hconnect, hlaunch, hdisconnect⟩
          refine .inl ⟨?_, rfl⟩
          rw [decide_eq_true hother, Bool.eq_false_iff.mpr hrefused]
          rfl

theorem conns_opened {conn : Conn} (hopening : g.opening = some conn)
    (result : Except String Unit) : ∀ other ∈ (g.opened conn result).conns, other ∈ g.conns := by
  intro other hother
  unfold opened conns at hother
  unfold conns
  rw [hopening]
  cases result with
  | ok _ =>
    simp only [setSession, Option.toList_some, Option.toList_none, List.append_nil,
      List.mem_append, List.mem_singleton] at hother ⊢
    tauto
  | error e =>
    simp only [send, Option.toList_none, List.append_nil, List.mem_append] at hother ⊢
    tauto

theorem conns_onEvent (rules : List CompiledRule) (g : Gateway) (event : ServerToDevice) :
    ∀ conn ∈ (g.onEvent rules event).conns, conn ∈ g.conns := by
  intro conn hconn
  unfold onEvent at hconn
  split at hconn
  · exact hconn
  · split_ifs at hconn
    · exact hconn
    · exact mem_conns_drop hconn
    · exact hconn

/-- A step forwards one text to the session, or no connection but a new one changes. -/
theorem conns_step {a : Action} (h : Gateway.step task g a = some g') :
    (∃ text, task.forwards text = true ∧ g' = g.forward text) ∨
      ∀ conn ∈ g'.conns, conn ∈ g.conns ∨ conn.forwarded = [] := by
  cases takes_of_step h with
  | message hconnected text world =>
    rcases handleDeviceMessage_cases g task text world with ⟨hforwards, heq⟩ | ⟨-, hconns⟩
    · exact .inl ⟨text, hforwards, heq⟩
    · exact .inr hconns
  | opened hopening result =>
    exact .inr fun conn hconn => .inl (conns_opened hopening result conn hconn)
  | sessionEnd => exact .inr fun conn hconn => .inl (mem_conns_drop hconn)
  | event hconnected hopening hevents =>
    rename_i event events
    exact .inr fun conn hconn =>
      .inl (conns_onEvent task.rules { g with events := events } event conn hconn)
  | record hidle hread =>
    refine .inr fun conn hconn => .inl ?_
    unfold monitorLine at hconn
    rw [hread] at hconn
    exact hconn
  | scan _ | ignore _ _ | queue _ | monitorEnd _ | subscribe | sessionLine _ | lag | ping =>
    exact .inr fun _ => .inl

theorem Forwarded.step {a : Action} (hforwarded : ∀ conn ∈ g.conns, Forwarded task conn.forwarded)
    (h : Gateway.step task g a = some g') : ∀ conn ∈ g'.conns, Forwarded task conn.forwarded := by
  intro conn hconn
  rcases conns_step h with ⟨text, hforwards, rfl⟩ | hconns
  · unfold forward at hconn
    cases hsession : g.session with
    | none =>
      rw [hsession] at hconn
      exact hforwarded conn hconn
    | some old =>
      have hold := hforwarded old (by simp [conns, hsession])
      rw [hsession] at hconn
      rcases List.mem_cons.mp hconn with rfl | hrest
      · exact hold.snoc hforwards
      · refine hforwarded conn ?_
        unfold conns
        rw [List.append_assoc]
        exact List.mem_append_right _ hrest
  · rcases hconns conn hconn with hold | hnew
    · exact hforwarded conn hold
    · exact ⟨[], fun _ htext => absurd htext List.not_mem_nil, hnew⟩

/-- In every run the sessions get texts that are for them, one after the other. -/
theorem forwarded_of_run {actions : List Action}
    (hrun : Machine.run (Gateway.step task) start actions = some g) :
    ∀ conn ∈ g.conns, Forwarded task conn.forwarded :=
  Machine.run_invariant (I := fun g => ∀ conn ∈ g.conns, Forwarded task conn.forwarded)
    (fun _ _ _ hforwarded h => Forwarded.step hforwarded h)
    (fun _ hconn => absurd hconn List.not_mem_nil) hrun

end Gateway

/-- What is handled of several texts is handled of one of them. -/
theorem handled_texts {serde : SerdeJson} {texts : List String} {msg : ToSession}
    (h : msg ∈ handled (receivedFrom serde (texts.flatMap forwardedBytes))) :
    ∃ text ∈ texts, msg ∈ handled (receivedFrom serde (forwardedBytes text)) := by
  induction texts with
  | nil => cases h
  | cons text texts ih =>
    unfold receivedFrom at h ih
    rw [List.flatMap_cons, linesOf_append_forwardedBytes, List.map_append] at h
    rcases handled_append h with hfirst | hrest
    · exact ⟨text, List.mem_cons_self, hfirst⟩
    · obtain ⟨other, hother, hmsg⟩ := ih hrest
      exact ⟨other, List.mem_cons_of_mem _ hother, hmsg⟩

/-- A text that is for the session is a value with a type, and no input of a read-only token. -/
theorem forwards_eq_true {task : DeviceTask} {text : String} (h : task.forwards text = true) :
    ∃ value type, task.serde.fromStr text = .ok value ∧ getStr value "type" = some type ∧
      (task.token.readonly = true → type ≠ "input") := by
  unfold DeviceTask.forwards at h
  split at h
  · cases h
  · rename_i value hvalue
    split at h
    · cases h
    · rename_i type htype
      refine ⟨value, type, hvalue, htype, ?_⟩
      rintro hreadonly rfl
      rw [hreadonly] at h
      cases h

/-- Whatever a device with a read-only token sends, however it arrives at a session and
whenever the connection breaks off, the wrapper handles no input of it. -/
theorem readonly_token_never_types {task : DeviceTask} (hreadonly : task.token.readonly = true)
    {actions : List Gateway.Action} {g : Gateway}
    (hrun : Machine.run (Gateway.step task) Gateway.start actions = some g) {conn : Conn}
    (hconn : conn ∈ g.conns) {chunks : List (LineReader.Chunk UInt8)}
    (hchunks : chunks.flatMap Subtype.val <+: conn.forwarded) (calls : List ℕ) (data : String)
    (delays : List InputDelay) :
    .input data delays ∉
      handled (LineReader.receive (Client.nextMessage task.serde.wrapperEnd) calls
        ⟨[], chunks⟩).1 := by
  intro hinput
  obtain ⟨texts, htexts, hbytes⟩ := Gateway.forwarded_of_run hrun conn hconn
  have hdelivers := delivers_receivedFrom task.serde (chunks.flatMap Subtype.val) chunks calls rfl
  have hwhole : receivedFrom task.serde (chunks.flatMap Subtype.val) <+:
      receivedFrom task.serde (texts.flatMap forwardedBytes) :=
    (prefix_linesOf (hbytes ▸ hchunks)).map _
  have hmsg := mem_handled_of_isPrefix (hdelivers.1.trans hwhole) _ hinput
  obtain ⟨text, htext, hhandled⟩ := handled_texts hmsg
  obtain ⟨value, type, hvalue, htype, hallowed⟩ := forwards_eq_true (htexts text htext)
  exact hallowed hreadonly (getStr_type (handled_text hvalue hhandled) htype)

/-- The task of a device with a read-only token. -/
def glassesTask : DeviceTask where
  serde := sampleSerde
  crates := sampleCrates
  config := ⟨[{ workToken "glasses" with filter := [] }], [], [], none, none⟩
  token := { workToken "glasses" with filter := [] }
  rules := []
  init := ⟨"init", 1, "glasses-token", "glasses", 80, 24⟩

/-- A view goes through to the session, an input is refused. -/
theorem readonly_token_never_types_after_view :
    let view := "\x7b\"type\":\"view\"\x7d"
    ∃ g ∈ Machine.run (Gateway.step glassesTask) Gateway.start
        [.subscribe, .message "\x7b\"type\":\"connect\",\"socket\":\"1-w\"\x7d" noWorld,
          .opened (.ok ()), .message view noWorld,
          .message "\x7b\"type\":\"input\",\"data\":\"aGk=\"\x7d" noWorld],
      g.out = [.message (.error "server is read-only")] ∧
        .input "aGk=" [] ∉ handled (LineReader.receive (Client.nextMessage sampleSerde.wrapperEnd)
          [1] ⟨[], [⟨forwardedBytes view, by decide⟩]⟩).1 := by
  intro view
  obtain ⟨g, hrun, hout, conn, hsession, hforwarded⟩ :
      ∃ g ∈ Machine.run (Gateway.step glassesTask) Gateway.start
        [.subscribe, .message "\x7b\"type\":\"connect\",\"socket\":\"1-w\"\x7d" noWorld,
          .opened (.ok ()), .message view noWorld,
          .message "\x7b\"type\":\"input\",\"data\":\"aGk=\"\x7d" noWorld],
        g.out = [.message (.error "server is read-only")] ∧
          ∃ conn ∈ g.session, conn.forwarded = forwardedBytes view := by
    decide +kernel
  have hconn : conn ∈ g.conns := by simp [Gateway.conns, Option.mem_def.mp hsession]
  refine ⟨g, hrun, hout, readonly_token_never_types rfl hrun hconn ?_ [1] "aGk=" []⟩
  rw [hforwarded]
  simp

/-- A text that is a value decodes to what the value does. -/
theorem fromSlice_text {serde : SerdeJson} {text : String} {value : Json}
    (h : serde.fromStr text = .ok value) : serde.fromSlice (utf8 text) = serde.toSession value := by
  unfold SerdeJson.fromSlice utf8
  rw [Utf8.decode?_encode, Option.bind_some, read_of_fromStr h]

/-- When a forwarded text arrives intact. For every text that the server forwards to the
attached session, the wrapper gets one result from its bytes, and this is what the
text decodes to, exactly if the raw newlines of the text stand at its ends. -/
theorem forwarded_text_intact_iff {task : DeviceTask} {text : String}
    (hforwards : task.forwards text = true) {g : Gateway} {conn : Conn}
    (hsession : g.session = some conn) (world : Surroundings) :
    (g.handleDeviceMessage task text world).session =
        some { conn with forwarded := conn.forwarded ++ forwardedBytes text } ∧
      Delivers (Client.nextMessage task.serde.wrapperEnd) (forwardedBytes text)
        (receivedFrom task.serde (forwardedBytes text)) ∧
      ((∃ result, receivedFrom task.serde (forwardedBytes text) = [result] ∧
          result.toOption = (task.serde.fromSlice (utf8 text)).toOption) ↔
        Json.OneLine text.toList) := by
  obtain ⟨value, type, hvalue, -, -⟩ := forwards_eq_true hforwards
  have hread := read_of_fromStr hvalue
  refine ⟨?_, delivers_receivedFrom _ _, ?_⟩
  · rcases Gateway.handleDeviceMessage_cases g task text world with ⟨-, heq⟩ | ⟨hnot, -⟩
    · rw [heq, Gateway.forward, hsession]
      rfl
    · exact absurd (hforwards.symm.trans hnot) Bool.noConfusion
  · rw [receivedFrom_text, ← Json.lines_eq_singleton_iff hread]
    constructor
    · rintro ⟨result, hresult, -⟩
      obtain ⟨line, hlines, -⟩ := List.map_eq_singleton_iff.mp hresult
      exact ⟨line, hlines⟩
    · rintro ⟨line, hlines⟩
      rw [hlines]
      refine ⟨_, rfl, ?_⟩
      rw [decoded_encode (Json.read_oneLine hread hlines), fromSlice_text hvalue]

/-- A view with a newline after its first brace is cut into two lines, and none of them
is a message. -/
theorem view_cut_at_newline :
    let text := "\x7b\n\"type\":\"view\"\x7d"
    glassesTask.forwards text = true ∧
      (sampleSerde.fromSlice (utf8 text)).toOption = some .view ∧
      (receivedFrom sampleSerde (forwardedBytes text)).map Except.toOption = [none, none] := by
  decide +kernel

/-- A view with a newline at its end arrives. -/
theorem forwarded_text_intact_with_last_newline :
    let text := "\x7b\"type\":\"view\"\x7d\n"
    ∃ result, receivedFrom sampleSerde (forwardedBytes text) = [result] ∧
      result.toOption = (sampleSerde.fromSlice (utf8 text)).toOption := by
  intro text
  have hforwards : glassesTask.forwards text = true := by decide +kernel
  let g : Gateway := { Gateway.start with session := some (glassesTask.open "1-w") }
  have hoff : Json.OneLine text.toList :=
    ⟨0, "\x7b\"type\":\"view\"\x7d".toList, 1, by decide +kernel, by decide +kernel⟩
  exact (forwarded_text_intact_iff hforwards (g := g) rfl noWorld).2.2.mpr hoff

end G2mirror
