import G2mirror.Library.Machine
import G2mirror.ServerSteps
import G2mirror.ViewClient
import G2mirror.Visibility

/-!
# A viewing client and its server

The client and the server's task for it, with the messages between them. Each
side handles what the other one has sent in order. The server answers a message
while it handles it; besides, it relays the lines of the session and passes on
events.
-/

namespace G2mirror

variable {vt : Vt100}

/-- The `type` of a message. -/
def ViewMessage.tag : ViewMessage → String
  | .list => "list"
  | .connect _ => "connect"
  | .view => "view"
  | .history _ => "history"
  | .input _ => "input"
  | .unview => "unview"
  | .disconnect => "disconnect"

/-- A message that the server passes on to the session. -/
def ViewMessage.isForSession : ViewMessage → Bool
  | .view => true
  | .history _ => true
  | .input _ => true
  | .unview => true
  | _ => false

/-- The message in a text, as far as the server itself reads it. -/
def ViewMessage.isReadAs (msg : ViewMessage) (serde : SerdeJson) (text : String) : Bool :=
  match serde.fromStr text with
  | .error _ => false
  | .ok value =>
    getStr value "type" = some msg.tag &&
      match msg with
      | .connect socket => getStr value "socket" = some socket
      | _ => true

/-- What the client reads in a message of the server. -/
def ServerToDevice.read : ServerToDevice → FromServer
  | .sessions infos => .sessions infos
  | .launched _ => .other
  | .detached _ _ => .other
  | .disconnected reason => .disconnected (some reason)
  | .bell socket lastBellAt => .bell (some socket) (some lastBellAt)
  | .activity _ _ => .other
  | .title socket text => .listTitle (some socket) (some text)
  | .error message => .error (some message)

/-- What the client reads in something that it was sent. -/
def Sent.read (crates : ViewCrates) : Sent → FromServer
  | .line text =>
    match crates.serde.fromStr text with
    | .error _ => .other
    | .ok msg => readServer crates msg
  | .message msg => msg.read
  | .ping => .other

/-- A relayed line is handled as `on_ws_text` handles its text. -/
theorem ViewApp.onText_eq (app : ViewApp vt) (crates : ViewCrates) (line : String) :
    app.onText crates line = app.onMessage crates.base64 ((Sent.line line).read crates) := by
  unfold ViewApp.onText Sent.read
  dsimp only
  cases crates.serde.fromStr line with
  | error e => rfl
  | ok msg => rfl

/-- A session's greeting. -/
def FromServer.isGreeting : FromServer → Bool
  | .connect .. => true
  | _ => false

/-- What makes a client that is connecting give up. -/
def FromServer.isRefusal : FromServer → Bool
  | .disconnected _ => true
  | .error _ => true
  | _ => false

/-- The reply to a `disconnect`. -/
def requested : Sent := .message (.disconnected "requested")

/-- A client and its server. -/
structure Link (vt : Vt100) where
  app : ViewApp vt
  gateway : Gateway
  /-- How many of the client's messages the server has handled. -/
  handled : ℕ
  /-- How many of the server's messages the client has read. -/
  read : ℕ
  /-- The session that is connected has sent its greeting. -/
  greeted : Bool

namespace Link

/-- A step of the client or of the server. -/
inductive Action
  /-- Keys, a resize or the refresh of the list. -/
  | client (e : ViewApp.Event)
  /-- The client reads the next message. -/
  | read
  /-- The server handles the client's next message, which reaches it as this text. -/
  | serve (text : String) (world : Surroundings)
  /-- Any other step of the server's tasks. -/
  | server (a : Gateway.Action)

/-- A client after its handshake. -/
def start (vt : Vt100) (rows cols : ℕ) (tokenReadonly : Bool) : Link vt :=
  ⟨.start vt rows cols tokenReadonly, .start, 0, 0, false⟩

/-- What the client has been sent and has not read, oldest first. -/
def unread (s : Link vt) : List Sent := s.gateway.out.reverse.drop s.read

/-- How many replies to its disconnects the client has read. -/
def answered (s : Link vt) : ℕ := (s.gateway.out.reverse.take s.read).count requested

/-- A session's connection begins with its greeting, which it sends once, and a session
sends no message of the server's own. -/
def saidBySession (crates : ViewCrates) (greeted : Bool) (line : String) : Bool :=
  let msg := (Sent.line line).read crates
  (msg.isGreeting = !greeted) &&
    match msg with
    | .disconnected _ => false
    | .sessions _ => false
    | _ => true

/-- Whether the connected session has sent its greeting, after a step of the server. -/
def greetedAfter (greeted : Bool) : Gateway.Action → Bool
  | .opened _ => false
  | .sessionLine _ => true
  | _ => greeted

/-- What an action comes to, if it is possible. -/
def step (task : DeviceTask) (crates : ViewCrates) (s : Link vt) : Action → Option (Link vt)
  | .client (.text _) => none
  | .client e => (s.app.step crates e).map fun app => { s with app := app }
  | .read =>
    match s.unread with
    | [] => none
    | item :: _ =>
      some { s with app := s.app.onMessage crates.base64 (item.read crates), read := s.read + 1 }
  | .serve text world =>
    match s.app.sent[s.handled]? with
    | none => none
    | some msg =>
      if msg.isReadAs task.serde text then
        (Gateway.step task s.gateway (.message text world)).map fun gateway =>
          { s with gateway := gateway, handled := s.handled + 1 }
      else none
  | .server (.message _ _) => none
  | .server (.sessionLine line) =>
    if saidBySession crates s.greeted line then
      (Gateway.step task s.gateway (.sessionLine line)).map fun gateway =>
        { s with gateway := gateway, greeted := true }
    else none
  | .server a =>
    (Gateway.step task s.gateway a).map fun gateway =>
      { s with gateway := gateway, greeted := greetedAfter s.greeted a }

end Link

namespace Gateway

variable {task : DeviceTask} {g g' : Gateway}

/-- Every event that a monitor records or queues is about a terminal. -/
structure Told (g : Gateway) : Prop where
  events : ∀ event ∈ g.events, event.socket?.isSome
  recorded : ∀ name event, g.recorded name = some event → event.socket?.isSome

/-- Neither the waiting nor the recorded events change. -/
theorem Told.same (h : g.Told) (hevents : g'.events = g.events)
    (hrecorded : g'.recorded = g.recorded) : g'.Told :=
  ⟨hevents ▸ h.events, hrecorded ▸ h.recorded⟩

/-- What the client is sent that neither greets it nor refuses anything. -/
def IsCalm (item : Sent) : Prop :=
  match item with
  | .message (.disconnected _) => False
  | .message (.error _) => False
  | .line _ => False
  | _ => True

/-- What a step of the server's tasks does to its session and to what it sends. -/
inductive Stirs (g g' : Gateway) (a : Action) : Prop
  | calm {new : List Sent} (ha : ∀ line, a ≠ .sessionLine line) (hnew : ∀ item ∈ new, IsCalm item)
      (hsession : g'.session.isSome = g.session.isSome) (hopening : g'.opening = g.opening)
      (hout : g'.out = new ++ g.out)
  | line {line : String} (ha : a = .sessionLine line) (hopen : g.session.isSome)
      (hopening : g.opening = none) (hsession : g'.session = g.session)
      (hopening' : g'.opening = none) (hout : g'.out = .line line :: g.out)
  | lost {reason : String} (hreason : reason ≠ "requested") (hopen : g.session.isSome)
      (hopening : g.opening = none) (hsession : g'.session = none) (hopening' : g'.opening = none)
      (hout : g'.out = .message (.disconnected reason) :: g.out)
  | opened {result : Except String Unit} (ha : a = .opened result) (hopening : g.opening.isSome)
      (hsession : g'.session.isSome) (hopening' : g'.opening = none) (hout : g'.out = g.out)
  | failed {error : String} (hopening : g.opening.isSome) (hsession : g'.session = g.session)
      (hopening' : g'.opening = none) (hout : g'.out = .message (.error error) :: g.out)

/-- A step that sends nothing and leaves the connections alone. -/
theorem Stirs.still {a : Action} (ha : ∀ line, a ≠ .sessionLine line)
    (hsession : g'.session = g.session) (hopening : g'.opening = g.opening)
    (hout : g'.out = g.out) : Stirs g g' a :=
  .calm ha (List.forall_mem_nil IsCalm) (by rw [hsession]) hopening hout

theorem isCalm_of_socket {event : ServerToDevice} (h : event.socket?.isSome) :
    IsCalm (.message event) := by
  cases event with
  | disconnected reason => cases h
  | error message => cases h
  | _ => trivial

theorem onEvent_stirs (rules : List CompiledRule) {event : ServerToDevice}
    (hopening : g.opening = none) (hevent : event.socket?.isSome) {a : Action}
    (ha : ∀ line, a ≠ .sessionLine line) :
    Stirs g (g.onEvent rules event) a ∧ (g.onEvent rules event).events = g.events ∧
      (g.onEvent rules event).recorded = g.recorded := by
  obtain ⟨socket, hsocket⟩ := Option.isSome_iff_exists.mp hevent
  unfold onEvent
  rw [hsocket]
  dsimp only
  split_ifs with hallowed hsession
  · refine ⟨?_, rfl, rfl⟩
    have hcalm : ∀ item ∈ [Sent.message event], IsCalm item := by
      simpa using isCalm_of_socket hevent
    exact .calm ha hcalm rfl rfl rfl
  · refine ⟨.lost (by decide) ?_ hopening rfl hopening rfl, rfl, rfl⟩
    cases hnone : g.session with
    | none =>
      rw [hnone] at hsession
      cases hsession
    | some conn => rfl
  · exact ⟨.still ha rfl rfl rfl, rfl, rfl⟩

/-- A step is judged by the connections and by what was sent before it. -/
theorem Stirs.of_same {m : Gateway} {a : Action} (h : Stirs m g' a)
    (hsession : m.session = g.session) (hopening : m.opening = g.opening)
    (hout : m.out = g.out) : Stirs g g' a := by
  cases h with
  | calm ha hnew hsession' hopening' hout' =>
    exact .calm ha hnew (hsession ▸ hsession') (hopening ▸ hopening') (hout ▸ hout')
  | line ha hopen hidle hsession' hnone hout' =>
    exact .line ha (hsession ▸ hopen) (hopening ▸ hidle) (hsession ▸ hsession') hnone
      (hout ▸ hout')
  | lost hreason hopen hidle hsession' hnone hout' =>
    exact .lost hreason (hsession ▸ hopen) (hopening ▸ hidle) hsession' hnone (hout ▸ hout')
  | opened ha hwaits hsession' hnone hout' =>
    exact .opened ha (hopening ▸ hwaits) hsession' hnone (hout ▸ hout')
  | failed hwaits hsession' hnone hout' =>
    exact .failed (hopening ▸ hwaits) (hsession ▸ hsession') hnone (hout ▸ hout')

/-- A monitor reads a line of its session. -/
theorem monitorLine_stirs {name line : String} (htold : g.Told)
    (h : Gateway.step task g (.monitorLine name line) = some g') :
    Stirs g g' (.monitorLine name line) ∧ g'.Told := by
  cases takes_of_step h with
  | ignore => exact ⟨.still nofun rfl rfl rfl, htold⟩
  | record hidle hread =>
    obtain ⟨msg, hmsg⟩ := readLine_eq_some hread
    rw [monitorLine_of_readLine hread]
    refine ⟨.still nofun rfl rfl rfl, htold.events, fun other event hevent => ?_⟩
    dsimp only at hevent
    by_cases hname : other = name
    · rw [hname, Function.update_self] at hevent
      rcases readMonitored_cases hmsg with rfl | ⟨title, rfl, -⟩ | ⟨event', rfl, hsocket, -⟩
      · cases hevent
      · obtain rfl := Option.some.inj hevent
        rfl
      · obtain rfl := Option.some.inj hevent
        rw [hsocket]
        rfl
    · rw [Function.update_of_ne hname] at hevent
      exact htold.recorded other event hevent

/-- A recorded event is queued, behind at most as many others as the channel holds. -/
theorem queue_stirs {name : String} (htold : g.Told)
    (h : Gateway.step task g (.queue name) = some g') :
    Stirs g g' (.queue name) ∧ g'.Told := by
  obtain ⟨event, hrecorded, rfl⟩ := Option.map_eq_some_iff.mp h
  refine ⟨.still nofun rfl rfl rfl, fun waiting hwaiting => ?_, fun other recorded hother => ?_⟩
  · unfold queue at hwaiting
    dsimp only at hwaiting
    split_ifs at hwaiting
    · have hmem := (CappedQueue.rtake_suffix _ _).subset hwaiting
      rcases List.mem_append.mp hmem with hold | hnew
      · exact htold.events waiting hold
      · obtain rfl := List.mem_singleton.mp hnew
        exact htold.recorded name waiting hrecorded
    · exact htold.events waiting hwaiting
  · unfold queue at hother
    dsimp only at hother
    by_cases hname : other = name
    · rw [hname, Function.update_self] at hother
      cases hother
    · rw [Function.update_of_ne hname] at hother
      exact htold.recorded other recorded hother

/-- An attempt to connect comes to its end. -/
theorem opened_stirs {result : Except String Unit} (htold : g.Told)
    (h : Gateway.step task g (.opened result) = some g') :
    Stirs g g' (.opened result) ∧ g'.Told := by
  obtain ⟨conn, hopening, rfl⟩ := Option.map_eq_some_iff.mp h
  have hsome : g.opening.isSome := by rw [hopening]; rfl
  cases result with
  | ok _ => exact ⟨.opened rfl hsome rfl rfl rfl, htold.same rfl rfl⟩
  | error e => exact ⟨.failed hsome rfl rfl rfl, htold.same rfl rfl⟩

/-- The device's task takes an event from the channel. -/
theorem event_stirs (htold : g.Told) (h : Gateway.step task g .event = some g') :
    Stirs g g' .event ∧ g'.Told := by
  cases takes_of_step h with
  | lag => exact ⟨.still nofun rfl rfl rfl, htold.same rfl rfl⟩
  | event hconnected hopening hevents =>
    rename_i event events
    have hmem : ∀ e ∈ event :: events, e.socket?.isSome := hevents ▸ htold.events
    obtain ⟨hstirs, hsame, hrecorded⟩ :=
      onEvent_stirs (g := { g with events := events }) task.rules hopening
        (hmem event List.mem_cons_self) (a := .event) nofun
    refine ⟨hstirs.of_same rfl rfl rfl, ?_, ?_⟩
    · rw [hsame]
      exact fun e he => hmem e (List.mem_cons_of_mem _ he)
    · rw [hrecorded]
      exact htold.recorded

/-- What each step of the server's tasks does, besides handling a message. -/
theorem stirs_of_step {a : Action} (htold : g.Told)
    (hmessage : ∀ text world, a ≠ .message text world)
    (h : Gateway.step task g a = some g') : Stirs g g' a ∧ g'.Told := by
  cases a with
  | message text world => exact absurd rfl (hmessage text world)
  | scan live =>
    obtain rfl := Option.some.inj h
    exact ⟨.still nofun rfl rfl rfl, htold.same rfl rfl⟩
  | monitorLine name line => exact monitorLine_stirs htold h
  | queue name => exact queue_stirs htold h
  | monitorEnd name =>
    obtain ⟨-, heq⟩ := Option.ite_none_right_eq_some.mp h
    obtain rfl := Option.some.inj heq
    exact ⟨.still nofun rfl rfl rfl, htold.same rfl rfl⟩
  | subscribe =>
    obtain ⟨-, heq⟩ := Option.ite_none_left_eq_some.mp h
    obtain rfl := Option.some.inj heq
    exact ⟨.still nofun rfl rfl rfl, htold.same rfl rfl⟩
  | opened result => exact opened_stirs htold h
  | sessionLine line =>
    obtain ⟨hidle, heq⟩ := Option.ite_none_right_eq_some.mp h
    obtain rfl := Option.some.inj heq
    rw [Bool.and_eq_true] at hidle
    have hopening := (connected_of_idle hidle.1).2
    exact ⟨.line rfl hidle.2 hopening rfl hopening rfl, htold.same rfl rfl⟩
  | sessionEnd =>
    obtain ⟨hidle, heq⟩ := Option.ite_none_right_eq_some.mp h
    obtain rfl := Option.some.inj heq
    rw [Bool.and_eq_true] at hidle
    have hopening := (connected_of_idle hidle.1).2
    exact ⟨.lost (by decide) hidle.2 hopening rfl hopening rfl, htold.same rfl rfl⟩
  | event => exact event_stirs htold h
  | ping =>
    obtain ⟨-, heq⟩ := Option.ite_none_right_eq_some.mp h
    obtain rfl := Option.some.inj heq
    have hcalm : ∀ item ∈ [Sent.ping], IsCalm item := by simp [IsCalm]
    exact ⟨.calm nofun hcalm rfl rfl rfl, htold.same rfl rfl⟩

/-- What the server does with a message of the client. -/
inductive Serves (g g' : Gateway) : ViewMessage → Prop
  | list {infos : List SessionInfo} (hsession : g'.session = g.session)
      (hopening : g'.opening = none) (hout : g'.out = .message (.sessions infos) :: g.out) :
      Serves g g' .list
  | connecting {socket : String} (hsession : g'.session = g.session) (hopening : g'.opening.isSome)
      (hout : g'.out = g.out) : Serves g g' (.connect socket)
  | refused {socket error : String} (hsession : g'.session = g.session)
      (hopening : g'.opening = none) (hout : g'.out = .message (.error error) :: g.out) :
      Serves g g' (.connect socket)
  | disconnect (hsession : g'.session = none) (hopening : g'.opening = none)
      (hout : g'.out = requested :: g.out) : Serves g g' .disconnect
  | forwarded {msg : ViewMessage} (hmsg : msg.isForSession) (hout : g'.out = g.out) :
      Serves g g' msg
  | error {msg : ViewMessage} {error : String} (hmsg : msg.isForSession)
      (hout : g'.out = .message (.error error) :: g.out) : Serves g g' msg

/-- What is not for the server itself is forwarded, or refused. -/
theorem forward_serves (g : Gateway) (text : String) {msg : ViewMessage} (hmsg : msg.isForSession) :
    Serves g (g.forward text) msg ∧ (g.forward text).events = g.events ∧
      (g.forward text).recorded = g.recorded := by
  unfold forward
  split
  · exact ⟨.error hmsg rfl, rfl, rfl⟩
  · exact ⟨.forwarded hmsg rfl, rfl, rfl⟩

theorem serves_of_step {msg : ViewMessage} {text : String} {world : Surroundings} (htold : g.Told)
    (hread : msg.isReadAs task.serde text)
    (h : Gateway.step task g (.message text world) = some g') :
    g.opening = none ∧ Serves g g' msg ∧ g'.Told := by
  obtain ⟨hidle, heq⟩ := Option.ite_none_right_eq_some.mp h
  obtain rfl := Option.some.inj heq
  have hopening := (connected_of_idle hidle).2
  refine ⟨hopening, ?_⟩
  unfold ViewMessage.isReadAs at hread
  unfold handleDeviceMessage
  cases hparsed : task.serde.fromStr text with
  | error e =>
    rw [hparsed] at hread
    cases hread
  | ok value =>
    rw [hparsed] at hread
    simp only [Bool.and_eq_true, decide_eq_true_eq] at hread
    obtain ⟨htype, hsocket⟩ := hread
    cases msg with
    | list =>
      simp only [htype, ViewMessage.tag]
      exact ⟨.list rfl hopening rfl, htold.same rfl rfl⟩
    | connect socket =>
      simp only [decide_eq_true_eq] at hsocket
      simp only [htype, ViewMessage.tag, hsocket, onConnect]
      split_ifs
      · exact ⟨.refused rfl hopening rfl, htold.same rfl rfl⟩
      · exact ⟨.refused rfl hopening rfl, htold.same rfl rfl⟩
      · exact ⟨.connecting rfl rfl rfl, htold.same rfl rfl⟩
    | disconnect =>
      simp only [htype, ViewMessage.tag]
      exact ⟨.disconnect rfl hopening rfl, htold.same rfl rfl⟩
    | view =>
      simp only [htype, ViewMessage.tag]
      obtain ⟨hserves, hevents, hrecorded⟩ := @forward_serves g text .view rfl
      exact ⟨by simpa using hserves, by simpa using htold.same hevents hrecorded⟩
    | unview =>
      simp only [htype, ViewMessage.tag]
      obtain ⟨hserves, hevents, hrecorded⟩ := @forward_serves g text .unview rfl
      exact ⟨by simpa using hserves, by simpa using htold.same hevents hrecorded⟩
    | history before =>
      simp only [htype, ViewMessage.tag]
      obtain ⟨hserves, hevents, hrecorded⟩ := @forward_serves g text (.history before) rfl
      exact ⟨by simpa using hserves, by simpa using htold.same hevents hrecorded⟩
    | input data =>
      simp only [htype, ViewMessage.tag]
      cases hreadonly : task.token.readonly with
      | true =>
        have hrefused : Serves g (g.send (.error "server is read-only")) (.input data) :=
          .error rfl rfl
        have hsent : (g.send (.error "server is read-only")).Told := htold.same rfl rfl
        exact ⟨by simpa using hrefused, by simpa using hsent⟩
      | false =>
        obtain ⟨hserves, hevents, hrecorded⟩ := @forward_serves g text (.input data) rfl
        exact ⟨by simpa using hserves, by simpa using htold.same hevents hrecorded⟩

end Gateway

end G2mirror
