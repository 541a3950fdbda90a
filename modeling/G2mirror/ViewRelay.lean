import G2mirror.LateReplies
import G2mirror.Relay
import G2mirror.ServerWire

/-!
# From the viewing client to its sessions

The requests of a viewing client that are for a session go through the server to the session
that is connected when the server handles them. Each of them either reaches one session, as the
message that it is, or is answered with an error.
-/

namespace G2mirror

variable {vt : Vt100} {crates : ViewCrates} {task : DeviceTask}

namespace ViewApp

/-- Every number in what the client has sent fits its type. -/
def SendsTyped (app : ViewApp vt) : Prop := ∀ msg ∈ app.sent, msg.Typed

variable {app app' : ViewApp vt}

theorem SendsTyped.append {new : List ViewMessage} (h : app.SendsTyped)
    (hsent : app'.sent = app.sent ++ new)
    (hnew : ∀ before, .history before ∈ new → before ≤ u64Max) : app'.SendsTyped := by
  intro msg hmsg
  rw [hsent] at hmsg
  rcases List.mem_append.mp hmsg with hold | hmem
  · exact h msg hold
  · cases msg with
    | history before => exact hnew before hmem
    | _ => trivial

/-- A number that is read fits in 64 bits. -/
theorem getU64_le (value : Json) (key : String) : (getU64 value key).getD 0 ≤ u64Max := by
  unfold getU64
  cases hn : (value.get? key.toList).bind (Json.nat? u64Max) with
  | none => exact Nat.zero_le _
  | some n =>
    obtain ⟨field, -, hfield⟩ := Option.bind_eq_some_iff.mp hn
    cases field with
    | number lexeme =>
      unfold Json.nat? at hfield
      dsimp only at hfield
      split_ifs at hfield with hdigits hle
      obtain rfl := Option.some.inj hfield
      exact hle
    | _ => cases hfield

/-- A snapshot's place in the history is a number of its message. -/
theorem history_of_readServer {value : Json} {snapshot : Bytes} {width height historyNext : ℕ}
    (h : readServer crates value = .snapshot snapshot width height historyNext) :
    historyNext ≤ u64Max := by
  unfold readServer at h
  dsimp only at h
  split at h
  case h_5 =>
    split at h
    · cases h
    · injection h with _ _ _ hnext
      exact hnext ▸ getU64_le value "history_next"
  all_goals (repeat' split at h) <;> cases h

/-- What the server sends holds no number beyond 64 bits. -/
theorem history_of_read {item : Sent} {snapshot : Bytes} {width height historyNext : ℕ}
    (h : item.read crates = .snapshot snapshot width height historyNext) :
    historyNext ≤ u64Max := by
  cases item with
  | line text =>
    unfold Sent.read at h
    dsimp only at h
    split at h
    · cases h
    · exact history_of_readServer h
  | message msg => cases msg <;> cases h
  | ping => cases h

/-- The client asks for the history before a snapshot that it was sent, and for no other. -/
theorem onMessage_asks (app : ViewApp vt) (base64 : Base64) (msg : FromServer) :
    ∃ new, (app.onMessage base64 msg).sent = app.sent ++ new ∧
      ∀ before, .history before ∈ new → ∃ snapshot width height,
        msg = .snapshot snapshot width height before := by
  have hnone {app' : ViewApp vt} (h : app'.sent = app.sent) :
      ∃ new, app'.sent = app.sent ++ new ∧
        ∀ before, .history before ∈ new → ∃ snapshot width height,
          msg = .snapshot snapshot width height before :=
    ⟨[], by simpa using h, nofun⟩
  cases msg with
  | sessions sessions => exact hnone rfl
  | bell socket lastBellAt => exact hnone rfl
  | listTitle socket title => exact hnone rfl
  | exit status => exact hnone rfl
  | other => exact hnone rfl
  | title title =>
    unfold onMessage
    dsimp only
    split <;> exact hnone rfl
  | connect readonly oldest =>
    unfold onMessage
    dsimp only
    split
    · exact ⟨[.view], rfl, by simp⟩
    · exact hnone rfl
  | output bytes =>
    unfold onMessage
    dsimp only
    split <;> exact hnone rfl
  | historyLines lines =>
    refine hnone ?_
    unfold onMessage goLive
    cases app.mode with
    | fetchingHistory f =>
      dsimp only
      split_ifs <;> rfl
    | _ => rfl
  | disconnected reason =>
    refine ⟨[.list], ?_, by simp⟩
    unfold onMessage
    dsimp only
    rw [backToList_sent]
    split_ifs <;> rfl
  | error message =>
    unfold onMessage
    dsimp only
    split
    · exact hnone rfl
    · exact hnone rfl
    · exact ⟨[.list], backToList_sent _, by simp⟩
  | snapshot snapshot width height next =>
    unfold onMessage onSnapshot goLive
    cases app.mode with
    | awaitSnapshot =>
      dsimp only
      split_ifs
      · exact ⟨[.history next], rfl, by simp⟩
      · exact hnone (by simp [write])
    | fetchingHistory f =>
      dsimp only
      split_ifs
      · exact ⟨[.history next], rfl, by simp⟩
      · exact hnone (by simp [write])
    | _ => exact hnone rfl

theorem SendsTyped.onMessage (h : app.SendsTyped) (base64 : Base64) (item : Sent) :
    (app.onMessage base64 (item.read crates)).SendsTyped := by
  obtain ⟨new, hsent, hasks⟩ := app.onMessage_asks base64 (item.read crates)
  refine h.append hsent fun before hbefore => ?_
  obtain ⟨snapshot, width, height, hread⟩ := hasks before hbefore
  exact history_of_read hread

/-- Keys, a resize or the refresh of the list ask for no history. -/
theorem step_asks {e : Event} (he : ∀ text, e ≠ .text text) (h : app.step crates e = some app') :
    ∃ new, app'.sent = app.sent ++ new ∧ ∀ before, .history before ∉ new := by
  have hnone {app' : ViewApp vt} (h : app'.sent = app.sent) :
      ∃ new, app'.sent = app.sent ++ new ∧ ∀ before, ViewMessage.history before ∉ new :=
    ⟨[], by simpa using h, nofun⟩
  cases e with
  | text text => exact absurd rfl (he text)
  | keys bytes =>
    unfold step at h
    dsimp only at h
    split at h
    · cases h
    · obtain rfl := Option.some.inj h
      cases hm : app.mode with
      | list =>
        obtain ⟨new, hsent, hnew, -⟩ := app.onListKeys_moves (parseListKeys 0 bytes)
        refine ⟨new, by simpa only [onKeys, hm] using hsent, fun before hbefore => ?_⟩
        rcases hnew _ hbefore with hlist | ⟨socket, hconnect⟩
        · cases hlist
        · cases hconnect
      | live mirror =>
        unfold onKeys
        simp only [hm]
        generalize crates.base64.encode (splitKeys (some 4) bytes).1 = data
        have hdetach {refreshed : ViewApp vt} {new : List ViewMessage}
            (hsent : refreshed.sent = app.sent ++ new) (hnew : ∀ before, .history before ∉ new) :
            ∃ new, (({ refreshed with status := "detached" }.send .unview).send
                .disconnect).backToList.sent = app.sent ++ new ∧
              ∀ before, ViewMessage.history before ∉ new :=
          ⟨new ++ [.unview, .disconnect, .list], by simp [backToList_sent, send, hsent],
            by simpa using hnew⟩
        split_ifs
        · exact hdetach (List.append_nil _).symm (by simp)
        · exact hdetach (rfl : _ = app.sent ++ [.input data]) (by simp)
        · exact hdetach (List.append_nil _).symm (by simp)
        · exact hdetach (rfl : _ = app.sent ++ [.input data]) (by simp)
        · exact hnone rfl
        · exact ⟨[.input data], rfl, by simp⟩
        · exact hnone rfl
        · exact ⟨[.input data], rfl, by simp⟩
      | _ =>
        simp only [onKeys, hm]
        split_ifs
        · exact ⟨[.disconnect], rfl, by simp⟩
        · exact hnone rfl
  | winch size =>
    obtain rfl := Option.some.inj h
    unfold onWinch
    cases app.mode <;> exact hnone rfl
  | tick =>
    obtain rfl := Option.some.inj h
    unfold onTick
    cases app.mode with
    | list => exact ⟨[.list], rfl, by simp⟩
    | _ => exact hnone rfl

theorem SendsTyped.step {e : Event} (h : app.SendsTyped) (he : ∀ text, e ≠ .text text)
    (hstep : app.step crates e = some app') : app'.SendsTyped := by
  obtain ⟨new, hsent, hasks⟩ := step_asks he hstep
  exact h.append hsent fun before hbefore => absurd hbefore (hasks before)

end ViewApp

section Stream

variable {serde : SerdeJson}

/-- The stream of these requests. -/
def requestBytes (requests : List ViewMessage) : Bytes :=
  requests.flatMap fun msg => forwardedBytes msg.text

/-- A request for the session is one line, which decodes to the message that it is. -/
theorem receivedFrom_request (hserde : serde.Derives) {msg : ViewMessage} (hmsg : msg.Typed)
    {m : ToSession} (hm : msg.toSession? = some m) :
    receivedFrom serde (forwardedBytes msg.text) = [.ok m] := by
  have hfits : Json.Fits serde.limits serde.limits.depth msg.toJson :=
    msg.fits_toJson 126 hserde.admits hmsg
  obtain ⟨hempty, hline, -⟩ := line_of_fits hfits
  have hne : utf8 msg.text ≠ [] := hempty
  have honeLine : newline ∉ utf8 msg.text := hline
  have hlines : linesOf (forwardedBytes msg.text) = [utf8 msg.text] := by
    unfold linesOf forwardedBytes
    rw [LineReader.pieces_append honeLine, List.nil_append, LineReader.pieces, if_pos rfl,
      List.filter_cons_of_pos (by simpa using hne)]
    rfl
  have hdecoded : serde.wrapperEnd.fromSlice (utf8 msg.text) = .ok m :=
    ViewMessage.fromSlice_text hserde hmsg hm
  unfold receivedFrom
  rw [hlines, List.map_singleton]
  unfold Serde.decoded
  rw [hdecoded]

/-- However the stream of some requests arrives, the wrapper gets the messages that they are. -/
theorem delivers_requests (hserde : serde.Derives) {requests : List ViewMessage}
    (hrequests : ∀ msg ∈ requests, msg.Typed ∧ msg.isForSession = true) :
    Delivers (Client.nextMessage serde.wrapperEnd) (requestBytes requests)
      ((requests.filterMap ViewMessage.toSession?).map .ok) := by
  have hreceived : receivedFrom serde (requestBytes requests) =
      (requests.filterMap ViewMessage.toSession?).map .ok := by
    induction requests with
    | nil => rfl
    | cons msg requests ih =>
      obtain ⟨⟨htyped, hfor⟩, hrest⟩ := List.forall_mem_cons.mp hrequests
      obtain ⟨m, hm⟩ : ∃ m, msg.toSession? = some m := by
        cases msg with
        | list | connect _ | disconnect => cases hfor
        | _ => exact ⟨_, rfl⟩
      have hfirst := receivedFrom_request hserde htyped hm
      have hothers := ih hrest
      unfold receivedFrom requestBytes at *
      rw [List.flatMap_cons, linesOf_append_forwardedBytes, List.map_append, hfirst, hothers,
        List.filterMap_cons_some hm]
      rfl
  rw [← hreceived]
  exact delivers_receivedFrom serde (requestBytes requests)

end Stream

namespace Gateway

variable {g g' : Gateway}

/-- The connections of the device to sessions, in the order in which they were made. -/
def attachments (g : Gateway) : List Conn :=
  g.dropped.reverse ++ g.session.toList ++ g.opening.toList

/-- The answer to a request that is for a session and reaches none. -/
def isUnserved (item : Sent) : Bool :=
  item = .message (.error "not connected to a session") ||
    item = .message (.error "server is read-only")

/-- How many requests were answered so. -/
def unserved (g : Gateway) : ℕ := g.out.countP isUnserved

/-- What a step does to the connections besides forwarding. -/
inductive Routes (g g' : Gateway) : Prop
  | same (hsame : g'.attachments = g.attachments)
  | opening {conn : Conn} (hempty : conn.forwarded = [])
      (hnew : g'.attachments = g.attachments ++ [conn])
  | failed {conn : Conn} (hopening : g.opening = some conn)
      (hgone : g.attachments = g'.attachments ++ [conn])

theorem attachments_setSession (hopening : g.opening = none) (session : Option Conn) :
    (g.setSession session).attachments = g.attachments ++ session.toList := by
  unfold attachments setSession
  cases g.session <;> simp [hopening]

theorem isUnserved_of_socket {event : ServerToDevice} (h : event.socket?.isSome) :
    isUnserved (.message event) = false := by
  cases event with
  | error message => cases h
  | _ => rfl

/-- Other errors begin with other letters. -/
theorem isUnserved_error {message : String} {c : Char} (hhead : message.toList.head? = some c)
    (hc : c ≠ 'n' ∧ c ≠ 's') : isUnserved (.message (.error message)) = false := by
  unfold isUnserved
  rw [Bool.or_eq_false_iff, decide_eq_false_iff_not, decide_eq_false_iff_not]
  constructor
  · rintro ⟨⟩
    exact hc.1 (Option.some.inj hhead).symm
  · rintro ⟨⟩
    exact hc.2 (Option.some.inj hhead).symm

theorem unserved_send {msg : ServerToDevice} (h : isUnserved (.message msg) = false) :
    (g.send msg).unserved = g.unserved :=
  List.countP_cons_of_neg (by rw [h]; exact Bool.false_ne_true)

/-- Nothing that the server's tasks do by themselves forwards or answers a request. -/
theorem routes_of_step {a : Action} (htold : g.Told)
    (hmessage : ∀ text world, a ≠ .message text world) (h : Gateway.step task g a = some g') :
    Routes g g' ∧ g'.unserved = g.unserved ∧ ∀ conn ∈ g'.opening, conn ∈ g.opening := by
  cases takes_of_step h with
  | message hconnected text world => exact absurd rfl (hmessage text world)
  | scan live => exact ⟨.same rfl, rfl, fun _ => id⟩
  | record hidle hread =>
    rw [monitorLine_of_readLine hread]
    exact ⟨.same rfl, rfl, fun _ => id⟩
  | ignore name line => exact ⟨.same rfl, rfl, fun _ => id⟩
  | queue hrecorded => exact ⟨.same rfl, rfl, fun _ => id⟩
  | monitorEnd name => exact ⟨.same rfl, rfl, fun _ => id⟩
  | subscribe => exact ⟨.same rfl, rfl, fun _ => id⟩
  | opened hopening result =>
    rename_i conn
    cases result with
    | ok _ =>
      refine ⟨.same ?_, rfl, nofun⟩
      unfold opened attachments setSession
      cases g.session <;> simp [hopening]
    | error e =>
      refine ⟨.failed hopening ?_, ?_, nofun⟩
      · unfold attachments
        rw [hopening]
        exact (List.append_nil _).symm ▸ rfl
      · refine unserved_send (isUnserved_error (c := 'c') ?_ (by decide))
        rw [String.toList_append]
        rfl
  | sessionLine line => exact ⟨.same rfl, rfl, fun _ => id⟩
  | sessionEnd =>
    have hidle := (Option.ite_none_right_eq_some.mp h).1
    rw [Bool.and_eq_true] at hidle
    refine ⟨.same ?_, rfl, fun _ => id⟩
    exact (attachments_setSession (connected_of_idle hidle.1).2 none).trans (List.append_nil _)
  | lag => exact ⟨.same rfl, rfl, fun _ => id⟩
  | event hconnected hopening hevents =>
    rename_i event events
    have hsocket : event.socket?.isSome := htold.events event (hevents ▸ List.mem_cons_self)
    obtain ⟨socket, hsome⟩ := Option.isSome_iff_exists.mp hsocket
    unfold onEvent
    rw [hsome]
    dsimp only
    split_ifs
    · exact ⟨.same rfl, unserved_send (isUnserved_of_socket hsocket), fun _ => id⟩
    · refine ⟨.same ?_, rfl, fun _ => id⟩
      exact (attachments_setSession (g := { g with events := events }) hopening none).trans
        (List.append_nil _)
    · exact ⟨.same rfl, rfl, fun _ => id⟩
  | ping => exact ⟨.same rfl, rfl, fun _ => id⟩

/-- What is refused by the server itself is answered with another error. -/
theorem onConnect_routes (hopening : g.opening = none) (socket : Option String) :
    Routes g (g.onConnect task socket) ∧ (g.onConnect task socket).unserved = g.unserved ∧
      ∀ conn ∈ (g.onConnect task socket).opening, conn.forwarded = [] := by
  have hnone : ∀ conn ∈ g.opening, conn.forwarded = [] := by simp [hopening]
  unfold onConnect
  split
  · exact ⟨.same rfl, unserved_send (isUnserved_error (c := 'c') rfl (by decide)), hnone⟩
  · split_ifs
    · exact ⟨.same rfl, unserved_send (isUnserved_error (c := 'i') rfl (by decide)), hnone⟩
    · exact ⟨.same rfl, unserved_send (isUnserved_error (c := 't') rfl (by decide)), hnone⟩
    · rename_i name _ _
      have hempty : (task.open name).forwarded = [] := rfl
      refine ⟨.opening hempty ?_, rfl, ?_⟩
      · unfold attachments
        simp [hopening]
      · simp [DeviceTask.open]

/-- A request that is not for the session forwards nothing. -/
theorem routes_of_message {msg : ViewMessage} {text : String} {world : Surroundings}
    (hread : msg.isReadAs task.serde text = true) (hfor : msg.isForSession = false)
    (hopening : g.opening = none) :
    Routes g (g.handleDeviceMessage task text world) ∧
      (g.handleDeviceMessage task text world).unserved = g.unserved ∧
      ∀ conn ∈ (g.handleDeviceMessage task text world).opening, conn.forwarded = [] := by
  have hnone : ∀ conn ∈ g.opening, conn.forwarded = [] := by simp [hopening]
  unfold ViewMessage.isReadAs at hread
  unfold handleDeviceMessage
  cases hparsed : task.serde.fromStr text with
  | error e =>
    rw [hparsed] at hread
    cases hread
  | ok value =>
    rw [hparsed] at hread
    simp only [Bool.and_eq_true, decide_eq_true_eq] at hread
    obtain ⟨htype, -⟩ := hread
    cases msg with
    | list =>
      simp only [htype, ViewMessage.tag]
      exact ⟨.same rfl, rfl, hnone⟩
    | connect socket =>
      simp only [htype, ViewMessage.tag]
      exact onConnect_routes hopening _
    | disconnect =>
      simp only [htype, ViewMessage.tag]
      refine ⟨.same ?_, rfl, hnone⟩
      exact (attachments_setSession hopening none).trans (List.append_nil _)
    | _ => cases hfor

/-- A request either goes to the connected session, or is answered with an error. -/
structure Forwards (g g' : Gateway) (text : String) (front : List Conn) (conn : Conn) : Prop where
  before : g.attachments = front ++ [conn]
  after : g'.attachments =
    front ++ [{ conn with forwarded := conn.forwarded ++ forwardedBytes text }]
  unserved : g'.unserved = g.unserved
  opening : g'.opening = none

/-- A request that is answered with an error. -/
structure Refuses (g g' : Gateway) : Prop where
  attachments : g'.attachments = g.attachments
  unserved : g'.unserved = g.unserved + 1
  opening : g'.opening = none

theorem refuses_send {message : String} (hopening : g.opening = none)
    (h : isUnserved (.message (.error message)) = true) : Refuses g (g.send (.error message)) :=
  ⟨rfl, List.countP_cons_of_pos h, hopening⟩

theorem forward_request (hopening : g.opening = none) (text : String) :
    (∃ front conn, Forwards g (g.forward text) text front conn) ∨ Refuses g (g.forward text) := by
  unfold forward
  cases hsession : g.session with
  | none => exact .inr (refuses_send hopening rfl)
  | some conn =>
    refine .inl ⟨g.dropped.reverse, conn, ?_, ?_, rfl, hopening⟩
    · unfold attachments
      simp [hsession, hopening]
    · unfold attachments
      simp [hopening, forwardedBytes]

theorem handle_request {msg : ViewMessage} {text : String} (world : Surroundings)
    (hread : msg.isReadAs task.serde text = true) (hfor : msg.isForSession = true)
    (hopening : g.opening = none) :
    (∃ front conn, Forwards g (g.handleDeviceMessage task text world) text front conn) ∨
      Refuses g (g.handleDeviceMessage task text world) := by
  have hforward := forward_request hopening text
  unfold ViewMessage.isReadAs at hread
  unfold handleDeviceMessage
  cases hparsed : task.serde.fromStr text with
  | error e =>
    rw [hparsed] at hread
    cases hread
  | ok value =>
    rw [hparsed] at hread
    simp only [Bool.and_eq_true, decide_eq_true_eq] at hread
    obtain ⟨htype, -⟩ := hread
    cases msg with
    | list | connect _ | disconnect => cases hfor
    | input data =>
      simp only [htype, ViewMessage.tag]
      cases hreadonly : task.token.readonly with
      | true => simpa using .inr (refuses_send hopening rfl)
      | false => simpa using hforward
    | _ =>
      simp only [htype, ViewMessage.tag]
      simpa using hforward

end Gateway

namespace Link

variable {s s' : Link vt}

/-- What a connection was forwarded is the stream of these requests. -/
def Carries (conn : Conn) (requests : List ViewMessage) : Prop :=
  conn.forwarded = requestBytes requests

/-- The requests for a session that the server has handled. -/
def handledRequests (s : Link vt) : List ViewMessage :=
  (s.app.sent.take s.handled).filter (·.isForSession)

/-- How the requests that the server has handled are shared out among the connections. -/
structure Relayed (s : Link vt) (shares : List (List ViewMessage)) : Prop where
  carried : List.Forall₂ Carries s.gateway.attachments shares
  inOrder : shares.flatten.Sublist s.handledRequests
  accounted : shares.flatten.length + s.gateway.unserved = s.handledRequests.length

/-- What holds along a run. -/
structure Relays (s : Link vt) : Prop where
  typed : s.app.SendsTyped
  handled_le : s.handled ≤ s.app.sent.length
  told : s.gateway.Told
  fresh : ∀ conn ∈ s.gateway.opening, conn.forwarded = []
  relayed : ∃ shares, s.Relayed shares

/-- The server is given the text that the client has sent. -/
def SendsText (s : Link vt) : Action → Prop
  | .serve text _ => ∀ msg ∈ s.app.sent[s.handled]?, text = msg.text
  | _ => True

/-- Relations along lists, at their last entries. -/
theorem forall₂_concat {α β : Type*} {R : α → β → Prop} {as : List α} {a : α} {bs : List β} :
    List.Forall₂ R (as ++ [a]) bs ↔
      ∃ front b, bs = front ++ [b] ∧ List.Forall₂ R as front ∧ R a b := by
  constructor
  · intro h
    have hreverse := List.forall₂_reverse_iff.mpr h
    rw [List.reverse_concat, List.forall₂_cons_left_iff] at hreverse
    obtain ⟨b, back, hlast, hfront, hbs⟩ := hreverse
    refine ⟨back.reverse, b, ?_, ?_, hlast⟩
    · rw [← List.reverse_reverse bs, hbs, List.reverse_cons]
    · rwa [← List.forall₂_reverse_iff, List.reverse_reverse]
  · rintro ⟨front, b, rfl, hfront, hlast⟩
    exact List.rel_append hfront (.cons hlast .nil)

theorem requestBytes_eq_nil {requests : List ViewMessage} :
    requestBytes requests = [] ↔ requests = [] := by
  unfold requestBytes forwardedBytes
  cases requests <;> simp

instance (s : Link vt) : (a : Action) → Decidable (s.SendsText a)
  | .serve text _ =>
    inferInstanceAs (Decidable (∀ msg ∈ s.app.sent[s.handled]?, text = msg.text))
  | .client _ | .read | .server _ => .isTrue trivial

/-- The connections are as before, up to one that nothing was forwarded to. -/
theorem Relayed.routes {shares : List (List ViewMessage)} (h : s.Relayed shares)
    (hfresh : ∀ conn ∈ s.gateway.opening, conn.forwarded = [])
    (hroutes : s.gateway.Routes s'.gateway) (hunserved : s'.gateway.unserved = s.gateway.unserved)
    (hhandled : s'.handledRequests = s.handledRequests) : ∃ shares, s'.Relayed shares := by
  obtain ⟨hcarried, hinOrder, haccounted⟩ := h
  cases hroutes with
  | same hsame =>
    exact ⟨shares, hsame ▸ hcarried, hhandled ▸ hinOrder, by rw [hunserved, hhandled, haccounted]⟩
  | opening hempty hnew =>
    have hflatten : (shares ++ [[]]).flatten = shares.flatten := by simp
    refine ⟨shares ++ [[]], ?_, ?_, ?_⟩
    · rw [hnew]
      exact forall₂_concat.mpr ⟨shares, [], rfl, hcarried, hempty⟩
    · rwa [hflatten, hhandled]
    · rw [hflatten, hunserved, hhandled, haccounted]
  | failed hopening hgone =>
    rw [hgone] at hcarried
    obtain ⟨front, share, rfl, hfront, hlast⟩ := forall₂_concat.mp hcarried
    obtain rfl : share = [] := requestBytes_eq_nil.mp (hlast.symm.trans (hfresh _ hopening))
    have hflatten : (front ++ [[]]).flatten = front.flatten := by simp
    rw [hflatten] at hinOrder haccounted
    exact ⟨front, hfront, hhandled ▸ hinOrder, by rw [hunserved, hhandled, haccounted]⟩

/-- A client that sends more changes nothing of what the server has handled. -/
theorem Relays.client {app : ViewApp vt} {new : List ViewMessage} {read : ℕ} (hs : s.Relays)
    (hsent : app.sent = s.app.sent ++ new) (htyped : app.SendsTyped) :
    Relays { s with app := app, read := read } := by
  have hhandled : handledRequests { s with app := app, read := read } = s.handledRequests := by
    unfold handledRequests
    dsimp only
    rw [hsent, List.take_append_of_le_length hs.handled_le]
  obtain ⟨shares, hrelayed⟩ := hs.relayed
  refine ⟨htyped, ?_, hs.told, hs.fresh, hrelayed.routes hs.fresh (.same rfl) rfl hhandled⟩
  dsimp only
  rw [hsent, List.length_append]
  exact hs.handled_le.trans (Nat.le_add_right _ _)

/-- The server handles the client's next request. -/
theorem Relays.serve {msg : ViewMessage} {text : String} {world : Surroundings} (hs : s.Relays)
    (hmsg : s.app.sent[s.handled]? = some msg) (hread : msg.isReadAs task.serde text = true)
    (htext : text = msg.text) (hopening : s.gateway.opening = none)
    (htold : (s.gateway.handleDeviceMessage task text world).Told) :
    Relays { s with
      gateway := s.gateway.handleDeviceMessage task text world, handled := s.handled + 1 } := by
  obtain ⟨hlt, -⟩ := List.getElem?_eq_some_iff.mp hmsg
  have htake : s.app.sent.take (s.handled + 1) = s.app.sent.take s.handled ++ [msg] := by
    rw [List.take_add_one, hmsg]
    rfl
  obtain ⟨shares, hrelayed⟩ := hs.relayed
  by_cases hfor : msg.isForSession = true
  · have hhandled : handledRequests { s with
        gateway := s.gateway.handleDeviceMessage task text world, handled := s.handled + 1 } =
        s.handledRequests ++ [msg] := by
      unfold handledRequests
      rw [htake, List.filter_append, List.filter_singleton, hfor]
      rfl
    obtain ⟨hcarried, hinOrder, haccounted⟩ := hrelayed
    rcases Gateway.handle_request world hread hfor hopening with ⟨front, conn, hforwards⟩ | hrefuses
    · rw [hforwards.before] at hcarried
      obtain ⟨others, share, rfl, hothers, hlast⟩ := forall₂_concat.mp hcarried
      have hflatten : (others ++ [share ++ [msg]]).flatten =
          (others ++ [share]).flatten ++ [msg] := by simp
      refine ⟨hs.typed, hlt, htold, ?_, others ++ [share ++ [msg]], ?_, ?_, ?_⟩
      · rw [hforwards.opening]
        exact nofun
      · rw [hforwards.after]
        refine forall₂_concat.mpr ⟨others, _, rfl, hothers, ?_⟩
        unfold Carries requestBytes at *
        simp [hlast, htext]
      · rw [hflatten, hhandled]
        exact hinOrder.append_right [msg]
      · rw [hflatten, hhandled, List.length_append, List.length_append, ← haccounted]
        dsimp only
        rw [hforwards.unserved]
        omega
    · refine ⟨hs.typed, hlt, htold, ?_, shares, ?_, ?_, ?_⟩
      · rw [hrefuses.opening]
        exact nofun
      · rwa [hrefuses.attachments]
      · rw [hhandled]
        exact hinOrder.trans (List.sublist_append_left _ _)
      · rw [hhandled, List.length_append, ← haccounted]
        dsimp only
        rw [hrefuses.unserved, List.length_singleton]
        omega
  · rw [Bool.not_eq_true] at hfor
    have hhandled : handledRequests { s with
        gateway := s.gateway.handleDeviceMessage task text world, handled := s.handled + 1 } =
        s.handledRequests := by
      unfold handledRequests
      rw [htake, List.filter_append, List.filter_singleton, hfor]
      exact List.append_nil _
    obtain ⟨hroutes, hunserved, hfresh⟩ :=
      @Gateway.routes_of_message _ _ _ _ world hread hfor hopening
    exact ⟨hs.typed, hlt, htold, hfresh, hrelayed.routes hs.fresh hroutes hunserved hhandled⟩

theorem Relays.step {a : Action} (hs : s.Relays) (ha : s.SendsText a)
    (h : Link.step task crates s a = some s') : s'.Relays := by
  cases a with
  | client e =>
    obtain ⟨he, app, hstep, rfl⟩ := step_client h
    obtain ⟨new, hsent, -⟩ := ViewApp.step_asks he hstep
    exact hs.client hsent (hs.typed.step he hstep)
  | read =>
    unfold Link.step at h
    dsimp only at h
    split at h
    · cases h
    · obtain rfl := Option.some.inj h
      obtain ⟨new, hsent, -⟩ := s.app.onMessage_asks crates.base64 _
      exact hs.client hsent (hs.typed.onMessage crates.base64 _)
  | serve text world =>
    unfold Link.step at h
    dsimp only at h
    split at h
    · cases h
    · rename_i msg hmsg
      split_ifs at h with hread
      obtain ⟨gateway, hstep, rfl⟩ := Option.map_eq_some_iff.mp h
      obtain ⟨hidle, -, htold⟩ := Gateway.serves_of_step hs.told hread hstep
      obtain ⟨-, heq⟩ := Option.ite_none_right_eq_some.mp hstep
      obtain rfl := Option.some.inj heq
      exact hs.serve hmsg hread (ha msg hmsg) hidle htold
  | server a =>
    obtain ⟨hmessage, -, gateway, hstep, rfl⟩ := step_server h
    obtain ⟨-, htold⟩ := Gateway.stirs_of_step hs.told hmessage hstep
    obtain ⟨hroutes, hunserved, hfresh⟩ := Gateway.routes_of_step hs.told hmessage hstep
    obtain ⟨shares, hrelayed⟩ := hs.relayed
    exact ⟨hs.typed, hs.handled_le, htold, fun conn hconn => hs.fresh conn (hfresh conn hconn),
      hrelayed.routes hs.fresh hroutes hunserved rfl⟩

theorem start_relays (rows cols : ℕ) (tokenReadonly : Bool) :
    (start vt rows cols tokenReadonly).Relays where
  typed := nofun
  handled_le := le_rfl
  told := ⟨nofun, nofun⟩
  fresh := nofun
  relayed := ⟨[], .nil, List.nil_sublist _, rfl⟩

/-- In every run of a viewing client and its server, the requests for a session that the server
has handled, in the order in which the client sent them, go to the connections in the order in
which these were made. The wrapper at the end of each connection gets the messages that its
requests are, however their bytes arrive. A request that reaches none is answered with an
error. -/
theorem requests_reach_sessions (hserde : task.serde.Derives) {rows cols : ℕ}
    {tokenReadonly : Bool} {as : List Action}
    (halong : Machine.Along (Link.step task crates) SendsText (start vt rows cols tokenReadonly) as)
    (hrun : Machine.run (Link.step task crates) (start vt rows cols tokenReadonly) as = some s) :
    ∃ shares : List (List ViewMessage),
      List.Forall₂ (fun conn requests => Delivers (Client.nextMessage task.serde.wrapperEnd)
        conn.forwarded ((requests.filterMap ViewMessage.toSession?).map .ok))
        s.gateway.attachments shares ∧
      shares.flatten.Sublist s.handledRequests ∧
      shares.flatten.length + s.gateway.unserved = s.handledRequests.length := by
  have hrelays : s.Relays := Machine.run_invariant_along
    (fun _ _ _ hs ha h => Relays.step hs ha h) (start_relays rows cols tokenReadonly) halong hrun
  obtain ⟨shares, hcarried, hinOrder, haccounted⟩ := hrelays.relayed
  refine ⟨shares, ?_, hinOrder, haccounted⟩
  have hrequests : ∀ requests ∈ shares, ∀ msg ∈ requests,
      msg.Typed ∧ msg.isForSession = true := by
    intro requests hshare msg hmsg
    have hhandled := hinOrder.subset (List.mem_flatten.mpr ⟨requests, hshare, hmsg⟩)
    obtain ⟨hsent, hfor⟩ := List.mem_filter.mp hhandled
    exact ⟨hrelays.typed msg (List.mem_of_mem_take hsent), hfor⟩
  clear hinOrder haccounted
  generalize s.gateway.attachments = conns at hcarried ⊢
  induction hcarried with
  | nil => exact .nil
  | cons hcarries _ ih =>
    obtain ⟨hfirst, hrest⟩ := List.forall_mem_cons.mp hrequests
    refine .cons ?_ (ih hrest)
    rw [hcarries]
    exact delivers_requests hserde hfirst

/-- A client looks at a session and leaves it again. -/
def lookAndLeave : List Action :=
  [.server .subscribe, .client .tick, .serve ViewMessage.list.text twoSessions, .read,
    .client (.keys (ascii "\r")), .serve (ViewMessage.connect "1-a").text noWorld,
    .server (.opened (.ok ())), .server (.sessionLine greetingLine), .read,
    .serve ViewMessage.view.text noWorld,
    .server (.sessionLine ("\x7b\"type\":\"snapshot\",\"data\":\"SGVsbG8=\",\"width\":4," ++
      "\"height\":2,\"history_next\":0\x7d")), .read,
    .client (.keys [0x04]), .serve ViewMessage.unview.text noWorld,
    .serve ViewMessage.disconnect.text noWorld]

/-- The session gets its view and its end. -/
theorem requests_reach_sessions_of_view :
    ∃ s ∈ Machine.run (Link.step { glassesTask with serde := derivedSerde } helloCrates)
        (start asciiVt100 2 4 true) lookAndLeave,
      ∀ conn ∈ s.gateway.attachments, Delivers (Client.nextMessage derivedSerde.wrapperEnd)
        conn.forwarded [.ok .view, .ok .unview] := by
  obtain ⟨s, hrun, hone, hhandled, hunserved⟩ :
      ∃ s ∈ Machine.run (Link.step { glassesTask with serde := derivedSerde } helloCrates)
          (start asciiVt100 2 4 true) lookAndLeave,
        s.gateway.attachments.length = 1 ∧ s.handledRequests = [.view, .unview] ∧
          s.gateway.unserved = 0 := by
    decide +kernel
  have halong : Machine.Along (Link.step { glassesTask with serde := derivedSerde } helloCrates)
      SendsText (start asciiVt100 2 4 true) lookAndLeave := by
    decide +kernel
  obtain ⟨shares, hdelivers, hinOrder, haccounted⟩ :=
    requests_reach_sessions derives_derivedSerde halong hrun
  obtain ⟨conn, hconn⟩ := List.length_eq_one_iff.mp hone
  rw [hhandled] at hinOrder haccounted
  rw [hunserved, Nat.add_zero] at haccounted
  have hall := hinOrder.eq_of_length haccounted
  refine ⟨s, hrun, ?_⟩
  rw [hconn] at hdelivers ⊢
  cases hdelivers with
  | cons hfirst hrest =>
    cases hrest
    rw [List.forall_mem_singleton]
    rw [List.flatten_cons, List.flatten_nil, List.append_nil] at hall
    rwa [hall] at hfirst

end Link

end G2mirror
