import G2mirror.GoingLive
import G2mirror.Relay
import G2mirror.ViewLink

/-!
# Late replies and newer attaches

A viewing client returns to its list without waiting for the reply to its
disconnect, and may be one attach ahead of what it reads. Whether a late reply
cancels the newer attach depends on whether every disconnect was answered when
the user chose the session.
-/

namespace G2mirror

variable {vt : Vt100} {crates : ViewCrates} {task : DeviceTask}

namespace ViewApp

/-- The keys choose a session from the list. -/
def picks (app : ViewApp vt) (bytes : Bytes) : Bool :=
  match app.mode with
  | .list => !app.sessions.isEmpty && .enter ∈ parseListKeys 0 bytes
  | _ => false

/-- What a client has sent after it was in some state, and whether it is connecting. -/
structure Moves (app app' : ViewApp vt) (new : List ViewMessage) : Prop where
  sent : app'.sent = app.sent ++ new
  connects : ∀ socket, .connect socket ∈ new → app'.mode = .connecting ∧ .disconnect ∉ new
  stays : (∀ msg ∈ new, msg = .list) → (app.mode = .connecting → app'.mode = .connecting) ∧
    (app.mode = .list → app'.mode = .list)

/-- A step that sends at most messages other than `connect` and `list`. -/
theorem Moves.of_other {app app' : ViewApp vt} {new : List ViewMessage}
    (hsent : app'.sent = app.sent ++ new) (hnew : ∀ socket, .connect socket ∉ new)
    (hmode : (∀ msg ∈ new, msg = .list) → app'.mode = app.mode) : Moves app app' new :=
  ⟨hsent, fun socket h => absurd h (hnew socket),
    fun h => ⟨fun hm => (hmode h).trans hm, fun hm => (hmode h).trans hm⟩⟩

/-- The keys of the list send requests for the list, and connects while there are sessions. -/
theorem onListKeys_moves (app : ViewApp vt) (keys : List ListKey) :
    ∃ new, (app.onListKeys keys).sent = app.sent ++ new ∧
      (∀ msg ∈ new, msg = .list ∨ ∃ socket, msg = .connect socket) ∧
      ((∃ socket, .connect socket ∈ new) → (app.onListKeys keys).mode = .connecting ∧
        .enter ∈ keys ∧ app.sessions ≠ []) ∧
      ((∀ socket, .connect socket ∉ new) → (app.onListKeys keys).mode = app.mode) := by
  induction keys generalizing app with
  | nil => exact ⟨[], by simp [onListKeys], List.forall_mem_nil _, by simp, fun _ => rfl⟩
  | cons key keys ih =>
    cases key with
    | up =>
      obtain ⟨new, hsent, hnew, hconnect, hmode⟩ := ih { app with selected := app.selected - 1 }
      exact ⟨new, hsent, hnew,
        fun h => ⟨(hconnect h).1, List.mem_cons_of_mem _ (hconnect h).2.1, (hconnect h).2.2⟩, hmode⟩
    | down =>
      obtain ⟨new, hsent, hnew, hconnect, hmode⟩ :=
        ih { app with selected := min (app.selected + 1) (app.sessions.length - 1) }
      exact ⟨new, hsent, hnew,
        fun h => ⟨(hconnect h).1, List.mem_cons_of_mem _ (hconnect h).2.1, (hconnect h).2.2⟩, hmode⟩
    | refresh =>
      obtain ⟨new, hsent, hnew, hconnect, hmode⟩ := ih (app.send .list)
      refine ⟨.list :: new, ?_, ?_, fun h => ?_, fun h => ?_⟩
      · simpa [onListKeys, send] using hsent
      · intro msg hmsg
        rcases List.mem_cons.mp hmsg with rfl | hmsg
        · exact .inl rfl
        · exact hnew msg hmsg
      · obtain ⟨socket, hsocket⟩ := h
        have hold := hconnect ⟨socket, by simpa using hsocket⟩
        exact ⟨hold.1, List.mem_cons_of_mem _ hold.2.1, hold.2.2⟩
      · exact hmode fun socket hsocket => h socket (List.mem_cons_of_mem _ hsocket)
    | quit => exact ⟨[], by simp [onListKeys], List.forall_mem_nil _, by simp, fun _ => rfl⟩
    | enter =>
      unfold onListKeys
      cases hpicked : app.sessions[app.selected]? with
      | none =>
        obtain ⟨new, hsent, hnew, hconnect, hmode⟩ := ih app
        exact ⟨new, hsent, hnew,
          fun h => ⟨(hconnect h).1, List.mem_cons_of_mem _ (hconnect h).2.1, (hconnect h).2.2⟩,
          hmode⟩
      | some session =>
        obtain ⟨new, hsent, hnew, hconnect, hmode⟩ := ih { app.send (.connect session.socket) with
          status := "connecting to " ++ session.socket ++ "..."
          mode := .connecting }
        refine ⟨.connect session.socket :: new, ?_, ?_, fun _ => ⟨?_, List.mem_cons_self, ?_⟩,
          fun h => absurd List.mem_cons_self (h session.socket)⟩
        · simpa [send] using hsent
        · intro msg hmsg
          rcases List.mem_cons.mp hmsg with rfl | hmsg
          · exact .inr ⟨_, rfl⟩
          · exact hnew msg hmsg
        · by_cases hagain : ∃ socket, .connect socket ∈ new
          · exact (hconnect hagain).1
          · exact hmode fun socket hsocket => hagain ⟨socket, hsocket⟩
        · rintro hnone
          rw [hnone] at hpicked
          cases hpicked

theorem backToList_sent (app : ViewApp vt) : app.backToList.sent = app.sent ++ [.list] := by
  unfold backToList
  split <;> simp [send, write]

/-- A live client sends input, and leaves the list alone until it is detached. -/
theorem onKeys_live {app : ViewApp vt} {mirror : Mirror vt} (hm : app.mode = .live mirror)
    (base64 : Base64) (bytes : Bytes) :
    ∃ new, (app.onKeys base64 bytes).sent = app.sent ++ new ∧ ∀ socket, .connect socket ∉ new := by
  unfold onKeys
  simp only [hm]
  generalize splitKeys (some 4) bytes = keys
  obtain ⟨input, detach⟩ := keys
  have hrefresh : (if refreshKey ∈ input then app.write (render mirror.refreshScrollback)
      else app).sent = app.sent := by
    split_ifs <;> rfl
  dsimp only
  generalize (if refreshKey ∈ input then app.write (render mirror.refreshScrollback)
    else app) = refreshed at hrefresh ⊢
  split_ifs
  · exact ⟨[.unview, .disconnect, .list], by simp [backToList_sent, send, hrefresh], by simp⟩
  · exact ⟨[.input (base64.encode input), .unview, .disconnect, .list],
      by simp [backToList_sent, send, hrefresh], by simp⟩
  · exact ⟨[], by simp [hrefresh], by simp⟩
  · exact ⟨[.input (base64.encode input)], by simp [send, hrefresh], by simp⟩

/-- What the keys make a client do. Only a choice from the list connects. -/
theorem onKeys_moves (app : ViewApp vt) (base64 : Base64) (bytes : Bytes) :
    ∃ new, Moves app (app.onKeys base64 bytes) new ∧
      ∀ socket, .connect socket ∈ new → app.picks bytes = true := by
  cases hm : app.mode with
  | live mirror =>
    obtain ⟨new, hsent, hnew⟩ := onKeys_live hm base64 bytes
    refine ⟨new, ⟨hsent, fun socket h => absurd h (hnew socket), fun _ => ?_⟩,
      fun socket h => absurd h (hnew socket)⟩
    rw [hm]
    exact ⟨nofun, nofun⟩
  | list =>
    simp only [onKeys, hm]
    obtain ⟨new, hsent, hnew, hconnect, hmode⟩ := app.onListKeys_moves (parseListKeys 0 bytes)
    refine ⟨new, ⟨hsent, fun socket h => ⟨(hconnect ⟨socket, h⟩).1, fun hdisconnect => ?_⟩,
      fun h => ?_⟩, fun socket h => ?_⟩
    · rcases hnew _ hdisconnect with h' | ⟨_, h'⟩ <;> cases h'
    · have hkept := hmode fun socket hsocket => by cases h _ hsocket
      exact ⟨hkept.trans, hkept.trans⟩
    · obtain ⟨-, henter, hsessions⟩ := hconnect ⟨socket, h⟩
      simp [picks, hm, henter, hsessions]
  | connecting =>
    simp only [onKeys, hm]
    split_ifs
    · exact ⟨[.disconnect], .of_other rfl (by simp) (by simp), by simp⟩
    · exact ⟨[], .of_other (by simp) (by simp) (by simp), by simp⟩
  | awaitSnapshot =>
    simp only [onKeys, hm]
    split_ifs
    · exact ⟨[.disconnect], .of_other rfl (by simp) (by simp), by simp⟩
    · exact ⟨[], .of_other (by simp) (by simp) (by simp), by simp⟩
  | fetchingHistory f =>
    simp only [onKeys, hm]
    split_ifs
    · exact ⟨[.disconnect], .of_other rfl (by simp) (by simp), by simp⟩
    · exact ⟨[], .of_other (by simp) (by simp) (by simp), by simp⟩

/-- A step of the client, other than reading a message. -/
theorem step_moves {app app' : ViewApp vt} {e : Event} (he : ∀ text, e ≠ .text text)
    (h : app.step crates e = some app') :
    ∃ new, Moves app app' new ∧
      ∀ socket, .connect socket ∈ new → ∃ bytes, e = .keys bytes ∧ app.picks bytes = true := by
  cases e with
  | text text => exact absurd rfl (he text)
  | keys bytes =>
    unfold step at h
    dsimp only at h
    split at h
    · cases h
    · obtain rfl := Option.some.inj h
      obtain ⟨new, hmoves, hpicks⟩ := app.onKeys_moves crates.base64 bytes
      exact ⟨new, hmoves, fun socket hsocket => ⟨bytes, rfl, hpicks socket hsocket⟩⟩
  | winch size =>
    obtain rfl := Option.some.inj h
    refine ⟨[], ?_, by simp⟩
    unfold onWinch
    cases hm : app.mode with
    | live mirror => exact ⟨by simp [write], by simp, fun _ => by simp [hm]⟩
    | list => exact .of_other (by simp) (by simp) (by simp [hm])
    | connecting => exact .of_other (by simp) (by simp) (by simp [hm])
    | awaitSnapshot => exact .of_other (by simp) (by simp) (by simp [hm])
    | fetchingHistory f => exact .of_other (by simp) (by simp) (by simp [hm])
  | tick =>
    obtain rfl := Option.some.inj h
    unfold onTick
    cases hm : app.mode with
    | list => exact ⟨[.list], .of_other rfl (by simp) (fun _ => rfl), by simp⟩
    | live mirror => exact ⟨[], .of_other (by simp) (by simp) (by simp), by simp⟩
    | connecting => exact ⟨[], .of_other (by simp) (by simp) (by simp), by simp⟩
    | awaitSnapshot => exact ⟨[], .of_other (by simp) (by simp) (by simp), by simp⟩
    | fetchingHistory f => exact ⟨[], .of_other (by simp) (by simp) (by simp), by simp⟩

/-- Calm messages change neither the mode nor what was sent. -/
theorem onMessage_calm (app : ViewApp vt) (base64 : Base64) {item : Sent}
    (h : Gateway.IsCalm item) :
    (app.onMessage base64 (item.read crates)).mode = app.mode ∧
      (app.onMessage base64 (item.read crates)).sent = app.sent := by
  match item with
  | .ping => exact ⟨rfl, rfl⟩
  | .line _ => exact h.elim
  | .message (.disconnected _) => exact h.elim
  | .message (.error _) => exact h.elim
  | .message (.sessions _) => exact ⟨rfl, rfl⟩
  | .message (.launched _) => exact ⟨rfl, rfl⟩
  | .message (.detached ..) => exact ⟨rfl, rfl⟩
  | .message (.bell ..) => exact ⟨rfl, rfl⟩
  | .message (.activity ..) => exact ⟨rfl, rfl⟩
  | .message (.title ..) => exact ⟨rfl, rfl⟩

theorem isGreeting_of_calm {item : Sent} (h : Gateway.IsCalm item) :
    (item.read crates).isGreeting = false := by
  match item with
  | .ping => rfl
  | .line _ => exact h.elim
  | .message msg => cases msg <;> rfl

/-- A refusal brings a client that is connecting back to its list. -/
theorem onMessage_refusal {app : ViewApp vt} (base64 : Base64) {msg : FromServer}
    (hm : app.mode = .connecting) (hmsg : msg.isRefusal) :
    (app.onMessage base64 msg).mode = .list ∧
      (app.onMessage base64 msg).sent = app.sent ++ [.list] := by
  cases msg with
  | disconnected reason =>
    refine ⟨rfl, ?_⟩
    unfold onMessage
    dsimp only
    rw [backToList_sent]
    split_ifs <;> rfl
  | error message =>
    simp only [onMessage, hm]
    exact ⟨rfl, backToList_sent _⟩
  | _ => cases hmsg

/-- A greeting makes a client that is connecting go on to view the session. -/
theorem onMessage_greeting {app : ViewApp vt} (base64 : Base64) {msg : FromServer}
    (hm : app.mode = .connecting) (hmsg : msg.isGreeting) :
    (app.onMessage base64 msg).mode = .awaitSnapshot ∧
      (app.onMessage base64 msg).sent = app.sent ++ [.view] := by
  cases msg with
  | connect readonly oldest =>
    simp only [onMessage, hm]
    exact ⟨trivial, rfl⟩
  | _ => cases hmsg

/-- Reading a message never makes a client connect or disconnect. -/
theorem onMessage_sends (app : ViewApp vt) (base64 : Base64) (msg : FromServer) :
    ∃ new, (app.onMessage base64 msg).sent = app.sent ++ new ∧ .disconnect ∉ new ∧
      ∀ socket, .connect socket ∉ new := by
  have hnone {app' : ViewApp vt} (h : app'.sent = app.sent) :
      ∃ new, app'.sent = app.sent ++ new ∧ .disconnect ∉ new ∧ ∀ socket, .connect socket ∉ new :=
    ⟨[], by simpa using h, nofun, nofun⟩
  cases msg with
  | sessions sessions => exact hnone rfl
  | bell socket lastBellAt => exact hnone rfl
  | listTitle socket title => exact hnone rfl
  | exit status => exact hnone rfl
  | other => exact hnone rfl
  | title title =>
    unfold onMessage
    dsimp only
    split <;> exact hnone rfl
  | connect readonly oldest =>
    unfold onMessage
    dsimp only
    split
    · exact ⟨[.view], rfl, by simp, by simp⟩
    · exact hnone rfl
  | output bytes =>
    unfold onMessage
    dsimp only
    split <;> exact hnone rfl
  | historyLines lines =>
    unfold onMessage goLive
    cases hm : app.mode with
    | fetchingHistory f =>
      dsimp only
      split_ifs
      · exact hnone rfl
      · exact hnone (by simp [write])
    | list => exact hnone rfl
    | connecting => exact hnone rfl
    | awaitSnapshot => exact hnone rfl
    | live mirror => exact hnone rfl
  | disconnected reason =>
    refine ⟨[.list], ?_, by simp, by simp⟩
    unfold onMessage
    dsimp only
    rw [backToList_sent]
    split_ifs <;> rfl
  | error message =>
    unfold onMessage
    dsimp only
    split
    · exact hnone rfl
    · exact hnone rfl
    · exact ⟨[.list], backToList_sent _, by simp, by simp⟩
  | snapshot snapshot width height next =>
    unfold onMessage onSnapshot goLive
    cases hm : app.mode with
    | awaitSnapshot =>
      dsimp only
      split_ifs
      · exact ⟨[.history next], rfl, by simp, by simp⟩
      · exact hnone (by simp [write])
    | fetchingHistory f =>
      dsimp only
      split_ifs
      · exact ⟨[.history next], rfl, by simp, by simp⟩
      · exact hnone (by simp [write])
    | list => exact hnone rfl
    | connecting => exact hnone rfl
    | live mirror => exact hnone rfl

end ViewApp

namespace Gateway

variable {g g' : Gateway}

/-- Nothing is attached since the last reply to a disconnect. -/
structure Quiet (g : Gateway) : Prop where
  session : g.session = none
  opening : g.opening = none
  out : ∃ fresh older, g.out = fresh ++ requested :: older ∧ ∀ item ∈ fresh, IsCalm item

/-- Without a session only calm messages are sent. -/
theorem Quiet.stirs {a : Action} (hg : g.Quiet) (h : Stirs g g' a) : g'.Quiet := by
  obtain ⟨hsession, hopening, fresh, older, hout, hfresh⟩ := hg
  cases h with
  | calm ha hnew hsession' hopening' hout' =>
    rename_i new
    refine ⟨?_, hopening'.trans hopening, new ++ fresh, older, ?_, ?_⟩
    · rw [hsession] at hsession'
      simpa using hsession'
    · rw [hout', hout, List.append_assoc]
    · exact fun item hitem => (List.mem_append.mp hitem).elim (hnew item) (hfresh item)
  | line ha hopen => simp [hsession] at hopen
  | lost hreason hopen => simp [hsession] at hopen
  | opened ha hopening' => simp [hopening] at hopening'
  | failed hopening' => simp [hopening] at hopening'

/-- A request for the list changes no connection. -/
theorem Quiet.list (hg : g.Quiet) (h : Serves g g' .list) : g'.Quiet := by
  obtain ⟨hsession, hopening, fresh, older, hout, hfresh⟩ := hg
  cases h with
  | list hsession' hopening' hout' =>
    rename_i infos
    refine ⟨hsession'.trans hsession, hopening', .message (.sessions infos) :: fresh, older, ?_, ?_⟩
    · rw [hout', hout, List.cons_append]
    · exact List.forall_mem_cons.mpr ⟨trivial, hfresh⟩
  | forwarded hmsg => cases hmsg
  | error hmsg => cases hmsg

theorem requested_not_calm : ¬IsCalm requested := id

/-- Replies to a disconnect come only from handling one. -/
theorem Stirs.grows {a : Action} (h : Stirs g g' a) :
    ∃ new, g'.out = new ++ g.out ∧ new.count requested = 0 := by
  cases h with
  | calm ha hnew hsession hopening hout =>
    exact ⟨_, hout, List.count_eq_zero.mpr fun h => requested_not_calm (hnew _ h)⟩
  | line ha hopen hopening hsession hopening' hout =>
    exact ⟨[_], hout, by simp [requested]⟩
  | lost hreason hopen hopening hsession hopening' hout =>
    refine ⟨[_], hout, List.count_eq_zero.mpr fun h => ?_⟩
    simp [requested, hreason.symm] at h
  | opened ha hopening hsession hopening' hout => exact ⟨[], hout, rfl⟩
  | failed hopening hsession hopening' hout => exact ⟨[_], hout, by simp [requested]⟩

theorem count_of_isForSession {msg : ViewMessage} (h : msg.isForSession) :
    [msg].count .disconnect = 0 := by
  cases msg with
  | disconnect => cases h
  | _ => rfl

/-- Each disconnect is answered when it is handled. -/
theorem Serves.grows {msg : ViewMessage} (h : Serves g g' msg) :
    ∃ new, g'.out = new ++ g.out ∧ new.count requested = [msg].count .disconnect := by
  cases h with
  | list hsession hopening hout => exact ⟨[_], hout, by simp [requested]⟩
  | connecting hsession hopening hout => exact ⟨[], hout, by simp⟩
  | refused hsession hopening hout => exact ⟨[_], hout, by simp [requested]⟩
  | disconnect hsession hopening hout => exact ⟨[_], hout, by simp⟩
  | forwarded hmsg hout =>
    have hother : [msg].count .disconnect = 0 := count_of_isForSession hmsg
    exact ⟨[], hout, by simp [hother]⟩
  | error hmsg hout =>
    have hother : [msg].count .disconnect = 0 := count_of_isForSession hmsg
    exact ⟨[_], hout, by simp [hother, requested]⟩

end Gateway

namespace Link

/-- A session was chosen after a disconnect, and besides, the client only asked for the list
since then. -/
structure Chosen (sent : List ViewMessage) (d c : ℕ) : Prop where
  lt : d < c
  disconnect : sent[d]? = some .disconnect
  connect : ∃ socket, sent[c]? = some (.connect socket)
  rest : ∀ i msg, d < i → i ≠ c → sent[i]? = some msg → msg = .list

/-- No reply to a disconnect cancels a newer attach. -/
structure AttachKept (crates : ViewCrates) (s : Link vt) : Prop where
  /-- The next message answers a disconnect, after which no session was chosen. -/
  reply : s.unread.head? = some requested → ∃ d, s.app.sent[d]? = some .disconnect ∧
    (s.app.sent.take d).count .disconnect = s.answered ∧
    ∀ c socket, s.app.sent[c]? = some (.connect socket) → c < d
  /-- The next message is the greeting of a session chosen after a disconnect. -/
  greeting : ∀ d c item, Chosen s.app.sent d c → s.unread.head? = some item →
    (item.read crates).isGreeting → s.app.mode = .connecting ∧
      (s.app.onMessage crates.base64 (item.read crates)).mode = .awaitSnapshot ∧
      (s.app.onMessage crates.base64 (item.read crates)).sent = s.app.sent ++ [.view]

/-- A session is chosen only when every disconnect has been answered. -/
def Answered (s : Link vt) : Action → Prop
  | .client (.keys bytes) => s.app.picks bytes = true → s.answered = s.app.sent.count .disconnect
  | _ => True

instance (s : Link vt) : (a : Action) → Decidable (Answered s a)
  | .client (.keys bytes) =>
    inferInstanceAs (Decidable (s.app.picks bytes = true →
      s.answered = s.app.sent.count .disconnect))
  | .client (.text _) => isTrue trivial
  | .client (.winch _) => isTrue trivial
  | .client .tick => isTrue trivial
  | .read => isTrue trivial
  | .serve _ _ => isTrue trivial
  | .server _ => isTrue trivial

/-- The server has handled a disconnect and since then only requests for the list. -/
structure Detached (sent : List ViewMessage) (handled d : ℕ) : Prop where
  lt : d < handled
  disconnect : sent[d]? = some .disconnect
  rest : ∀ i msg, d < i → i < handled → sent[i]? = some msg → msg = .list

/-- How far the attach to the session has come whose `connect` has this index. -/
inductive Attaching (crates : ViewCrates) (s : Link vt) (c : ℕ) : Prop
  | waiting (hc : s.handled ≤ c) (hm : s.app.mode = .connecting)
  | opening (hc : c < s.handled) (hm : s.app.mode = .connecting)
      (hcalm : ∀ item ∈ s.unread, Gateway.IsCalm item) (hsession : s.gateway.session = none)
      (hopening : s.gateway.opening.isSome)
  | opened (hc : c < s.handled) (hm : s.app.mode = .connecting)
      (hcalm : ∀ item ∈ s.unread, Gateway.IsCalm item) (hsession : s.gateway.session.isSome)
      (hopening : s.gateway.opening = none) (hgreeted : s.greeted = false)
  | greeted {early later : List Sent} {item : Sent} (hc : c < s.handled)
      (hm : s.app.mode = .connecting) (hunread : s.unread = early ++ item :: later)
      (hearly : ∀ item ∈ early, Gateway.IsCalm item) (hitem : (item.read crates).isGreeting)
  | refused {early later : List Sent} {item : Sent} (hc : c < s.handled)
      (hm : s.app.mode = .connecting) (hunread : s.unread = early ++ item :: later)
      (hearly : ∀ item ∈ early, Gateway.IsCalm item) (hitem : (item.read crates).isRefusal)
      (hlater : ∀ item ∈ later, Gateway.IsCalm item) (hsession : s.gateway.session = none)
      (hopening : s.gateway.opening = none)
  | failed (hc : c < s.handled) (hm : s.app.mode = .list)
      (hcalm : ∀ item ∈ s.unread, Gateway.IsCalm item) (hsession : s.gateway.session = none)
      (hopening : s.gateway.opening = none)

/-- The invariant of a client whose choices follow the answers to its disconnects. -/
structure Sound (crates : ViewCrates) (s : Link vt) : Prop where
  read_le : s.read ≤ s.gateway.out.length
  handled_le : s.handled ≤ s.app.sent.length
  told : s.gateway.Told
  replies : s.gateway.out.count requested = (s.app.sent.take s.handled).count .disconnect
  older : ∀ c socket, s.app.sent[c]? = some (.connect socket) →
    (s.app.sent.take c).count .disconnect ≤ s.answered
  detached : ∀ d, Detached s.app.sent s.handled d → s.gateway.Quiet
  chosen : ∀ d c, Chosen s.app.sent d c → Attaching crates s c

variable {s s' : Link vt}

theorem count_take_le {sent : List ViewMessage} {i j : ℕ} (h : i ≤ j) :
    (sent.take i).count .disconnect ≤ (sent.take j).count .disconnect :=
  (List.take_sublist_take_left h).count_le _

/-- Up to and with a disconnect, there is one more of them. -/
theorem count_take_disconnect {sent : List ViewMessage} {d : ℕ} (h : sent[d]? = some .disconnect) :
    (sent.take (d + 1)).count .disconnect = (sent.take d).count .disconnect + 1 := by
  rw [List.take_add_one, h, List.count_append]
  rfl

/-- No disconnect was sent since the session was chosen. -/
theorem Chosen.count_take {sent : List ViewMessage} {d c : ℕ} (h : Chosen sent d c) :
    (sent.take c).count .disconnect = sent.count .disconnect := by
  have hnone : (sent.drop c).count .disconnect = 0 := by
    refine List.count_eq_zero.mpr fun hmem => ?_
    obtain ⟨i, hi⟩ := List.mem_iff_getElem?.mp hmem
    rw [List.getElem?_drop] at hi
    obtain ⟨socket, hsocket⟩ := h.connect
    by_cases hzero : i = 0
    · rw [hzero, Nat.add_zero, hsocket] at hi
      cases hi
    · have hlt := h.lt
      cases h.rest (c + i) _ (by omega) (by omega) hi
  conv_rhs => rw [← List.take_append_drop c sent]
  rw [List.count_append, hnone, Nat.add_zero]

/-- What the server sends is appended to what the client has not read. -/
theorem unread_grow {gateway : Gateway} {handled : ℕ} {greeted : Bool} {new : List Sent}
    (hread : s.read ≤ s.gateway.out.length) (hout : gateway.out = new ++ s.gateway.out) :
    unread { s with gateway := gateway, handled := handled, greeted := greeted } =
      s.unread ++ new.reverse := by
  have hlen : s.read ≤ s.gateway.out.reverse.length := by simpa using hread
  unfold unread
  rw [hout, List.reverse_append, List.drop_append_of_le_length hlen]

/-- What the server sends is not read at once. -/
theorem answered_grow {gateway : Gateway} {handled : ℕ} {greeted : Bool} {new : List Sent}
    (hread : s.read ≤ s.gateway.out.length) (hout : gateway.out = new ++ s.gateway.out) :
    answered { s with gateway := gateway, handled := handled, greeted := greeted } =
      s.answered := by
  have hlen : s.read ≤ s.gateway.out.reverse.length := by simpa using hread
  unfold answered
  rw [hout, List.reverse_append, List.take_append_of_le_length hlen]

/-- Replies that were read, and replies that were not. -/
theorem answered_add (s : Link vt) :
    s.answered + s.unread.count requested = s.gateway.out.count requested := by
  unfold answered unread
  rw [← List.count_append, List.take_append_drop, List.count_reverse]

/-- Once every reply was read, what is unread came after the last one. -/
theorem calm_of_quiet (hquiet : s.gateway.Quiet) (hread : s.unread.count requested = 0) :
    ∀ item ∈ s.unread, Gateway.IsCalm item := by
  obtain ⟨fresh, older, hout, hfresh⟩ := hquiet.out
  have hnone : requested ∉ s.unread := List.count_eq_zero.mp hread
  have hunread : s.unread <:+ s.gateway.out.reverse := List.drop_suffix _ _
  have hsince : requested :: fresh.reverse <:+ s.gateway.out.reverse :=
    ⟨older.reverse, by simp [hout]⟩
  rcases List.suffix_or_suffix_of_suffix hunread hsince with hsuffix | hsuffix
  · rcases List.suffix_cons_iff.mp hsuffix with heq | hfresh'
    · exact absurd (heq ▸ List.mem_cons_self) hnone
    · exact fun item hitem => hfresh item (List.mem_reverse.mp (hfresh'.subset hitem))
  · exact absurd (hsuffix.subset List.mem_cons_self) hnone

/-- When a session was chosen after a disconnect, every reply has been read. -/
theorem Sound.settled (hs : s.Sound crates) {d c : ℕ} (hchosen : Chosen s.app.sent d c) :
    d < s.handled ∧ s.unread.count requested = 0 := by
  obtain ⟨socket, hsocket⟩ := hchosen.connect
  have holder := hs.older c socket hsocket
  have hreplies := hs.replies
  have hsplit := s.answered_add
  have hlast := count_take_disconnect hchosen.disconnect
  have hbefore : (s.app.sent.take (d + 1)).count .disconnect ≤
      (s.app.sent.take c).count .disconnect := count_take_le hchosen.lt
  have hall : (s.app.sent.take s.handled).count .disconnect ≤ s.app.sent.count .disconnect :=
    (List.take_sublist _ _).count_le _
  rw [← hchosen.count_take] at hall
  refine ⟨?_, by omega⟩
  by_contra hlt
  have hle : (s.app.sent.take s.handled).count .disconnect ≤
      (s.app.sent.take d).count .disconnect := count_take_le (by omega)
  omega

/-- While the choice is on its way to the server, the server has nothing attached. -/
theorem Sound.quiet (hs : s.Sound crates) {d c : ℕ} (hchosen : Chosen s.app.sent d c)
    (hc : s.handled ≤ c) : s.gateway.Quiet := by
  refine hs.detached d ⟨(hs.settled hchosen).1, hchosen.disconnect, fun i msg hd hi hmsg => ?_⟩
  exact hchosen.rest i msg hd (by omega) hmsg

/-- The disconnect that the next reply answers. -/
theorem exists_unanswered {sent : List ViewMessage} {n k : ℕ}
    (h : n < (sent.take k).count .disconnect) :
    ∃ d, sent[d]? = some .disconnect ∧ (sent.take d).count .disconnect = n := by
  induction k with
  | zero => simp at h
  | succ k ih =>
    by_cases hk : n < (sent.take k).count .disconnect
    · exact ih hk
    · rw [List.take_add_one, List.count_append] at h
      cases hmsg : sent[k]? with
      | none =>
        simp only [hmsg, Option.toList_none, List.count_nil] at h
        omega
      | some msg =>
        simp only [hmsg, Option.toList_some, List.count_singleton] at h
        split_ifs at h with heq
        · obtain rfl : msg = .disconnect := by simpa using heq
          exact ⟨k, hmsg, by omega⟩
        · omega

/-- In every state of the invariant, no late reply cancels a newer attach. -/
theorem Sound.attachKept (hs : s.Sound crates) : s.AttachKept crates := by
  refine ⟨fun hreply => ?_, fun d c item hchosen hitem hgreeting => ?_⟩
  · have hunread : 0 < s.unread.count requested :=
      List.count_pos_iff.mpr (List.mem_of_mem_head? hreply)
    have hsplit := s.answered_add
    have hreplies := hs.replies
    obtain ⟨d, hd, hcount⟩ := @exists_unanswered s.app.sent s.answered s.handled (by omega)
    refine ⟨d, hd, hcount, fun c socket hc => ?_⟩
    have holder := hs.older c socket hc
    by_contra hle
    obtain rfl | hlt : d = c ∨ d < c := by omega
    · rw [hd] at hc
      cases hc
    · have hlast := count_take_disconnect hd
      have hbefore : (s.app.sent.take (d + 1)).count .disconnect ≤
          (s.app.sent.take c).count .disconnect := count_take_le hlt
      omega
  · have hgoes (hm : s.app.mode = .connecting) :=
      ViewApp.onMessage_greeting crates.base64 hm hgreeting
    cases hs.chosen d c hchosen with
    | waiting hc hm => exact ⟨hm, hgoes hm⟩
    | opening hc hm => exact ⟨hm, hgoes hm⟩
    | opened hc hm => exact ⟨hm, hgoes hm⟩
    | greeted hc hm => exact ⟨hm, hgoes hm⟩
    | refused hc hm => exact ⟨hm, hgoes hm⟩
    | failed hc hm hcalm =>
      have hmem := List.mem_of_mem_head? hitem
      rw [ViewApp.isGreeting_of_calm (hcalm item hmem)] at hgreeting
      cases hgreeting

/-- A choice that still stands after more was sent, or was made with it. -/
theorem Chosen.of_append {sent new : List ViewMessage} {d c : ℕ} (h : Chosen (sent ++ new) d c) :
    (c < sent.length ∧ Chosen sent d c ∧ ∀ msg ∈ new, msg = .list) ∨
      (sent.length ≤ c ∧ ∃ socket, .connect socket ∈ new) := by
  obtain ⟨hlt, hdisconnect, ⟨socket, hconnect⟩, hrest⟩ := h
  by_cases hc : c < sent.length
  · rw [List.getElem?_append_left (by omega)] at hdisconnect hconnect
    refine .inl ⟨hc, ⟨hlt, hdisconnect, ⟨socket, hconnect⟩, fun i msg hd hi hmsg => ?_⟩,
      fun msg hmsg => ?_⟩
    · have hlen := (List.getElem?_eq_some_iff.mp hmsg).1
      exact hrest i msg hd hi (by rw [List.getElem?_append_left hlen, hmsg])
    · obtain ⟨i, hi⟩ := List.mem_iff_getElem?.mp hmsg
      refine hrest (sent.length + i) msg (by omega) (by omega) ?_
      rw [List.getElem?_append_right (by omega), Nat.add_sub_cancel_left, hi]
  · rw [List.getElem?_append_right (by omega)] at hconnect
    exact .inr ⟨by omega, socket, List.mem_of_getElem? hconnect⟩

/-- What was sent since does not matter to what the server has handled. -/
theorem Detached.of_append {sent new : List ViewMessage} {handled d : ℕ}
    (hle : handled ≤ sent.length) (h : Detached (sent ++ new) handled d) :
    Detached sent handled d := by
  obtain ⟨hlt, hdisconnect, hrest⟩ := h
  rw [List.getElem?_append_left (by omega)] at hdisconnect
  refine ⟨hlt, hdisconnect, fun i msg hd hi hmsg => hrest i msg hd hi ?_⟩
  rw [List.getElem?_append_left (by omega), hmsg]

/-- The client may ask for the list at any time. -/
theorem Attaching.client {app : ViewApp vt} {c : ℕ} (h : Attaching crates s c)
    (hstays : (s.app.mode = .connecting → app.mode = .connecting) ∧
      (s.app.mode = .list → app.mode = .list)) : Attaching crates { s with app := app } c := by
  cases h with
  | waiting hc hm => exact .waiting hc (hstays.1 hm)
  | opening hc hm hcalm hsession hopening => exact .opening hc (hstays.1 hm) hcalm hsession hopening
  | opened hc hm hcalm hsession hopening hgreeted =>
    exact .opened hc (hstays.1 hm) hcalm hsession hopening hgreeted
  | greeted hc hm hunread hearly hitem => exact .greeted hc (hstays.1 hm) hunread hearly hitem
  | refused hc hm hunread hearly hitem hlater hsession hopening =>
    exact .refused hc (hstays.1 hm) hunread hearly hitem hlater hsession hopening
  | failed hc hm hcalm hsession hopening => exact .failed hc (hstays.2 hm) hcalm hsession hopening

/-- A step of the client, which chooses sessions only when it may. -/
theorem Sound.client {app : ViewApp vt} {new : List ViewMessage} (hs : s.Sound crates)
    (hmoves : ViewApp.Moves s.app app new)
    (hchoice : ∀ socket, .connect socket ∈ new → s.answered = s.app.sent.count .disconnect) :
    Sound crates { s with app := app } := by
  have hhandled := hs.handled_le
  refine ⟨hs.read_le, ?_, hs.told, ?_, fun c socket hc => ?_, fun d hd => ?_, fun d c hc => ?_⟩
  · rw [hmoves.sent, List.length_append]
    exact Nat.le_add_right_of_le hhandled
  · rw [hmoves.sent, List.take_append_of_le_length hhandled]
    exact hs.replies
  · change app.sent[c]? = _ at hc
    change (app.sent.take c).count .disconnect ≤ s.answered
    rw [hmoves.sent] at hc ⊢
    by_cases hlen : c < s.app.sent.length
    · rw [List.getElem?_append_left hlen] at hc
      rw [List.take_append_of_le_length hlen.le]
      exact hs.older c socket hc
    · rw [List.getElem?_append_right (by omega)] at hc
      have hmem := List.mem_of_getElem? hc
      have hnone := List.count_eq_zero.mpr (hmoves.connects socket hmem).2
      calc ((s.app.sent ++ new).take c).count .disconnect
          ≤ (s.app.sent ++ new).count .disconnect := (List.take_sublist _ _).count_le _
        _ = s.app.sent.count .disconnect := by rw [List.count_append, hnone, Nat.add_zero]
        _ = s.answered := (hchoice socket hmem).symm
        _ ≤ s.answered := le_rfl
  · change Detached app.sent s.handled d at hd
    rw [hmoves.sent] at hd
    exact hs.detached d (hd.of_append hhandled)
  · change Chosen app.sent d c at hc
    rw [hmoves.sent] at hc
    rcases hc.of_append with ⟨-, hchosen, hnew⟩ | ⟨hlen, socket, hsocket⟩
    · exact (hs.chosen d c hchosen).client (hmoves.stays hnew)
    · exact .waiting (hhandled.trans hlen) (hmoves.connects socket hsocket).1

/-- The state after the client has read a message. -/
def received (crates : ViewCrates) (s : Link vt) (item : Sent) : Link vt :=
  { s with app := s.app.onMessage crates.base64 (item.read crates), read := s.read + 1 }

theorem received_unread {item : Sent} {rest : List Sent} (h : s.unread = item :: rest) :
    (s.received crates item).unread = rest := by
  unfold unread at h
  change s.gateway.out.reverse.drop (s.read + 1) = rest
  rw [← List.tail_drop, h, List.tail_cons]

/-- The client goes on attaching until it has read the session's greeting. -/
theorem Attaching.read {c : ℕ} {item : Sent} {rest : List Sent} (h : Attaching crates s c)
    (hunread : s.unread = item :: rest) (hwaiting : s.handled ≤ c → Gateway.IsCalm item)
    (hgreeting : s.app.mode = .connecting → (item.read crates).isGreeting = false) :
    Attaching crates (s.received crates item) c := by
  have hrest : (s.received crates item).unread = rest := received_unread hunread
  have hcalm (hitem : Gateway.IsCalm item) : (s.received crates item).app.mode = s.app.mode :=
    (ViewApp.onMessage_calm s.app crates.base64 hitem).1
  have hhead (hall : ∀ other ∈ s.unread, Gateway.IsCalm other) : Gateway.IsCalm item ∧
      ∀ other ∈ (s.received crates item).unread, Gateway.IsCalm other := by
    rw [hunread] at hall
    rw [hrest]
    exact List.forall_mem_cons.mp hall
  cases h with
  | waiting hc hm => exact .waiting hc ((hcalm (hwaiting hc)).trans hm)
  | opening hc hm hall hsession hopening =>
    obtain ⟨hitem, hall'⟩ := hhead hall
    exact .opening hc ((hcalm hitem).trans hm) hall' hsession hopening
  | opened hc hm hall hsession hopening hgreeted =>
    obtain ⟨hitem, hall'⟩ := hhead hall
    exact .opened hc ((hcalm hitem).trans hm) hall' hsession hopening hgreeted
  | failed hc hm hall hsession hopening =>
    obtain ⟨hitem, hall'⟩ := hhead hall
    exact .failed hc ((hcalm hitem).trans hm) hall' hsession hopening
  | @greeted early later next hc hm hsplit hearly hnext =>
    rw [hunread] at hsplit
    cases early with
    | nil =>
      obtain ⟨rfl, -⟩ := List.cons.inj hsplit
      rw [hgreeting hm] at hnext
      cases hnext
    | cons first early =>
      obtain ⟨rfl, htail⟩ := List.cons.inj hsplit
      obtain ⟨hitem, hearly'⟩ := List.forall_mem_cons.mp hearly
      exact .greeted hc ((hcalm hitem).trans hm) (hrest.trans htail) hearly' hnext
  | @refused early later next hc hm hsplit hearly hnext hlater hsession hopening =>
    rw [hunread] at hsplit
    cases early with
    | nil =>
      obtain ⟨rfl, htail⟩ := List.cons.inj hsplit
      have hlist := (ViewApp.onMessage_refusal crates.base64 hm hnext).1
      exact .failed hc hlist ((hrest.trans htail) ▸ hlater) hsession hopening
    | cons first early =>
      obtain ⟨rfl, htail⟩ := List.cons.inj hsplit
      obtain ⟨hitem, hearly'⟩ := List.forall_mem_cons.mp hearly
      exact .refused hc ((hcalm hitem).trans hm) (hrest.trans htail) hearly' hnext hlater hsession
        hopening

/-- The client reads its next message. -/
theorem Sound.read {item : Sent} {rest : List Sent} (hs : s.Sound crates)
    (hunread : s.unread = item :: rest) : (s.received crates item).Sound crates := by
  obtain ⟨new, hsent, hdisconnect, hconnect⟩ :=
    ViewApp.onMessage_sends s.app crates.base64 (item.read crates)
  have hhandled := hs.handled_le
  have hread : s.read < s.gateway.out.length := by
    have hlen : s.unread.length = s.gateway.out.length - s.read := by simp [unread]
    rw [hunread, List.length_cons] at hlen
    omega
  have hanswered : s.answered ≤ (s.received crates item).answered :=
    (List.take_sublist_take_left (Nat.le_succ _)).count_le _
  refine ⟨hread, ?_, hs.told, ?_, fun c socket hc => ?_, fun d hd => ?_, fun d c hc => ?_⟩
  · change s.handled ≤ (s.app.onMessage _ _).sent.length
    rw [hsent, List.length_append]
    exact Nat.le_add_right_of_le hhandled
  · change _ = ((s.app.onMessage _ _).sent.take s.handled).count _
    rw [hsent, List.take_append_of_le_length hhandled]
    exact hs.replies
  · change (s.app.onMessage _ _).sent[c]? = _ at hc
    change ((s.app.onMessage _ _).sent.take c).count _ ≤ _
    rw [hsent] at hc ⊢
    by_cases hlen : c < s.app.sent.length
    · rw [List.getElem?_append_left hlen] at hc
      rw [List.take_append_of_le_length hlen.le]
      exact (hs.older c socket hc).trans hanswered
    · rw [List.getElem?_append_right (by omega)] at hc
      exact absurd (List.mem_of_getElem? hc) (hconnect socket)
  · change Detached (s.app.onMessage _ _).sent s.handled d at hd
    rw [hsent] at hd
    exact hs.detached d (hd.of_append hhandled)
  · change Chosen (s.app.onMessage _ _).sent d c at hc
    rw [hsent] at hc
    rcases hc.of_append with ⟨-, hchosen, hnew⟩ | ⟨-, socket, hsocket⟩
    · refine (hs.chosen d c hchosen).read hunread (fun hwaiting => ?_) (fun hm => ?_)
      · have hall := calm_of_quiet (hs.quiet hchosen hwaiting) (hs.settled hchosen).2
        exact hall item (hunread ▸ List.mem_cons_self)
      · by_contra hgreeting
        rw [Bool.not_eq_false] at hgreeting
        have hview := (ViewApp.onMessage_greeting crates.base64 hm hgreeting).2
        obtain rfl := List.append_cancel_left (hsent.symm.trans hview)
        cases hnew .view List.mem_cons_self
    · exact absurd hsocket (hconnect socket)

theorem forall_calm_append {early new : List Sent} (hearly : ∀ item ∈ early, Gateway.IsCalm item)
    (hnew : ∀ item ∈ new, Gateway.IsCalm item) :
    ∀ item ∈ early ++ new.reverse, Gateway.IsCalm item := by
  intro item hitem
  rcases List.mem_append.mp hitem with h | h
  · exact hearly item h
  · exact hnew item (List.mem_reverse.mp h)

/-- The server handles the client's next message. -/
theorem Attaching.serve {d c : ℕ} {msg : ViewMessage} {gateway : Gateway}
    (h : Attaching crates s c) (hread : s.read ≤ s.gateway.out.length)
    (hchosen : Chosen s.app.sent d c) (hd : d < s.handled)
    (hquiet : s.handled ≤ c → s.gateway.session = none ∧ ∀ item ∈ s.unread, Gateway.IsCalm item)
    (hmsg : s.app.sent[s.handled]? = some msg) (hidle : s.gateway.opening = none)
    (hserves : Gateway.Serves s.gateway gateway msg) :
    Attaching crates { s with gateway := gateway, handled := s.handled + 1 } c := by
  have hlist (hc : c < s.handled) : ∃ infos, gateway.session = s.gateway.session ∧
      gateway.opening = none ∧ gateway.out = [.message (.sessions infos)] ++ s.gateway.out := by
    obtain rfl := hchosen.rest s.handled msg hd hc.ne' hmsg
    cases hserves with
    | list hsession hopening hout => exact ⟨_, hsession, hopening, hout⟩
    | forwarded hforward => cases hforward
    | error hforward => cases hforward
  have hsessions (infos : List SessionInfo) :
      ∀ item ∈ [Sent.message (.sessions infos)], Gateway.IsCalm item := by simp [Gateway.IsCalm]
  have hgrow {new : List Sent} (hout : gateway.out = new ++ s.gateway.out) :
      unread { s with gateway := gateway, handled := s.handled + 1 } = s.unread ++ new.reverse :=
    unread_grow hread hout
  cases h with
  | waiting hc hm =>
    obtain hlt | heq := hc.lt_or_eq
    · exact .waiting hlt hm
    obtain ⟨hsession, hcalm⟩ := hquiet hc
    obtain ⟨socket, hsocket⟩ := hchosen.connect
    have hnow : c < s.handled + 1 := by omega
    rw [heq, hsocket] at hmsg
    obtain rfl := Option.some.inj hmsg
    cases hserves with
    | connecting hsession' hopening' hout =>
      have hunread := @hgrow [] hout
      rw [List.reverse_nil, List.append_nil] at hunread
      exact .opening hnow hm (hunread ▸ hcalm) (hsession'.trans hsession) hopening'
    | refused hsession' hopening' hout =>
      exact .refused hnow hm (@hgrow [_] hout) hcalm rfl (List.forall_mem_nil _)
        (hsession'.trans hsession) hopening'
    | forwarded hforward => cases hforward
    | error hforward => cases hforward
  | opening hc hm hcalm hsession hopening =>
    rw [hidle] at hopening
    cases hopening
  | opened hc hm hcalm hsession hopening hgreeted =>
    obtain ⟨infos, hsession', hopening', hout⟩ := hlist hc
    have hcalm' := forall_calm_append hcalm (hsessions infos)
    exact .opened (hc.trans (Nat.lt_succ_self _)) hm (hgrow hout ▸ hcalm') (hsession' ▸ hsession)
      hopening' hgreeted
  | greeted hc hm hunread hearly hitem =>
    obtain ⟨infos, hsession', hopening', hout⟩ := hlist hc
    have hunread' := hgrow hout
    rw [hunread, List.append_assoc, List.cons_append] at hunread'
    exact .greeted (hc.trans (Nat.lt_succ_self _)) hm hunread' hearly hitem
  | refused hc hm hunread hearly hitem hlater hsession hopening =>
    obtain ⟨infos, hsession', hopening', hout⟩ := hlist hc
    have hunread' := hgrow hout
    rw [hunread, List.append_assoc, List.cons_append] at hunread'
    exact .refused (hc.trans (Nat.lt_succ_self _)) hm hunread' hearly hitem
      (forall_calm_append hlater (hsessions infos)) (hsession'.trans hsession) hopening'
  | failed hc hm hcalm hsession hopening =>
    obtain ⟨infos, hsession', hopening', hout⟩ := hlist hc
    have hcalm' := forall_calm_append hcalm (hsessions infos)
    exact .failed (hc.trans (Nat.lt_succ_self _)) hm (hgrow hout ▸ hcalm')
      (hsession'.trans hsession) hopening'

/-- Any other step of the server's tasks. -/
theorem Attaching.server {c : ℕ} {a : Gateway.Action} {gateway : Gateway}
    (h : Attaching crates s c) (hread : s.read ≤ s.gateway.out.length)
    (hsaid : ∀ line, a = .sessionLine line → saidBySession crates s.greeted line)
    (hstirs : Gateway.Stirs s.gateway gateway a) :
    Attaching crates { s with gateway := gateway, greeted := greetedAfter s.greeted a } c := by
  have hgrow {new : List Sent} (hout : gateway.out = new ++ s.gateway.out) :
      unread { s with gateway := gateway, greeted := greetedAfter s.greeted a } =
        s.unread ++ new.reverse := unread_grow hread hout
  cases h with
  | waiting hc hm => exact .waiting hc hm
  | opening hc hm hcalm hsession hopening =>
    cases hstirs with
    | calm ha hnew hsession' hopening' hout =>
      have hnone : gateway.session = none := by simpa [hsession] using hsession'
      have hcalm' := forall_calm_append hcalm hnew
      exact .opening hc hm (hgrow hout ▸ hcalm') hnone (hopening' ▸ hopening)
    | line ha hopen => simp [hsession] at hopen
    | lost hreason hopen => simp [hsession] at hopen
    | opened ha hopening' hsession' hnone hout =>
      have hunread := @hgrow [] hout
      rw [List.reverse_nil, List.append_nil] at hunread
      exact .opened hc hm (hunread ▸ hcalm) hsession' hnone (by rw [ha]; rfl)
    | failed hopening' hsession' hnone hout =>
      exact .refused hc hm (@hgrow [_] hout) hcalm rfl (List.forall_mem_nil _)
        (hsession'.trans hsession) hnone
  | opened hc hm hcalm hsession hopening hgreeted =>
    cases hstirs with
    | calm ha hnew hsession' hopening' hout =>
      have hcalm' := forall_calm_append hcalm hnew
      refine .opened hc hm (hgrow hout ▸ hcalm') (hsession' ▸ hsession)
        (hopening'.trans hopening) ?_
      cases a with
      | sessionLine line => exact absurd rfl (ha line)
      | opened result => rfl
      | _ => exact hgreeted
    | @line line ha hopen hopening' hsession' hnone hout =>
      have hsays := hsaid line ha
      unfold saidBySession at hsays
      rw [hgreeted, Bool.and_eq_true, decide_eq_true_eq] at hsays
      exact .greeted hc hm (@hgrow [_] hout) hcalm hsays.1
    | lost hreason hopen hopening' hsession' hnone hout =>
      exact .refused hc hm (@hgrow [_] hout) hcalm rfl (List.forall_mem_nil _) hsession'
        hnone
    | opened ha hopening' => simp [hopening] at hopening'
    | failed hopening' => simp [hopening] at hopening'
  | greeted hc hm hunread hearly hitem =>
    obtain ⟨new, hout, -⟩ := hstirs.grows
    have hunread' := hgrow hout
    rw [hunread, List.append_assoc, List.cons_append] at hunread'
    exact .greeted hc hm hunread' hearly hitem
  | refused hc hm hunread hearly hitem hlater hsession hopening =>
    cases hstirs with
    | calm ha hnew hsession' hopening' hout =>
      have hunread' := hgrow hout
      rw [hunread, List.append_assoc, List.cons_append] at hunread'
      have hnone : gateway.session = none := by simpa [hsession] using hsession'
      exact .refused hc hm hunread' hearly hitem (forall_calm_append hlater hnew) hnone
        (hopening'.trans hopening)
    | line ha hopen => simp [hsession] at hopen
    | lost hreason hopen => simp [hsession] at hopen
    | opened ha hopening' => simp [hopening] at hopening'
    | failed hopening' => simp [hopening] at hopening'
  | failed hc hm hcalm hsession hopening =>
    cases hstirs with
    | calm ha hnew hsession' hopening' hout =>
      have hnone : gateway.session = none := by simpa [hsession] using hsession'
      have hcalm' := forall_calm_append hcalm hnew
      exact .failed hc hm (hgrow hout ▸ hcalm') hnone (hopening'.trans hopening)
    | line ha hopen => simp [hsession] at hopen
    | lost hreason hopen => simp [hsession] at hopen
    | opened ha hopening' => simp [hopening] at hopening'
    | failed hopening' => simp [hopening] at hopening'

theorem Sound.serve {msg : ViewMessage} {gateway : Gateway} (hs : s.Sound crates)
    (hmsg : s.app.sent[s.handled]? = some msg) (hidle : s.gateway.opening = none)
    (hserves : Gateway.Serves s.gateway gateway msg) (htold : gateway.Told) :
    Sound crates { s with gateway := gateway, handled := s.handled + 1 } := by
  obtain ⟨new, hout, hnew⟩ := hserves.grows
  have hanswered : answered { s with gateway := gateway, handled := s.handled + 1 } = s.answered :=
    answered_grow hs.read_le hout
  refine ⟨?_, ?_, htold, ?_, fun c socket hc => ?_, fun d hd => ?_, fun d c hchosen => ?_⟩
  · change s.read ≤ gateway.out.length
    rw [hout, List.length_append]
    exact Nat.le_add_left_of_le hs.read_le
  · exact (List.getElem?_eq_some_iff.mp hmsg).1
  · change gateway.out.count requested = (s.app.sent.take (s.handled + 1)).count .disconnect
    rw [hout, List.count_append, hnew, hs.replies, List.take_add_one, hmsg, List.count_append,
      Nat.add_comm]
    rfl
  · rw [hanswered]
    exact hs.older c socket hc
  · obtain hlt | rfl := Nat.lt_succ_iff_lt_or_eq.mp hd.lt
    · obtain rfl := hd.rest s.handled msg hlt (Nat.lt_succ_self _) hmsg
      have hbefore : Detached s.app.sent s.handled d :=
        ⟨hlt, hd.disconnect, fun i msg hi hi' => hd.rest i msg hi (Nat.lt_succ_of_lt hi')⟩
      exact (hs.detached d hbefore).list hserves
    · obtain rfl := Option.some.inj (hmsg.symm.trans hd.disconnect)
      cases hserves with
      | disconnect hsession hopening hout' =>
        exact ⟨hsession, hopening, [], s.gateway.out, hout', List.forall_mem_nil _⟩
      | forwarded hforward => cases hforward
      | error hforward => cases hforward
  · obtain ⟨hd, hread⟩ := hs.settled hchosen
    refine (hs.chosen d c hchosen).serve hs.read_le hchosen hd (fun hc => ?_) hmsg hidle hserves
    have hquiet := hs.quiet hchosen hc
    exact ⟨hquiet.session, calm_of_quiet hquiet hread⟩

theorem Sound.server {a : Gateway.Action} {gateway : Gateway} (hs : s.Sound crates)
    (hsaid : ∀ line, a = .sessionLine line → saidBySession crates s.greeted line)
    (hstirs : Gateway.Stirs s.gateway gateway a) (htold : gateway.Told) :
    Sound crates { s with gateway := gateway, greeted := greetedAfter s.greeted a } := by
  obtain ⟨new, hout, hnew⟩ := hstirs.grows
  have hanswered : answered { s with gateway := gateway, greeted := greetedAfter s.greeted a } =
      s.answered := answered_grow hs.read_le hout
  refine ⟨?_, hs.handled_le, htold, ?_, fun c socket hc => ?_, fun d hd => ?_,
    fun d c hchosen => ?_⟩
  · change s.read ≤ gateway.out.length
    rw [hout, List.length_append]
    exact Nat.le_add_left_of_le hs.read_le
  · change gateway.out.count requested = _
    rw [hout, List.count_append, hnew, Nat.zero_add]
    exact hs.replies
  · rw [hanswered]
    exact hs.older c socket hc
  · exact (hs.detached d hd).stirs hstirs
  · exact (hs.chosen d c hchosen).server hs.read_le hsaid hstirs

/-- A step of the client other than reading. -/
theorem step_client {e : ViewApp.Event} (h : Link.step task crates s (.client e) = some s') :
    (∀ text, e ≠ .text text) ∧ ∃ app, s.app.step crates e = some app ∧
      s' = { s with app := app } := by
  have hmap (he : ∀ text, e ≠ .text text) :
      (s.app.step crates e).map (fun app => { s with app := app }) = some s' := by
    cases e with
    | text text => exact absurd rfl (he text)
    | _ => exact h
  have he : ∀ text, e ≠ .text text := by
    rintro text rfl
    cases h
  obtain ⟨app, hstep, heq⟩ := Option.map_eq_some_iff.mp (hmap he)
  exact ⟨he, app, hstep, heq.symm⟩

/-- A step of the server's tasks other than handling a message. -/
theorem step_server {a : Gateway.Action} (h : Link.step task crates s (.server a) = some s') :
    (∀ text world, a ≠ .message text world) ∧
      (∀ line, a = .sessionLine line → saidBySession crates s.greeted line) ∧
      ∃ gateway, Gateway.step task s.gateway a = some gateway ∧
        s' = { s with gateway := gateway, greeted := greetedAfter s.greeted a } := by
  have hmessage : ∀ text world, a ≠ .message text world := by
    rintro text world rfl
    cases h
  have hsaid : ∀ line, a = .sessionLine line → saidBySession crates s.greeted line := by
    rintro line rfl
    exact (Option.ite_none_right_eq_some.mp h).1
  have hmap : (Gateway.step task s.gateway a).map (fun gateway =>
      { s with gateway := gateway, greeted := greetedAfter s.greeted a }) = some s' := by
    cases a with
    | message text world => exact absurd rfl (hmessage text world)
    | sessionLine line => exact (Option.ite_none_right_eq_some.mp h).2
    | _ => exact h
  obtain ⟨gateway, hstep, heq⟩ := Option.map_eq_some_iff.mp hmap
  exact ⟨hmessage, hsaid, gateway, hstep, heq.symm⟩

/-- Every step keeps the invariant, while choices wait for the answers. -/
theorem Sound.step {a : Action} (hs : s.Sound crates) (ha : Answered s a)
    (h : Link.step task crates s a = some s') : s'.Sound crates := by
  cases a with
  | client e =>
    obtain ⟨he, app, hstep, rfl⟩ := step_client h
    obtain ⟨new, hmoves, hpicks⟩ := ViewApp.step_moves he hstep
    refine hs.client hmoves fun socket hsocket => ?_
    obtain ⟨bytes, rfl, hchoice⟩ := hpicks socket hsocket
    exact ha hchoice
  | read =>
    unfold Link.step at h
    dsimp only at h
    split at h
    · cases h
    · obtain rfl := Option.some.inj h
      exact hs.read ‹_›
  | serve text world =>
    unfold Link.step at h
    dsimp only at h
    split at h
    · cases h
    · rename_i msg hmsg
      split_ifs at h with hread
      obtain ⟨gateway, hstep, rfl⟩ := Option.map_eq_some_iff.mp h
      obtain ⟨hidle, hserves, htold⟩ := Gateway.serves_of_step hs.told hread hstep
      exact hs.serve hmsg hidle hserves htold
  | server a =>
    obtain ⟨hmessage, hsaid, gateway, hstep, rfl⟩ := step_server h
    obtain ⟨hstirs, htold⟩ := Gateway.stirs_of_step hs.told hmessage hstep
    exact hs.server hsaid hstirs htold

theorem start_sound (rows cols : ℕ) (tokenReadonly : Bool) :
    (start vt rows cols tokenReadonly).Sound crates where
  read_le := le_rfl
  handled_le := le_rfl
  told := ⟨nofun, nofun⟩
  replies := rfl
  older := nofun
  detached := fun d h => absurd h.lt (Nat.not_lt_zero d)
  chosen := fun d c h => by cases h.disconnect

/-- While the user chooses sessions only after every disconnect was answered, no late reply
cancels a newer attach. -/
theorem no_late_reply_cancels {rows cols : ℕ} {tokenReadonly : Bool} {as : List Action}
    {s : Link vt}
    (halong : Machine.Along (Link.step task crates) Answered (start vt rows cols tokenReadonly) as)
    (hrun : Machine.run (Link.step task crates) (start vt rows cols tokenReadonly) as = some s) :
    s.AttachKept crates :=
  (Machine.run_invariant_along (fun _ _ _ hs ha h => Sound.step hs ha h)
    (start_sound rows cols tokenReadonly) halong hrun : s.Sound crates).attachKept

/-- Two terminals that are alive. -/
def twoSessions : Surroundings :=
  { noWorld with entries := ["1-a", "2-b"], pidExists := fun _ => true }

/-- The greeting of a session. -/
def greetingLine : String := "\x7b\"type\":\"connect\",\"history\":\x7b\"oldest\":0\x7d\x7d"

/-- The client attaches to one of them and detaches again, which the server has answered. -/
def attachDetach : List Action :=
  [.server .subscribe, .client .tick, .serve "\x7b\"type\":\"list\"\x7d" twoSessions, .read,
    .client (.keys (ascii "\r")),
    .serve "\x7b\"type\":\"connect\",\"socket\":\"1-a\"\x7d" noWorld,
    .server (.opened (.ok ())), .server (.sessionLine greetingLine), .read,
    .serve "\x7b\"type\":\"view\"\x7d" noWorld,
    .server (.sessionLine ("\x7b\"type\":\"snapshot\",\"data\":\"SGVsbG8=\",\"width\":4," ++
      "\"height\":2,\"history_next\":0\x7d")), .read,
    .client (.keys [0x04]), .serve "\x7b\"type\":\"unview\"\x7d" noWorld,
    .serve "\x7b\"type\":\"disconnect\"\x7d" noWorld]

/-- The user chooses the other terminal. -/
def chooseOther : Action := .client (.keys (ascii "j\r"))

/-- The user chooses the other terminal before the client has read the reply, which then
cancels the newer attach. -/
theorem late_reply_cancels :
    ∃ s ∈ Machine.run (Link.step glassesTask helloCrates) (start asciiVt100 2 4 true)
      (attachDetach ++ [chooseOther]), ¬s.AttachKept helloCrates := by
  obtain ⟨s, hrun, hsent, hreply⟩ :
      ∃ s ∈ Machine.run (Link.step glassesTask helloCrates) (start asciiVt100 2 4 true)
        (attachDetach ++ [chooseOther]),
        s.app.sent = [.list, .connect "1-a", .view, .unview, .disconnect, .list, .connect "2-b"] ∧
          s.unread.head? = some requested := by
    decide +kernel
  refine ⟨s, hrun, fun hkept => ?_⟩
  obtain ⟨d, hd, -, hlast⟩ := hkept.reply hreply
  have hlt : 6 < d := hlast 6 "2-b" (by rw [hsent]; rfl)
  rw [hsent, List.getElem?_eq_none (Nat.succ_le_of_lt hlt)] at hd
  cases hd

/-- The reply is read before the other terminal is chosen, whose greeting then arrives. -/
theorem newer_attach_goes_on :
    let actions := attachDetach ++ [.read, chooseOther,
      .serve "\x7b\"type\":\"list\"\x7d" twoSessions, .read,
      .serve "\x7b\"type\":\"list\"\x7d" twoSessions, .read,
      .serve "\x7b\"type\":\"connect\",\"socket\":\"2-b\"\x7d" noWorld,
      .server (.opened (.ok ())), .server (.sessionLine greetingLine)]
    ∃ s ∈ Machine.run (Link.step glassesTask helloCrates) (start asciiVt100 2 4 true) actions,
      s.unread = [.line greetingLine] ∧ s.AttachKept helloCrates := by
  intro actions
  obtain ⟨s, hrun, hunread⟩ :
      ∃ s ∈ Machine.run (Link.step glassesTask helloCrates) (start asciiVt100 2 4 true) actions,
        s.unread = [.line greetingLine] := by
    decide +kernel
  have halong : Machine.Along (Link.step glassesTask helloCrates) Answered
      (start asciiVt100 2 4 true) actions := by
    decide +kernel
  exact ⟨s, hrun, hunread, no_late_reply_cancels halong hrun⟩

end Link

end G2mirror
