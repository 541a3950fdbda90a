import G2mirror.Relay
import G2mirror.ServerWire
import G2mirror.TitleNews

/-!
# What the server records of a session

A monitor task of the server reads what a wrapper writes to its connection, and records what it
learns. Once it has read everything, what it has recorded is what the wrapper has.
-/

namespace G2mirror

variable {vt : Vt100}

/-- The messages that the client with this id received, newest first. -/
def Log.received (id : ℕ) (log : Log) : List FromSession :=
  (log.sentTo id).filterMap fun said => if said.2 then some said.1 else none

/-- The record of a terminal after one more message of its session. -/
def TerminalState.told (name : String) (terminal : TerminalState) (msg : FromSession) :
    TerminalState :=
  ((terminal.hear name msg).map Prod.fst).getD terminal

/-- The record of a terminal after these messages of its session, the newest of them first. -/
def TerminalState.record (name : String) (terminal : TerminalState) :
    List FromSession → TerminalState
  | [] => terminal
  | msg :: older => (record name terminal older).told name msg

namespace TerminalState

variable {name : String} {terminal : TerminalState} {msgs : List FromSession}

theorem told_title (name : String) (terminal : TerminalState) (msg : FromSession) :
    (terminal.told name msg).title = (msg.title?.getD none).or terminal.title := by
  cases msg with
  | connect c => cases htitle : c.title <;> simp [told, hear, FromSession.title?, htitle]
  | _ => rfl

theorem told_detached (name : String) (terminal : TerminalState) (msg : FromSession) :
    (terminal.told name msg).detached = msg.detached?.getD terminal.detached := by
  cases msg <;> rfl

/-- The newest title that is told counts. -/
theorem record_title {title : String}
    (h : msgs.findSome? FromSession.title? = some (some title)) :
    (record name terminal msgs).title = some title := by
  induction msgs with
  | nil => cases h
  | cons msg older ih =>
    rw [record, told_title]
    rw [List.findSome?_cons] at h
    cases htitle : msg.title? with
    | none =>
      rw [htitle] at h
      exact ih h
    | some known =>
      rw [htitle] at h
      obtain rfl := Option.some.inj h
      rfl

/-- Where no title is told, the old one stays. -/
theorem record_untitled (h : ∀ msg ∈ msgs, ∀ title, msg.title? ≠ some (some title)) :
    (record name terminal msgs).title = terminal.title := by
  induction msgs with
  | nil => rfl
  | cons msg older ih =>
    obtain ⟨hmsg, holder⟩ := List.forall_mem_cons.mp h
    rw [record, told_title, ih holder]
    cases htitle : msg.title? with
    | none => rfl
    | some known =>
      cases known with
      | none => rfl
      | some title => exact absurd htitle (hmsg title)

/-- The newest news of the host role count. -/
theorem record_detached {detached : Bool}
    (h : msgs.findSome? FromSession.detached? = some detached) :
    (record name terminal msgs).detached = detached := by
  induction msgs with
  | nil => cases h
  | cons msg older ih =>
    rw [record, told_detached]
    rw [List.findSome?_cons] at h
    cases hdetached : msg.detached? with
    | none =>
      rw [hdetached] at h
      exact ih h
    | some known =>
      rw [hdetached] at h
      exact Option.some.inj h

/-- The working directory and the preset are those of the greeting. -/
theorem record_greeting {cwd : String} {launched : Option String}
    (hsome : ∃ c, .connect c ∈ msgs) (hall : ∀ c, .connect c ∈ msgs →
      c.cwd = cwd ∧ c.launched = launched) :
    (record name terminal msgs).cwd = some cwd ∧
      (record name terminal msgs).launched = launched := by
  induction msgs with
  | nil => exact absurd hsome.choose_spec List.not_mem_nil
  | cons msg older ih =>
    have holder (hother : ∀ c, msg ≠ .connect c) :
        (record name terminal older).cwd = some cwd ∧
          (record name terminal older).launched = launched := by
      refine ih ?_ fun c hc => hall c (List.mem_cons_of_mem _ hc)
      obtain ⟨c, hc⟩ := hsome
      exact ⟨c, (List.mem_cons.mp hc).resolve_left fun h => hother c h.symm⟩
    cases msg with
    | connect c =>
      obtain ⟨hcwd, hlaunched⟩ := hall c List.mem_cons_self
      exact ⟨congrArg some hcwd, hlaunched⟩
    | _ => exact holder nofun

end TerminalState

namespace Log

theorem received_findSome? {β : Type} (f : FromSession → Option β) (id : ℕ) (log : Log) :
    (log.received id).findSome? f =
      (log.sentTo id).findSome? fun said => if said.2 then f said.1 else none := by
  rw [received, ← List.head?_filterMap, ← List.head?_filterMap, List.filterMap_filterMap]
  congr 2
  funext said
  split <;> rfl

theorem knownTitle_eq (id : ℕ) (log : Log) :
    log.knownTitle id = (log.received id).findSome? FromSession.title? :=
  (received_findSome? _ id log).symm

theorem picture_eq (id : ℕ) (log : Log) :
    log.picture id = (log.received id).findSome? FromSession.detached? := by
  rw [received_findSome?, picture, sentTo, ← List.head?_filterMap, ← List.head?_filterMap,
    List.filterMap_filterMap]
  congr 2
  funext o
  cases o with
  | sent c msg ok =>
    by_cases hid : c.id = id <;> cases ok <;> simp [Obs.picture?, Obs.to?, hid]
  | _ => rfl

theorem mem_received {id : ℕ} {log : Log} {msg : FromSession} :
    msg ∈ log.received id ↔ ∃ c, .sent c msg true ∈ log ∧ c.id = id := by
  unfold received sentTo
  rw [List.mem_filterMap]
  constructor
  · rintro ⟨⟨said, ok⟩, hsaid, hmsg⟩
    obtain ⟨o, ho, hto⟩ := List.mem_filterMap.mp hsaid
    obtain ⟨c, rfl, hid⟩ := Obs.to?_eq_some.mp hto
    obtain ⟨rfl, heq⟩ := Option.ite_none_right_eq_some.mp hmsg
    obtain rfl := Option.some.inj heq
    exact ⟨c, ho, hid⟩
  · rintro ⟨c, hc, hid⟩
    exact ⟨(msg, true), List.mem_filterMap.mpr ⟨_, hc, Obs.to?_eq_some.mpr ⟨c, rfl, hid⟩⟩, rfl⟩

end Log

/-- An entry that is no greeting but of this session. -/
def Obs.Introduces (config : Config) : Obs → Prop
  | .sent _ (.connect c) _ => c.cwd = config.cwd ∧ c.launched = config.launched
  | _ => True

theorem routine_introduces (config : Config) : Routine (Obs.Introduces config) where
  sent := fun c msg ok h => by
    cases msg with
    | connect c => exact h.elim
    | _ => trivial
  hostWrote := fun _ _ => trivial

theorem viewing_introduces (config : Config) : Viewing (Obs.Introduces config) where
  snapshot := fun _ _ _ _ _ _ => trivial
  ptyResized := fun _ _ _ => trivial
  viewStarted := fun _ _ _ => trivial

namespace Wrapper

variable {env : Env} {config : Config} {w w' : Wrapper vt}

/-- Every greeting names the session's directory and preset, and whoever is connected was
greeted. -/
structure Introduced (config : Config) (w : Wrapper vt) : Prop where
  greetings : ∀ o ∈ w.log, o.Introduces config
  pendings : ∀ p ∈ w.pendings, ∃ c, .connect c ∈ w.log.received p.id
  monitor : ∀ m, w.monitor = some m → ∃ c, .connect c ∈ w.log.received m.id

theorem received_mono {log log' : Log} (h : log <:+ log') {id : ℕ} {msg : FromSession}
    (hmsg : msg ∈ log.received id) : msg ∈ log'.received id := by
  obtain ⟨c, hc, hid⟩ := Log.mem_received.mp hmsg
  exact Log.mem_received.mpr ⟨c, h.subset hc, hid⟩

theorem Introduced.step (hw : w.Introduced config) {event : Event}
    (h : step env config w event = some w') : w'.Introduced config := by
  by_cases haccept : ∃ size, event = .accept size
  · obtain ⟨size, rfl⟩ := haccept
    cases h
    have hgrows : w.log <:+ (w.onAccept env config size).log := List.suffix_cons _ _
    refine ⟨List.forall_mem_cons.mpr ⟨⟨rfl, rfl⟩, hw.greetings⟩, fun p hp => ?_, fun m hm => ?_⟩
    · have hold (hp : p ∈ w.pendings) :
          ∃ c, .connect c ∈ (w.onAccept env config size).log.received p.id := by
        obtain ⟨c, hc⟩ := hw.pendings p hp
        exact ⟨c, received_mono hgrows hc⟩
      have hmem : p ∈ if env.succeeds w.log then w.pendings ++ [Client.new w.nextClientId]
        else w.pendings := hp
      by_cases hok : env.succeeds w.log = true
      · rw [if_pos hok] at hmem
        rcases List.mem_append.mp hmem with hp | hp
        · exact hold hp
        · obtain rfl := List.mem_singleton.mp hp
          refine ⟨w.greeting config size, Log.mem_received.mpr ⟨_, ?_, rfl⟩⟩
          have hlog : (w.onAccept env config size).log =
              .sent (Client.new w.nextClientId) (.connect (w.greeting config size))
                (env.succeeds w.log) :: w.log := rfl
          rw [hlog, hok]
          exact List.mem_cons_self
      · rw [if_neg hok] at hmem
        exact hold hmem
    · obtain ⟨c, hc⟩ := hw.monitor m hm
      exact ⟨c, received_mono hgrows hc⟩
  · obtain ⟨hlog, hpendings, hmonitor⟩ := step_grows (routine_introduces config)
      (viewing_introduces config) (fun _ => ⟨fun _ _ _ => trivial, fun _ => trivial⟩)
      (fun _ _ _ => trivial)
      ⟨fun _ _ _ => trivial, fun _ _ _ => trivial⟩ (fun _ _ _ => trivial)
      (fun size heq => haccept ⟨size, heq⟩) h
    have hkept {id : ℕ} (hgreeted : ∃ c, .connect c ∈ w.log.received id) :
        ∃ c, .connect c ∈ w'.log.received id :=
      hgreeted.imp fun c hc => received_mono hlog.suffix hc
    refine ⟨?_, fun p hp => hkept (hw.pendings p (hpendings hp)), fun m hm => ?_⟩
    · obtain ⟨new, hsame, hnew⟩ := hlog
      rw [hsame]
      exact List.forall_mem_append.mpr ⟨hnew, hw.greetings⟩
    · rcases hmonitor m hm with hold | hpending
      · exact hkept (hw.monitor m hold)
      · exact hkept (hw.pendings m hpending)

theorem start_introduced (h : start vt env config = some w) : w.Introduced config := by
  have hbegins := start_begins h
  refine ⟨start_log (routine_introduces config) h, fun p hp => ?_, fun m hm => ?_⟩
  · rw [hbegins.pendings] at hp
    exact absurd hp List.not_mem_nil
  · cases (start_monitor h).symm.trans hm

/-- What the monitor was sent makes a record of what the wrapper has. -/
theorem record_of_run {w₀ : Wrapper vt} {events : List Event}
    (hstart : start vt env config = some w₀)
    (hrun : Machine.run (Wrapper.step env config) w₀ events = some w) {m : Client}
    (hm : w.monitor = some m) (name : String) :
    let terminal := TerminalState.default.record name (w.log.received m.id)
    terminal.title = w.mirror.title ∧ terminal.cwd = some config.cwd ∧
      terminal.launched = config.launched := by
  intro terminal
  have hinv := Machine.run_invariant
    (I := fun v : Wrapper vt => v.Proper config ∧ v.TitleKnown ∧ v.Introduced config)
    (fun v event v' hv hstep =>
      ⟨hv.1.step hstep, hv.2.1.step hv.1 hstep, hv.2.2.step hstep⟩)
    ⟨start_proper hstart, start_titleKnown hstart, start_introduced hstart⟩ hrun
  obtain ⟨-, htitles, hgreetings⟩ := hinv
  have hknown := (htitles.monitor m hm).1
  have hgreeting : terminal.cwd = some config.cwd ∧ terminal.launched = config.launched := by
    refine TerminalState.record_greeting (hgreetings.monitor m hm) fun c hc => ?_
    obtain ⟨d, hd, -⟩ := Log.mem_received.mp hc
    exact hgreetings.greetings _ hd
  refine ⟨?_, hgreeting.1, hgreeting.2⟩
  cases htitle : w.mirror.title with
  | none =>
    refine TerminalState.record_untitled fun msg hmsg text => ?_
    obtain ⟨c, hc, -⟩ := Log.mem_received.mp hmsg
    exact htitles.unnamed htitle _ hc text
  | some title =>
    rw [htitle, Log.knownTitle_eq] at hknown
    exact TerminalState.record_title hknown

end Wrapper

namespace Gateway

variable {task : DeviceTask} {g g' : Gateway} {name : String}

/-- The lines that the monitor task of a terminal receives, in order. -/
def linesOf (name : String) (actions : List Action) : List String :=
  actions.filterMap fun
    | .monitorLine other line => if other = name then some line else none
    | _ => none

/-- Scans find the socket of this terminal. -/
def Finds (name : String) : Action → Prop
  | .scan live => name ∈ live
  | _ => True

/-- Other steps leave the record of a terminal alone. -/
theorem terminal_step_of_ne {a : Action} (hfinds : Finds name a)
    (hother : ∀ line, a ≠ .monitorLine name line) (h : Gateway.step task g a = some g') :
    g'.terminal name = g.terminal name := by
  have hquiet {g' : Gateway} (hsame : g'.terminals = g.terminals) :
      g'.terminal name = g.terminal name := by
    unfold terminal
    rw [hsame]
  cases step_outcome h with
  | scan live => exact terminal_scan hfinds
  | record hidle hread =>
    rename_i other line after event
    have hne : name ≠ other := by
      rintro rfl
      exact hother line rfl
    rw [monitorLine_of_readLine hread]
    unfold terminal
    dsimp only
    rw [Function.update_of_ne hne]
  | queue hrecorded => exact hquiet rfl
  | subscribe => exact hquiet rfl
  | event hconnected hopening hevents =>
    rename_i event events
    refine hquiet ?_
    unfold onEvent
    split
    · rfl
    · split_ifs <;> rfl
  | other hdiscreet => exact hquiet hdiscreet.terminals

variable {fromSession : Serde FromSession}

/-- A line of a session is read as the message that it is. -/
theorem readLine_text (g : Gateway) (name : String)
    (hadmits : task.serde.limits.Admits u64Max)
    (hfrom : task.serde.DerivesFrom fromSession) {msg : FromSession} (hmsg : msg.Typed) :
    g.readLine task.serde name (fromSession.text msg) = (g.terminal name).hear name msg := by
  have hread : task.serde.fromStr (fromSession.text msg) = .ok msg.toJson := by
    unfold SerdeJson.fromStr
    have hfits : Json.Fits task.serde.limits task.serde.limits.depth msg.toJson :=
      FromSession.fits_toJson 124 hadmits hmsg
    rw [hfrom.text, String.toList_ofList, Json.read_write hfits]
  unfold readLine
  rw [hread]
  exact readMonitored_toJson name hmsg (g.terminal name)

theorem step_monitorLine {line : String} (h : name ∈ g.monitored ∧ g.recorded name = none) :
    Gateway.step task g (.monitorLine name line) = some (g.monitorLine task.serde name line) :=
  if_pos h

/-- A line of this terminal's session is recorded. -/
theorem terminal_step_text (hadmits : task.serde.limits.Admits u64Max)
    (hfrom : task.serde.DerivesFrom fromSession) {msg : FromSession} (hmsg : msg.Typed)
    (h : Gateway.step task g (.monitorLine name (fromSession.text msg)) = some g') :
    g'.terminal name = (g.terminal name).told name msg := by
  obtain ⟨-, heq⟩ := Option.ite_none_right_eq_some.mp h
  obtain rfl := Option.some.inj heq
  have hread := g.readLine_text name hadmits hfrom hmsg
  unfold TerminalState.told
  cases hheard : (g.terminal name).hear name msg with
  | none =>
    unfold monitorLine
    rw [hread, hheard]
    rfl
  | some heard =>
    rw [monitorLine_of_readLine (hread.trans hheard)]
    unfold terminal
    dsimp only
    rw [Function.update_self]
    rfl

theorem record_append (terminal : TerminalState) (newer older : List FromSession) :
    terminal.record name (newer ++ older) = (terminal.record name older).record name newer := by
  induction newer with
  | nil => rfl
  | cons msg newer ih => rw [List.cons_append, TerminalState.record, ih, TerminalState.record]

/-- Whatever else the server's tasks do meanwhile, the lines of a session make its record. -/
theorem terminal_of_run (hadmits : task.serde.limits.Admits u64Max)
    (hfrom : task.serde.DerivesFrom fromSession) {actions : List Action} {msgs : List FromSession}
    (hmsgs : ∀ msg ∈ msgs, msg.Typed) (hfinds : ∀ a ∈ actions, Finds name a)
    (hlines : linesOf name actions = msgs.map fromSession.text)
    (hrun : Machine.run (Gateway.step task) g actions = some g') :
    g'.terminal name = (g.terminal name).record name msgs.reverse := by
  induction actions generalizing g msgs with
  | nil =>
    obtain rfl : msgs = [] := List.map_eq_nil_iff.mp hlines.symm
    rw [Machine.run_nil, Option.some.injEq] at hrun
    rw [hrun]
    rfl
  | cons a actions ih =>
    obtain ⟨g₁, hstep, hrest⟩ := Machine.run_cons_eq_some.mp hrun
    obtain ⟨ha, hactions⟩ := List.forall_mem_cons.mp hfinds
    by_cases hline : ∃ line, a = .monitorLine name line
    · obtain ⟨line, rfl⟩ := hline
      have hcons : linesOf name (.monitorLine name line :: actions) =
          line :: linesOf name actions := List.filterMap_cons_some (if_pos rfl)
      rw [hcons] at hlines
      cases msgs with
      | nil => cases hlines
      | cons msg msgs =>
        rw [List.map_cons, List.cons.injEq] at hlines
        obtain ⟨rfl, hlines⟩ := hlines
        obtain ⟨hmsg, hmsgs⟩ := List.forall_mem_cons.mp hmsgs
        rw [ih hmsgs hactions hlines hrest, terminal_step_text hadmits hfrom hmsg hstep,
          List.reverse_cons, record_append]
        rfl
    · have hother : ∀ line, a ≠ .monitorLine name line := fun line h => hline ⟨line, h⟩
      have hsame : linesOf name (a :: actions) = linesOf name actions := by
        refine List.filterMap_cons_none ?_
        cases a with
        | monitorLine other line =>
          refine if_neg ?_
          rintro rfl
          exact hother line rfl
        | _ => rfl
      rw [hsame] at hlines
      rw [ih hmsgs hactions hlines hrest, terminal_step_of_ne ha hother hstep]

end Gateway

namespace Wrapper

variable {env : Env} {config : Config} {w : Wrapper vt}

/-- What the monitor of a headless session was sent makes a record of whether it is detached,
if the host role was as at the greeting when the connection became the monitor. -/
theorem record_detached_of_run {w₀ : Wrapper vt} {events : List Event}
    (hheadless : config.headless = true) (hstart : start vt env config = some w₀)
    (hrun : Machine.run (Wrapper.step env config) w₀ events = some w)
    (halong : Machine.Along (Wrapper.step env config) (GreetingHolds config) w₀ events)
    {m : Client} (hm : w.monitor = some m) (name : String) :
    (TerminalState.default.record name (w.log.received m.id)).detached = !w.hostAttached := by
  have hbegins := start_begins hstart
  have hstarted : w₀.Pictured := by
    refine ⟨fun m hm => ?_, fun m hm => ?_, fun p hp => ?_⟩
    · cases (start_monitor hstart).symm.trans hm
    · cases (start_monitor hstart).symm.trans hm
    · rw [hbegins.pendings] at hp
      exact absurd hp List.not_mem_nil
  have hinv := Machine.run_invariant_along
    (I := fun v : Wrapper vt => v.Proper config ∧ v.Pictured)
    (fun v event v' hv hgreeting hstep =>
      ⟨hv.1.step hstep, hv.2.step hv.1 hheadless hgreeting hstep⟩)
    ⟨start_proper hstart, hstarted⟩ halong hrun
  have hpicture := hinv.2.monitor m hm
  rw [Log.picture_eq] at hpicture
  exact TerminalState.record_detached hpicture

/-- A wrapper runs, and its monitor is a task of a server that runs as well. Once the task has
read all that the wrapper has sent, the server has the session's title, working directory and
preset on record, and for a headless session whether it is detached. -/
theorem server_records_session {w₀ : Wrapper vt} {events : List Event}
    (hstart : start vt env config = some w₀)
    (hwrapper : Machine.run (Wrapper.step env config) w₀ events = some w)
    {m : Client} (hm : w.monitor = some m)
    {task : DeviceTask} {fromSession : Serde FromSession}
    (hadmits : task.serde.limits.Admits u64Max) (hfrom : task.serde.DerivesFrom fromSession)
    (htyped : ∀ msg ∈ w.log.received m.id, msg.Typed) {name : String}
    {actions : List Gateway.Action} {g : Gateway}
    (hserver : Machine.run (Gateway.step task) .start actions = some g)
    (hfinds : ∀ a ∈ actions, Gateway.Finds name a)
    (hlines : Gateway.linesOf name actions =
      (w.log.received m.id).reverse.map fromSession.text) :
    (g.terminal name).title = w.mirror.title ∧ (g.terminal name).cwd = some config.cwd ∧
      (g.terminal name).launched = config.launched ∧
      (config.headless = true →
        Machine.Along (Wrapper.step env config) (GreetingHolds config) w₀ events →
        (g.terminal name).detached = !w.hostAttached) := by
  obtain ⟨htitle, hcwd, hlaunched⟩ := record_of_run hstart hwrapper hm name
  have hterminal := Gateway.terminal_of_run hadmits hfrom
    (fun msg hmsg => htyped msg (List.mem_reverse.mp hmsg)) hfinds hlines hserver
  have hrecord : g.terminal name = TerminalState.default.record name (w.log.received m.id) := by
    rw [hterminal, List.reverse_reverse]
    rfl
  rw [hrecord]
  exact ⟨htitle, hcwd, hlaunched, fun hheadless halong =>
    record_detached_of_run hheadless hstart hwrapper halong hm name⟩

/-- The greeting of a session with a title. -/
def titledGreeting : Connect :=
  ⟨1, 1, "sh", "/", 5, 5, false, ⟨0, 0⟩, some "b", true, true, none, none⟩

/-- A token of a server with the derived decoders. -/
def monitoringTask : DeviceTask := { glassesTask with serde := derivedSerde }

/-- A headless session with a title. -/
def titledConfig : Config := { smallConfig true with title := some "b" }

/-- A server reads the greeting of a session and its title. -/
theorem server_records_session_of_titled :
    ∃ g : Gateway, (g.terminal "1-x").title = some "b" ∧ (g.terminal "1-x").cwd = some "/" ∧
      (g.terminal "1-x").detached = true := by
  obtain ⟨w₀, hstart, w, hrun, halong, m, hm, hreceived, htitle, hattached⟩ :
      ∃ w₀ ∈ start asciiVt100 (.failingAt []) titledConfig,
        ∃ w ∈ Machine.run (Wrapper.step (.failingAt []) titledConfig) w₀
          [.accept none, .pendingMessage 0 (.message (.monitor 1))],
        Machine.Along (Wrapper.step (.failingAt []) titledConfig) (GreetingHolds titledConfig) w₀
          [.accept none, .pendingMessage 0 (.message (.monitor 1))] ∧
        ∃ m ∈ w.monitor, w.log.received m.id = [.title "b", .connect titledGreeting] ∧
          w.mirror.title = some "b" ∧ w.hostAttached = false := by
    decide +kernel
  have hgreeting : (FromSession.connect titledGreeting).Typed := by
    constructor <;> simp [titledGreeting, u16Max, u32Max, u64Max]
  have htyped : ∀ msg ∈ w.log.received m.id, msg.Typed := by
    rw [hreceived, List.forall_mem_cons, List.forall_mem_singleton]
    exact ⟨trivial, hgreeting⟩
  have hadmits : monitoringTask.serde.limits.Admits u64Max := derives_derivedSerde.admits
  have hread := @Gateway.readLine_text monitoringTask _ (Gateway.start.scan ["1-x"]) "1-x" hadmits
    derivesFrom_derivedFrom _ hgreeting
  obtain ⟨first, hfirst⟩ : ∃ line, derivedFrom.text (.connect titledGreeting) = line := ⟨_, rfl⟩
  obtain ⟨second, hsecond⟩ : ∃ line, derivedFrom.text (.title "b") = line := ⟨_, rfl⟩
  rw [hfirst] at hread
  have hgreeted := Gateway.monitorLine_of_readLine hread
  obtain ⟨g, hserver⟩ : ∃ g, Machine.run (Gateway.step monitoringTask) .start
      [.scan ["1-x"], .monitorLine "1-x" first, .monitorLine "1-x" second] = some g := by
    refine ⟨_, Machine.run_cons_eq_some.mpr ⟨_, rfl, Machine.run_cons_eq_some.mpr ⟨_,
      Gateway.step_monitorLine ⟨by decide, rfl⟩, Machine.run_cons_eq_some.mpr ⟨_,
        Gateway.step_monitorLine ?_, rfl⟩⟩⟩⟩
    rw [hgreeted]
    refine ⟨by decide, ?_⟩
    dsimp only
    exact Function.update_self ..
  have hlines : Gateway.linesOf "1-x"
      [.scan ["1-x"], .monitorLine "1-x" first, .monitorLine "1-x" second] =
      (w.log.received m.id).reverse.map derivedFrom.text := by
    rw [hreceived, ← hfirst, ← hsecond]
    rfl
  obtain ⟨hknown, hcwd, -, hdetached⟩ := server_records_session hstart hrun hm hadmits
    derivesFrom_derivedFrom htyped hserver (by simp [Gateway.Finds]) hlines
  exact ⟨g, hknown.trans htitle, hcwd, by rw [hdetached rfl halong, hattached]; rfl⟩

end Wrapper

end G2mirror
