import G2mirror.Library.Machine
import G2mirror.ServerSteps
import G2mirror.TokenPermissions

/-!
# What a filter hides

A token's filter is checked against the recorded directory and title of a
terminal: when a session is connected to, and again when an event of the
terminal is received. What follows from a change in between depends on the
titles whose events still wait, recorded but not queued or queued but not
received.
-/

namespace G2mirror

/-- The title that an event announces for a terminal. -/
def titleOf (name : String) : ServerToDevice → Option String
  | .title socket title => if socket = name then some title else none
  | _ => none

/-- An event announces a title for its own terminal only. -/
theorem titleOf_of_socket {name other : String} {event : ServerToDevice}
    (h : event.socket? = some name) (hother : other ≠ name) : titleOf other event = none := by
  unfold titleOf
  split
  · rename_i socket title
    obtain rfl := Option.some.inj h
    exact if_neg (Ne.symm hother)
  · rfl

/-- Only an event of the terminal announces a title for it. -/
theorem eq_title_of_titleOf {name title : String} {event : ServerToDevice}
    (h : titleOf name event = some title) : event = .title name title := by
  unfold titleOf at h
  split at h
  · rename_i socket announced
    obtain ⟨rfl, heq⟩ := Option.ite_none_right_eq_some.mp h
    rw [Option.some.inj heq]
  · cases h

/-- The newest of the waiting titles is hidden. -/
def revokes (rules : List CompiledRule) (cwd : Option String) (waiting : List String) : Bool :=
  waiting.getLast?.any fun title => !filterAllows rules cwd (some title)

/-- A terminal without a record is hidden: a rule has a part, and no part admits nothing. -/
theorem filterAllows_none {rules : List CompiledRule} (h : filterAllows rules none none = true) :
    rules = [] := by
  unfold filterAllows at h
  rw [Bool.or_eq_true] at h
  rcases h with h | h
  · exact List.isEmpty_iff.mp h
  · obtain ⟨rule, -, hrule⟩ := List.any_eq_true.mp h
    obtain ⟨path, windowtitle, hnonempty⟩ := rule
    cases path <;> cases windowtitle <;> simp [partAllows] at hrule hnonempty

/-- What a monitored line leaves of the directory and the title: a greeting may
record new ones, a title event records its own title, another event of the terminal
changes neither. -/
theorem readMonitored_cases {name : String} {msg : Json} {terminal after : TerminalState}
    {event : Option ServerToDevice} (h : readMonitored name msg terminal = some (after, event)) :
    event = none ∨
      (∃ title, event = some (.title name title) ∧ after.cwd = terminal.cwd ∧
        after.title = some title) ∨
      ∃ event', event = some event' ∧ event'.socket? = some name ∧
        (∀ other, titleOf other event' = none) ∧ after.cwd = terminal.cwd ∧
        after.title = terminal.title := by
  unfold readMonitored at h
  split at h
  · obtain ⟨-, rfl⟩ := Prod.mk.inj (Option.some.inj h)
    exact .inl rfl
  · obtain ⟨attached, -, heq⟩ := Option.map_eq_some_iff.mp h
    obtain ⟨rfl, rfl⟩ := Prod.mk.inj heq
    exact .inr (.inr ⟨_, rfl, rfl, fun _ => rfl, rfl, rfl⟩)
  · obtain ⟨epoch, -, heq⟩ := Option.map_eq_some_iff.mp h
    obtain ⟨rfl, rfl⟩ := Prod.mk.inj heq
    exact .inr (.inr ⟨_, rfl, rfl, fun _ => rfl, rfl, rfl⟩)
  · obtain ⟨epoch, -, heq⟩ := Option.map_eq_some_iff.mp h
    obtain ⟨rfl, rfl⟩ := Prod.mk.inj heq
    exact .inr (.inr ⟨_, rfl, rfl, fun _ => rfl, rfl, rfl⟩)
  · obtain ⟨title, -, heq⟩ := Option.map_eq_some_iff.mp h
    obtain ⟨rfl, rfl⟩ := Prod.mk.inj heq
    exact .inr (.inl ⟨title, rfl, rfl, rfl⟩)
  · cases h

namespace Gateway

/-- The terminals that the device is attached to, or is being connected to. -/
def attached (g : Gateway) : List String := (g.session.toList ++ g.opening.toList).map Conn.name

/-- The titles of a terminal that the device's task has not received, oldest first. -/
def waitingTitles (g : Gateway) (name : String) : List String :=
  (g.events ++ (g.recorded name).toList).filterMap (titleOf name)

/-- Whether a terminal passes the filter as it is recorded. -/
def shows (rules : List CompiledRule) (g : Gateway) (name : String) : Bool :=
  filterAllows rules (g.terminal name).cwd (g.terminal name).title

theorem sessionAllowed_eq_shows (rules : List CompiledRule) (g : Gateway) (name : String) :
    g.sessionAllowed rules name = g.shows rules name := by
  unfold sessionAllowed shows filterAllows
  rw [← Bool.or_assoc, Bool.or_self]

variable {task : DeviceTask} {g g' : Gateway}

section Frames

/-- A terminal whose socket was found keeps its record. -/
theorem terminal_scan {live : List String} {name : String} (hname : name ∈ live) :
    (g.scan live).terminal name = g.terminal name := by
  unfold scan terminal
  dsimp only
  rw [if_pos hname, Option.getD_some]

/-- A terminal whose socket is gone has no record. -/
theorem terminal_scan_of_notMem {live : List String} {name : String} (hname : name ∉ live) :
    (g.scan live).terminal name = .default := by
  unfold scan terminal
  dsimp only
  rw [if_neg hname, Option.getD_none]

/-- A line that says something is a message about its terminal. -/
theorem readLine_eq_some {name line : String} {read : TerminalState × Option ServerToDevice}
    (h : g.readLine task.serde name line = some read) :
    ∃ msg, readMonitored name msg (g.terminal name) = some read := by
  unfold readLine at h
  split at h
  · cases h
  · exact ⟨_, h⟩

/-- What has been recorded of a line. -/
theorem monitorLine_of_readLine {name line : String} {after : TerminalState}
    {event : Option ServerToDevice} (h : g.readLine task.serde name line = some (after, event)) :
    g.monitorLine task.serde name line =
      { g with
        terminals := Function.update g.terminals name (some after)
        recorded := Function.update g.recorded name event } := by
  unfold monitorLine
  rw [h]

/-- A step of the device's task that leaves what is shared alone, attaches the device
to nothing that is hidden, and pushes no title. -/
structure Discreet (rules : List CompiledRule) (g g' : Gateway) : Prop where
  terminals : g'.terminals = g.terminals
  recorded : g'.recorded = g.recorded
  events : g'.events = g.events
  connected : g'.connected = g.connected
  attached : ∀ name ∈ g'.attached,
    name ∈ g.attached ∨ g.connected = true ∧ g.shows rules name = true
  untitled : ∀ name title, g'.out ≠ .message (.title name title) :: g.out

variable {rules : List CompiledRule}

/-- Nothing is sent. -/
theorem out_ne_cons (g : Gateway) (name title : String) :
    g.out ≠ .message (.title name title) :: g.out :=
  (List.cons_ne_self _ _).symm

/-- A message that is no title is sent. -/
theorem cons_ne_title {msg : ServerToDevice} (hmsg : ∀ name title, msg ≠ .title name title)
    (out : List Sent) (name title : String) :
    Sent.message msg :: out ≠ .message (.title name title) :: out := by
  intro h
  exact hmsg name title (Sent.message.inj (List.cons.inj h).1)

theorem discreet_send (g : Gateway) {msg : ServerToDevice}
    (hmsg : ∀ name title, msg ≠ .title name title) : Discreet rules g (g.send msg) :=
  ⟨rfl, rfl, rfl, rfl, fun _ => .inl, cons_ne_title hmsg _⟩

theorem discreet_error (g : Gateway) (message : String) :
    Discreet rules g (g.send (.error message)) :=
  discreet_send g nofun

theorem discreet_disconnect (g : Gateway) (reason : String) :
    Discreet rules g ((g.setSession none).send (.disconnected reason)) := by
  refine ⟨rfl, rfl, rfl, rfl, fun name hname => .inl ?_, ?_⟩
  · unfold attached at hname ⊢
    rw [List.map_append, List.mem_append]
    exact .inr hname
  · apply cons_ne_title
    nofun

theorem discreet_forward (g : Gateway) (text : String) : Discreet rules g (g.forward text) := by
  unfold forward
  cases hsession : g.session with
  | none => exact discreet_error g _
  | some conn =>
    refine ⟨rfl, rfl, rfl, rfl, fun name hname => .inl ?_, out_ne_cons g⟩
    unfold attached at hname ⊢
    rw [hsession]
    exact hname

theorem discreet_onConnect (hconnected : g.connected = true) (socket : Option String) :
    Discreet task.rules g (g.onConnect task socket) := by
  unfold onConnect
  split
  · exact discreet_error g _
  · rename_i name
    split_ifs with hvalid hallowed
    · exact discreet_error g _
    · exact discreet_error g _
    · refine ⟨rfl, rfl, rfl, rfl, fun other hother => ?_, out_ne_cons g⟩
      unfold attached at hother ⊢
      rw [List.map_append, List.mem_append] at hother
      rcases hother with hold | hnew
      · rw [List.map_append, List.mem_append]
        exact .inl (.inl hold)
      · obtain rfl := List.mem_singleton.mp hnew
        rw [sessionAllowed_eq_shows] at hallowed
        exact .inr ⟨hconnected, by simpa using hallowed⟩

/-- A message of the device changes nothing that is shared, and only a `connect` to a
visible terminal attaches it. -/
theorem discreet_handleDeviceMessage (hconnected : g.connected = true) (text : String)
    (world : Surroundings) : Discreet task.rules g (g.handleDeviceMessage task text world) := by
  unfold handleDeviceMessage
  split
  · exact discreet_error g _
  · split
    · exact discreet_error g _
    · exact discreet_send g nofun
    · exact discreet_onConnect hconnected _
    · split
      · exact discreet_send g nofun
      · exact discreet_error g _
    · exact discreet_disconnect g _
    · split_ifs
      · exact discreet_error g _
      · exact discreet_forward g text

/-- The session that is connected to is the one that was asked for. -/
theorem discreet_opened {conn : Conn} (hopening : g.opening = some conn)
    (result : Except String Unit) : Discreet rules g (g.opened conn result) := by
  unfold opened
  cases result with
  | ok _ =>
    refine ⟨rfl, rfl, rfl, rfl, fun name hname => .inl ?_, out_ne_cons g⟩
    unfold attached at hname ⊢
    obtain rfl := List.mem_singleton.mp hname
    simp [hopening]
  | error e =>
    refine ⟨rfl, rfl, rfl, rfl, fun name hname => .inl ?_, ?_⟩
    · unfold attached at hname ⊢
      simp only [send, Option.toList_none, List.append_nil] at hname
      rw [List.map_append, List.mem_append]
      exact .inl hname
    · apply cons_ne_title
      nofun

/-- The state that a line leaves its terminal in. -/
theorem terminal_monitorLine {name line : String} {after : TerminalState}
    {event : Option ServerToDevice} (h : g.readLine task.serde name line = some (after, event)) :
    (g.monitorLine task.serde name line).terminal name = after := by
  rw [monitorLine_of_readLine h]
  unfold terminal
  dsimp only
  rw [Function.update_self, Option.getD_some]

theorem terminal_monitorLine_of_ne {name line other : String} (hother : other ≠ name) :
    (g.monitorLine task.serde name line).terminal other = g.terminal other := by
  unfold monitorLine
  split
  · rfl
  · unfold terminal
    dsimp only
    rw [Function.update_of_ne hother]

/-- What waits after a line was recorded: its title, if it is about one, is the newest. -/
theorem waitingTitles_monitorLine {name line : String} {after : TerminalState}
    {event : Option ServerToDevice} (hidle : g.recorded name = none)
    (h : g.readLine task.serde name line = some (after, event)) :
    (g.monitorLine task.serde name line).waitingTitles name =
      g.waitingTitles name ++ (event.bind (titleOf name)).toList := by
  rw [monitorLine_of_readLine h]
  unfold waitingTitles
  dsimp only
  rw [Function.update_self, hidle, Option.toList_none, List.append_nil, List.filterMap_append]
  congr 1
  cases event with
  | none => rfl
  | some event =>
    rw [Option.toList_some, Option.bind_some, List.filterMap_cons]
    cases titleOf name event <;> rfl

theorem waitingTitles_monitorLine_of_ne {name line other : String} (hother : other ≠ name) :
    (g.monitorLine task.serde name line).waitingTitles other = g.waitingTitles other := by
  unfold monitorLine
  split
  · rfl
  · unfold waitingTitles
    dsimp only
    rw [Function.update_of_ne hother]

/-- An event that is queued waits like before, behind the other events. -/
theorem waitingTitles_queued {name : String} {event : ServerToDevice}
    (hrecorded : g.recorded name = some event) (habout : event.socket? = some name)
    (other : String) (events : List ServerToDevice) :
    ((events ++ [event]) ++ (Function.update g.recorded name none other).toList).filterMap
        (titleOf other) =
      (events ++ (g.recorded other).toList).filterMap (titleOf other) := by
  by_cases hname : other = name
  · subst hname
    rw [Function.update_self, Option.toList_none, List.append_nil, hrecorded, Option.toList_some]
  · rw [Function.update_of_ne hname, List.append_assoc, List.filterMap_append,
      List.filterMap_append, List.filterMap_append,
      List.filterMap_cons_none (titleOf_of_socket habout hname), List.filterMap_nil,
      List.nil_append]

/-- What waits after an event was queued for the device. A full channel has lost its
oldest event. -/
theorem waitingTitles_queue {name : String} {event : ServerToDevice}
    (hrecorded : g.recorded name = some event) (habout : event.socket? = some name)
    (hconnected : g.connected = true) (hfits : g.events.length ≤ eventCapacity) (other : String) :
    g.waitingTitles other = (g.queue name event).waitingTitles other ∨
      eventCapacity ≤ g.events.length ∧
        g.waitingTitles other = (g.events.head?.bind (titleOf other)).toList ++
          (g.queue name event).waitingTitles other := by
  unfold waitingTitles queue
  dsimp only
  rw [if_pos hconnected]
  by_cases hfull : eventCapacity ≤ g.events.length
  · cases hevents : g.events with
    | nil =>
      rw [hevents] at hfull
      exact absurd hfull (by decide)
    | cons oldest events =>
      rw [hevents] at hfits hfull
      rw [CappedQueue.push_of_full event (Nat.le_antisymm hfits hfull),
        waitingTitles_queued hrecorded habout]
      refine .inr ⟨hfull, ?_⟩
      rw [List.head?_cons, Option.bind_some, List.cons_append, List.filterMap_cons]
      cases titleOf other oldest <;> rfl
  · rw [CappedQueue.push_of_lt event (Nat.lt_of_not_le hfull),
      waitingTitles_queued hrecorded habout]
    exact .inl rfl

end Frames

/-- What a step does to the records, the waiting events and the attached terminals. -/
inductive Outcome (task : DeviceTask) (g : Gateway) : Action → Gateway → Prop
  | scan (live : List String) : Outcome task g (.scan live) (g.scan live)
  | record {name line : String} {after : TerminalState} {event : Option ServerToDevice}
      (hidle : g.recorded name = none)
      (hread : g.readLine task.serde name line = some (after, event)) :
      Outcome task g (.monitorLine name line) (g.monitorLine task.serde name line)
  | queue {name : String} {event : ServerToDevice} (hrecorded : g.recorded name = some event) :
      Outcome task g (.queue name) (g.queue name event)
  | subscribe : Outcome task g .subscribe { g with connected := true }
  | event {event : ServerToDevice} {events : List ServerToDevice} (hconnected : g.connected = true)
      (hopening : g.opening = none) (hevents : g.events = event :: events) :
      Outcome task g .event ({ g with events := events }.onEvent task.rules event)
  | other {a : Action} {g' : Gateway} (hdiscreet : Discreet task.rules g g') : Outcome task g a g'

theorem step_outcome {a : Action} (h : Gateway.step task g a = some g') : Outcome task g a g' := by
  have hquiet {a : Action} {g' : Gateway} (hterminals : g'.terminals = g.terminals)
      (hrecorded : g'.recorded = g.recorded) (hevents : g'.events = g.events)
      (hconnected : g'.connected = g.connected) (hattached : g'.attached = g.attached)
      (hout : ∀ name title, g'.out ≠ .message (.title name title) :: g.out) :
      Outcome task g a g' :=
    .other ⟨hterminals, hrecorded, hevents, hconnected, fun _ hname => .inl (hattached ▸ hname),
      hout⟩
  cases takes_of_step h with
  | scan live => exact .scan live
  | record hidle hread => exact .record hidle hread
  | queue hrecorded => exact .queue hrecorded
  | subscribe => exact .subscribe
  | event hconnected hopening hevents => exact .event hconnected hopening hevents
  | message hconnected text world =>
    exact .other (discreet_handleDeviceMessage hconnected text world)
  | opened hopening result => exact .other (discreet_opened hopening result)
  | sessionEnd => exact .other (discreet_disconnect g _)
  | ignore name line => exact hquiet rfl rfl rfl rfl rfl (out_ne_cons g)
  | monitorEnd name => exact hquiet rfl rfl rfl rfl rfl (out_ne_cons g)
  | lag => exact hquiet rfl rfl rfl rfl rfl (out_ne_cons g)
  | sessionLine line => exact hquiet rfl rfl rfl rfl rfl (by simp)
  | ping => exact hquiet rfl rfl rfl rfl rfl (by simp)

/-- An event is passed on if its terminal is visible. Otherwise it is dropped, and
so is the connection to that terminal. -/
theorem onEvent_cases (rules : List CompiledRule) (hopening : g.opening = none)
    (event : ServerToDevice) :
    ((∀ name, event.socket? = some name → g.shows rules name = true) ∧
        g.onEvent rules event = g.send event) ∨
      ∃ name, event.socket? = some name ∧ Discreet rules g (g.onEvent rules event) ∧
        name ∉ (g.onEvent rules event).attached := by
  unfold onEvent
  cases hsocket : event.socket? with
  | none => exact .inl ⟨nofun, rfl⟩
  | some name =>
    dsimp only
    by_cases hallowed : g.sessionAllowed rules name = true
    · rw [if_pos hallowed]
      refine .inl ⟨?_, rfl⟩
      rintro other heq
      obtain rfl := Option.some.inj heq
      rwa [← sessionAllowed_eq_shows]
    · rw [if_neg hallowed]
      refine .inr ⟨name, rfl, ?_⟩
      split_ifs with hsession
      · refine ⟨discreet_disconnect g _, ?_⟩
        simp [attached, send, setSession, hopening]
      · refine ⟨⟨rfl, rfl, rfl, rfl, fun _ => .inl, out_ne_cons g⟩, fun hname => hsession ?_⟩
        simp only [attached, hopening, Option.toList_none, List.append_nil, List.mem_map,
          Option.mem_toList] at hname
        obtain ⟨conn, hconn, rfl⟩ := hname
        rw [Option.mem_def.mp hconn, Option.any_some, decide_eq_true rfl]

/-- Every recorded event is about its own terminal, the channel keeps its capacity,
and a device that is not connected is attached to nothing. -/
structure Proper (g : Gateway) : Prop where
  about : ∀ name event, g.recorded name = some event → event.socket? = some name
  fits : g.events.length ≤ eventCapacity
  offline : g.connected = false → g.attached = []

variable {rules : List CompiledRule}

theorem Proper.discreet (hproper : g.Proper) (hdiscreet : Discreet rules g g') : g'.Proper := by
  refine ⟨?_, ?_, fun hoffline => ?_⟩
  · rw [hdiscreet.recorded]
    exact hproper.about
  · rw [hdiscreet.events]
    exact hproper.fits
  · rw [hdiscreet.connected] at hoffline
    refine List.eq_nil_iff_forall_not_mem.mpr fun name hname => ?_
    rcases hdiscreet.attached name hname with hold | ⟨hconnected, -⟩
    · rw [hproper.offline hoffline] at hold
      exact List.not_mem_nil hold
    · exact absurd (hoffline.symm.trans hconnected) Bool.false_ne_true

/-- A line is recorded for its own terminal. -/
theorem proper_monitorLine (hproper : g.Proper) {name line : String} {after : TerminalState}
    {event : Option ServerToDevice}
    (hread : g.readLine task.serde name line = some (after, event)) :
    (g.monitorLine task.serde name line).Proper := by
  rw [monitorLine_of_readLine hread]
  refine ⟨fun other recorded hrecorded => ?_, hproper.fits, hproper.offline⟩
  dsimp only at hrecorded
  by_cases hname : other = name
  · subst hname
    rw [Function.update_self] at hrecorded
    obtain ⟨msg, hmsg⟩ := readLine_eq_some hread
    rcases readMonitored_cases hmsg with rfl | ⟨title, rfl, -⟩ | ⟨event', rfl, hsocket, -⟩
    · cases hrecorded
    · obtain rfl := Option.some.inj hrecorded
      rfl
    · obtain rfl := Option.some.inj hrecorded
      exact hsocket
  · rw [Function.update_of_ne hname] at hrecorded
    exact hproper.about other recorded hrecorded

theorem proper_queue (hproper : g.Proper) (name : String) (event : ServerToDevice) :
    (g.queue name event).Proper := by
  unfold queue
  refine ⟨fun other recorded hrecorded => ?_, ?_, hproper.offline⟩
  · dsimp only at hrecorded
    by_cases hname : other = name
    · rw [hname, Function.update_self] at hrecorded
      cases hrecorded
    · rw [Function.update_of_ne hname] at hrecorded
      exact hproper.about other recorded hrecorded
  · dsimp only
    split_ifs
    · rw [CappedQueue.length_push]
      exact Nat.min_le_left _ _
    · exact hproper.fits

theorem Proper.step {a : Action} (hproper : g.Proper) (h : Gateway.step task g a = some g') :
    g'.Proper := by
  cases step_outcome h with
  | scan live => exact ⟨hproper.about, hproper.fits, hproper.offline⟩
  | subscribe => exact ⟨hproper.about, hproper.fits, nofun⟩
  | record hidle hread => exact proper_monitorLine hproper hread
  | queue hrecorded => exact proper_queue hproper _ _
  | event hconnected hopening hevents =>
    rename_i event events
    have hfits := hproper.fits
    rw [hevents, List.length_cons] at hfits
    have hrest : { g with events := events }.Proper :=
      ⟨hproper.about, Nat.le_of_succ_le hfits, hproper.offline⟩
    rcases @onEvent_cases { g with events := events } task.rules hopening event with
      ⟨-, heq⟩ | ⟨name, -, hdiscreet, -⟩
    · rw [heq]
      exact ⟨hrest.about, hrest.fits, hrest.offline⟩
    · exact hrest.discreet hdiscreet
  | other hdiscreet => exact hproper.discreet hdiscreet

theorem proper_start : start.Proper := ⟨nofun, Nat.zero_le _, fun _ => rfl⟩

/-- A terminal is visible, or the event that will show that it is hidden still waits. -/
def Covered (rules : List CompiledRule) (g : Gateway) (name : String) : Prop :=
  g.shows rules name = true ∨ revokes rules (g.terminal name).cwd (g.waitingTitles name) = true

/-- No relayed line overtakes the event that hides the attached terminal, and nothing
but such an event hides it: neither a greeting, nor that its socket is not found, nor
that the event was lost. -/
def RevokedInTime (task : DeviceTask) (g : Gateway) : Action → Prop
  | .scan live => ∀ name ∈ g.attached, name ∈ live
  | .monitorLine name line => name ∈ g.attached →
      ∀ read ∈ g.readLine task.serde name line, read.2 = none →
        filterAllows task.rules read.1.cwd read.1.title = true ∨
          revokes task.rules read.1.cwd (g.waitingTitles name) = true
  | .queue _ => eventCapacity ≤ g.events.length → ∀ name ∈ g.attached,
      g.waitingTitles name = (g.events.head?.bind (titleOf name)).toList →
        revokes task.rules (g.terminal name).cwd (g.waitingTitles name) = false
  | .sessionLine _ => ∀ conn ∈ g.session,
      revokes task.rules (g.terminal conn.name).cwd (g.waitingTitles conn.name) = false
  | _ => True

instance (task : DeviceTask) (g : Gateway) : DecidablePred (g.RevokedInTime task)
  | .scan live => inferInstanceAs (Decidable (∀ name ∈ g.attached, name ∈ live))
  | .monitorLine _ _ => inferInstanceAs (Decidable (_ → ∀ read ∈ g.readLine _ _ _, _ → _ ∨ _))
  | .queue _ => inferInstanceAs (Decidable (_ → ∀ name ∈ g.attached, _ → _))
  | .sessionLine _ => inferInstanceAs (Decidable (∀ conn ∈ g.session, _))
  | .monitorEnd _ | .subscribe | .message .. | .opened _ | .sessionEnd | .event | .ping =>
    isTrue trivial

/-- A session's line is relayed only when its terminal passes the filter. -/
def RelaysVisible (rules : List CompiledRule) (g : Gateway) : Action → Prop
  | .sessionLine _ => ∀ conn ∈ g.session, g.sessionAllowed rules conn.name = true
  | _ => True

theorem revokes_append {cwd : Option String} {older newer : List String} (h : newer ≠ []) :
    revokes rules cwd (older ++ newer) = revokes rules cwd newer := by
  unfold revokes
  rw [List.getLast?_append_of_ne_nil _ h]

/-- A terminal stays covered while neither its record nor what waits changes. -/
theorem Covered.congr {name : String} (hcovered : g.Covered rules name)
    (hterminal : g'.terminal name = g.terminal name)
    (hwaiting : g'.waitingTitles name = g.waitingTitles name) : g'.Covered rules name := by
  unfold Covered shows at hcovered ⊢
  rwa [hterminal, hwaiting]

theorem covered_discreet {name : String} (hdiscreet : Discreet rules g g')
    (hcovered : name ∈ g.attached → g.Covered rules name) (hname : name ∈ g'.attached) :
    g'.Covered rules name := by
  have hterminal : g'.terminal name = g.terminal name := by
    unfold terminal
    rw [hdiscreet.terminals]
  rcases hdiscreet.attached name hname with hattached | ⟨-, hshows⟩
  · apply (hcovered hattached).congr hterminal
    unfold waitingTitles
    rw [hdiscreet.events, hdiscreet.recorded]
  · apply Or.inl
    unfold shows at hshows ⊢
    rwa [hterminal]

/-- A recorded title waits from now on, so that it covers its terminal if it hides it. -/
theorem covered_monitorLine {name line : String} {after : TerminalState}
    {event : Option ServerToDevice} (hidle : g.recorded name = none)
    (hread : g.readLine task.serde name line = some (after, event))
    (hcovered : g.Covered task.rules name)
    (htime : event = none → filterAllows task.rules after.cwd after.title = true ∨
      revokes task.rules after.cwd (g.waitingTitles name) = true) :
    (g.monitorLine task.serde name line).Covered task.rules name := by
  unfold Covered shows at hcovered ⊢
  rw [terminal_monitorLine hread, waitingTitles_monitorLine hidle hread]
  obtain ⟨msg, hmsg⟩ := readLine_eq_some hread
  rcases readMonitored_cases hmsg with rfl | ⟨title, rfl, hcwd, htitle⟩ |
    ⟨event', rfl, -, hnone, hcwd, htitle⟩
  · rw [Option.bind_none, Option.toList_none, List.append_nil]
    exact htime rfl
  · rw [htitle]
    cases hallows : filterAllows task.rules after.cwd (some title) with
    | true => exact .inl rfl
    | false =>
      apply Or.inr
      rw [Option.bind_some, titleOf, if_pos rfl, Option.toList_some,
        revokes_append (List.cons_ne_nil _ _)]
      simp [revokes, hallows]
  · rw [Option.bind_some, hnone, Option.toList_none, List.append_nil, hcwd, htitle]
    exact hcovered

/-- An event that covers a terminal still does so when another one was queued. -/
theorem covered_queue {name other : String} {event : ServerToDevice}
    (hrecorded : g.recorded name = some event) (habout : event.socket? = some name)
    (hconnected : g.connected = true) (hfits : g.events.length ≤ eventCapacity)
    (hcovered : g.Covered rules other)
    (htime : eventCapacity ≤ g.events.length →
      g.waitingTitles other = (g.events.head?.bind (titleOf other)).toList →
        revokes rules (g.terminal other).cwd (g.waitingTitles other) = false) :
    (g.queue name event).Covered rules other := by
  rcases waitingTitles_queue hrecorded habout hconnected hfits other with hsame | ⟨hfull, hlost⟩
  · exact hcovered.congr rfl hsame.symm
  · rcases hcovered with hshows | hrevokes
    · exact .inl hshows
    · by_cases hnil : (g.queue name event).waitingTitles other = []
      · rw [hnil, List.append_nil] at hlost
        exact absurd (hrevokes.symm.trans (htime hfull hlost)) Bool.noConfusion
      · apply Or.inr
        rwa [hlost, revokes_append hnil] at hrevokes

/-- A terminal that an event shows to be hidden is not attached any more. -/
theorem covered_onEvent {name : String} {event : ServerToDevice} {events : List ServerToDevice}
    (hopening : g.opening = none) (hevents : g.events = event :: events)
    (hcovered : ∀ name ∈ g.attached, g.Covered rules name)
    (hname : name ∈ ({ g with events := events }.onEvent rules event).attached) :
    ({ g with events := events }.onEvent rules event).Covered rules name := by
  have hwaiting : titleOf name event = none →
      { g with events := events }.waitingTitles name = g.waitingTitles name := by
    intro hnone
    unfold waitingTitles
    rw [hevents, List.cons_append, List.filterMap_cons_none hnone]
  rcases @onEvent_cases { g with events := events } rules hopening event with
    ⟨hshows, heq⟩ | ⟨hidden, hsocket, hdiscreet, hdropped⟩
  · rw [heq] at hname ⊢
    cases htitle : titleOf name event with
    | none => exact (hcovered name hname).congr rfl (hwaiting htitle)
    | some title => exact .inl (hshows name (congrArg _ (eq_title_of_titleOf htitle)))
  · have hne : name ≠ hidden := fun hsame => hdropped (hsame ▸ hname)
    refine covered_discreet hdiscreet (fun hattached => ?_) hname
    exact (hcovered name hattached).congr rfl (hwaiting (titleOf_of_socket hsocket hne))

theorem Covered.step {a : Action} (hproper : g.Proper)
    (hcovered : ∀ name ∈ g.attached, g.Covered task.rules name) (htime : g.RevokedInTime task a)
    (h : Gateway.step task g a = some g') : ∀ name ∈ g'.attached, g'.Covered task.rules name := by
  intro name hname
  cases step_outcome h with
  | scan live => exact (hcovered name hname).congr (terminal_scan (htime name hname)) rfl
  | subscribe => exact (hcovered name hname).congr rfl rfl
  | record hidle hread =>
    rename_i recorded line after event
    have hattached : name ∈ g.attached := by
      rwa [monitorLine_of_readLine hread] at hname
    by_cases hsame : name = recorded
    · subst hsame
      exact covered_monitorLine hidle hread (hcovered name hattached) (htime hattached _ hread)
    · exact (hcovered name hattached).congr (terminal_monitorLine_of_ne hsame)
        (waitingTitles_monitorLine_of_ne hsame)
  | queue hrecorded =>
    rename_i recorded event
    have hattached : name ∈ g.attached := hname
    have hconnected : g.connected = true := by
      by_contra hoffline
      rw [hproper.offline (Bool.not_eq_true _ ▸ hoffline)] at hattached
      exact List.not_mem_nil hattached
    exact covered_queue hrecorded (hproper.about _ _ hrecorded) hconnected hproper.fits
      (hcovered name hattached) fun hfull hlost => htime hfull name hattached hlost
  | event hconnected hopening hevents =>
    exact covered_onEvent hopening hevents hcovered hname
  | other hdiscreet => exact covered_discreet hdiscreet (hcovered name) hname

/-- In a run in which a terminal is hidden only by titles and no relayed line
overtakes such a title, lines are relayed from visible terminals only. -/
theorem relays_visible (task : DeviceTask) {actions : List Action}
    (htime : Machine.Along (Gateway.step task) (RevokedInTime task) start actions) :
    Machine.Along (Gateway.step task) (RelaysVisible task.rules) start actions := by
  refine htime.of_invariant
    (I := fun g => g.Proper ∧ ∀ name ∈ g.attached, g.Covered task.rules name)
    (fun g a g' hinv htime h => ⟨hinv.1.step h, Covered.step hinv.1 hinv.2 htime h⟩) ?_
    ⟨proper_start, fun _ hname => absurd hname List.not_mem_nil⟩
  rintro g a ⟨-, hcovered⟩ htime
  cases a with
  | sessionLine line =>
    intro conn hconn
    rw [sessionAllowed_eq_shows]
    rcases hcovered conn.name (by simp [attached, Option.mem_def.mp hconn]) with hshows | hrevokes
    · exact hshows
    · exact absurd (hrevokes.symm.trans (htime conn hconn)) Bool.noConfusion
  | _ => trivial

end Gateway

/-- A token that may see the terminals with one title. -/
def sharedToken : TokenConfig := { workToken "robert" with filter := [⟨none, some "shared"⟩] }

/-- The task of a device with this token. -/
def sharedTask : DeviceTask where
  serde := sampleSerde
  crates := sampleCrates
  config := ⟨[sharedToken], [], [], none, none⟩
  token := sharedToken
  rules := [⟨none, some ⟨"^(?:shared)$", fun value => value = "shared"⟩, .inr rfl⟩]
  init := ⟨"init", 1, "glasses-token", "glasses", 80, 24⟩

example : compileFilter sampleCrates sharedToken = .ok sharedTask.rules := rfl

/-- The device attaches to a terminal that it may see. -/
def attachShared : List Gateway.Action :=
  [.scan ["1-w"],
    .monitorLine "1-w" "\x7b\"type\":\"connect\",\"cwd\":\"/w\",\"title\":\"shared\"\x7d",
    .subscribe, .message "\x7b\"type\":\"connect\",\"socket\":\"1-w\"\x7d" noWorld,
    .opened (.ok ())]

/-- The monitor of the terminal reads this title. -/
def retitle (title : String) : Gateway.Action :=
  .monitorLine "1-w" ("\x7b\"type\":\"title\",\"title\":\"" ++ title ++ "\"\x7d")

namespace Gateway

instance (rules : List CompiledRule) (g : Gateway) : DecidablePred (g.RelaysVisible rules)
  | .sessionLine _ => inferInstanceAs (Decidable (∀ conn ∈ g.session, _))
  | .scan _ | .monitorLine .. | .queue _ | .monitorEnd _ | .subscribe | .message .. | .opened _
  | .sessionEnd | .event | .ping => isTrue trivial

/-- A line is relayed between the recording of a title that hides the terminal and
the processing of its event. -/
theorem relay_overtakes_revocation :
    ¬ Machine.Along (Gateway.step sharedTask) (RelaysVisible sharedTask.rules) start
      (attachShared ++ [retitle "private", .queue "1-w",
        .sessionLine "\x7b\"type\":\"output\",\"data\":\"\"\x7d"]) := by
  decide +kernel

/-- When the event is processed in time the terminal is cut off, and nothing is relayed. -/
theorem relays_visible_before_revocation :
    let actions := attachShared ++ [.sessionLine "\x7b\"type\":\"output\",\"data\":\"\"\x7d",
      retitle "private", .queue "1-w", .event]
    Machine.Along (Gateway.step sharedTask) (RelaysVisible sharedTask.rules) start actions ∧
      (Machine.run (Gateway.step sharedTask) start actions).map (·.out) =
        some [.message (.disconnected "terminal no longer matches your token's filter"),
          .line "\x7b\"type\":\"output\",\"data\":\"\"\x7d"] :=
  ⟨relays_visible sharedTask (by decide +kernel), by decide +kernel⟩

end Gateway

end G2mirror
