import G2mirror.Server

/-!
# Steps of the server

What each step does, with what has to hold before it. Results about the server's
runs start from these cases.
-/

namespace G2mirror

namespace Gateway

variable {task : DeviceTask} {g g' : Gateway}

/-- The steps that are possible. -/
inductive Takes (task : DeviceTask) (g : Gateway) : Action → Gateway → Prop
  | scan (live : List String) : Takes task g (.scan live) (g.scan live)
  | record {name line : String} {after : TerminalState} {event : Option ServerToDevice}
      (hidle : g.recorded name = none)
      (hread : g.readLine task.serde name line = some (after, event)) :
      Takes task g (.monitorLine name line) (g.monitorLine task.serde name line)
  /-- The line says nothing. -/
  | ignore (name line : String) : Takes task g (.monitorLine name line) g
  | queue {name : String} {event : ServerToDevice} (hrecorded : g.recorded name = some event) :
      Takes task g (.queue name) (g.queue name event)
  | monitorEnd (name : String) :
      Takes task g (.monitorEnd name) { g with monitored := g.monitored.filter (· ≠ name) }
  | subscribe : Takes task g .subscribe { g with connected := true }
  | message (hconnected : g.connected = true) (text : String) (world : Surroundings) :
      Takes task g (.message text world) (g.handleDeviceMessage task text world)
  | opened {conn : Conn} (hopening : g.opening = some conn) (result : Except String Unit) :
      Takes task g (.opened result) (g.opened conn result)
  | sessionLine (line : String) :
      Takes task g (.sessionLine line) { g with out := .line line :: g.out }
  | sessionEnd :
      Takes task g .sessionEnd ((g.setSession none).send (.disconnected "session closed"))
  /-- The receiver is told that it has lost events. -/
  | lag : Takes task g .event { g with lagged := false }
  | event {event : ServerToDevice} {events : List ServerToDevice} (hconnected : g.connected = true)
      (hopening : g.opening = none) (hevents : g.events = event :: events) :
      Takes task g .event ({ g with events := events }.onEvent task.rules event)
  | ping : Takes task g .ping { g with out := .ping :: g.out }

theorem connected_of_idle (h : g.idle = true) : g.connected = true ∧ g.opening = none := by
  unfold idle at h
  rw [Bool.and_eq_true, Option.isNone_iff_eq_none] at h
  exact h

theorem takes_of_receive (hidle : g.idle = true) (h : g.receive task.rules = some g') :
    Takes task g .event g' := by
  obtain ⟨hconnected, hopening⟩ := connected_of_idle hidle
  unfold receive at h
  split at h
  · obtain rfl := Option.some.inj h
    exact .lag
  · cases hevents : g.events with
    | nil =>
      rw [hevents] at h
      cases h
    | cons event events =>
      rw [hevents] at h
      obtain rfl := Option.some.inj h
      exact .event hconnected hopening hevents

/-- Whatever step is taken is one of these. -/
theorem takes_of_step {a : Action} (h : Gateway.step task g a = some g') : Takes task g a g' := by
  cases a with
  | scan live =>
    obtain rfl := Option.some.inj h
    exact .scan live
  | monitorLine name line =>
    obtain ⟨⟨-, hidle⟩, heq⟩ := Option.ite_none_right_eq_some.mp h
    obtain rfl := Option.some.inj heq
    cases hread : g.readLine task.serde name line with
    | none =>
      have hsame : g.monitorLine task.serde name line = g := by
        unfold monitorLine
        rw [hread]
      rw [hsame]
      exact .ignore name line
    | some read => exact .record hidle hread
  | queue name =>
    obtain ⟨event, hrecorded, rfl⟩ := Option.map_eq_some_iff.mp h
    exact .queue hrecorded
  | monitorEnd name =>
    obtain ⟨-, heq⟩ := Option.ite_none_right_eq_some.mp h
    obtain rfl := Option.some.inj heq
    exact .monitorEnd name
  | subscribe =>
    obtain ⟨-, heq⟩ := Option.ite_none_left_eq_some.mp h
    obtain rfl := Option.some.inj heq
    exact .subscribe
  | message text world =>
    obtain ⟨hidle, heq⟩ := Option.ite_none_right_eq_some.mp h
    obtain rfl := Option.some.inj heq
    exact .message (connected_of_idle hidle).1 text world
  | opened result =>
    obtain ⟨conn, hopening, rfl⟩ := Option.map_eq_some_iff.mp h
    exact .opened hopening result
  | sessionLine line =>
    obtain ⟨-, heq⟩ := Option.ite_none_right_eq_some.mp h
    obtain rfl := Option.some.inj heq
    exact .sessionLine line
  | sessionEnd =>
    obtain ⟨-, heq⟩ := Option.ite_none_right_eq_some.mp h
    obtain rfl := Option.some.inj heq
    exact .sessionEnd
  | event =>
    obtain ⟨hidle, heq⟩ := Option.ite_none_right_eq_some.mp h
    exact takes_of_receive hidle heq
  | ping =>
    obtain ⟨-, heq⟩ := Option.ite_none_right_eq_some.mp h
    obtain rfl := Option.some.inj heq
    exact .ping

end Gateway

end G2mirror
