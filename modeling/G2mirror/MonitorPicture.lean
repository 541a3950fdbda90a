import G2mirror.HostRole

/-!
# What the monitor knows about the host role

The greeting of a connection is sent when it is accepted, but only from its
`monitor` message on it is told of changes of the host role: what the monitor
knows is right if there was no change in between, and then it stays right.
-/

namespace G2mirror

open scoped List

variable {vt : Vt100}

namespace Wrapper

variable {env : Env} {config : Config} {w w' : Wrapper vt}

/-- What a monitor knows is right, and what a pending connection knows is what
its greeting said. -/
structure Pictured (w : Wrapper vt) : Prop where
  monitor : ∀ m, w.monitor = some m → w.log.picture m.id = some (!w.hostAttached)
  fresh : ∀ m, w.monitor = some m → m.id < w.nextClientId ∧ m.id ∉ w.pendings.map Client.id
  pendings : ∀ p ∈ w.pendings, w.log.picture p.id = w.log.greeted p.id

/-- What happens on the stage keeps the picture right. -/
theorem Pictured.of_informs (hw : w.Pictured) (h : w.Informs w')
    (hids : ∀ p ∈ w.pendings, p.id ∉ w.viewers.map Client.id) : w'.Pictured := by
  have hkept (m : Client) (hm : w'.monitor = some m) : w.monitor = some m := by
    rcases h.stage.monitor with hsame | hnone
    · exact hsame.symm.trans hm
    · rw [hnone] at hm
      cases hm
  refine ⟨fun m hm => ?_, fun m hm => ?_, fun p hp => ?_⟩
  · rcases h.stage.informed m.id ⟨m, .inl hm, rfl⟩ with hright | ⟨hattached, hpicture⟩
    · exact hright
    · rw [hattached, hpicture]
      exact hw.monitor m (hkept m hm)
  · rw [h.nextClientId, h.pendings]
    exact hw.fresh m (hkept m hm)
  · rw [h.pendings] at hp
    have hsame : w'.log.picture p.id = w.log.picture p.id := by
      refine h.stage.others p.id (hids p hp) fun m hm heq => (hw.fresh m hm).2 ?_
      rw [heq]
      exact List.mem_map_of_mem hp
    rw [hsame, h.stage.greeted p.id, hw.pendings p hp]

/-- A connection becomes the monitor only if the host role is as it was when the
connection was accepted. -/
def GreetingHolds (config : Config) (w : Wrapper vt) : Event → Prop
  | .pendingMessage i (.message (.monitor version)) =>
    version = protocolVersion → ∀ p ∈ w.pendings[i]?,
      w.log.greeted p.id = some (config.headless && !w.hostAttached)
  | _ => True

instance (config : Config) (w : Wrapper vt) (event : Event) :
    Decidable (GreetingHolds config w event) := by
  unfold GreetingHolds
  split
  · exact inferInstance
  · exact inferInstance

/-- A connection that becomes the monitor in time knows what it has to. -/
theorem Pictured.becomes_monitor (hw : w.Pictured) (hproper : w.Proper config)
    (hheadless : config.headless = true) {i : ℕ} {p : Client} (hp : w.pendings[i]? = some p)
    (hgreeting : w.log.greeted p.id = some (config.headless && !w.hostAttached)) :
    ({ w.forget i with monitor := some p } : Wrapper vt).Pictured := by
  have hmem := List.mem_of_getElem? hp
  refine ⟨?_, ?_, fun p hp => hw.pendings p (List.mem_of_mem_eraseIdx hp)⟩
  · rintro m ⟨⟩
    rw [hheadless, Bool.true_and] at hgreeting
    exact (hw.pendings _ hmem).trans hgreeting
  · rintro m ⟨⟩
    exact ⟨hproper.fresh _ (List.mem_append_right _ (List.mem_map_of_mem hmem)),
      hproper.erased_ne hp⟩

/-- A new connection knows what its greeting says. -/
theorem Pictured.accepts (hw : w.Pictured) (hproper : w.Proper config) (size : Option (ℕ × ℕ)) :
    (w.onAccept env config size).Pictured := by
  have hother {id : ℕ} (hid : id < w.nextClientId) :
      (w.onAccept env config size).log.picture id = w.log.picture id ∧
        (w.onAccept env config size).log.greeted id = w.log.greeted id := by
    have hne : (Client.new w.nextClientId).id ≠ id := Nat.ne_of_gt hid
    unfold onAccept Env.send Log.picture Log.greeted
    cases env.succeeds w.log with
    | false => exact ⟨rfl, rfl⟩
    | true => simp [Obs.picture?, Obs.greeting?, hne]
  have hfresh (p : Client) (hp : p ∈ w.pendings) : p.id < w.nextClientId :=
    hproper.fresh _ (List.mem_append_right _ (List.mem_map_of_mem hp))
  refine ⟨fun m hm => ?_, fun m hm => ?_, fun p hp => ?_⟩
  · exact (hother (hw.fresh m hm).1).1.trans (hw.monitor m hm)
  · obtain ⟨hless, hpending⟩ := hw.fresh m hm
    refine ⟨Nat.lt_succ_of_lt hless, fun hid => ?_⟩
    obtain ⟨p, hp, hpid⟩ := List.mem_map.mp hid
    unfold onAccept at hp
    dsimp only at hp
    split at hp
    · rcases List.mem_append.mp hp with hp | hp
      · exact hpending (hpid ▸ List.mem_map_of_mem hp)
      · rw [← hpid, List.mem_singleton.mp hp] at hless
        exact absurd hless (Nat.lt_irrefl _)
    · exact hpending (hpid ▸ List.mem_map_of_mem hp)
  · have hold (hp : p ∈ w.pendings) : (w.onAccept env config size).log.picture p.id =
        (w.onAccept env config size).log.greeted p.id := by
      obtain ⟨hpicture, hgreeted⟩ := hother (hfresh p hp)
      rw [hpicture, hgreeted, hw.pendings p hp]
    have hpendings : (w.onAccept env config size).pendings =
        if env.succeeds w.log then w.pendings ++ [Client.new w.nextClientId] else w.pendings := rfl
    rw [hpendings] at hp
    split at hp
    · rename_i hok
      rcases List.mem_append.mp hp with hp | hp
      · exact hold hp
      · rw [List.mem_singleton.mp hp]
        unfold onAccept Env.send Log.picture Log.greeted
        simp [hok, Obs.picture?, Obs.greeting?, FromSession.detached?]
    · exact hold hp

/-- A pending connection is forgotten. -/
theorem Pictured.forget (hw : w.Pictured) (i : ℕ) : (w.forget i).Pictured := by
  refine ⟨hw.monitor, fun m hm => ?_, fun p hp => hw.pendings p (List.mem_of_mem_eraseIdx hp)⟩
  obtain ⟨hless, hother⟩ := hw.fresh m hm
  exact ⟨hless, fun hid => hother (((List.eraseIdx_sublist _ _).map _).subset hid)⟩

/-- So is it after what an event does to the connections, if one of them becomes the
monitor in time, and then the ids of those still pending are not those of viewers. -/
theorem Pictured.admits {u : Wrapper vt} (hw : w.Pictured) (hproper : w.Proper config)
    (hheadless : config.headless = true) {event : Event} (hgreeting : GreetingHolds config w event)
    (h : Admits env config w event u) :
    u.Pictured ∧ ∀ p ∈ u.pendings, p.id ∉ u.viewers.map Client.id := by
  have hids := hproper.pending_not_viewer
  have hleft (i : ℕ) : ∀ q ∈ (w.forget i).pendings, q.id ∉ w.viewers.map Client.id :=
    fun q hq => hids q (List.mem_of_mem_eraseIdx hq)
  cases h with
  | nobody => exact ⟨hw, hids⟩
  | greeted size =>
    refine ⟨hw.accepts hproper size, fun p hp => ?_⟩
    unfold onAccept at hp
    dsimp only at hp
    split at hp
    · rcases List.mem_append.mp hp with hp | hp
      · exact hids p hp
      · rw [List.mem_singleton.mp hp]
        intro hid
        exact absurd (hproper.fresh _ (List.mem_append_left _ hid)) (Nat.lt_irrefl _)
    · exact hids p hp
  | forgotten i received => exact ⟨hw.forget i, hleft i⟩
  | @viewer i p received hp =>
    have hforgot := hw.forget i
    refine ⟨⟨hforgot.monitor, hforgot.fresh, hforgot.pendings⟩, fun q hq hid => ?_⟩
    rw [List.map_append, List.mem_append, List.map_singleton, List.mem_singleton] at hid
    rcases hid with hid | hid
    · exact hleft i q hq hid
    · exact hproper.erased_ne hp (hid ▸ List.mem_map_of_mem hq)
  | @monitor i p hp => exact ⟨hw.becomes_monitor hproper hheadless hp (hgreeting rfl p hp), hleft i⟩

/-- Every event keeps the picture right. -/
theorem Pictured.step (hw : w.Pictured) (hproper : w.Proper config)
    (hheadless : config.headless = true) {event : Event} (hgreeting : GreetingHolds config w event)
    (h : step env config w event = some w') : w'.Pictured := by
  obtain ⟨u, hadmits, hinforms⟩ := step_informs hproper hheadless h
  obtain ⟨hpictured, hids⟩ := hw.admits hproper hheadless hgreeting hadmits
  exact hpictured.of_informs hinforms hids

/-- What the monitor knows. In every run of a headless session in which each
connection becomes the monitor while the host role is as at its greeting, what
the monitor was sent tells whether the session is detached. -/
theorem monitor_pictures_detached {w₀ : Wrapper vt} {events : List Event}
    (hheadless : config.headless = true) (hstart : start vt env config = some w₀)
    (hrun : Machine.run (Wrapper.step env config) w₀ events = some w)
    (halong : Machine.Along (Wrapper.step env config) (GreetingHolds config) w₀ events) :
    ∀ m, w.monitor = some m → w.log.picture m.id = some (config.headless && !w.hostAttached) := by
  have hbegins := start_begins hstart
  have hnone : w₀.monitor = none := start_monitor hstart
  have hstarted : w₀.Pictured := by
    refine ⟨fun m hm => ?_, fun m hm => ?_, fun p hp => ?_⟩
    · cases hnone.symm.trans hm
    · cases hnone.symm.trans hm
    · rw [hbegins.pendings] at hp
      exact absurd hp List.not_mem_nil
  have hinv := Machine.run_invariant_along
    (I := fun v : Wrapper vt => v.Proper config ∧ v.Pictured)
    (fun v event v' hv hgreeting hstep =>
      ⟨hv.1.step hstep, hv.2.step hv.1 hheadless hgreeting hstep⟩)
    ⟨start_proper hstart, hstarted⟩ halong hrun
  intro m hm
  rw [hheadless, Bool.true_and]
  exact hinv.2.monitor m hm

/-- A connection is greeted, another one claims the host role, and then the first
one becomes the monitor: it still takes the session for detached. -/
theorem monitor_takes_claimed_for_detached :
    ∃ w ∈ session asciiVt100 (.failingAt []) (smallConfig true)
        ([.accept none, .accept none] ++
          [.pendingMessage 1 (.message (.init ⟨1, "attach", 4, 2, none, none, .host, false⟩)),
            .pendingMessage 0 (.message (.monitor 1))]),
      ∃ m ∈ w.monitor, w.log.picture m.id = some true ∧ w.hostAttached = true := by
  decide +kernel

/-- A monitor connects at once, and then the host role is claimed. -/
theorem monitor_pictures_detached_of_prompt :
    ∃ w : Wrapper asciiVt100, w.monitor.isSome ∧ w.hostAttached = true ∧
      ∀ m, w.monitor = some m → w.log.picture m.id = some (true && !w.hostAttached) := by
  obtain ⟨w₀, hstart, w, hrun, halong, hmonitor, hattached⟩ :
      ∃ w₀ ∈ start asciiVt100 (.failingAt []) (smallConfig true),
        ∃ w ∈ Machine.run (Wrapper.step (.failingAt []) (smallConfig true)) w₀
          ([.accept none, .pendingMessage 0 (.message (.monitor 1))] ++ attach false),
        Machine.Along (Wrapper.step (.failingAt []) (smallConfig true))
          (GreetingHolds (smallConfig true)) w₀
          ([.accept none, .pendingMessage 0 (.message (.monitor 1))] ++ attach false) ∧
        w.monitor.isSome ∧ w.hostAttached = true := by
    decide +kernel
  exact ⟨w, hmonitor, hattached, monitor_pictures_detached rfl hstart hrun halong⟩

end Wrapper

end G2mirror
