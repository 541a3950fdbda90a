import G2mirror.Visibility

/-!
# Titles that are pushed

A queued title is pushed if its terminal is visible when the event is received,
as the terminal is recorded then. That the title itself passes the filter depends
on the order in which titles were recorded: a visible record must not come while
the event of a hidden title still waits.
-/

namespace G2mirror

namespace Gateway

variable {task : DeviceTask} {rules : List CompiledRule} {g g' : Gateway}

/-- While a terminal is visible, all its waiting titles pass the filter. -/
def TitlesPass (rules : List CompiledRule) (g : Gateway) (name : String) : Prop :=
  g.shows rules name = true →
    ∀ title ∈ g.waitingTitles name, filterAllows rules (g.terminal name).cwd (some title) = true

/-- What is recorded leaves a terminal visible only if its waiting titles pass, too. -/
def TitlesInOrder (task : DeviceTask) (g : Gateway) : Action → Prop
  | .monitorLine name line => ∀ read ∈ g.readLine task.serde name line,
      filterAllows task.rules read.1.cwd read.1.title = true →
        ∀ title ∈ g.waitingTitles name, filterAllows task.rules read.1.cwd (some title) = true
  | _ => True

instance (task : DeviceTask) (g : Gateway) : DecidablePred (g.TitlesInOrder task)
  | .monitorLine name line =>
    inferInstanceAs (Decidable (∀ read ∈ g.readLine task.serde name line, _ →
      ∀ title ∈ g.waitingTitles name, _))
  | .scan _ | .queue _ | .monitorEnd _ | .subscribe | .message .. | .opened _ | .sessionLine _
  | .sessionEnd | .event | .ping => isTrue trivial

/-- A title that the step pushes passes the filter, with the recorded directory. -/
def TitlePushesVisible (task : DeviceTask) (g : Gateway) (a : Action) : Prop :=
  ∀ g', Gateway.step task g a = some g' → ∀ name title,
    g'.out = .message (.title name title) :: g.out →
      filterAllows task.rules (g.terminal name).cwd (some title) = true

/-- Fewer titles wait while the record stays the same. -/
theorem TitlesPass.mono {name : String} (hpass : g.TitlesPass rules name)
    (hterminal : g'.terminal name = g.terminal name)
    (hwaiting : ∀ title ∈ g'.waitingTitles name, title ∈ g.waitingTitles name) :
    g'.TitlesPass rules name := by
  intro hshows title htitle
  unfold shows at hshows
  rw [hterminal] at hshows ⊢
  exact hpass hshows title (hwaiting title htitle)

/-- A forgotten terminal is hidden, unless there is no filter. -/
theorem titlesPass_scan {live : List String} {name : String} (hpass : g.TitlesPass rules name) :
    (g.scan live).TitlesPass rules name := by
  by_cases hname : name ∈ live
  · exact hpass.mono (terminal_scan hname) fun _ => id
  · intro hshows title _
    unfold shows at hshows
    rw [terminal_scan_of_notMem hname] at hshows
    obtain rfl := filterAllows_none hshows
    rfl

/-- A recorded title passes the filter if it is what makes its terminal visible. -/
theorem titlesPass_monitorLine {name line other : String} {after : TerminalState}
    {event : Option ServerToDevice} (hidle : g.recorded name = none)
    (hread : g.readLine task.serde name line = some (after, event))
    (hpass : g.TitlesPass task.rules other)
    (horder : g.TitlesInOrder task (.monitorLine name line)) :
    (g.monitorLine task.serde name line).TitlesPass task.rules other := by
  by_cases hname : other = name
  · subst hname
    intro hshows title htitle
    unfold shows at hshows
    rw [terminal_monitorLine hread] at hshows ⊢
    rw [waitingTitles_monitorLine hidle hread, List.mem_append] at htitle
    rcases htitle with hold | hnew
    · exact horder _ hread hshows title hold
    · obtain ⟨msg, hmsg⟩ := readLine_eq_some hread
      rcases readMonitored_cases hmsg with rfl | ⟨recorded, rfl, -, heq⟩ |
        ⟨event', rfl, -, hnone, -⟩
      · cases hnew
      · rw [Option.bind_some, titleOf, if_pos rfl] at hnew
        obtain rfl := List.mem_singleton.mp hnew
        rwa [heq] at hshows
      · rw [Option.bind_some, hnone] at hnew
        cases hnew
  · apply hpass.mono (terminal_monitorLine_of_ne hname)
    rw [waitingTitles_monitorLine_of_ne hname]
    exact fun _ => id

/-- Nothing waits after an event was queued that did not wait before. -/
theorem waitingTitles_queue_subset {name : String} {event : ServerToDevice} (hproper : g.Proper)
    (hrecorded : g.recorded name = some event) (other : String) :
    ∀ title ∈ (g.queue name event).waitingTitles other, title ∈ g.waitingTitles other := by
  intro title htitle
  cases hconnected : g.connected with
  | true =>
    rcases waitingTitles_queue hrecorded (hproper.about _ _ hrecorded) hconnected hproper.fits
      other with hsame | ⟨-, hlost⟩
    · rwa [hsame]
    · rw [hlost]
      exact List.mem_append_right _ htitle
  | false =>
    unfold waitingTitles queue at htitle
    rw [hconnected] at htitle
    unfold waitingTitles
    rw [List.filterMap_append, List.mem_append] at htitle ⊢
    refine htitle.imp_right fun hrest => ?_
    dsimp only at hrest
    by_cases hname : other = name
    · rw [hname, Function.update_self] at hrest
      cases hrest
    · rwa [Function.update_of_ne hname] at hrest

theorem TitlesPass.step {a : Action} (hproper : g.Proper)
    (hpass : ∀ name, g.TitlesPass task.rules name) (horder : g.TitlesInOrder task a)
    (h : Gateway.step task g a = some g') (name : String) : g'.TitlesPass task.rules name := by
  have hdiscreet {g₁ g₂ : Gateway} (hquiet : Discreet task.rules g₁ g₂)
      (hpass : g₁.TitlesPass task.rules name) : g₂.TitlesPass task.rules name := by
    refine hpass.mono ?_ fun title htitle => ?_
    · unfold terminal
      rw [hquiet.terminals]
    · unfold waitingTitles at htitle
      rwa [hquiet.events, hquiet.recorded] at htitle
  cases step_outcome h with
  | scan live => exact titlesPass_scan (hpass name)
  | record hidle hread => exact titlesPass_monitorLine hidle hread (hpass name) horder
  | queue hrecorded =>
    exact (hpass name).mono rfl (waitingTitles_queue_subset hproper hrecorded name)
  | subscribe => exact (hpass name).mono rfl fun _ => id
  | event hconnected hopening hevents =>
    rename_i event events
    have hrest : { g with events := events }.TitlesPass task.rules name := by
      refine (hpass name).mono rfl fun title htitle => ?_
      unfold waitingTitles at htitle ⊢
      rw [hevents, List.cons_append, List.filterMap_cons]
      split
      · exact htitle
      · exact List.mem_cons_of_mem _ htitle
    rcases @onEvent_cases { g with events := events } task.rules hopening event with
      ⟨-, heq⟩ | ⟨hidden, -, hquiet, -⟩
    · rw [heq]
      exact hrest.mono rfl fun _ => id
    · exact hdiscreet hquiet hrest
  | other hquiet => exact hdiscreet hquiet (hpass name)

/-- A title is pushed by the receipt of its event, while its terminal is visible. -/
theorem pushed_title {a : Action} (h : Gateway.step task g a = some g') {name title : String}
    (hout : g'.out = .message (.title name title) :: g.out) :
    title ∈ g.waitingTitles name ∧ g.shows task.rules name = true := by
  cases step_outcome h with
  | scan live => exact absurd hout (out_ne_cons g name title)
  | record hidle hread =>
    rw [monitorLine_of_readLine hread] at hout
    exact absurd hout (out_ne_cons g name title)
  | queue hrecorded => exact absurd hout (out_ne_cons g name title)
  | subscribe => exact absurd hout (out_ne_cons g name title)
  | event hconnected hopening hevents =>
    rename_i event events
    rcases @onEvent_cases { g with events := events } task.rules hopening event with
      ⟨hshows, heq⟩ | ⟨hidden, -, hquiet, -⟩
    · rw [heq] at hout
      obtain rfl := Sent.message.inj (List.cons.inj hout).1
      refine ⟨?_, hshows name rfl⟩
      unfold waitingTitles
      rw [hevents, List.cons_append, List.filterMap_cons, titleOf, if_pos rfl]
      exact List.mem_cons_self
    · exact absurd hout (hquiet.untitled name title)
  | other hquiet => exact absurd hout (hquiet.untitled name title)

/-- In a run in which no terminal becomes visible while a hidden title of it still
waits, every pushed title passes the filter. -/
theorem title_pushes_visible (task : DeviceTask) {actions : List Action}
    (horder : Machine.Along (Gateway.step task) (TitlesInOrder task) start actions) :
    Machine.Along (Gateway.step task) (TitlePushesVisible task) start actions := by
  refine horder.of_invariant
    (I := fun g => g.Proper ∧ ∀ name, g.TitlesPass task.rules name)
    (fun g a g' hinv horder h => ⟨hinv.1.step h, TitlesPass.step hinv.1 hinv.2 horder h⟩) ?_
    ⟨proper_start, fun _ _ _ htitle => absurd htitle List.not_mem_nil⟩
  rintro g a ⟨-, hpass⟩ - g' h name title hout
  obtain ⟨hwaits, hshows⟩ := pushed_title h hout
  exact hpass name hshows title hwaits

/-- A hidden title is pushed when a visible one was recorded before its event is received. -/
theorem stale_title_pushed :
    ¬ Machine.Along (Gateway.step sharedTask) (TitlePushesVisible sharedTask) start
      ([.scan ["1-w"], .subscribe, retitle "private", .queue "1-w", retitle "shared"] ++
        [.event]) := by
  intro hvisible
  obtain ⟨g, hrun, g', hstep, hout, hhidden⟩ :
      ∃ g ∈ Machine.run (Gateway.step sharedTask) start
          [.scan ["1-w"], .subscribe, retitle "private", .queue "1-w", retitle "shared"],
        ∃ g' ∈ Gateway.step sharedTask g .event,
          g'.out = .message (.title "1-w" "private") :: g.out ∧
            filterAllows sharedTask.rules (g.terminal "1-w").cwd (some "private") = false := by
    decide +kernel
  have hlast : Machine.Along (Gateway.step sharedTask) (TitlePushesVisible sharedTask) g [.event] :=
    (Machine.Along.append hvisible).2 g hrun
  exact absurd ((hlast.1 g' hstep _ _ hout).symm.trans hhidden) Bool.noConfusion

/-- A title is pushed, and one that hides its terminal is not. -/
theorem title_pushes_visible_one_by_one :
    let actions : List Action := [.scan ["1-w"], .subscribe, retitle "shared", .queue "1-w", .event,
      retitle "private", .queue "1-w", .event]
    Machine.Along (Gateway.step sharedTask) (TitlePushesVisible sharedTask) start actions ∧
      (Machine.run (Gateway.step sharedTask) start actions).map (·.out) =
        some [.message (.title "1-w" "shared")] :=
  ⟨title_pushes_visible sharedTask (by decide +kernel), by decide +kernel⟩

end Gateway

end G2mirror
