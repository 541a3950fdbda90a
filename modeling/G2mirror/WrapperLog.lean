import G2mirror.WrapperRuns

/-!
# What the loop does to a stage

Most of what the loop does is work beside the view: messages and writes that leave the mirror
alone. The rest re-decides the view, resizes a viewer, or toggles the simulated device. A relation
that all of this satisfies holds between a stage before and after each operation, without a case
for each; greetings, titles, reports and child output are seen to apart.
-/

namespace G2mirror

open scoped List

variable {vt : Vt100}

/-- Messages that are sent as a matter of routine, beside those of a view's stream. -/
def FromSession.IsRoutine : FromSession → Prop
  | .hostChanged _ => True
  | .historyLines .. => True
  | .exit _ => True
  | .error _ => True
  | _ => False

/-- A property that all routine beside the view has. -/
structure Routine (P : Obs → Prop) : Prop where
  sent : ∀ c msg ok, msg.IsRoutine → P (.sent c msg ok)
  hostWrote : ∀ bytes ok, P (.hostWrote bytes ok)

/-- A property that all work on the view has. -/
structure Viewing (P : Obs → Prop) : Prop where
  snapshot : ∀ c data width height next ok, P (.sent c (.snapshot data width height next) ok)
  ptyResized : ∀ rows cols ok, P (.ptyResized rows cols ok)
  viewStarted : ∀ rows cols ok, P (.viewStarted rows cols ok)

/-- A property that the stream of a view has. -/
structure Streaming (P : Obs → Prop) : Prop where
  output : ∀ c data ok, P (.sent c (.output data) ok)
  produced : ∀ data, P (.produced data)

/-- A property that writes to the app have. -/
def Typing (P : Obs → Prop) : Prop := ∀ bytes ok, P (.ptyWrote bytes ok)

/-- A property that reports to the monitor have. -/
structure Reporting (P : Obs → Prop) : Prop where
  bell : ∀ c epoch ok, P (.sent c (.bell epoch) ok)
  activity : ∀ c epoch ok, P (.sent c (.activity epoch) ok)

/-- The events that may write to the app: keys, a pause that has elapsed, and an input. -/
def Event.types : Event → Bool
  | .stdin _ => true
  | .inputDue _ => true
  | .viewerMessage _ (.message (.input ..)) _ => true
  | _ => false

/-- The event that streams: output of the app. -/
def Event.streams : Event → Bool
  | .output .. => true
  | _ => false

/-- The client is this one, at the same size, unless it has died. -/
structure Client.Remains (c c' : Client) : Prop where
  id : c.id = c'.id
  size : c.width = c'.width ∧ c.height = c'.height
  alive : c'.dead = false → c.dead = false

theorem Client.Remains.refl (c : Client) : c.Remains c := ⟨rfl, ⟨rfl, rfl⟩, fun h => h⟩

namespace Stage

/-- Work beside the view: the mirror stays, nobody comes, and only entries with the property are
logged. -/
structure Beside (P : Obs → Prop) (s s' : Stage vt) : Prop where
  mirror : s'.mirror = s.mirror
  monitor : s'.monitor = s.monitor ∨ s'.monitor = none
  ids : s'.viewers.map Client.id <+ s.viewers.map Client.id
  viewers : ∀ c' ∈ s'.viewers, ∃ c ∈ s.viewers, c.Remains c'
  log : Log.Grows P s.log s'.log

variable {P : Obs → Prop}

theorem Beside.trans {s s' s'' : Stage vt} (h : s.Beside P s') (h' : s'.Beside P s'') :
    s.Beside P s'' := by
  refine ⟨h'.mirror.trans h.mirror, ?_, h'.ids.trans h.ids, fun c'' hc'' => ?_,
    h.log.trans h'.log⟩
  · rcases h'.monitor with hsame | hnone
    · rw [hsame]
      exact h.monitor
    · exact .inr hnone
  · obtain ⟨c', hc', hid', ⟨hwidth', hheight'⟩, halive'⟩ := h'.viewers c'' hc''
    obtain ⟨c, hc, hid, ⟨hwidth, hheight⟩, halive⟩ := h.viewers c' hc'
    exact ⟨c, hc, hid.trans hid', ⟨hwidth.trans hwidth', hheight.trans hheight'⟩,
      fun hdead => halive (halive' hdead)⟩

/-- Who is left was there, if the viewers only may have died. -/
theorem remains_of_outlived {cs cs' : List Client} (h : Outlived cs cs') :
    ∀ c' ∈ cs', ∃ c ∈ cs, c.Remains c' := by
  induction h with
  | nil => exact List.forall_mem_nil _
  | @cons c c' cs cs' hc _ ih =>
    refine List.forall_mem_cons.mpr ⟨⟨c, List.mem_cons_self, ?_⟩, fun d' hd' => ?_⟩
    · rcases hc with rfl | rfl
      · exact .refl _
      · exact ⟨rfl, ⟨rfl, rfl⟩, nofun⟩
    · obtain ⟨d, hd, hremains⟩ := ih d' hd'
      exact ⟨d, List.mem_cons_of_mem c hd, hremains⟩

theorem beside_of_log {s s' : Stage vt} (hmirror : s'.mirror = s.mirror)
    (hmonitor : s'.monitor = s.monitor ∨ s'.monitor = none) (hviewers : s'.viewers = s.viewers)
    (hlog : Log.Grows P s.log s'.log) : s.Beside P s' :=
  ⟨hmirror, hmonitor, hviewers ▸ .refl _, hviewers ▸ remains_of_outlived (.refl _), hlog⟩

theorem Beside.refl (s : Stage vt) : s.Beside P s := beside_of_log rfl (.inl rfl) rfl (.refl _ _)

/-- Logging one entry. -/
theorem note_beside (s : Stage vt) {o : Obs} (ho : P o) : s.Beside P (s.note [o]) :=
  beside_of_log rfl (.inl rfl) rfl (.cons ho)

theorem withViewers_beside (s : Stage vt) {cs : List Client}
    (hids : cs.map Client.id <+ s.viewers.map Client.id)
    (h : ∀ c' ∈ cs, ∃ c ∈ s.viewers, c.Remains c') : s.Beside P (s.withViewers cs) :=
  ⟨rfl, .inl rfl, hids, h, .refl _ _⟩

/-- Telling the viewers something. -/
theorem tell_beside (s : Stage vt) (env : Env) {msg : FromSession}
    (hmsg : ∀ c ok, P (.sent c msg ok)) (wanted : ℕ → Client → Bool) :
    s.Beside P (s.tell env msg wanted) := by
  have houtlived := s.tell_outlived env msg wanted
  refine ⟨rfl, .inl rfl, houtlived.ids ▸ .refl _, remains_of_outlived houtlived, ?_⟩
  refine (broadcast_log env msg wanted 0 s.viewers s.log).mono fun o ho => ?_
  obtain ⟨c, ok, -, rfl⟩ := ho
  exact hmsg c ok

/-- Telling the monitor something. -/
theorem tellMonitor_beside (s : Stage vt) (env : Env) {msg : FromSession}
    (hmsg : ∀ c ok, P (.sent c msg ok)) : s.Beside P (s.tellMonitor env msg) := by
  unfold tellMonitor
  split
  · exact .refl s
  · rename_i m hm
    refine beside_of_log rfl ?_ rfl (.cons (hmsg _ _))
    by_cases hok : env.succeeds s.log = true
    · exact .inl ((if_pos hok).trans hm.symm)
    · exact .inr (if_neg hok)

theorem writeHost_beside (hP : Routine P) (s : Stage vt) (env : Env) (headless : Bool)
    (bytes : Bytes) : s.Beside P (s.writeHost env headless bytes).2 := by
  unfold writeHost
  split
  · exact .refl s
  · exact s.note_beside (hP.hostWrote _ _)

theorem writePty_beside (htyping : Typing P) (s : Stage vt) (env : Env) (bytes : Bytes) :
    s.Beside P (s.writePty env bytes).2 := by
  unfold writePty
  split
  · exact .refl s
  · exact s.note_beside (htyping _ _)

/-- Writing queued input. -/
theorem pump_beside (htyping : Typing P) (s : Stage vt) (env : Env) (queue : InputQueue)
    (now : ℕ → ℕ) : s.Beside P { s with log := (queue.pump env now s.log).2.2 } :=
  beside_of_log rfl (.inl rfl) rfl
    (InputQueue.pumpLoop_log env now htyping 0 queue.queue queue.due s.log)

/-- Announcing a change of the host role. -/
theorem announceHost_beside (hP : Routine P) (s : Stage vt) (env : Env) :
    s.Beside P (s.announceHost env) := by
  let now := s.viewers.any Client.isHost
  have hmsg (c : Client) (ok : Bool) : P (.sent c (.hostChanged now) ok) :=
    hP.sent c (.hostChanged now) ok trivial
  by_cases hsame : now = s.hostAttached
  · rw [announceHost, if_pos hsame]
    exact .refl s
  · have hsaid : s.announceHost env =
        (({ s with hostAttached := now } : Stage vt).tellMonitor env (.hostChanged now)).tell env
          (.hostChanged now) fun _ c => !c.dead := if_neg hsame
    have hnoted : s.Beside P { s with hostAttached := now } :=
      beside_of_log rfl (.inl rfl) rfl (.refl _ _)
    rw [hsaid]
    exact (hnoted.trans (tellMonitor_beside _ env hmsg)).trans (tell_beside _ env hmsg _)

theorem removeDead_beside (s : Stage vt) : s.Beside P s.removeDead :=
  s.withViewers_beside (List.filter_sublist.map Client.id)
    fun c hc => ⟨c, List.mem_of_mem_filter hc, .refl c⟩

/-- A change of what a viewer is doing. -/
theorem set_beside (s : Stage vt) {i : ℕ} {c c' : Client} (hc : s.viewers[i]? = some c)
    (hremains : c.Remains c') : s.Beside P (s.withViewers (s.viewers.set i c')) := by
  refine s.withViewers_beside (set_ids hc hremains.id.symm ▸ .refl _) fun d hd => ?_
  rcases List.mem_or_eq_of_mem_set hd with hd | rfl
  · exact ⟨d, hd, .refl d⟩
  · exact ⟨c, List.mem_of_getElem? hc, hremains⟩

/-- A relation that work beside the view, decisions about it, and new sizes satisfy. -/
structure Upkeep (env : Env) (config : Config) (P : Obs → Prop) (R : Stage vt → Stage vt → Prop) :
    Prop where
  routine : Routine P
  trans : ∀ {s s' s''}, R s s' → R s' s'' → R s s''
  beside : ∀ {s s'}, s.Beside P s' → R s s'
  refreshView : ∀ s hostRank forceFor, R s (s.refreshView env config.headless hostRank forceFor).2
  toggle : ∀ s, R s (s.toggleSimulated env config.headless).2
  resize : ∀ {s : Stage vt} {i c width height}, s.viewers[i]? = some c → 0 < width → 0 < height →
    R s (s.withViewers (s.viewers.set i { c with width := width, height := height }))
  hostResized : ∀ (s : Stage vt) {rows cols}, 0 < rows → 0 < cols →
    R s ((s.withMirror (s.mirror.hostResized rows cols).2).applyTransition env config.headless
      (s.mirror.hostResized rows cols).1).2

section Upkeep

variable {R : Stage vt → Stage vt → Prop} {env : Env} {config : Config}
  (hR : Upkeep env config P R)

include hR

theorem Upkeep.refl (s : Stage vt) : R s s := hR.beside (.refl s)

/-- Every pass of a sweep, and the whole sweep. -/
theorem Upkeep.sweepLoop (hostRank fuel : ℕ) (s : Stage vt) :
    R s (sweepLoop env config.headless hostRank fuel s).2 := by
  induction fuel generalizing s with
  | zero => exact hR.refl s
  | succ fuel ih =>
    have hpass := hR.trans (hR.beside ((announceHost_beside hR.routine s env).trans
      (removeDead_beside _))) (hR.refreshView _ hostRank none)
    rw [Stage.sweepLoop]
    split
    · rename_i h
      rw [h] at hpass
      exact hpass
    · rename_i h
      rw [h] at hpass
      split
      · exact hpass
      · exact hR.trans hpass (ih _)

/-- Handling a viewer's message; only an input that is let through writes to the app. -/
theorem Upkeep.handleViewerMessage {s : Stage vt} {i : ℕ} {c : Client} (hostRank : ℕ)
    (msg : ToSession) (now : ℕ → ℕ) (queue : InputQueue) (hc : s.viewers[i]? = some c)
    (hinput : ∀ data delays, msg = .input data delays → config.readonly = false → Typing P) :
    R s (s.handleViewerMessage env config hostRank msg i c now queue).2.1 := by
  have hset {c' : Client} (hremains : c.Remains c') (forceFor : Option ℕ) :
      R s ((s.withViewers (s.viewers.set i c')).refreshView env config.headless hostRank
        forceFor).2 :=
    hR.trans (hR.beside (s.set_beside hc hremains)) (hR.refreshView _ _ _)
  have hreply (msg : FromSession) (hmsg : msg.IsRoutine) : R s (s.reply env c msg).2 :=
    hR.beside (beside_of_log rfl (.inl rfl) rfl (.cons (hR.routine.sent c msg _ hmsg)))
  cases msg with
  | init init => exact hR.refl s
  | monitor version => exact hR.refl s
  | resize width height =>
    unfold Stage.handleViewerMessage
    dsimp only
    split
    · rename_i hsize
      exact hR.trans (hR.resize hc hsize.1 hsize.2) (hR.refreshView _ _ _)
    · exact hR.refl s
  | input data delays =>
    unfold Stage.handleViewerMessage
    dsimp only
    split
    · exact hreply (.error "session is read-only") trivial
    · rename_i hreadonly
      split
      · exact hR.refl s
      · split
        · exact hR.refl s
        · split
          · exact hR.refl s
          · exact hR.beside (pump_beside (hinput data delays rfl (Bool.eq_false_iff.mpr hreadonly))
              s env _ now)
  | view => exact @hset { c with state := .viewing } ⟨rfl, ⟨rfl, rfl⟩, id⟩ (some i)
  | history before limit => exact hreply (s.historyReply env before limit) trivial
  | unview =>
    unfold Stage.handleViewerMessage
    dsimp only
    split
    · exact @hset { c with state := .ready } ⟨rfl, ⟨rfl, rfl⟩, id⟩ none
    · exact hR.refl s

/-- Keyboard input is written to the app and toggles the simulated device. -/
theorem Upkeep.typeKeys (htyping : Typing P) (held bs : Bytes) (s : Stage vt) :
    R s (Wrapper.typeKeys env config.headless held bs s).2 := by
  have hwrite (s : Stage vt) (bytes : Bytes) : R s (s.writePty env bytes).2 :=
    hR.beside (writePty_beside htyping s env bytes)
  induction bs generalizing held s with
  | nil => exact hwrite s held
  | cons b bs ih =>
    rw [Wrapper.typeKeys]
    split
    · have hheld := hwrite s held
      split
      · rename_i h
        rw [h] at hheld
        exact hheld
      · rename_i t h
        rw [h] at hheld
        have htoggled := hR.trans hheld (hR.toggle t)
        split
        · rename_i h
          rw [h] at htoggled
          exact htoggled
        · rename_i h
          rw [h] at htoggled
          exact hR.trans htoggled (ih _ _)
    · exact ih _ _

end Upkeep

/-- From the first stage to the second only entries with the property were logged, nobody
came, and the title stayed. -/
structure Keeps (P : Obs → Prop) (s s' : Stage vt) : Prop where
  monitor : s'.monitor = s.monitor ∨ s'.monitor = none
  ids : s'.viewers.map Client.id <+ s.viewers.map Client.id
  alive : ∀ c' ∈ s'.viewers, c'.dead = false → ∃ c ∈ s.viewers, c.id = c'.id ∧ c.dead = false
  title : s'.mirror.title = s.mirror.title
  log : Log.Grows P s.log s'.log

theorem Keeps.trans {s s' s'' : Stage vt} (h : s.Keeps P s') (h' : s'.Keeps P s'') :
    s.Keeps P s'' := by
  refine ⟨?_, h'.ids.trans h.ids, fun c'' hc'' halive => ?_, h'.title.trans h.title,
    h.log.trans h'.log⟩
  · rcases h'.monitor with hsame | hnone
    · rw [hsame]
      exact h.monitor
    · exact .inr hnone
  · obtain ⟨c', hc', hid', halive'⟩ := h'.alive c'' hc'' halive
    obtain ⟨c, hc, hid, halive⟩ := h.alive c' hc' halive'
    exact ⟨c, hc, hid.trans hid', halive⟩

theorem Beside.keeps {s s' : Stage vt} (h : s.Beside P s') : s.Keeps P s' := by
  refine ⟨h.monitor, h.ids, fun c' hc' halive => ?_, congrArg Mirror.title h.mirror, h.log⟩
  obtain ⟨c, hc, hremains⟩ := h.viewers c' hc'
  exact ⟨c, hc, hremains.id, hremains.alive halive⟩

/-- Changing the mirror but not its title, and logging. -/
theorem keeps_of_mirror {s s' : Stage vt} (hmonitor : s'.monitor = s.monitor)
    (hviewers : s'.viewers = s.viewers) (htitle : s'.mirror.title = s.mirror.title)
    (hlog : Log.Grows P s.log s'.log) : s.Keeps P s' :=
  ⟨.inl hmonitor, hviewers ▸ .refl _, hviewers ▸ fun c hc halive => ⟨c, hc, rfl, halive⟩, htitle,
    hlog⟩

section Keeps

variable (hP : Routine P) (hview : Viewing P) (s : Stage vt) (env : Env) (headless : Bool)

include hP hview

theorem applyTransition_keeps (t : Transition) :
    s.Keeps P (s.applyTransition env headless t).2 := by
  have hresized (rows cols : ℕ) : s.Keeps P (s.resizePty env rows cols) :=
    keeps_of_mirror rfl rfl rfl (.cons (hview.ptyResized _ _ _))
  unfold applyTransition
  split
  · exact (writeHost_beside hP s env headless _).keeps
  · split
    · exact hresized _ _
    · exact (hresized _ _).trans (writeHost_beside hP _ env headless _).keeps

theorem startView_keeps (view : View) : s.Keeps P (s.startView env headless view).2 := by
  have hstarted : s.Keeps P (s.withMirror (s.mirror.startView view).2) :=
    keeps_of_mirror rfl rfl
      (s.mirror.flushHistoryForRebuild_rebooked view.rows).sameView.title (.refl _ _)
  have happlied : s.Keeps P ((s.withMirror (s.mirror.startView view).2).applyTransition env headless
      (s.mirror.startView view).1).2 :=
    hstarted.trans (applyTransition_keeps hP hview _ env headless _)
  exact happlied.trans (note_beside _ (hview.viewStarted _ _ _)).keeps

theorem endView_keeps : s.Keeps P (s.endView env headless).2 := by
  have hended : s.Keeps P (s.withMirror s.mirror.endView.2) :=
    keeps_of_mirror rfl rfl s.mirror.harvest_rebooked.sameView.title (.refl _ _)
  exact hended.trans (applyTransition_keeps hP hview _ env headless _)

/-- Re-deciding the view. -/
theorem refreshView_keeps (hostRank : ℕ) (forceFor : Option ℕ) :
    s.Keeps P (s.refreshView env headless hostRank forceFor).2 := by
  rcases s.refreshView_cases env headless hostRank forceFor with
    ⟨h, -⟩ | ⟨h, -⟩ | ⟨rows, cols, -, ⟨h, -⟩ | ⟨error, t, ht, ⟨-, h⟩ | ⟨-, msg, hmsg, h⟩⟩⟩
  · rw [h]
    exact (Beside.refl s).keeps
  · rw [h]
    exact endView_keeps hP hview s env headless
  · rw [h]
    exact (Beside.refl s).keeps
  · have hstarted := startView_keeps hP hview s env headless ⟨rows, cols, false⟩
    rw [ht] at hstarted
    rw [h]
    exact hstarted
  · have hstarted := startView_keeps hP hview s env headless ⟨rows, cols, false⟩
    rw [ht] at hstarted
    obtain ⟨data, next, rfl⟩ := hmsg
    rw [h]
    exact hstarted.trans (t.tell_beside env (fun c ok => hview.snapshot c data cols rows next ok)
      _).keeps

theorem toggleSimulated_keeps : s.Keeps P (s.toggleSimulated env headless).2 := by
  unfold toggleSimulated
  split
  · exact startView_keeps hP hview s env headless _
  · split
    · exact endView_keeps hP hview s env headless
    · exact (Beside.refl s).keeps

end Keeps

/-- Where routine and work on the view have the property, only such entries are logged. -/
theorem upkeep_keeps (hP : Routine P) (hview : Viewing P) (env : Env) (config : Config) :
    Upkeep env config P (@Keeps vt P) where
  routine := hP
  trans := .trans
  beside := Beside.keeps
  refreshView := fun s => refreshView_keeps hP hview s env config.headless
  toggle := fun s => toggleSimulated_keeps hP hview s env config.headless
  resize := fun {s i c width height} hc _ _ => by
    have hids : (s.viewers.set i { c with width := width, height := height }).map Client.id =
        s.viewers.map Client.id := set_ids hc rfl
    refine ⟨.inl rfl, hids ▸ .refl _, fun d hd halive => ?_, rfl, .refl _ _⟩
    rcases List.mem_or_eq_of_mem_set hd with hd | rfl
    · exact ⟨d, hd, rfl, halive⟩
    · exact ⟨c, List.mem_of_getElem? hc, rfl, halive⟩
  hostResized := fun s {rows cols} _ _ => by
    have htitle : (s.mirror.hostResized rows cols).2.title = s.mirror.title := by
      cases hview : s.mirror.view with
      | none =>
        rw [Mirror.hostResized_of_none hview]
        exact (s.mirror.withHost rows cols).harvest_rebooked.sameView.title
      | some view =>
        rw [Mirror.hostResized_of_some hview]
        rfl
    have hresized : s.Keeps P (s.withMirror (s.mirror.hostResized rows cols).2) :=
      keeps_of_mirror rfl rfl htitle (.refl _ _)
    exact hresized.trans (applyTransition_keeps hP hview _ env config.headless _)

end Stage

namespace Wrapper

variable {P : Obs → Prop} {R : Stage vt → Stage vt → Prop} {env : Env} {config : Config}
  {w w' : Wrapper vt}

/-- The relation holds between the stages, and the same connections are pending. -/
structure Keeps (R : Stage vt → Stage vt → Prop) (w w' : Wrapper vt) : Prop where
  stage : R w.toStage w'.toStage
  pendings : w'.pendings = w.pendings
  nextClientId : w'.nextClientId = w.nextClientId

theorem withStage_keeps {s : Stage vt} (h : R w.toStage s) : w.Keeps R (w.withStage s) :=
  ⟨h, rfl, rfl⟩

theorem proceed_keeps {result : Option String × Stage vt} (h : w.proceed result = some w')
    (hresult : R w.toStage result.2) : w.Keeps R w' := by
  obtain ⟨s, rfl, rfl⟩ := proceed_eq_some.mp h
  exact withStage_keeps hresult

theorem Keeps.mono {R' : Stage vt → Stage vt → Prop} (h : w.Keeps R w')
    (hR : ∀ {s s'}, R s s' → R' s s') : w.Keeps R' w' := ⟨hR h.stage, h.pendings, h.nextClientId⟩

section Beside

theorem killViewer_beside (s : Stage vt) (i : ℕ) : s.Beside P (killViewer s i) :=
  have houtlived := outlived_modify s.viewers i
  s.withViewers_beside (houtlived.ids ▸ .refl _) (Stage.remains_of_outlived houtlived)

/-- A viewer whose message was refused is told why. -/
theorem dropViewer_beside (hP : Routine P) (s : Stage vt) (env : Env) (i : ℕ) (error : String) :
    s.Beside P (dropViewer s env i error) := by
  unfold dropViewer
  split
  · exact .refl s
  · rename_i c _
    have htold : s.Beside P { s with log := env.send c (.error error) s.log } :=
      Stage.beside_of_log rfl (.inl rfl) rfl (.cons (hP.sent c (.error error) _ trivial))
    exact htold.trans (killViewer_beside _ i)

/-- A connection that is refused is told why. -/
theorem dismiss_beside (hP : Routine P) (w : Wrapper vt) (env : Env) (p : Client)
    (message : String) : w.Keeps (Stage.Beside P) (w.dismiss env p message) :=
  ⟨Stage.beside_of_log rfl (.inl rfl) rfl (.cons (hP.sent p (.error message) _ trivial)), rfl,
    rfl⟩

/-- Reporting bells and activity to the monitor. -/
theorem reports_beside (hreport : Reporting P) (w : Wrapper vt) (env : Env) (bells : ℕ)
    (rung wrote : Clock) :
    w.Keeps (Stage.Beside P) ((w.reportBells env bells rung).reportActivity env wrote) := by
  have hbells : w.Keeps (Stage.Beside P) (w.reportBells env bells rung) := by
    unfold reportBells
    split
    · split
      · exact ⟨.refl _, rfl, rfl⟩
      · exact ⟨w.toStage.tellMonitor_beside env fun c ok => hreport.bell c _ ok, rfl, rfl⟩
    · exact ⟨.refl _, rfl, rfl⟩
  have hactivity (w : Wrapper vt) : w.Keeps (Stage.Beside P) (w.reportActivity env wrote) := by
    unfold reportActivity
    dsimp only
    split
    · exact ⟨w.toStage.tellMonitor_beside env fun c ok => hreport.activity c _ ok, rfl, rfl⟩
    · exact ⟨.refl _, rfl, rfl⟩
  have hboth := hactivity (w.reportBells env bells rung)
  exact ⟨hbells.stage.trans hboth.stage, hboth.pendings.trans hbells.pendings,
    hboth.nextClientId.trans hbells.nextClientId⟩

/-- Reporting a new title to everyone. -/
theorem streamTitle_beside (htitle : ∀ c text ok, P (.sent c (.title text) ok)) (s : Stage vt)
    (env : Env) (title : Option String) : s.Beside P (streamTitle s env title).2 := by
  unfold streamTitle
  cases title with
  | none => exact .refl s
  | some title =>
    exact (s.tellMonitor_beside env fun c ok => htitle c title ok).trans
      (Stage.tell_beside _ env (fun c ok => htitle c title ok) fun _ _ => true)

theorem displaceHosts_log (hP : Routine P) (env : Env) (cs : List Client) (log : Log) :
    Log.Grows P log (displaceHosts env cs log).2 := by
  induction cs generalizing log with
  | nil => exact .refl _ _
  | cons c cs ih =>
    rw [displaceHosts]
    split
    · have htold : Log.Grows P log (env.send c takenOver log) :=
        .cons (hP.sent c takenOver _ trivial)
      exact htold.trans (ih _)
    · exact ih log

end Beside

section Upkeep

variable (hR : Stage.Upkeep env config P R)

include hR

theorem Keeps.trans {w'' : Wrapper vt} (h : w.Keeps R w') (h' : w'.Keeps R w'') : w.Keeps R w'' :=
  ⟨hR.trans h.stage h'.stage, h'.pendings.trans h.pendings, h'.nextClientId.trans h.nextClientId⟩

theorem sweep_keeps (h : w.sweep env config = some w') : w.Keeps R w' :=
  proceed_keeps h (hR.sweepLoop w.hostRank _ w.toStage)

/-- The keyboard branch. -/
theorem onStdin_keeps (htyping : Typing P) {bytes : Bytes}
    (h : w.onStdin env config bytes = some w') : w.Keeps R w' := by
  have htyped := hR.typeKeys htyping [] bytes w.toStage
  unfold onStdin at h
  split at h
  · cases h
  · rename_i s hkeys
    rw [hkeys] at htyped
    split at h
    · exact proceed_keeps h (hR.trans htyped
        (hR.beside (Stage.writeHost_beside hR.routine s env config.headless _)))
    · exact proceed_keeps h htyped

/-- The host terminal was resized. -/
theorem onWinch_keeps {size : Option (ℕ × ℕ)} (h : w.onWinch env config size = some w') :
    w.Keeps R w' := by
  obtain ⟨hrows, hcols⟩ : 0 < (hostSize size).1 ∧ 0 < (hostSize size).2 := by
    unfold hostSize
    split
    · split <;> simp [*]
    · exact ⟨by decide, by decide⟩
  have hresized := hR.hostResized w.toStage hrows hcols
  unfold onWinch at h
  dsimp only at h
  split at h
  · cases h
  · rename_i s happly
    rw [happly] at hresized
    exact Keeps.trans hR (withStage_keeps hresized) (sweep_keeps hR h)

/-- A message from a viewer. -/
theorem onViewerMessage_keeps {i : ℕ} {received : Received} {now : ℕ → ℕ}
    (hinput : ∀ data delays, received = .message (.input data delays) →
      config.readonly = false → Typing P)
    (h : w.onViewerMessage env config i received now = some w') : w.Keeps R w' := by
  unfold onViewerMessage at h
  cases hc : w.viewers[i]? with
  | none => rw [hc] at h; cases h
  | some c =>
    rw [hc] at h
    dsimp only at h
    split at h
    · have hkilled : w.Keeps R (w.withStage (killViewer w.toStage i)) :=
        withStage_keeps (hR.beside (killViewer_beside w.toStage i))
      exact Keeps.trans hR hkilled (sweep_keeps hR h)
    · rename_i msg
      have hhandled := hR.handleViewerMessage w.hostRank msg now w.inputQueue hc
        fun data delays hmsg => hinput data delays (congrArg Received.message hmsg)
      generalize w.toStage.handleViewerMessage env config w.hostRank msg i c now w.inputQueue =
        result at h hhandled
      obtain ⟨error, s, queue⟩ := result
      have hqueued (s : Stage vt) (hs : R w.toStage s) :
          w.Keeps R ({ w with inputQueue := queue }.withStage s) := ⟨hs, rfl, rfl⟩
      have hswept := sweep_keeps hR h
      cases error with
      | none => exact Keeps.trans hR (hqueued s hhandled) hswept
      | some error =>
        have hdropped : R s (dropViewer s env i error) :=
          hR.beside (dropViewer_beside hR.routine s env i error)
        exact Keeps.trans hR (hqueued _ (hR.trans hhandled hdropped)) hswept

/-- The child output branch: once the mirror has the output and it was reported, the stream and
a new title go out, and then there may be a sweep. -/
theorem onOutput_keeps {Q : Obs → Prop} (hQ : Routine Q) (hreport : Reporting Q) {bytes : Bytes}
    {rung wrote : Clock} (h : w.onOutput env config bytes rung wrote = some w') :
    ∃ v : Wrapper vt,
      (w.withStage (w.toStage.withMirror (w.mirror.process bytes).2)).Keeps (Stage.Beside Q) v ∧
      (v.withStage (streamTitle (streamOutput v.toStage env (w.mirror.process bytes).1.remote).2 env
        (w.mirror.process bytes).1.title).2).Keeps R w' := by
  unfold onOutput at h
  cases hprocess : w.mirror.process bytes with
  | mk out mirror =>
    rw [hprocess] at h
    dsimp only at h ⊢
    have hwritten := Stage.writeHost_beside hQ (w.toStage.withMirror mirror) env config.headless
      (render out.host)
    cases hwrite : (w.toStage.withMirror mirror).writeHost env config.headless
        (render out.host) with
    | mk error s =>
      rw [hwrite] at h hwritten
      cases error with
      | some error => cases h
      | none =>
        let reported := ((w.withStage s).reportBells env out.bells rung).reportActivity env wrote
        have hreported := reports_beside hreport (w.withStage s) env out.bells rung wrote
        have hdone : (w.withStage (w.toStage.withMirror mirror)).Keeps (Stage.Beside Q) reported :=
          ⟨hwritten.trans hreported.stage, hreported.pendings, hreported.nextClientId⟩
        refine ⟨reported, hdone, ?_⟩
        dsimp only at h
        split at h
        · exact sweep_keeps hR h
        · cases h
          exact ⟨hR.refl _, rfl, rfl⟩

end Upkeep

/-- The log after an accepted init, and the connections that it leaves. -/
theorem acceptInit_log (hP : Routine P) (htitle : ∀ c text ok, P (.sent c (.title text) ok))
    (w : Wrapper vt) (env : Env) (init : Init) (p : Client) :
    Log.Grows P w.log (w.acceptInit env init p).log ∧
      (w.acceptInit env init p).pendings = w.pendings ∧
      (w.acceptInit env init p).monitor = w.monitor := by
  let kept :=
    if init.role = .host ∧ w.viewers.any Client.isHost then displaceHosts env w.viewers w.log
    else (w.viewers, w.log)
  have hkept : Log.Grows P w.log kept.2 := by
    unfold kept
    split
    · exact displaceHosts_log hP env w.viewers w.log
    · exact .refl _ _
  refine ⟨?_, rfl, rfl⟩
  unfold acceptInit
  cases w.mirror.title with
  | none => exact hkept
  | some title => exact hkept.trans (.cons (htitle _ _ _))

/-- Who is a viewer after an accepted init. -/
theorem acceptInit_members (w : Wrapper vt) (env : Env) (init : Init) (p : Client) :
    ∀ c' ∈ (w.acceptInit env init p).viewers,
      (∃ c ∈ w.viewers, c.Remains c') ∨ c' = Init.client init p := by
  let kept :=
    if init.role = .host ∧ w.viewers.any Client.isHost then displaceHosts env w.viewers w.log
    else (w.viewers, w.log)
  have hkept : Outlived w.viewers kept.1 := by
    unfold kept
    split
    · exact (displaceHosts_outlived env w.viewers w.log).1
    · exact .refl _
  have hjoined : ∀ c' ∈ kept.1 ++ [Init.client init p],
      (∃ c ∈ w.viewers, c.Remains c') ∨ c' = Init.client init p := fun c' hc' => by
    rcases List.mem_append.mp hc' with hc' | hc'
    · exact .inl (Stage.remains_of_outlived hkept c' hc')
    · exact .inr (List.mem_singleton.mp hc')
  unfold acceptInit
  cases w.mirror.title with
  | none => exact hjoined
  | some title =>
    change ∀ c' ∈ if env.succeeds kept.2 then kept.1 ++ [Init.client init p] else kept.1, _
    split
    · exact hjoined
    · exact fun c' hc' => .inl (Stage.remains_of_outlived hkept c' hc')

/-- Streaming a chunk. -/
theorem streamOutput_keeps (hstream : Streaming P) (s : Stage vt) (env : Env)
    (remote : Option Bytes) : s.Keeps P (streamOutput s env remote).2 := by
  unfold streamOutput
  cases remote with
  | none => exact (Stage.Beside.refl s).keeps
  | some data =>
    have hnoted : s.Beside P (s.note [.produced data]) := s.note_beside (hstream.produced data)
    dsimp only
    split
    · exact hnoted.keeps
    · exact (hnoted.trans (Stage.tell_beside _ env (fun c ok => hstream.output c _ ok)
        fun _ c => c.state = .viewing)).keeps

/-- From the first wrapper to the second only entries with the property are logged, no connection
becomes pending, and the monitor comes from the connections. -/
structure Grows (P : Obs → Prop) (w w' : Wrapper vt) : Prop where
  log : Log.Grows P w.log w'.log
  pendings : w'.pendings ⊆ w.pendings
  monitor : ∀ m, w'.monitor = some m → w.monitor = some m ∨ m ∈ w.pendings

theorem Grows.refl (w : Wrapper vt) : w.Grows P w :=
  ⟨.refl _ _, List.Subset.refl _, fun _ => .inl⟩

/-- The stage may change besides. -/
theorem Grows.keeps {v : Wrapper vt} (h : w.Grows P v) (hv : v.Keeps (Stage.Keeps P) w') :
    w.Grows P w' := by
  refine ⟨h.log.trans hv.stage.log, hv.pendings ▸ h.pendings, fun m hm => ?_⟩
  rcases hv.stage.monitor with hsame | hnone
  · exact h.monitor m (hsame.symm.trans hm)
  · cases hnone.symm.trans hm

/-- The first message of a connection. -/
theorem onPendingMessage_grows (hP : Routine P) (hview : Viewing P)
    (htitle : ∀ c text ok, P (.sent c (.title text) ok)) {i : ℕ} {received : Received}
    (h : w.onPendingMessage env config i received = some w') : w.Grows P w' := by
  have hR : Stage.Upkeep env config P (@Stage.Keeps vt P) := Stage.upkeep_keeps hP hview env config
  have hforgot : w.Grows P (w.forget i) := ⟨.refl _ _, List.eraseIdx_subset, fun _ => .inl⟩
  unfold onPendingMessage at h
  cases hp : w.pendings[i]? with
  | none => rw [hp] at h; cases h
  | some p =>
    rw [hp] at h
    dsimp only at h
    have hdismissed (message : String) :=
      (dismiss_beside hP (w.forget i) env p message).mono Stage.Beside.keeps
    split at h
    · rename_i init
      split at h
      · exact hforgot.keeps (Keeps.trans hR (hdismissed _) (sweep_keeps hR h))
      · obtain ⟨hlog, hpendings, hmonitor⟩ := acceptInit_log hP htitle (w.forget i) env init p
        have haccepted : w.Grows P ((w.forget i).acceptInit env init p) :=
          ⟨hlog, hpendings ▸ List.eraseIdx_subset, fun m hm => .inl (hmonitor.symm.trans hm)⟩
        exact haccepted.keeps (sweep_keeps hR h)
    · split at h
      · have hmonitored : w.Grows P { w.forget i with monitor := some p } := by
          refine ⟨.refl _ _, List.eraseIdx_subset, fun m hm => ?_⟩
          obtain rfl := Option.some.inj hm
          exact .inr (List.mem_of_getElem? hp)
        split at h
        · cases h
          exact hmonitored
        · rename_i title _
          cases h
          exact hmonitored.keeps (withStage_keeps
            (Stage.tellMonitor_beside _ env fun c ok => htitle c title ok).keeps)
      · cases h
        exact hforgot.keeps (hdismissed _)
    · cases h
      exact hforgot.keeps (hdismissed _)
    · cases h
      exact hforgot

/-- Every event but a new connection logs only entries with a property that routine, work on the
view, reports, titles and, if it streams or types, streaming and typing have. -/
theorem step_grows {event : Event} (hP : Routine P) (hview : Viewing P)
    (hstream : event.streams = true → Streaming P) (htyping : event.types = true → Typing P)
    (hreport : Reporting P) (htitle : ∀ c text ok, P (.sent c (.title text) ok))
    (haccept : ∀ size, event ≠ .accept size) (h : step env config w event = some w') :
    w.Grows P w' := by
  have hR : Stage.Upkeep env config P (@Stage.Keeps vt P) := Stage.upkeep_keeps hP hview env config
  have hhere := Grows.refl (P := P) w
  cases event with
  | accept size => exact absurd rfl (haccept size)
  | stdin bytes =>
    rw [step] at h
    split at h
    · exact hhere.keeps (onStdin_keeps hR (htyping rfl) h)
    · cases h
  | stdinEof =>
    rw [step] at h
    split at h
    · cases h
      exact ⟨.refl _ _, List.Subset.refl _, fun _ => .inl⟩
    · cases h
  | output bytes rung wrote =>
    obtain ⟨v, hv, hreported⟩ := onOutput_keeps hR hP hreport h
    have hfed : w.Grows P (w.withStage (w.toStage.withMirror (w.mirror.process bytes).2)) :=
      ⟨.refl _ _, List.Subset.refl _, fun _ => .inl⟩
    have hstreamed := (streamOutput_keeps (hstream rfl) v.toStage env
      (w.mirror.process bytes).1.remote).trans (streamTitle_beside htitle _ env
        (w.mirror.process bytes).1.title).keeps
    exact hfed.keeps (Keeps.trans hR (Keeps.trans hR (hv.mono Stage.Beside.keeps)
      (withStage_keeps hstreamed)) hreported)
  | bellDue now =>
    rw [step] at h
    split at h
    · cases h
    · cases h
      exact .refl w
    · cases h
      exact hhere.keeps ⟨hR.beside (w.toStage.tellMonitor_beside env fun c ok =>
        hreport.bell c _ ok), rfl, rfl⟩
  | inputDue now =>
    have hpump := Stage.pump_beside (htyping rfl) w.toStage env w.inputQueue now
    rw [step] at h
    split at h
    · rename_i hdone
      cases h
      rw [hdone] at hpump
      exact hhere.keeps ⟨hpump.keeps, rfl, rfl⟩
    · cases h
  | winch size =>
    rw [step] at h
    split at h
    · cases h
    · exact hhere.keeps (onWinch_keeps hR h)
  | pendingMessage i received => exact onPendingMessage_grows hP hview htitle h
  | viewerMessage i received now =>
    exact hhere.keeps
      (onViewerMessage_keeps hR (fun _ _ hinput _ => htyping (by rw [hinput]; rfl)) h)
  | monitorMessage received =>
    unfold step at h
    dsimp only at h
    split at h
    · split at h
      · cases h
        exact .refl w
      · cases h
        exact ⟨.refl _ _, List.Subset.refl _, fun m hm => absurd hm (Option.some_ne_none m).symm⟩
    · cases h

/-- What is logged before the first event is routine. -/
theorem start_log (hP : Routine P) (h : start vt env config = some w) : ∀ o ∈ w.log, P o := by
  unfold start at h
  cases htitle : config.title with
  | none =>
    rw [htitle] at h
    cases h
    exact List.forall_mem_nil _
  | some title =>
    let new : Stage vt := ⟨[], none,
      (Mirror.new vt config.size.1 config.size.2).setHistoryLimit config.scrollback, false,
      config.size, []⟩
    let clean := String.ofList (title.toList.filter fun c => !isControl c)
    have hwritten := Stage.writeHost_beside hP new env config.headless
      (TermOp.windowTitle clean).bytes
    rw [htitle] at h
    dsimp only at h
    split at h
    · cases h
    · rename_i stage hwrite
      cases h
      rw [show new.writeHost _ _ _ = (none, stage) from hwrite] at hwritten
      obtain ⟨logged, hlog, hnew⟩ := hwritten.log
      have hsame : stage.log = logged := hlog.trans (List.append_nil _)
      exact fun o ho => hnew o (hsame ▸ ho)

end Wrapper

end G2mirror
