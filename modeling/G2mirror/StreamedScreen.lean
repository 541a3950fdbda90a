import G2mirror.DiffStream
import G2mirror.ViewerStream
import G2mirror.WrapperLog

/-!
# The stream of a view and the screen of the session

Between two events of the loop, an emulator of the view's size that was primed with the snapshot
of the last view start and fed the differences produced since then shows what the model shows.
-/

namespace G2mirror

variable {vt : Vt100}

/-- An entry beside the views and their streams: not a view start, a snapshot or a difference. -/
def Obs.BesideView : Obs → Prop
  | .sent _ (.snapshot ..) _ => False
  | .viewStarted .. => False
  | .produced _ => False
  | _ => True

theorem routine_besideView : Routine Obs.BesideView where
  sent := fun c msg ok h => by
    cases msg with
    | snapshot => exact h.elim
    | _ => trivial
  hostWrote := fun _ _ => trivial

theorem typing_besideView : Typing Obs.BesideView := fun _ _ => trivial

theorem reporting_besideView : Reporting Obs.BesideView :=
  ⟨fun _ _ _ => trivial, fun _ _ _ => trivial⟩

/-- An entry that does not start a view or prime anybody for it. -/
def Obs.Streams : Obs → Prop
  | .sent _ (.snapshot ..) _ => False
  | .viewStarted .. => False
  | _ => True

theorem Obs.BesideView.streams {o : Obs} (h : o.BesideView) : o.Streams := by
  cases o with
  | sent c msg ok =>
    cases msg with
    | snapshot => exact h.elim
    | _ => trivial
  | viewStarted => exact h.elim
  | _ => trivial

theorem diffs_of_besideView {log : Log} (h : ∀ o ∈ log, o.BesideView) : log.diffs = [] := by
  refine List.filterMap_eq_nil_iff.mpr fun o ho => ?_
  have hbeside := h o ho
  cases o with
  | produced data => exact hbeside.elim
  | _ => rfl

/-- An entry that sends this snapshot to somebody, or is beside the view. -/
def Obs.Primes (base64 : Base64) (view : View) (snapshot : Bytes) (o : Obs) : Prop :=
  o.BesideView ∨ ∃ c next ok,
    o = .sent c (.snapshot (base64.encode snapshot) view.cols view.rows next) ok

namespace Stage

/-- A device of a view's size that was primed with the snapshot of this screen and then fed these
differences. -/
def fedDevice (vt : Vt100) (view : View) (src : Screen) (diffs : List Bytes) : Parser vt :=
  (render (renderSnapshot vt src view.rows view.cols) :: diffs).foldl Parser.process
    (Parser.new vt view.rows view.cols 0)

/-- What the mirror and the log of a stage say of its view: a device that was primed with the
snapshot that went out after the view start, and fed the differences since then, agrees with the
model and the shadow. -/
def Shows (base64 : Base64) (mirror : Mirror vt) (log : Log) : Prop :=
  ∀ view, mirror.view = some view → ∃ src ok primes before, ∃ stream : Log,
    log = stream ++ primes ++ .viewStarted view.rows view.cols ok :: before ∧
      (∀ o ∈ stream, o.Streams) ∧
      (∀ o ∈ primes, o.Primes base64 view
        (render (renderSnapshot vt src view.rows view.cols))) ∧
      DiffStream.Coherent view.rows view.cols
        ⟨mirror, fedDevice vt view src stream.diffs.reverse⟩

/-- Sizes are positive, the mirror is sound, and the stream shows the model. -/
structure Faithful (base64 : Base64) (s : Stage vt) : Prop where
  viewers : ∀ c ∈ s.viewers, 0 < c.height ∧ 0 < c.width
  sound : s.mirror.Sound
  hostCols : 0 < s.mirror.hostCols
  view : ∀ view, s.mirror.view = some view → 0 < view.cols
  shows : Shows base64 s.mirror s.log

variable {base64 : Base64} {s s' : Stage vt} {env : Env} {headless : Bool}

/-- Entries that start no view go on with the stream, if the device follows the model. -/
theorem Shows.streams {mirror mirror' : Mirror vt} {log new : Log}
    (h : Shows base64 mirror log) (hview : mirror'.view = mirror.view)
    (hnew : ∀ o ∈ new, o.Streams)
    (hfollows : ∀ {rows cols device}, DiffStream.Coherent rows cols ⟨mirror, device⟩ →
      DiffStream.Coherent rows cols ⟨mirror', new.diffs.reverse.foldl Parser.process device⟩) :
    Shows base64 mirror' (new ++ log) := by
  intro view hnow
  obtain ⟨src, ok, primes, before, stream, rfl, hstream, hprimes, hcoherent⟩ :=
    h view (hview.symm.trans hnow)
  refine ⟨src, ok, primes, before, new ++ stream, ?_, ?_, hprimes, ?_⟩
  · simp only [List.append_assoc]
  · exact List.forall_mem_append.mpr ⟨hnew, hstream⟩
  · have hfed := hfollows hcoherent
    rwa [fedDevice, ← List.foldl_append, List.cons_append, ← List.reverse_append,
      ← Log.diffs_append] at hfed

/-- Entries beside the view change nothing. -/
theorem Shows.grows {mirror : Mirror vt} {log log' : Log} (h : Shows base64 mirror log)
    (hlog : Log.Grows Obs.BesideView log log') : Shows base64 mirror log' := by
  obtain ⟨new, rfl, hnew⟩ := hlog
  refine h.streams rfl (fun o ho => (hnew o ho).streams) fun hcoherent => ?_
  rw [diffs_of_besideView hnew]
  exact hcoherent

theorem Faithful.beside (h : s.Faithful base64) (hbeside : s.Beside Obs.BesideView s') :
    s'.Faithful base64 := by
  obtain ⟨hviewers, hsound, hcols, hview, hshows⟩ := h
  rw [← hbeside.mirror] at hsound hcols hview hshows
  refine ⟨fun c' hc' => ?_, hsound, hcols, hview, hshows.grows hbeside.log⟩
  obtain ⟨c, hc, hremains⟩ := hbeside.viewers c' hc'
  rw [← hremains.size.1, ← hremains.size.2]
  exact hviewers c hc

/-- All that a transition does is beside the view. -/
theorem applyTransition_beside (s : Stage vt) (env : Env) (headless : Bool) (t : Transition) :
    s.Beside Obs.BesideView (s.applyTransition env headless t).2 := by
  have hresized (rows cols : ℕ) : s.Beside Obs.BesideView (s.resizePty env rows cols) :=
    beside_of_log rfl (.inl rfl) rfl (.cons trivial)
  unfold applyTransition
  split
  · exact writeHost_beside routine_besideView s env headless _
  · split
    · exact hresized _ _
    · exact (hresized _ _).trans (writeHost_beside routine_besideView _ env headless _)

theorem startView_viewers (s : Stage vt) (env : Env) (headless : Bool) (view : View) :
    (s.startView env headless view).2.viewers = s.viewers :=
  (startView_frame Prod.mk.eta.symm).1

/-- The state after a view start in which the snapshot has been sent, to nobody or to some. -/
theorem Faithful.startView (h : s.Faithful base64) (env : Env) (headless : Bool) (view : View)
    (hrows : 0 < view.rows) (hcols : 0 < view.cols) {primes : Log} {viewers : List Client}
    (hviewers : ∀ c' ∈ viewers, ∃ c ∈ s.viewers, c.Remains c')
    (hprimes : ∀ o ∈ primes, o.Primes base64 view
      ((s.mirror.startView view).1.remoteOutput.getD [])) :
    Faithful base64 { (s.startView env headless view).2 with
      viewers := viewers
      log := primes ++ (s.startView env headless view).2.log } := by
  let started := s.withMirror (s.mirror.startView view).2
  have hbeside := started.applyTransition_beside env headless (s.mirror.startView view).1
  have hhost := (s.mirror.startView_sizes view).2.2.1
  have hmirror : (s.startView env headless view).2.mirror = (s.mirror.startView view).2 :=
    hbeside.mirror
  have hsound : (s.mirror.startView view).2.Sound :=
    @Mirror.Sound.call vt s.mirror h.sound (.startView view) hrows
  refine ⟨fun c' hc' => ?_, ?_, ?_, fun v hv => ?_, fun v hv => ?_⟩
  · obtain ⟨c, hc, hremains⟩ := hviewers c' hc'
    rw [← hremains.size.1, ← hremains.size.2]
    exact h.viewers c hc
  · exact hmirror ▸ hsound
  · have hsame : (s.mirror.startView view).2.hostCols = s.mirror.hostCols :=
      congrArg Prod.snd hhost
    rw [hmirror, hsame]
    exact h.hostCols
  · rw [hmirror] at hv
    cases hv
    exact hcols
  · rw [hmirror] at hv ⊢
    cases hv
    refine ⟨(s.mirror.flushHistoryForRebuild view.rows).parser.screen, _, primes, _, [], rfl,
      List.forall_mem_nil _, hprimes, ?_⟩
    exact DiffStream.start_coherent h.sound hrows 0

/-- After a view end there is no stream. -/
theorem Faithful.endView (h : s.Faithful base64) (env : Env) (headless : Bool) :
    (s.endView env headless).2.Faithful base64 := by
  have hhost := s.mirror.endView_sizes.2.2.1
  have hended : Faithful base64 (s.withMirror s.mirror.endView.2) := by
    have hsame : s.mirror.endView.2.hostCols = s.mirror.hostCols := congrArg Prod.snd hhost
    have hcols : 0 < s.mirror.endView.2.hostCols := hsame ▸ h.hostCols
    exact ⟨h.viewers, h.sound.call (c := .endView) trivial, hcols, nofun, nofun⟩
  exact hended.beside (applyTransition_beside _ env headless _)

/-- The size that the view should have is positive. -/
theorem Faithful.target (h : s.Faithful base64) {hostRank rows cols : ℕ}
    (htarget : s.target hostRank headless = some (rows, cols)) : 0 < rows ∧ 0 < cols := by
  obtain ⟨c, hc, hsize⟩ := Option.map_eq_some_iff.mp htarget
  have hmem : c ∈ s.viewers := List.mem_of_mem_filter (List.argmin_mem hc)
  split at hsize
  · cases hsize
    exact h.viewers c hmem
  · cases hsize
    exact ⟨h.sound.hostRows, h.hostCols⟩

/-- Where a size is asked for, re-deciding the view does nothing, or starts a view, and then the
snapshot is sent to some. -/
theorem refreshView_of_target (env : Env) {hostRank rows cols : ℕ} (forceFor : Option ℕ)
    (htarget : s.target hostRank headless = some (rows, cols)) :
    let started := s.startView env headless ⟨rows, cols, false⟩
    (s.refreshView env headless hostRank forceFor).2 = s ∨
      (s.refreshView env headless hostRank forceFor).2 = started.2 ∨
      ∃ wanted, (s.refreshView env headless hostRank forceFor).2 =
        started.2.tell env (started.2.snapshotMessage env
          ((s.mirror.startView ⟨rows, cols, false⟩).1.remoteOutput.getD []) rows cols) wanted := by
  intro started
  unfold refreshView
  rw [htarget]
  by_cases hneeded : (s.needsView rows cols || forceFor.isSome) = true
  · right
    cases hstart : started with
    | mk error t =>
      simp only [if_pos hneeded, show s.startView env headless ⟨rows, cols, false⟩ = (error, t)
        from hstart]
      cases error with
      | some error => exact .inl rfl
      | none => exact .inr ⟨_, rfl⟩
  · exact .inl (congrArg Prod.snd (if_neg hneeded))

/-- Re-deciding the view. -/
theorem Faithful.refreshView (h : s.Faithful env.base64) (headless : Bool) (hostRank : ℕ)
    (forceFor : Option ℕ) :
    (s.refreshView env headless hostRank forceFor).2.Faithful env.base64 := by
  cases htarget : s.target hostRank headless with
  | none =>
    unfold Stage.refreshView
    rw [htarget]
    dsimp only
    split
    · exact h.endView env headless
    · exact h
  | some size =>
    obtain ⟨rows, cols⟩ := size
    obtain ⟨hrows, hcols⟩ := h.target htarget
    let view : View := ⟨rows, cols, false⟩
    let snapshot := (s.mirror.startView view).1.remoteOutput.getD []
    have hsame := s.startView_viewers env headless view
    have hstarted {primes : Log} {viewers : List Client}
        (houtlived : Outlived (s.startView env headless view).2.viewers viewers)
        (hprimes : ∀ o ∈ primes, o.Primes env.base64 view snapshot) :=
      h.startView env headless view hrows hcols
        (hsame ▸ remains_of_outlived houtlived) hprimes
    rcases refreshView_of_target env forceFor htarget with hsame | hstart | ⟨wanted, htold⟩
    · rw [hsame]
      exact h
    · rw [hstart]
      exact hstarted (.refl _) (List.forall_mem_nil _)
    · have houtlived := (s.startView env headless view).2.tell_outlived env
        ((s.startView env headless view).2.snapshotMessage env snapshot rows cols) wanted
      obtain ⟨primes, hlog, hprimes⟩ := broadcast_log env
        ((s.startView env headless view).2.snapshotMessage env snapshot rows cols) wanted 0
        (s.startView env headless view).2.viewers (s.startView env headless view).2.log
      have htold' := hstarted houtlived fun o ho => by
        obtain ⟨c, ok, -, rfl⟩ := hprimes o ho
        exact .inr ⟨c, _, ok, rfl⟩
      rw [htold, Stage.tell, hlog]
      exact htold'

/-- Toggling the simulated device. -/
theorem Faithful.toggle (h : s.Faithful base64) (env : Env) (headless : Bool) :
    (s.toggleSimulated env headless).2.Faithful base64 := by
  unfold toggleSimulated
  split
  · have hsame := s.startView_viewers env headless ⟨simRows, simCols, true⟩
    have hstarted := h.startView env headless ⟨simRows, simCols, true⟩ (by decide) (by decide)
      (fun c hc => ⟨c, hc, .refl c⟩) (List.forall_mem_nil _)
    rwa [← hsame] at hstarted
  · split
    · exact h.endView env headless
    · exact h

/-- The host terminal was resized: under a view the device is sent nothing. -/
theorem Faithful.hostResized (laws : vt.DiffsFaithful) (h : s.Faithful base64) (env : Env)
    (headless : Bool) {rows cols : ℕ} (hrows : 0 < rows) (hcols : 0 < cols) :
    ((s.withMirror (s.mirror.hostResized rows cols).2).applyTransition env headless
      (s.mirror.hostResized rows cols).1).2.Faithful base64 := by
  have hview := s.mirror.view_hostResized rows cols
  have hsame : (s.mirror.hostResized rows cols).2.hostCols = cols :=
    congrArg Prod.snd (s.mirror.hostResized_sizes rows cols).2.1
  have hshows : Shows base64 (s.mirror.hostResized rows cols).2 ([] ++ s.log) := by
    refine h.shows.streams hview (List.forall_mem_nil _) fun {_ _ device} hcoherent => ?_
    have hstep := hcoherent.step laws (.hostResized rows cols)
    have hnothing : (s.mirror.hostResized rows cols).1.remoteOutput = none := by
      rw [Mirror.hostResized]
      split <;> rfl
    rw [DiffStream.step, hnothing] at hstep
    exact hstep
  have hresized : Faithful base64 (s.withMirror (s.mirror.hostResized rows cols).2) :=
    ⟨h.viewers, h.sound.call (c := .hostResized rows cols) hrows, hsame.symm ▸ hcols,
      fun view hv => h.view view (hview.symm.trans hv), hshows⟩
  exact hresized.beside (applyTransition_beside _ env headless _)

/-- All upkeep leaves the stage faithful. -/
theorem upkeep_faithful (laws : vt.DiffsFaithful) (env : Env) (config : Config) :
    Upkeep env config Obs.BesideView
      (fun s s' : Stage vt => s.Faithful env.base64 → s'.Faithful env.base64) where
  routine := routine_besideView
  trans := fun h h' hs => h' (h hs)
  beside := fun hbeside hs => hs.beside hbeside
  refreshView := fun _ hostRank forceFor hs => hs.refreshView config.headless hostRank forceFor
  toggle := fun _ hs => hs.toggle env config.headless
  resize := fun {s i c width height} hc hwidth hheight hs => by
    refine ⟨fun d hd => ?_, hs.sound, hs.hostCols, hs.view, hs.shows⟩
    rcases List.mem_or_eq_of_mem_set hd with hd | rfl
    · exact hs.viewers d hd
    · exact ⟨hheight, hwidth⟩
  hostResized := fun _ {_ _} hrows hcols hs => hs.hostResized laws env config.headless hrows hcols

/-- What streaming a chunk logs, as a device reads it. -/
theorem streamOutput_streams (s : Stage vt) (env : Env) (remote : Option Bytes) :
    ∃ new : Log, (Wrapper.streamOutput s env remote).2.log = new ++ s.log ∧
      (∀ o ∈ new, o.Streams) ∧
      ∀ device : Parser vt, new.diffs.reverse.foldl Parser.process device =
        device.process (remote.getD []) := by
  unfold Wrapper.streamOutput
  cases remote with
  | none => exact ⟨[], rfl, List.forall_mem_nil _, fun _ => rfl⟩
  | some data =>
    dsimp only
    split
    · rename_i hempty
      subst hempty
      exact ⟨[.produced []], rfl, by simp [Obs.Streams], fun _ => rfl⟩
    · rename_i hdata
      obtain ⟨new, hlog, hnew⟩ := broadcast_log env (.output (env.base64.encode data))
        (fun _ c => c.state = .viewing) 0 s.viewers (.produced data :: s.log)
      have hdiffs : Log.diffs new = [] := List.filterMap_eq_nil_iff.mpr fun o ho => by
        obtain ⟨c, ok, -, rfl⟩ := hnew o ho
        rfl
      refine ⟨new ++ [.produced data], ?_, ?_, fun device => ?_⟩
      · rw [List.append_assoc]
        exact hlog
      · refine List.forall_mem_append.mpr ⟨fun o ho => ?_, by simp [Obs.Streams]⟩
        obtain ⟨c, ok, -, rfl⟩ := hnew o ho
        trivial
      · rw [Log.diffs_append, hdiffs]
        simp [Log.diffs, Obs.diff?, hdata]

end Stage

namespace Wrapper

variable {env : Env} {config : Config} {w w' : Wrapper vt}

/-- The child output branch: the device is fed what the mirror produced. -/
theorem onOutput_faithful (laws : vt.DiffsFaithful) (hw : w.toStage.Faithful env.base64)
    {bytes : Bytes} {rung wrote : Clock} (h : w.onOutput env config bytes rung wrote = some w') :
    w'.toStage.Faithful env.base64 := by
  obtain ⟨v, hv, hreported⟩ :=
    onOutput_keeps (Stage.upkeep_faithful laws env config) routine_besideView reporting_besideView h
  refine hreported.stage ?_
  obtain ⟨hmirror, -, -, hviewers, between, hbetween, hbeside⟩ := hv.stage
  obtain ⟨-, hcols, hview, -, -⟩ := Mirror.process_spec hw.sound.rows bytes
  let remote := (w.mirror.process bytes).1.remote
  obtain ⟨new, hnew, hstreams, hfed⟩ := Stage.streamOutput_streams v.toStage env remote
  have hsame : (streamOutput v.toStage env remote).2.mirror = (w.mirror.process bytes).2 := by
    rw [(streamOutput_frame v.toStage env remote).1]
    exact hmirror
  have hstreamed : (streamOutput v.toStage env remote).2.Faithful env.base64 := by
    refine ⟨fun c'' hc'' => ?_, ?_, ?_, ?_, ?_⟩
    · obtain ⟨c', hc', hremains'⟩ :=
        Stage.remains_of_outlived (streamOutput_outlived v.toStage env remote).1 c'' hc''
      obtain ⟨c, hc, hremains⟩ := hviewers c' hc'
      rw [← hremains'.size.1, ← hremains'.size.2, ← hremains.size.1, ← hremains.size.2]
      exact hw.viewers c hc
    · rw [hsame]
      exact hw.sound.call (c := .process bytes) trivial
    · rw [hsame, hcols]
      exact hw.hostCols
    · rw [hsame]
      exact fun view hnow => hw.view view (hview.symm.trans hnow)
    · have hlog : (streamOutput v.toStage env remote).2.log = (new ++ between) ++ w.log := by
        rw [hnew, show v.log = between ++ w.log from hbetween, List.append_assoc]
      rw [hsame, hlog]
      refine hw.shows.streams hview (List.forall_mem_append.mpr
        ⟨hstreams, fun o ho => (hbeside o ho).streams⟩) fun {_ _ device} hcoherent => ?_
      rw [Log.diffs_append, diffs_of_besideView hbeside, List.append_nil, hfed]
      exact hcoherent.step laws (.process bytes)
  exact hstreamed.beside (streamTitle_beside (fun _ _ _ => trivial) _ env _)

/-- Only clients of a positive size are admitted. -/
theorem acceptInit_faithful (hw : w.toStage.Faithful env.base64) {init : Init}
    (hadmitted : w.refusal config init = none) (p : Client) :
    (w.acceptInit env init p).toStage.Faithful env.base64 := by
  have hsize : init.height ≠ 0 ∧ init.width ≠ 0 := by
    unfold refusal at hadmitted
    split at hadmitted
    · cases hadmitted
    · split at hadmitted
      · cases hadmitted
      · rename_i hzero
        exact (not_or.mp hzero).symm
  have hlog := (acceptInit_log routine_besideView (fun _ _ _ => trivial) w env init p).1
  refine ⟨fun c hc => ?_, hw.sound, hw.hostCols, hw.view, hw.shows.grows hlog⟩
  rcases acceptInit_members w env init p c hc with ⟨d, hd, hremains⟩ | rfl
  · rw [← hremains.size.1, ← hremains.size.2]
    exact hw.viewers d hd
  · exact ⟨Nat.pos_of_ne_zero hsize.1, Nat.pos_of_ne_zero hsize.2⟩

/-- A pending connection's first message. -/
theorem onPendingMessage_faithful (laws : vt.DiffsFaithful) (hw : w.toStage.Faithful env.base64)
    {i : ℕ} {received : Received} (h : w.onPendingMessage env config i received = some w') :
    w'.toStage.Faithful env.base64 := by
  have hR := Stage.upkeep_faithful laws env config
  unfold onPendingMessage at h
  cases hp : w.pendings[i]? with
  | none => rw [hp] at h; cases h
  | some p =>
    rw [hp] at h
    dsimp only at h
    have hdismissed (message : String) :
        ((w.forget i).dismiss env p message).toStage.Faithful env.base64 :=
      hw.beside (dismiss_beside routine_besideView (w.forget i) env p message).stage
    split at h
    · split at h
      · exact (sweep_keeps hR h).stage (hdismissed _)
      · rename_i hadmitted
        exact (sweep_keeps hR h).stage
          (acceptInit_faithful (w := w.forget i) hw hadmitted p)
    · split at h
      · have hmonitored : Stage.Faithful env.base64 { w.toStage with monitor := some p } :=
          ⟨hw.viewers, hw.sound, hw.hostCols, hw.view, hw.shows⟩
        split at h
        · cases h
          exact hmonitored
        · cases h
          exact hmonitored.beside (Stage.tellMonitor_beside _ env fun _ _ => trivial)
      · cases h
        exact hdismissed _
    · cases h
      exact hdismissed _
    · cases h
      exact hw

/-- Every event leaves the stage faithful. -/
theorem step_faithful (laws : vt.DiffsFaithful) (hw : w.toStage.Faithful env.base64)
    {event : Event} (h : step env config w event = some w') :
    w'.toStage.Faithful env.base64 := by
  have hR := Stage.upkeep_faithful laws env config
  have htold (msg : FromSession) (hmsg : ∀ c ok, Obs.BesideView (.sent c msg ok)) :
      (w.toStage.tellMonitor env msg).Faithful env.base64 :=
    hw.beside (w.toStage.tellMonitor_beside env hmsg)
  cases event with
  | accept size =>
    cases h
    have hgreeted : w.toStage.Beside Obs.BesideView (w.onAccept env config size).toStage :=
      Stage.beside_of_log rfl (.inl rfl) rfl (.cons trivial)
    exact hw.beside hgreeted
  | stdin bytes =>
    rw [step] at h
    split at h
    · exact (onStdin_keeps hR typing_besideView h).stage hw
    · cases h
  | stdinEof =>
    rw [step] at h
    split at h
    · cases h
      exact hw
    · cases h
  | output bytes rung wrote => exact onOutput_faithful laws hw h
  | bellDue now =>
    rw [step] at h
    split at h
    · cases h
    · cases h
      exact hw
    · cases h
      exact htold _ fun _ _ => trivial
  | inputDue now =>
    have hpump := Stage.pump_beside typing_besideView w.toStage env w.inputQueue now
    rw [step] at h
    split at h
    · rename_i hdone
      cases h
      rw [hdone] at hpump
      exact hw.beside hpump
    · cases h
  | winch size =>
    rw [step] at h
    split at h
    · cases h
    · exact (onWinch_keeps hR h).stage hw
  | pendingMessage i received => exact onPendingMessage_faithful laws hw h
  | viewerMessage i received now =>
    exact (onViewerMessage_keeps hR (fun _ _ _ _ => typing_besideView) h).stage hw
  | monitorMessage received =>
    unfold step at h
    dsimp only at h
    split at h
    · split at h
      · cases h
        exact hw
      · cases h
        exact ⟨hw.viewers, hw.sound, hw.hostCols, hw.view, hw.shows⟩
    · cases h

/-- A session of a positive size begins faithful: there is no view yet. -/
theorem start_faithful (hrows : 0 < config.size.1) (hcols : 0 < config.size.2)
    (h : start vt env config = some w) : w.toStage.Faithful env.base64 := by
  have hbegins := start_begins h
  have hsound : w.mirror.Sound := by
    have hnew : ((Mirror.new vt config.size.1 config.size.2).setHistoryLimit
        config.scrollback).Sound := by
      obtain ⟨hhostRows, hrows, hreached, hbottom⟩ := Mirror.new_sound vt config.size.2 hrows
      exact ⟨hhostRows, hrows, hreached, hbottom⟩
    unfold start at h
    cases htitle : config.title with
    | none =>
      rw [htitle] at h
      cases h
      exact hnew
    | some title =>
      let clean := String.ofList (title.toList.filter fun c => !isControl c)
      let new : Stage vt := ⟨[], none,
        (Mirror.new vt config.size.1 config.size.2).setHistoryLimit config.scrollback, false,
        config.size, []⟩
      have hwritten := Stage.writeHost_beside routine_besideView new env config.headless
        (TermOp.windowTitle clean).bytes
      rw [htitle] at h
      dsimp only at h
      split at h
      · cases h
      · rename_i stage hwrite
        cases h
        rw [show new.writeHost _ _ _ = (none, stage) from hwrite] at hwritten
        have hkept : stage.mirror.Sound := hwritten.mirror ▸ hnew
        exact ⟨hkept.hostRows, hkept.rows, hkept.reached, hkept.bottom⟩
  have hhost : w.mirror.hostCols = config.size.2 := congrArg Prod.snd hbegins.sizes.1
  have hnone (view : View) : w.mirror.view ≠ some view := by
    rw [hbegins.view]
    exact (Option.some_ne_none view).symm
  exact ⟨hbegins.viewers ▸ List.forall_mem_nil _, hsound, hhost ▸ hcols,
    fun view hv => absurd hv (hnone view), fun view hv => absurd hv (hnone view)⟩

/-- Every reachable stage of a session is faithful. -/
theorem session_faithful (laws : vt.DiffsFaithful) (hrows : 0 < config.size.1)
    (hcols : 0 < config.size.2) {events : List Event}
    (hsession : session vt env config events = some w) : w.toStage.Faithful env.base64 := by
  obtain ⟨w₀, hstart, hrun⟩ := session_eq_some.mp hsession
  exact Machine.run_invariant (I := fun v : Wrapper vt => v.toStage.Faithful env.base64)
    (fun _ _ _ hv hstep => step_faithful laws hv hstep) (start_faithful hrows hcols hstart) hrun

end Wrapper

/-- A view start. -/
def Obs.isStart : Obs → Bool
  | .viewStarted .. => true
  | _ => false

/-- A snapshot of the session. -/
def FromSession.isSnapshot : FromSession → Bool
  | .snapshot .. => true
  | _ => false

/-- What comes before an entry that is not in this beginning begins with it. -/
theorem prefix_of_mark {α : Type} {l l' m m' : List α} {x : α} (h : l ++ l' = m ++ x :: m')
    (hx : x ∉ l) : ∃ rest, m = l ++ rest := by
  rcases List.append_eq_append_iff.mp h with ⟨rest, hm, -⟩ | ⟨beyond, hl, hbeyond⟩
  · exact ⟨rest, hm⟩
  · cases beyond with
    | nil => exact ⟨[], by rw [hl, List.append_nil, List.append_nil]⟩
    | cons y beyond =>
      cases hbeyond
      exact absurd (hl ▸ List.mem_append_right m List.mem_cons_self) hx

namespace Log

/-- What the client with this id was sent, oldest first. -/
def messagesTo (id : ℕ) (log : Log) : List FromSession :=
  ((log.sentTo id).reverse.filter Prod.snd).map Prod.fst

/-- The client with this id was sent a snapshot since the last view start. -/
def Primed (id : ℕ) (log : Log) : Prop :=
  ∃ m ∈ streamTo id (log.takeWhile fun o => !o.isStart), m.1.isSnapshot = true

instance (id : ℕ) (log : Log) : Decidable (log.Primed id) :=
  inferInstanceAs (Decidable (∃ m ∈ streamTo id (log.takeWhile fun o => !o.isStart),
    m.1.isSnapshot = true))

/-- A client in sync that was sent a snapshot since the last view start was sent the one that the
device of the view was primed with, and then what that device was fed. -/
theorem InSync.primed {base64 : Base64} {mirror : Mirror vt} {log : Log} {id : ℕ} {view : View}
    (hsync : log.InSync base64 id view.rows view.cols) (hprimed : log.Primed id)
    (hshows : Stage.Shows base64 mirror log) (hview : mirror.view = some view) :
    ∃ (src : Screen) (since before : Log) (c : Client) (next : ℕ),
      log = since ++ .sent c (.snapshot (base64.encode
        (render (renderSnapshot vt src view.rows view.cols))) view.cols view.rows next) true ::
          before ∧ c.id = id ∧
      since.streamTo id = since.diffs.map (fun d => (.output (base64.encode d), true)) ∧
      DiffStream.Coherent view.rows view.cols
        ⟨mirror, Stage.fedDevice vt view src since.diffs.reverse⟩ := by
  obtain ⟨src, ok, primes, old, stream, hlog, hstream, hprimes, hcoherent⟩ := hshows view hview
  obtain ⟨since, before, c, data, next, hsent, hid, -, hdiffs⟩ := hsync
  obtain ⟨m, hm, hsnapshot⟩ := hprimed
  let snapshot := Obs.sent c (.snapshot data view.cols view.rows next) true
  have hmember : m ∈ streamTo id (stream ++ primes) := by
    have hsplit := List.takeWhile_append_dropWhile (p := fun o : Obs => !o.isStart) (l := log)
    obtain ⟨rest, hrest⟩ := prefix_of_mark (hsplit.trans hlog) fun hstart =>
      Bool.noConfusion (List.mem_takeWhile_imp hstart)
    rw [hrest, streamTo_append]
    exact List.mem_append_left _ hm
  obtain ⟨rest, hsince⟩ : ∃ rest, stream ++ primes = since ++ snapshot :: rest := by
    rcases List.append_eq_append_iff.mp (hsent.symm.trans hlog) with
      ⟨rest, hrest, hend⟩ | ⟨beyond, hbeyond, -⟩
    · cases rest with
      | nil => cases hend
      | cons o rest =>
        obtain rfl := (List.cons.inj hend).1
        exact ⟨rest, hrest⟩
    · rw [hbeyond, streamTo_append] at hdiffs
      have hmem := hdiffs ▸ List.mem_append_left (streamTo id beyond) hmember
      obtain ⟨d, -, rfl⟩ := List.mem_map.mp hmem
      cases hsnapshot
  obtain ⟨primed, hprimed⟩ : ∃ primed, since = stream ++ primed :=
    prefix_of_mark hsince fun hmem => hstream snapshot hmem
  obtain rfl : primes = primed ++ snapshot :: rest := by
    rw [hprimed, List.append_assoc] at hsince
    exact List.append_cancel_left hsince
  have hnothing : Log.diffs primed = [] := List.filterMap_eq_nil_iff.mpr fun o ho => by
    rcases hprimes o (List.mem_append_left _ ho) with hbeside | ⟨d, next', ok', rfl⟩
    · cases o with
      | produced data => exact hbeside.elim
      | _ => rfl
    · rfl
  have hsame : since.diffs = stream.diffs := by
    rw [hprimed, diffs_append, hnothing, List.append_nil]
  rcases hprimes snapshot (List.mem_append_right _ List.mem_cons_self) with
    hbeside | ⟨d, next', ok', heq⟩
  · exact hbeside.elim
  · have hdata : data = _ := (FromSession.snapshot.inj (Obs.sent.inj heq).2.1).1
    rw [hdata] at hsent
    refine ⟨src, since, before, c, next, hsent, hid, hdiffs, ?_⟩
    rwa [hsame]

@[simp] theorem messagesTo_append (id : ℕ) (log log' : Log) :
    messagesTo id (log ++ log') = messagesTo id log' ++ messagesTo id log := by
  simp only [messagesTo, sentTo_append, List.reverse_append, List.filter_append, List.map_append]

/-- What is sent to the client is its newest message. -/
theorem messagesTo_cons {id : ℕ} {c : Client} (hid : c.id = id) (msg : FromSession) (log : Log) :
    messagesTo id (.sent c msg true :: log) = messagesTo id log ++ [msg] := by
  have hsent : sentTo id (.sent c msg true :: log) = (msg, true) :: sentTo id log :=
    List.filterMap_cons_some (if_pos hid)
  rw [messagesTo, hsent, List.reverse_cons, List.filter_append, List.map_append]
  rfl

/-- The messages of a stream that was sent as a whole. -/
theorem messagesTo_filter {base64 : Base64} {id : ℕ} {log : Log} {diffs : List Bytes}
    (h : log.streamTo id = diffs.map fun d => (.output (base64.encode d), true)) :
    (log.messagesTo id).filter FromSession.isStream =
      diffs.reverse.map fun d => .output (base64.encode d) := by
  have hall : ((diffs.map fun d => (FromSession.output (base64.encode d), true)).reverse.filter
      Prod.snd) = (diffs.map fun d => (FromSession.output (base64.encode d), true)).reverse :=
    List.filter_eq_self.mpr fun m hm => by
      obtain ⟨d, -, rfl⟩ := List.mem_map.mp (List.mem_reverse.mp hm)
      rfl
  calc (log.messagesTo id).filter FromSession.isStream
    _ = ((log.streamTo id).reverse.filter Prod.snd).map Prod.fst := by
      rw [messagesTo, List.filter_map, List.filter_filter, streamTo, ← List.filter_reverse,
        List.filter_filter]
      exact congrArg _ (List.filter_congr fun m _ => Bool.and_comm _ _)
    _ = diffs.reverse.map fun d => .output (base64.encode d) := by
      rw [h, hall, ← List.map_reverse, List.map_map]
      rfl

/-- As it reaches the client: the last snapshot, and among what follows it the differences that
keep a device in step with the model. -/
theorem InSync.messages {base64 : Base64} {mirror : Mirror vt} {log : Log} {id : ℕ} {view : View}
    (hsync : log.InSync base64 id view.rows view.cols) (hprimed : log.Primed id)
    (hshows : Stage.Shows base64 mirror log) (hview : mirror.view = some view) :
    ∃ src diffs earlier later next,
      log.messagesTo id = earlier ++ .snapshot (base64.encode
        (render (renderSnapshot vt src view.rows view.cols))) view.cols view.rows next :: later ∧
      (∀ msg ∈ later, msg.isSnapshot = false) ∧
      later.filter FromSession.isStream = diffs.map (fun d => .output (base64.encode d)) ∧
      DiffStream.Coherent view.rows view.cols ⟨mirror, Stage.fedDevice vt view src diffs⟩ := by
  obtain ⟨src, since, before, c, next, hlog, hid, hstream, hcoherent⟩ :=
    hsync.primed hprimed hshows hview
  have hstreamed := messagesTo_filter hstream
  refine ⟨src, since.diffs.reverse, messagesTo id before, messagesTo id since, next, ?_, ?_,
    hstreamed, hcoherent⟩
  · rw [hlog, messagesTo_append, messagesTo_cons hid, List.append_assoc]
    rfl
  · intro msg hmsg
    by_contra hsnapshot
    have hmem : msg ∈ (messagesTo id since).filter FromSession.isStream :=
      List.mem_filter.mpr ⟨hmsg, by cases msg <;> first | rfl | exact absurd rfl hsnapshot⟩
    obtain ⟨bytes, -, rfl⟩ := List.mem_map.mp (hstreamed ▸ hmem)
    exact hsnapshot rfl

end Log

end G2mirror
