import G2mirror.AsciiTerminal
import G2mirror.WrapperRuns

/-!
# The exit drain

When the app exits, the main loop may or may not have processed its last output:
what is left is drained. The drain streams output as the loop does, but it
reports neither titles nor bells, and a bell that is held is not reported either.
-/

namespace G2mirror

variable {vt : Vt100}

/-- An output or a title. -/
def FromSession.isShown : FromSession → Bool
  | .output _ => true
  | .title _ => true
  | _ => false

/-- Not an output or a title. -/
def Obs.Unshown : Obs → Prop
  | .sent _ msg _ => msg.isShown = false
  | _ => True

/-- Not the report of a bell. -/
def Obs.Unrung : Obs → Prop
  | .sent _ (.bell _) _ => False
  | _ => True

/-- From this log on every attempt succeeds: who is connected stays connected. -/
def Env.ReliableFrom (env : Env) (log : Log) : Prop := ∀ n, log.length ≤ n → env.ok n = true

namespace Env.ReliableFrom

variable {env : Env} {log : Log}

theorem succeeds (h : env.ReliableFrom log) : env.succeeds log = true := h log.length le_rfl

theorem failure (h : env.ReliableFrom log) : env.failure log = none :=
  Env.failure_eq_none.mpr h.succeeds

theorem append (h : env.ReliableFrom log) (new : Log) : env.ReliableFrom (new ++ log) := by
  intro n hn
  rw [List.length_append] at hn
  exact h n (by omega)

end Env.ReliableFrom

namespace Log

/-- The outputs and titles that were sent to the client with this id, newest first. -/
def shownTo (id : ℕ) (log : Log) : List (FromSession × Bool) :=
  (log.sentTo id).filter fun m => m.1.isShown

/-- The client with this id was told of a bell, by this timestamp or a later one. -/
def Told (id epoch : ℕ) (log : Log) : Prop := ∃ e, epoch ≤ e ∧ (.bell e, true) ∈ log.sentTo id

theorem shownTo_append (id : ℕ) (log log' : Log) :
    shownTo id (log ++ log') = shownTo id log ++ shownTo id log' := by
  unfold shownTo
  rw [sentTo_append, List.filter_append]

theorem mem_sentTo {id : ℕ} {log : Log} {msg : FromSession} {ok : Bool} :
    (msg, ok) ∈ log.sentTo id ↔ ∃ c, .sent c msg ok ∈ log ∧ c.id = id := by
  unfold sentTo
  rw [List.mem_filterMap]
  constructor
  · rintro ⟨o, ho, hto⟩
    obtain ⟨c, rfl, hid⟩ := Obs.to?_eq_some.mp hto
    exact ⟨c, ho, hid⟩
  · rintro ⟨c, hc, hid⟩
    exact ⟨_, hc, Obs.to?_eq_some.mpr ⟨c, rfl, hid⟩⟩

theorem mem_shownTo {id : ℕ} {log : Log} {msg : FromSession} {ok : Bool} :
    (msg, ok) ∈ log.shownTo id ↔ msg.isShown = true ∧ ∃ c, .sent c msg ok ∈ log ∧ c.id = id := by
  unfold shownTo
  rw [List.mem_filter, mem_sentTo, And.comm]

/-- What is not shown adds nothing to what is. -/
theorem shownTo_grows {log log' : Log} (h : Grows Obs.Unshown log log') (id : ℕ) :
    shownTo id log' = shownTo id log := by
  obtain ⟨new, rfl, hnew⟩ := h
  have hnone : shownTo id new = [] := by
    refine List.eq_nil_iff_forall_not_mem.mpr fun m hm => ?_
    obtain ⟨hshown, c, hc, -⟩ := mem_shownTo.mp hm
    rw [show m.1.isShown = false from hnew _ hc] at hshown
    cases hshown
  rw [shownTo_append, hnone, List.nil_append]

theorem Told.mono {id epoch : ℕ} {log log' : Log} (h : Told id epoch log) (hsuffix : log <:+ log') :
    Told id epoch log' := by
  obtain ⟨new, rfl⟩ := hsuffix
  obtain ⟨e, hle, he⟩ := h
  exact ⟨e, hle, by rw [sentTo_append]; exact List.mem_append_right _ he⟩

/-- Without reports of bells nobody is told of one. -/
theorem told_grows {id epoch : ℕ} {log log' : Log} (h : Grows Obs.Unrung log log') :
    Told id epoch log' ↔ Told id epoch log := by
  refine ⟨fun htold => ?_, fun htold => htold.mono h.suffix⟩
  obtain ⟨new, rfl, hnew⟩ := h
  obtain ⟨e, hle, he⟩ := htold
  rw [sentTo_append] at he
  rcases List.mem_append.mp he with hfresh | hold
  · obtain ⟨c, hc, -⟩ := mem_sentTo.mp hfresh
    exact (hnew _ hc).elim
  · exact ⟨e, hle, hold⟩

end Log

/-- A message went out to each of these clients. -/
def sentAll (msg : FromSession) (cs : List Client) : Log :=
  (cs.map fun c => Obs.sent c msg true).reverse

theorem mem_sentAll {msg : FromSession} {cs : List Client} {o : Obs} :
    o ∈ sentAll msg cs ↔ ∃ c ∈ cs, o = .sent c msg true := by
  simp [sentAll, eq_comm]

/-- A broadcast to connected clients reaches all that are wanted. -/
theorem broadcast_reliable {env : Env} (msg : FromSession) (wanted : Client → Bool) (i : ℕ)
    (cs : List Client) {log : Log} (h : env.ReliableFrom log) :
    broadcast env msg (fun _ c => wanted c) i cs log =
      ⟨cs, false, sentAll msg (cs.filter wanted) ++ log⟩ := by
  induction cs generalizing i log with
  | nil => rfl
  | cons c cs ih =>
    rw [broadcast]
    cases hwanted : wanted c with
    | true =>
      have hsent : env.send c msg log = [.sent c msg true] ++ log := by
        rw [Env.send, h.succeeds]
        rfl
      rw [if_pos rfl, if_pos h.succeeds, hsent, ih (i + 1) (h.append _)]
      simp [sentAll, hwanted]
    | false =>
      simp [ih (i + 1) h, hwanted]

namespace Stage

variable {env : Env}

theorem note_note (s : Stage vt) (a b : Log) : (s.note a).note b = s.note (b ++ a) := by
  simp [note]

theorem tellMonitor_reliable (s : Stage vt) (msg : FromSession) (h : env.ReliableFrom s.log) :
    s.tellMonitor env msg = s.note (sentAll msg s.monitor.toList) := by
  obtain ⟨viewers, monitor, mirror, hostAttached, pty, log⟩ := s
  unfold tellMonitor
  cases monitor with
  | none => rfl
  | some m =>
    simp only [Env.send, h.succeeds, if_true]
    rfl

theorem writeHost_reliable (s : Stage vt) (headless : Bool) (bytes : Bytes)
    (h : env.ReliableFrom s.log) : ∃ new, s.writeHost env headless bytes = (none, s.note new) ∧
      ∀ o ∈ new, o.Unshown ∧ o.Unrung := by
  unfold writeHost
  split_ifs
  · exact ⟨[], rfl, List.forall_mem_nil _⟩
  · exact ⟨_, by rw [h.failure], by simp [Obs.Unshown, Obs.Unrung]⟩

end Stage

/-- A bell is held in the place of an older one, or it is reported now. -/
theorem BellDebouncer.onBell_cases (d : BellDebouncer) (now epoch : ℕ) :
    (∃ d', d.onBell now epoch = (none, d') ∧ d'.pending = some epoch) ∨
      ∃ d', d.onBell now epoch = (some epoch, d') ∧ d'.pending = d.pending := by
  unfold onBell
  split
  · split_ifs
    · exact .inl ⟨_, rfl, rfl⟩
    · exact .inr ⟨_, rfl, rfl⟩
  · exact .inr ⟨_, rfl, rfl⟩

/-- What a chunk's output adds to the log, when everyone is connected. -/
def outputLog (env : Env) (viewers : List Client) : Option Bytes → Log
  | none => []
  | some data =>
    (if data = [] then []
      else sentAll (.output (env.base64.encode data)) (viewers.filter (·.state = .viewing))) ++
      [.produced data]

/-- What a new title adds to the log, when everyone is connected. -/
def titleLog (viewers : List Client) (monitor : Option Client) : Option String → Log
  | none => []
  | some title => sentAll (.title title) viewers ++ sentAll (.title title) monitor.toList

/-- An output shows neither a title nor a bell. -/
theorem unrung_outputLog (env : Env) (viewers : List Client) (remote : Option Bytes) :
    ∀ o ∈ outputLog env viewers remote, o.Unrung := by
  intro o ho
  cases remote with
  | none => cases ho
  | some data =>
    rcases List.mem_append.mp ho with hsent | hproduced
    · split_ifs at hsent with hempty
      · cases hsent
      · obtain ⟨c, -, rfl⟩ := mem_sentAll.mp hsent
        trivial
    · obtain rfl := List.mem_singleton.mp hproduced
      trivial

namespace Wrapper

variable {env : Env} {config : Config}

theorem streamOutput_reliable (s : Stage vt) (remote : Option Bytes) (h : env.ReliableFrom s.log) :
    streamOutput s env remote = (false, s.note (outputLog env s.viewers remote)) := by
  cases remote with
  | none => rfl
  | some data =>
    have hnoted : env.ReliableFrom (.produced data :: s.log) := h.append [_]
    unfold streamOutput outputLog
    dsimp only
    split_ifs with hempty
    · rfl
    · simp only [Stage.note, broadcast_reliable _ (fun c => c.state = .viewing) 0 _ hnoted,
        List.cons_append, List.nil_append, List.append_assoc]

theorem streamTitle_reliable (s : Stage vt) (title : Option String) (h : env.ReliableFrom s.log) :
    streamTitle s env title = (false, s.note (titleLog s.viewers s.monitor title)) := by
  cases title with
  | none => rfl
  | some title =>
    have htold := h.append (sentAll (.title title) s.monitor.toList)
    unfold streamTitle titleLog
    simp only [s.tellMonitor_reliable _ h, Stage.note,
      broadcast_reliable _ (fun _ => true) 0 _ htold, List.filter_true, List.append_assoc]

/-- A chunk that rings is reported to the monitor at once, or its bell is held. -/
theorem reportBells_reliable (w : Wrapper vt) (bells : ℕ) (clock : Clock)
    (h : env.ReliableFrom w.log) : ∃ new,
      (w.reportBells env bells clock).toStage = w.toStage.note new ∧ (∀ o ∈ new, o.Unshown) ∧
      (((w.reportBells env bells clock).bell.pending = w.bell.pending ∧
          ∀ m, w.monitor = some m → 0 < bells → .sent m (.bell clock.epoch) true ∈ new) ∨
        0 < bells ∧ (w.reportBells env bells clock).bell.pending = some clock.epoch) := by
  unfold reportBells
  cases hrings : (0 < bells && w.monitor.isSome : Bool) with
  | false =>
    refine ⟨[], rfl, List.forall_mem_nil _, .inl ⟨rfl, fun m hm hbells => ?_⟩⟩
    simp [hm, hbells] at hrings
  | true =>
    rw [Bool.and_eq_true, decide_eq_true_eq] at hrings
    obtain ⟨m, hm⟩ := Option.isSome_iff_exists.mp hrings.2
    have hsent (epoch : ℕ) : w.toStage.tellMonitor env (.bell epoch) =
        w.toStage.note [.sent m (.bell epoch) true] := by
      rw [w.toStage.tellMonitor_reliable _ h, hm]
      rfl
    have hunshown (epoch : ℕ) : ∀ o ∈ [Obs.sent m (.bell epoch) true], o.Unshown := by
      simp [Obs.Unshown, FromSession.isShown]
    have hnow : ∀ m', w.monitor = some m' → 0 < bells →
        Obs.sent m' (.bell clock.epoch) true ∈ [Obs.sent m (.bell clock.epoch) true] := by
      intro m' hm' _
      obtain rfl := Option.some.inj (hm.symm.trans hm')
      exact List.mem_singleton_self _
    rcases w.bell.onBell_cases clock.now clock.epoch with
      ⟨d, hheld, hpending⟩ | ⟨d, hsends, hpending⟩
    · simp only [hheld, if_true]
      exact ⟨[], rfl, List.forall_mem_nil _, .inr ⟨hrings.1, hpending⟩⟩
    · simp only [hsends, if_true]
      exact ⟨_, hsent clock.epoch, hunshown clock.epoch, .inl ⟨hpending, hnow⟩⟩

theorem reportActivity_reliable (w : Wrapper vt) (clock : Clock) (h : env.ReliableFrom w.log) :
    ∃ new, (w.reportActivity env clock).toStage = w.toStage.note new ∧ (∀ o ∈ new, o.Unshown) ∧
      (w.reportActivity env clock).bell = w.bell := by
  unfold reportActivity
  dsimp only
  split_ifs
  · refine ⟨_, Stage.tellMonitor_reliable _ _ h, fun o ho => ?_, rfl⟩
    obtain ⟨m, -, rfl⟩ := mem_sentAll.mp ho
    rfl
  · exact ⟨[], rfl, List.forall_mem_nil _, rfl⟩

/-- All that a chunk of output does in the main loop while everyone is connected. -/
structure Streams (env : Env) (w w' : Wrapper vt) (out : Output) (rung : Clock) : Prop where
  viewers : w'.viewers = w.viewers
  monitor : w'.monitor = w.monitor
  log : ∃ quiet, (∀ o ∈ quiet, o.Unshown) ∧
    w'.log = titleLog w.viewers w.monitor out.title ++
      (outputLog env w.viewers out.remote ++ (quiet ++ w.log)) ∧
    ((w'.bell.pending = w.bell.pending ∧
        ∀ m, w.monitor = some m → 0 < out.bells → .sent m (.bell rung.epoch) true ∈ quiet) ∨
      0 < out.bells ∧ w'.bell.pending = some rung.epoch)

/-- The main loop takes a chunk of output. -/
theorem onOutput_reliable (w : Wrapper vt) (config : Config) (bytes : Bytes) (rung wrote : Clock)
    (h : env.ReliableFrom w.log) : ∃ w', w.onOutput env config bytes rung wrote = some w' ∧
      w'.mirror = (w.mirror.process bytes).2 ∧
      Streams env w w' (w.mirror.process bytes).1 rung := by
  unfold onOutput
  generalize w.mirror.process bytes = processed
  obtain ⟨out, mirror⟩ := processed
  obtain ⟨written, hwrote, hquiet⟩ :=
    (w.toStage.withMirror mirror).writeHost_reliable config.headless (render out.host) h
  dsimp only
  rw [hwrote]
  dsimp only
  set w₁ := w.withStage ((w.toStage.withMirror mirror).note written) with hw₁
  have h₁ : env.ReliableFrom w₁.log := h.append written
  obtain ⟨bells, hbells, hbellsQuiet, hbell⟩ := w₁.reportBells_reliable out.bells rung h₁
  set w₂ := w₁.reportBells env out.bells rung
  have h₂ : env.ReliableFrom w₂.log := by
    rw [hbells]
    exact h₁.append bells
  obtain ⟨activity, hactivity, hactivityQuiet, hsame⟩ := w₂.reportActivity_reliable wrote h₂
  set w₃ := w₂.reportActivity env wrote
  have h₃ : env.ReliableFrom w₃.log := by
    rw [hactivity]
    exact h₂.append activity
  have hstage : w₃.toStage =
      (w.toStage.withMirror mirror).note (activity ++ (bells ++ written)) := by
    rw [hactivity, hbells, hw₁, withStage, Stage.note_note, Stage.note_note, List.append_assoc]
  have h₄ : env.ReliableFrom (w₃.toStage.note (outputLog env w₃.viewers out.remote)).log :=
    h₃.append _
  rw [streamOutput_reliable _ _ h₃]
  dsimp only
  rw [streamTitle_reliable _ _ h₄]
  refine ⟨_, rfl, ?_, ?_, ?_, activity ++ (bells ++ written), fun o ho => ?_, ?_, ?_⟩
  · change w₃.toStage.mirror = mirror
    rw [hstage]
    rfl
  · change w₃.toStage.viewers = w.viewers
    rw [hstage]
    rfl
  · change w₃.toStage.monitor = w.monitor
    rw [hstage]
    rfl
  · rcases List.mem_append.mp ho with ho | ho
    · exact hactivityQuiet o ho
    · rcases List.mem_append.mp ho with ho | ho
      · exact hbellsQuiet o ho
      · exact (hquiet o ho).1
  · simp only [withStage, Stage.note, hstage, Stage.withMirror]
  · change (w₃.bell.pending = _ ∧ _) ∨ _ ∧ w₃.bell.pending = _
    rw [hsame]
    refine hbell.imp_left fun ⟨hpending, hsent⟩ => ⟨hpending, fun m hm hrings => ?_⟩
    exact List.mem_append_right _ (List.mem_append_left _ (hsent m hm hrings))

/-- What the mirror makes of these chunks, one after the other. -/
def outputsOf (m : Mirror vt) : List Bytes → List Output
  | [] => []
  | bytes :: rest => (m.process bytes).1 :: outputsOf (m.process bytes).2 rest

/-- What these outputs add to the log in the main loop, of what is shown. -/
def loopLog (env : Env) (viewers : List Client) (monitor : Option Client) : List Output → Log
  | [] => []
  | out :: rest =>
    loopLog env viewers monitor rest ++
      (titleLog viewers monitor out.title ++ outputLog env viewers out.remote)

/-- What these outputs add to the log in the drain, of what is shown. -/
def drainLog (env : Env) (viewers : List Client) : List Output → Log
  | [] => []
  | out :: rest => drainLog env viewers rest ++ outputLog env viewers out.remote

/-- A chunk of child output, with the clocks that the main loop reads for it. -/
structure OutputChunk where
  bytes : Bytes
  rung : Clock
  wrote : Clock

/-- The event of the main loop for a chunk. -/
def OutputChunk.event (chunk : OutputChunk) : Event :=
  .output chunk.bytes chunk.rung chunk.wrote

/-- The main loop takes all of these chunks. -/
theorem loop_reliable (w : Wrapper vt) (config : Config) (rest : List OutputChunk)
    (h : env.ReliableFrom w.log) :
    ∃ w', Machine.run (step env config) w (rest.map OutputChunk.event) = some w' ∧
      env.ReliableFrom w'.log ∧ w'.viewers = w.viewers ∧
      ∀ id, w'.log.shownTo id = (loopLog env w.viewers w.monitor
        (outputsOf w.mirror (rest.map OutputChunk.bytes))).shownTo id ++ w.log.shownTo id := by
  induction rest generalizing w with
  | nil => exact ⟨w, rfl, h, rfl, fun id => rfl⟩
  | cons chunk rest ih =>
    obtain ⟨w₁, hstep, hmirror, hviewers, hmonitor, quiet, hquiet, hlog, -⟩ :=
      w.onOutput_reliable config chunk.bytes chunk.rung chunk.wrote h
    have h₁ : env.ReliableFrom w₁.log := by
      rw [hlog]
      exact ((h.append _).append _).append _
    obtain ⟨w', hrun, hreliable, hkept, hshown⟩ := ih w₁ h₁
    refine ⟨w', Machine.run_cons_eq_some.mpr ⟨w₁, hstep, hrun⟩, hreliable, hkept.trans hviewers,
      fun id => ?_⟩
    have hsame : Log.shownTo id (quiet ++ w.log) = w.log.shownTo id :=
      Log.shownTo_grows ⟨quiet, rfl, hquiet⟩ id
    rw [hshown id, hlog, hviewers, hmonitor, hmirror, List.map_cons, outputsOf, loopLog]
    simp only [Log.shownTo_append, List.append_assoc] at hsame ⊢
    rw [hsame]

/-- The drain takes all of these chunks. -/
theorem drain_reliable {s : Stage vt} (headless : Bool) (chunks : List Bytes)
    (h : env.ReliableFrom s.log) (halive : ∀ c ∈ s.viewers, c.dead = false) :
    ∃ s', drainPty env headless chunks s = (none, s') ∧ env.ReliableFrom s'.log ∧
      Log.Grows Obs.Unrung s.log s'.log ∧
      ∀ id, s'.log.shownTo id =
        (drainLog env s.viewers (outputsOf s.mirror chunks)).shownTo id ++ s.log.shownTo id := by
  induction chunks generalizing s with
  | nil => exact ⟨s, rfl, h, .refl _ _, fun id => rfl⟩
  | cons bytes rest ih =>
    rw [drainPty, outputsOf]
    generalize s.mirror.process bytes = processed
    obtain ⟨out, mirror⟩ := processed
    obtain ⟨written, hwrote, hquiet⟩ :=
      (s.withMirror mirror).writeHost_reliable headless (render out.host) h
    dsimp only
    rw [hwrote]
    dsimp only
    have hwritten : env.ReliableFrom ((s.withMirror mirror).note written).log := h.append written
    rw [streamOutput_reliable _ _ hwritten]
    dsimp only
    set t := ((s.withMirror mirror).note written).note (outputLog env s.viewers out.remote) with ht
    have hlive : t.removeDead = t := by
      unfold Stage.removeDead
      rw [List.filter_eq_self.mpr fun c hc => by rw [halive c hc]; rfl]
      rfl
    have hreliable : env.ReliableFrom t.log := hwritten.append _
    obtain ⟨s', hdrained, hreliable', hgrows, hshown⟩ := ih (s := t) hreliable halive
    have hnext : (if out.remote.getD [] = [] then t else t.removeDead) = t := by
      rw [hlive, ite_self]
    refine ⟨s', ?_, hreliable', ?_, fun id => ?_⟩
    · rw [← hdrained]
      exact congrArg _ hnext
    · refine Log.Grows.trans ⟨outputLog env s.viewers out.remote ++ written, ?_, fun o ho => ?_⟩
        hgrows
      · exact (List.append_assoc _ _ _).symm
      · rcases List.mem_append.mp ho with ho | ho
        · exact unrung_outputLog env s.viewers out.remote o ho
        · exact (hquiet o ho).2
    · have hsame : Log.shownTo id (written ++ s.log) = s.log.shownTo id :=
        Log.shownTo_grows ⟨written, rfl, fun o ho => (hquiet o ho).1⟩ id
      have hlog : t.log = outputLog env s.viewers out.remote ++ (written ++ s.log) := rfl
      rw [hshown id, hlog, drainLog]
      simp only [Log.shownTo_append, List.append_assoc] at hsame ⊢
      rw [hsame]
      rfl

/-- The end of a run shows nothing, and rings no bell, beyond what is drained. -/
theorem finish_reliable {w : Wrapper vt} (config : Config) (chunks : List Bytes) (status : Option ℤ)
    (h : env.ReliableFrom w.log) (halive : ∀ c ∈ w.viewers, c.dead = false) :
    Log.Grows Obs.Unrung w.log (w.finish env config chunks status).2.log ∧
      ∀ id, (w.finish env config chunks status).2.log.shownTo id =
        (drainLog env w.viewers (outputsOf w.mirror chunks)).shownTo id ++ w.log.shownTo id := by
  obtain ⟨s, hdrained, hreliable, hgrows, hshown⟩ :=
    drain_reliable config.headless chunks h halive
  obtain ⟨told, hlog, htold⟩ :=
    broadcast_log env (.exit status) (fun _ _ => true) 0 s.viewers s.log
  have hreliable' :
      env.ReliableFrom ((s.tell env (.exit status) fun _ _ => true).withViewers []).log := by
    change env.ReliableFrom (broadcast env (.exit status) (fun _ _ => true) 0 s.viewers s.log).log
    rw [hlog]
    exact hreliable.append told
  obtain ⟨written, hwrote, hquiet⟩ := Stage.writeHost_reliable _ config.headless
    (render (s.tell env (.exit status) fun _ _ => true).mirror.cleanup) hreliable'
  have hlast : Log.Grows (fun o => o.Unshown ∧ o.Unrung) s.log
      (w.finish env config chunks status).2.log := by
    unfold finish
    rw [hdrained]
    dsimp only
    rw [hwrote]
    refine ⟨written ++ told, ?_, fun o ho => ?_⟩
    · change written ++ (broadcast env (.exit status) (fun _ _ => true) 0 s.viewers s.log).log = _
      rw [hlog, List.append_assoc]
    · rcases List.mem_append.mp ho with ho | ho
      · exact hquiet o ho
      · obtain ⟨c, ok, -, rfl⟩ := htold o ho
        exact ⟨rfl, trivial⟩
  refine ⟨hgrows.trans (hlast.mono fun _ ho => ho.2), fun id => ?_⟩
  rw [Log.shownTo_grows (hlast.mono fun _ ho => ho.1) id, hshown id]

/-- A bell of this timestamp is covered: the monitor was told of it, or will be told
of it when the bell that is held is reported. -/
def Covers (w : Wrapper vt) (epoch : ℕ) : Prop :=
  ∀ m, w.monitor = some m →
    w.log.Told m.id epoch ∨ ∃ held, w.bell.pending = some held ∧ epoch ≤ held

/-- The timestamps of the chunks among these events that ring. -/
def bellsOf (m : Mirror vt) : List Event → List ℕ
  | [] => []
  | .output bytes rung _ :: rest =>
    (if 0 < (m.process bytes).1.bells then [rung.epoch] else []) ++
      bellsOf (m.process bytes).2 rest
  | _ :: rest => bellsOf m rest

/-- The main loop goes on with child output, or reports a held bell. -/
inductive Ends : Event → Prop
  | output (bytes : Bytes) (rung wrote : Clock) : Ends (.output bytes rung wrote)
  | bellDue (now : ℕ) : Ends (.bellDue now)

/-- What such an event does while everyone is connected. A bell that was covered stays so,
if a bell that rings is no older. -/
theorem ends_step {w w' : Wrapper vt} {event : Event} (hevent : Ends event)
    (h : env.ReliableFrom w.log) (hstep : step env config w event = some w') :
    env.ReliableFrom w'.log ∧ w'.viewers = w.viewers ∧ w'.monitor = w.monitor ∧
      (∀ epoch ∈ bellsOf w.mirror [event], w'.Covers epoch) ∧
      (∀ epoch, w.Covers epoch → (∀ e ∈ bellsOf w.mirror [event], epoch ≤ e) →
        w'.Covers epoch) ∧
      ∀ rest, bellsOf w.mirror (event :: rest) =
        bellsOf w.mirror [event] ++ bellsOf w'.mirror rest := by
  cases hevent with
  | output bytes rung wrote =>
    obtain ⟨w₁, hstep₁, hmirror, hviewers, hmonitor, quiet, hquiet, hlog, hbell⟩ :=
      w.onOutput_reliable config bytes rung wrote h
    obtain rfl : w₁ = w' := Option.some.inj (hstep₁.symm.trans hstep)
    have hgrown : w.log <:+ w₁.log := by
      rw [hlog]
      simp only [← List.append_assoc]
      exact List.suffix_append _ _
    refine ⟨?_, hviewers, hmonitor, fun epoch hepoch m hm => ?_,
      fun epoch hcovers hnewer m hm => ?_, fun rest => ?_⟩
    · rw [hlog]
      exact ((h.append _).append _).append _
    · rw [hmonitor] at hm
      unfold bellsOf bellsOf at hepoch
      rw [List.append_nil] at hepoch
      split_ifs at hepoch with hrings
      · obtain rfl := List.mem_singleton.mp hepoch
        rcases hbell with ⟨-, hsent⟩ | ⟨-, hheld⟩
        · refine .inl ⟨rung.epoch, le_rfl, Log.mem_sentTo.mpr ⟨m, ?_, rfl⟩⟩
          rw [hlog]
          simp [hsent m hm hrings]
        · exact .inr ⟨rung.epoch, hheld, le_rfl⟩
      · cases hepoch
    · rw [hmonitor] at hm
      rcases hcovers m hm with htold | ⟨held, hheld, hle⟩
      · exact .inl (htold.mono hgrown)
      · rcases hbell with ⟨hsame, -⟩ | ⟨hrings, hpending⟩
        · exact .inr ⟨held, hsame.trans hheld, hle⟩
        · exact .inr ⟨rung.epoch, hpending, hnewer rung.epoch (by simp [bellsOf, hrings])⟩
    · rw [hmirror, bellsOf, bellsOf, bellsOf, List.append_nil]
  | bellDue now =>
    have hnone : bellsOf w.mirror [.bellDue now] = [] := rfl
    unfold step at hstep
    dsimp only at hstep
    split at hstep
    · cases hstep
    · obtain rfl := Option.some.inj hstep
      exact ⟨h, rfl, rfl, by simp [hnone], fun epoch hcovers _ => hcovers, fun rest => rfl⟩
    · rename_i fired bell hdeadline hfire
      obtain rfl := Option.some.inj hstep
      have hpending : w.bell.pending = some fired := by
        unfold BellDebouncer.fire at hfire
        split at hfire
        · cases hfire
        · rename_i held hheld
          obtain ⟨hsame, -⟩ := Prod.mk.inj hfire
          exact hheld.trans hsame
      rw [w.toStage.tellMonitor_reliable _ h]
      refine ⟨h.append _, rfl, rfl, by simp [hnone], fun epoch hcovers _ m hm => ?_,
        fun rest => rfl⟩
      refine .inl ?_
      rcases hcovers m hm with htold | ⟨held, hheld, hle⟩
      · exact htold.mono (List.suffix_append _ _)
      · obtain rfl := Option.some.inj (hpending.symm.trans hheld)
        refine ⟨fired, hle, Log.mem_sentTo.mpr ⟨m, ?_, rfl⟩⟩
        refine List.mem_append_left _ (mem_sentAll.mpr ⟨m, ?_, rfl⟩)
        rw [show w.monitor = some m from hm]
        exact List.mem_singleton_self m

/-- The last events of the main loop. -/
theorem ends_run {w v : Wrapper vt} {loop : List Event} (hloop : ∀ event ∈ loop, Ends event)
    (h : env.ReliableFrom w.log) (hrun : Machine.run (step env config) w loop = some v) :
    env.ReliableFrom v.log ∧ v.viewers = w.viewers ∧ v.monitor = w.monitor ∧
      (∀ epoch, w.Covers epoch → (∀ e ∈ bellsOf w.mirror loop, epoch ≤ e) → v.Covers epoch) ∧
      ((bellsOf w.mirror loop).Pairwise (· ≤ ·) → ∀ epoch ∈ bellsOf w.mirror loop,
        v.Covers epoch) := by
  induction loop generalizing w with
  | nil =>
    obtain rfl := Option.some.inj hrun
    exact ⟨h, rfl, rfl, fun epoch hcovers _ => hcovers, fun _ epoch hepoch => by cases hepoch⟩
  | cons event loop ih =>
    obtain ⟨hevent, hloop⟩ := List.forall_mem_cons.mp hloop
    obtain ⟨w₁, hstep, hrun⟩ := Machine.run_cons_eq_some.mp hrun
    obtain ⟨h₁, hviewers, hmonitor, hrang, hkept, hsplit⟩ := ends_step hevent h hstep
    obtain ⟨hv, hviewers', hmonitor', hkept', hrang'⟩ := ih hloop h₁ hrun
    rw [hsplit loop]
    refine ⟨hv, hviewers'.trans hviewers, hmonitor'.trans hmonitor, fun epoch hcovers hnewer => ?_,
      fun hordered epoch hepoch => ?_⟩
    · obtain ⟨hnow, hlater⟩ := List.forall_mem_append.mp hnewer
      exact hkept' epoch (hkept epoch hcovers hnow) hlater
    · obtain ⟨-, hordered', hbefore⟩ := List.pairwise_append.mp hordered
      rcases List.mem_append.mp hepoch with hnow | hlater
      · exact hkept' epoch (hrang epoch hnow) (hbefore epoch hnow)
      · exact hrang' hordered' epoch hlater

theorem loopLog_of_untitled {viewers : List Client} {monitor : Option Client} {outs : List Output}
    (h : ∀ out ∈ outs, out.title = none) :
    loopLog env viewers monitor outs = drainLog env viewers outs := by
  induction outs with
  | nil => rfl
  | cons out outs ih =>
    obtain ⟨htitle, hrest⟩ := List.forall_mem_cons.mp h
    rw [loopLog, drainLog, ih hrest, htitle, titleLog, List.nil_append]

/-- In the main loop every new title goes to the viewers and the monitor. -/
theorem title_mem_loopLog {viewers : List Client} {monitor : Option Client} {outs : List Output}
    {out : Output} {title : String} {c : Client} (hout : out ∈ outs)
    (htitle : out.title = some title) (hc : c ∈ viewers ∨ monitor = some c) :
    .sent c (.title title) true ∈ loopLog env viewers monitor outs := by
  induction outs with
  | nil => cases hout
  | cons first outs ih =>
    rcases List.mem_cons.mp hout with rfl | hout
    · refine List.mem_append_right _ (List.mem_append_left _ ?_)
      rw [htitle, titleLog]
      rcases hc with hc | hc
      · exact List.mem_append_left _ (mem_sentAll.mpr ⟨c, hc, rfl⟩)
      · exact List.mem_append_right _ (mem_sentAll.mpr ⟨c, by simp [hc], rfl⟩)
    · exact List.mem_append_left _ (ih hout)

/-- The drain sends no title. -/
theorem title_not_mem_drainLog {viewers : List Client} {outs : List Output} {c : Client}
    {title : String} {ok : Bool} : .sent c (.title title) ok ∉ drainLog env viewers outs := by
  induction outs with
  | nil => exact List.not_mem_nil
  | cons out outs ih =>
    intro hmem
    rcases List.mem_append.mp hmem with hrest | hout
    · exact ih hrest
    · cases hremote : out.remote with
      | none =>
        rw [hremote] at hout
        cases hout
      | some data =>
        rw [hremote, outputLog] at hout
        rcases List.mem_append.mp hout with hsent | hproduced
        · split_ifs at hsent with hempty
          · cases hsent
          · obtain ⟨c', -, heq⟩ := mem_sentAll.mp hsent
            cases heq
        · cases List.mem_singleton.mp hproduced

/-- After the last events of the main loop, from `w` to `v`, the drain of the rest does what
the main loop would have done, and the monitor was told of every bell. -/
structure DrainAgrees (env : Env) (config : Config) (w v : Wrapper vt) (loop : List Event)
    (rest : List OutputChunk) (status : Option ℤ) : Prop where
  /-- The viewers and the monitor get the same outputs and titles. -/
  shown : ∃ v', Machine.run (step env config) v (rest.map OutputChunk.event) = some v' ∧
    ∀ c, c ∈ v.viewers ∨ v.monitor = some c →
      (v.finish env config (rest.map OutputChunk.bytes) status).2.log.shownTo c.id =
        (v'.finish env config [] status).2.log.shownTo c.id
  /-- The bells of the main loop, unless the clock was set back. -/
  rang : ∀ m, v.monitor = some m → (bellsOf w.mirror loop).Pairwise (· ≤ ·) →
    ∀ epoch ∈ bellsOf w.mirror loop,
      (v.finish env config (rest.map OutputChunk.bytes) status).2.log.Told m.id epoch
  /-- A bell that is held. -/
  held : ∀ m, v.monitor = some m → ∀ epoch ∈ v.bell.pending,
    (v.finish env config (rest.map OutputChunk.bytes) status).2.log.Told m.id epoch
  /-- The bells of the rest. -/
  rings : ∀ m, v.monitor = some m →
    (∃ out ∈ outputsOf v.mirror (rest.map OutputChunk.bytes), 0 < out.bells) →
    ∃ new c epoch ok, (v.finish env config (rest.map OutputChunk.bytes) status).2.log =
      new ++ v.log ∧ .sent c (.bell epoch) ok ∈ new ∧ c.id = m.id

/-- There is nothing in what is drained that the drain would leave out. -/
structure DrainHarmless (v : Wrapper vt) (chunks : List Bytes) : Prop where
  /-- No title changes while somebody is connected. -/
  titles : ∀ c, c ∈ v.viewers ∨ v.monitor = some c →
    ∀ out ∈ outputsOf v.mirror chunks, out.title = none
  /-- No bell rings while a monitor is connected. -/
  bells : ∀ m, v.monitor = some m → ∀ out ∈ outputsOf v.mirror chunks, out.bells = 0
  /-- The monitor was told of a bell as late as the one that is held. -/
  held : ∀ m, v.monitor = some m → ∀ epoch ∈ v.bell.pending, v.log.Told m.id epoch

/-- When the drain agrees with the main loop: exactly when it has no title and no bell to
report, and no bell is held that the monitor was not told of. -/
theorem drain_agrees_iff {w v : Wrapper vt} {events loop : List Event}
    (hsession : session vt env config events = some w) (hreliable : env.ReliableFrom w.log)
    (hloop : ∀ event ∈ loop, Ends event) (hrun : Machine.run (step env config) w loop = some v)
    (rest : List OutputChunk) (status : Option ℤ) :
    DrainAgrees env config w v loop rest status ↔
      v.DrainHarmless (rest.map OutputChunk.bytes) := by
  obtain ⟨hv, hviewers, hmonitor, -, hrang⟩ := ends_run hloop hreliable hrun
  have halive : ∀ c ∈ v.viewers, c.dead = false := by
    rw [hviewers]
    exact (session_proper hsession).alive
  obtain ⟨v', hrun', hv', hviewers', hlooped⟩ := v.loop_reliable config rest hv
  obtain ⟨hunrung, hdrained⟩ :=
    finish_reliable config (rest.map OutputChunk.bytes) status hv halive
  obtain ⟨-, hended⟩ := finish_reliable config [] status hv' (hviewers' ▸ halive)
  have hshown (id : ℕ) : (v'.finish env config [] status).2.log.shownTo id =
      (loopLog env v.viewers v.monitor
        (outputsOf v.mirror (rest.map OutputChunk.bytes))).shownTo id ++ v.log.shownTo id := by
    rw [hended id, hlooped id]
    rfl
  constructor
  · intro hagrees
    refine ⟨fun c hc out hout => ?_, fun m hm out hout => ?_, fun m hm epoch hepoch => ?_⟩
    · obtain ⟨v'', hrun'', hsame⟩ := hagrees.shown
      obtain rfl := Option.some.inj (hrun'.symm.trans hrun'')
      have heq := hsame c hc
      rw [hdrained c.id, hshown c.id] at heq
      have hparts := List.append_cancel_right heq
      by_contra htitled
      obtain ⟨title, htitle⟩ := Option.ne_none_iff_exists'.mp htitled
      have hmem : (.title title, true) ∈ (loopLog env v.viewers v.monitor
          (outputsOf v.mirror (rest.map OutputChunk.bytes))).shownTo c.id :=
        Log.mem_shownTo.mpr ⟨rfl, c, title_mem_loopLog hout htitle hc, rfl⟩
      rw [← hparts] at hmem
      obtain ⟨-, c', hc', -⟩ := Log.mem_shownTo.mp hmem
      exact title_not_mem_drainLog hc'
    · by_contra hrings
      obtain ⟨new, c, epoch, ok, hnew, hsent, -⟩ :=
        hagrees.rings m hm ⟨out, hout, Nat.pos_of_ne_zero hrings⟩
      obtain ⟨new', hnew', hnone⟩ := hunrung
      obtain rfl := List.append_cancel_right (hnew.symm.trans hnew')
      exact hnone _ hsent
    · exact (Log.told_grows hunrung).mp (hagrees.held m hm epoch hepoch)
  · intro hharmless
    refine ⟨⟨v', hrun', fun c hc => ?_⟩, fun m hm hordered epoch hepoch => ?_,
      fun m hm epoch hepoch => ?_, fun m hm ⟨out, hout, hrings⟩ => ?_⟩
    · rw [hdrained c.id, hshown c.id, loopLog_of_untitled (hharmless.titles c hc)]
    · refine (Log.told_grows hunrung).mpr ?_
      rcases hrang hordered epoch hepoch m hm with htold | ⟨held, hheld, hle⟩
      · exact htold
      · obtain ⟨e, hlater, htold⟩ := hharmless.held m hm held hheld
        exact ⟨e, hle.trans hlater, htold⟩
    · exact (Log.told_grows hunrung).mpr (hharmless.held m hm epoch hepoch)
    · rw [hharmless.bells m hm out hout] at hrings
      exact absurd hrings (lt_irrefl 0)

/-- A device views, and a monitor is connected. -/
def viewedAndMonitored : List Event :=
  joins ⟨1, "a", 4, 2, some 0, some 2, .viewer, false⟩ ++
    [.viewerMessage 0 (.message .view) fun _ => 0, .accept none,
      .pendingMessage 0 (.message (.monitor 1))]

/-- The app rings a bell and exits. -/
def lastBell : List OutputChunk := [⟨ascii "\x07", ⟨0, 1000⟩, ⟨0, 1000⟩⟩]

/-- If the exit is noticed before the output, the monitor does not learn of the bell. -/
theorem drain_loses_bell :
    ∃ w ∈ session asciiVt100 (.failingAt []) (smallConfig false) viewedAndMonitored,
      ¬DrainAgrees (.failingAt []) (smallConfig false) w w [] lastBell (some 0) := by
  obtain ⟨w, hsession, hmonitor, hrings⟩ :
      ∃ w ∈ session asciiVt100 (.failingAt []) (smallConfig false) viewedAndMonitored,
        w.monitor.isSome ∧
          ∃ out ∈ outputsOf w.mirror (lastBell.map OutputChunk.bytes), 0 < out.bells := by
    decide +kernel
  obtain ⟨m, hm⟩ := Option.isSome_iff_exists.mp hmonitor
  refine ⟨w, hsession, fun hagrees => ?_⟩
  have hreliable : (Env.failingAt []).ReliableFrom w.log := fun _ _ => rfl
  have halive := (session_proper (Option.mem_def.mp hsession)).alive
  obtain ⟨⟨new', hnew', hnone⟩, -⟩ := finish_reliable (smallConfig false)
    (lastBell.map OutputChunk.bytes) (some 0) hreliable halive
  obtain ⟨new, c, epoch, ok, hnew, hsent, -⟩ := hagrees.rings m hm hrings
  obtain rfl := List.append_cancel_right (hnew.symm.trans hnew')
  exact hnone _ hsent

/-- A bell in the main loop is reported at once, and then plain text is drained. -/
theorem drain_agrees_after_bell :
    ∃ w ∈ session asciiVt100 (.failingAt []) (smallConfig false) viewedAndMonitored,
      ∃ v ∈ Machine.run (step (.failingAt []) (smallConfig false)) w
          (lastBell.map OutputChunk.event),
        DrainAgrees (.failingAt []) (smallConfig false) w v (lastBell.map OutputChunk.event)
          [⟨ascii "x", ⟨0, 1000⟩, ⟨0, 1000⟩⟩] (some 0) := by
  obtain ⟨w, hsession, v, hrun, hpending, hplain⟩ :
      ∃ w ∈ session asciiVt100 (.failingAt []) (smallConfig false) viewedAndMonitored,
        ∃ v ∈ Machine.run (step (.failingAt []) (smallConfig false)) w
            (lastBell.map OutputChunk.event),
          v.bell.pending = none ∧
            ∀ out ∈ outputsOf v.mirror [ascii "x"], out.title = none ∧ out.bells = 0 := by
    decide +kernel
  have hloop : ∀ event ∈ lastBell.map OutputChunk.event, Ends event := by
    intro event hevent
    obtain rfl := List.mem_singleton.mp hevent
    exact .output _ _ _
  refine ⟨w, hsession, v, hrun, ?_⟩
  refine (drain_agrees_iff hsession (fun _ _ => rfl) hloop hrun _ _).mpr ⟨?_, ?_, ?_⟩
  · exact fun c hc out hout => (hplain out hout).1
  · exact fun m hm out hout => (hplain out hout).2
  · intro m hm epoch hepoch
    rw [hpending] at hepoch
    cases hepoch

end Wrapper

end G2mirror
