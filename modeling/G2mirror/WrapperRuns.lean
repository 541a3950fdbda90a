import G2mirror.Library.Machine
import G2mirror.WrapperSteps
import Mathlib.Data.List.Perm.Subperm
import Mathlib.Logic.Relation

/-!
# Runs of the wrapper

An event either leaves the viewers alone, or it changes something about them and
then ends with a sweep. This is stated once for all events, together with what
the sweep's last pass has decided.
-/

namespace G2mirror

open Relation
open scoped List

variable {vt : Vt100}

namespace Stage

/-- What happens while the viewers stay who they are. -/
inductive Steady (env : Env) (headless : Bool) : Stage vt → Stage vt → Prop
  | aside {s s' : Stage vt} (h : s.Aside s') : Steady env headless s s'
  | toggle {s s' : Stage vt} (hhosted : headless = false)
      (h : s.toggleSimulated env headless = (none, s')) : Steady env headless s s'
  | stream {s : Stage vt} {remote : Option Bytes}
      (h : (Wrapper.streamOutput s env remote).2.viewers = s.viewers) :
      Steady env headless s (Wrapper.streamOutput s env remote).2

/-- What happens before and during a sweep. -/
inductive Move (env : Env) (headless : Bool) (hostRank : ℕ) : Stage vt → Stage vt → Prop
  | regroup {s s' : Stage vt} (h : s.Regroups s')
      (hids : s'.viewers.map Client.id <+ s.viewers.map Client.id) : Move env headless hostRank s s'
  | stream (s : Stage vt) (remote : Option Bytes) :
      Move env headless hostRank s (Wrapper.streamOutput s env remote).2
  | announce (s : Stage vt) : Move env headless hostRank s (s.announceHost env)
  | refresh {s s' : Stage vt} {error : Option String}
      (h : s.refreshView env headless hostRank none = (error, s')) : Move env headless hostRank s s'
  | view {s s' : Stage vt} {i : ℕ} {c : Client} {error : Option String}
      (hc : s.viewers[i]? = some c) (halive : c.dead = false)
      (h : (s.withViewers (s.viewers.set i { c with state := .viewing })).refreshView env headless
        hostRank (some i) = (error, s')) : Move env headless hostRank s s'

/-- Re-deciding the view makes viewers at most die, and does not concern the host role. -/
theorem refreshView_frame {s s' : Stage vt} {env : Env} {headless : Bool} {hostRank : ℕ}
    {forceFor : Option ℕ} {error : Option String}
    (hresult : s.refreshView env headless hostRank forceFor = (error, s')) :
    Outlived s.viewers s'.viewers ∧ s'.hostAttached = s.hostAttached ∧
      Log.Grows Obs.ServesView s.log s'.log := by
  rcases s.refreshView_cases env headless hostRank forceFor with
    ⟨h, -⟩ | ⟨h, -⟩ | ⟨rows, cols, -, ⟨h, -⟩ | ⟨error', t, ht, ⟨-, h⟩ | ⟨-, msg, hmsg, h⟩⟩⟩
  · cases hresult.symm.trans h
    exact ⟨.refl _, rfl, .refl _ _⟩
  · obtain ⟨hviewers, hhost, hlog, -⟩ := endView_frame (h.symm.trans hresult)
    exact ⟨hviewers ▸ .refl _, hhost, hlog⟩
  · cases hresult.symm.trans h
    exact ⟨.refl _, rfl, .refl _ _⟩
  · cases hresult.symm.trans h
    obtain ⟨hviewers, hhost, hlog, -⟩ := startView_frame ht
    exact ⟨hviewers ▸ .refl _, hhost, hlog⟩
  · cases hresult.symm.trans h
    obtain ⟨hviewers, hhost, hlog, -⟩ := startView_frame ht
    obtain ⟨data, next, rfl⟩ := hmsg
    have hsent := (broadcast_log env (.snapshot data cols rows next) (fun i c => c.isViewing &&
      (s.needsView rows cols || decide (forceFor = some i))) 0 t.viewers t.log).mono
      (Q := Obs.ServesView) fun o ho => by
        obtain ⟨c, ok, ⟨-, k, hwanted⟩, rfl⟩ := ho
        exact Client.state_of_isViewing (Bool.and_eq_true_iff.mp hwanted).1
    exact ⟨hviewers ▸ t.tell_outlived env _ _, hhost, hlog.trans hsent⟩

/-- Announcing the host role makes viewers at most die. -/
theorem announceHost_outlived (s : Stage vt) (env : Env) :
    Outlived s.viewers (s.announceHost env).viewers := by
  rcases s.announceHost_cases env with ⟨-, h⟩ | ⟨monitor, log, -, h⟩
  · rw [h]
    exact .refl _
  · rw [h]
    exact broadcast_outlived env _ _ 0 s.viewers log

/-- A pass of a sweep is a chain of moves. -/
theorem pass_moves {env : Env} {headless : Bool} {hostRank : ℕ} {s s' : Stage vt}
    {error : Option String} (h : ((s.announceHost env).removeDead).refreshView env headless
      hostRank none = (error, s')) : ReflTransGen (Move env headless hostRank) s s' :=
  .head (.announce s)
    (.head (.regroup (removeDead_regroups _) (List.filter_sublist.map _)) (.single (.refresh h)))

/-- The pass of a sweep after which nobody was lost. -/
theorem sweepLoop_cases {env : Env} {headless : Bool} {hostRank fuel : ℕ} {s s' : Stage vt}
    (hfuel : (s.viewers.filter fun c => !c.dead).length < fuel)
    (h : sweepLoop env headless hostRank fuel s = (none, s')) :
    ∃ s₀, ReflTransGen (Move env headless hostRank) s s₀ ∧
      ((s₀.announceHost env).removeDead).refreshView env headless hostRank none = (none, s') ∧
      ∀ c ∈ s'.viewers, c.dead = false := by
  induction fuel generalizing s with
  | zero => exact absurd hfuel (Nat.not_lt_zero _)
  | succ fuel ih =>
    rw [sweepLoop] at h
    cases hpass : ((s.announceHost env).removeDead).refreshView env headless hostRank none with
    | mk error t =>
      rw [hpass] at h
      cases error with
      | some error => cases h
      | none =>
        dsimp only at h
        split at h
        · rename_i hall
          rw [Prod.mk.injEq] at h
          refine ⟨s, .refl, h.2 ▸ hpass, fun c hc => ?_⟩
          simpa using List.all_eq_true.mp hall c (h.2 ▸ hc)
        · rename_i hsome
          obtain ⟨c, hc, hdead⟩ : ∃ c ∈ t.viewers, ¬ (!c.dead) = true := by simpa using hsome
          have hdied := (refreshView_frame hpass).1
          have hless : (t.viewers.filter fun c => !c.dead).length < fuel := by
            have hlost : (t.viewers.filter fun c => !c.dead).length < t.viewers.length :=
              List.length_filter_lt_length_iff_exists.mpr ⟨c, hc, hdead⟩
            have hkept := hdied.length
            have halive := (s.announceHost_outlived env).length_alive_le
            simp only [removeDead, withViewers] at hkept
            omega
          obtain ⟨s₀, hmoves', hlast⟩ := ih hless h
          exact ⟨s₀, (pass_moves hpass).trans hmoves', hlast⟩

/-- Changing one viewer, who keeps the id and does not begin to view by that. -/
theorem set_move {env : Env} {headless : Bool} {hostRank : ℕ} {s : Stage vt} {i : ℕ}
    {c c' : Client} (hc : s.viewers[i]? = some c) (hid : c'.id = c.id)
    (hviewing : c'.isViewing = true → c.isViewing = true) :
    Move env headless hostRank s (s.withViewers (s.viewers.set i c')) :=
  .regroup (set_regroups hc hid hviewing) (set_ids hc hid ▸ .refl _)

theorem Aside.move {env : Env} {headless : Bool} {hostRank : ℕ} {s s' : Stage vt}
    (h : s.Aside s') : Move env headless hostRank s s' :=
  .regroup h.regroups (h.viewers ▸ .refl _)

end Stage

/-- All that writing queued input adds to the log are writes to the pty. -/
theorem InputQueue.pumpLoop_log (env : Env) (now : ℕ → ℕ) {P : Obs → Prop}
    (hP : ∀ bytes ok, P (.ptyWrote bytes ok)) (k : ℕ) (chunks : List (ℕ × Bytes))
    (due : Option ℕ) (log : Log) : Log.Grows P log (pumpLoop env now k chunks due log).2.2 := by
  induction chunks generalizing k due log with
  | nil => exact .refl _ _
  | cons chunk rest ih =>
    rw [pumpLoop]
    dsimp only
    split
    · exact .refl _ _
    · split
      · exact ih _ _ _
      · split
        · exact (Log.Grows.cons (hP _ _)).trans (ih _ _ _)
        · exact .cons (hP _ _)

namespace Stage

/-- Writing queued input is an aside. -/
theorem pump_aside (s : Stage vt) (env : Env) (queue : InputQueue) (now : ℕ → ℕ) :
    s.Aside { s with log := (queue.pump env now s.log).2.2 } :=
  ⟨rfl, .refl _, rfl, rfl,
    InputQueue.pumpLoop_log env now (fun _ _ => trivial) 0 queue.queue queue.due s.log⟩

/-- Handling a viewer's message, whether it succeeds or not. -/
theorem handleViewerMessage_moves {s : Stage vt} {i : ℕ} {c : Client} (env : Env)
    (config : Config) (hostRank : ℕ) (msg : ToSession) (now : ℕ → ℕ) (queue : InputQueue)
    (hc : s.viewers[i]? = some c) (halive : c.dead = false) :
    ReflTransGen (Move env config.headless hostRank) s
      (s.handleViewerMessage env config hostRank msg i c now queue).2.1 := by
  cases msg with
  | init init => exact .refl
  | monitor version => exact .refl
  | resize width height =>
    unfold handleViewerMessage
    dsimp only
    split
    · have hset : Move env config.headless hostRank s
          (s.withViewers (s.viewers.set i { c with width := width, height := height })) :=
        set_move hc rfl id
      exact .tail (.single hset) (.refresh rfl)
    · exact .refl
  | input data delays =>
    unfold handleViewerMessage
    dsimp only
    split
    · exact .single (s.reply_aside env c (by exact trivial)).move
    · split
      · exact .refl
      · split
        · exact .refl
        · split
          · exact .refl
          · exact .single (s.pump_aside env _ now).move
  | view => exact .single (.view hc halive rfl)
  | history before limit => exact .single (s.reply_aside env c (by exact trivial)).move
  | unview =>
    unfold handleViewerMessage
    dsimp only
    split
    · have hset : Move env config.headless hostRank s
          (s.withViewers (s.viewers.set i { c with state := .ready })) :=
        set_move hc rfl (by simp [Client.isViewing])
      exact .tail (.single hset) (.refresh rfl)
    · exact .refl

/-- A move brings no new id, and takes nothing out of the log. -/
theorem Move.frame {env : Env} {headless : Bool} {hostRank : ℕ} {s s' : Stage vt}
    (h : Move env headless hostRank s s') :
    s'.viewers.map Client.id <+ s.viewers.map Client.id ∧ s.log <:+ s'.log := by
  cases h with
  | regroup h hids => exact ⟨hids, h.log.suffix⟩
  | stream remote =>
    exact ⟨(Wrapper.streamOutput_outlived s env remote).1.ids ▸ .refl _,
      (Wrapper.streamOutput_frame s env remote).2.2⟩
  | announce =>
    refine ⟨(s.announceHost_outlived env).ids ▸ .refl _, ?_⟩
    rcases s.announceHost_cases env with ⟨-, h⟩ | ⟨monitor, log, hlog, h⟩
    · exact ⟨[], (congrArg Stage.log h).symm⟩
    · rw [h]
      exact hlog.suffix.trans (broadcast_log env _ _ 0 s.viewers log).suffix
  | refresh h => exact ⟨(refreshView_frame h).1.ids ▸ .refl _, (refreshView_frame h).2.2.suffix⟩
  | view hc halive h =>
    exact ⟨((refreshView_frame h).1.ids.trans (set_ids hc rfl)) ▸ .refl _,
      (refreshView_frame h).2.2.suffix⟩

/-- While the viewers stay who they are, nothing is taken out of the log either. -/
theorem Steady.frame {env : Env} {headless : Bool} {s s' : Stage vt}
    (h : Steady env headless s s') : s'.viewers = s.viewers ∧ s.log <:+ s'.log := by
  cases h with
  | aside h => exact ⟨h.viewers, h.log.suffix⟩
  | toggle _ h =>
    rcases s.toggleSimulated_cases env headless with ⟨-, hstart⟩ | ⟨v, -, ⟨-, hend⟩ | ⟨-, hsame⟩⟩
    · obtain ⟨hviewers, -, hlog, -⟩ := startView_frame (hstart.symm.trans h)
      exact ⟨hviewers, hlog.suffix⟩
    · obtain ⟨hviewers, -, hlog, -⟩ := endView_frame (hend.symm.trans h)
      exact ⟨hviewers, hlog.suffix⟩
    · cases h.symm.trans hsame
      exact ⟨rfl, List.suffix_rfl⟩
  | stream h => exact ⟨h, (Wrapper.streamOutput_frame s env _).2.2⟩

/-- What a sweep has done when it returns: after some moves came a last pass that lost nobody. -/
theorem sweepAndRefresh_cases {env : Env} {headless : Bool} {hostRank : ℕ} {s s' : Stage vt}
    (h : s.sweepAndRefresh env headless hostRank = (none, s')) :
    ∃ s₀, ReflTransGen (Move env headless hostRank) s s₀ ∧
      ((s₀.announceHost env).removeDead).refreshView env headless hostRank none = (none, s') ∧
      ∀ c ∈ s'.viewers, c.dead = false :=
  sweepLoop_cases (Nat.lt_succ_of_le (List.length_filter_le _ _)) h

/-- A sweep is a chain of moves. -/
theorem sweepAndRefresh_moves {env : Env} {headless : Bool} {hostRank : ℕ} {s s' : Stage vt}
    (h : s.sweepAndRefresh env headless hostRank = (none, s')) :
    ReflTransGen (Move env headless hostRank) s s' := by
  obtain ⟨s₀, hmoves, hpass, -⟩ := sweepAndRefresh_cases h
  exact hmoves.trans (pass_moves hpass)

end Stage

namespace Wrapper

/-- The ids of all connections but the monitor's. -/
def ids (w : Wrapper vt) : List ℕ := w.viewers.map Client.id ++ w.pendings.map Client.id

/-- Two wrappers differ in nothing but asides and clocks. -/
structure Reports (w w' : Wrapper vt) : Prop where
  stage : w.toStage.Aside w'.toStage
  pendings : w'.pendings = w.pendings
  hostRank : w'.hostRank = w.hostRank
  nextClientId : w'.nextClientId = w.nextClientId
  stdinOpen : w'.stdinOpen = w.stdinOpen

theorem Reports.trans {w w' w'' : Wrapper vt} (h : w.Reports w') (h' : w'.Reports w'') :
    w.Reports w'' :=
  ⟨h.stage.trans h'.stage, h'.pendings.trans h.pendings, h'.hostRank.trans h.hostRank,
    h'.nextClientId.trans h.nextClientId, h'.stdinOpen.trans h.stdinOpen⟩

/-- Going on with another stage, after nothing but asides. -/
theorem reports_of_aside {w : Wrapper vt} {s : Stage vt} (h : w.toStage.Aside s) :
    w.Reports (w.withStage s) := ⟨h, rfl, rfl, rfl, rfl⟩

theorem reportBells_reports (w : Wrapper vt) (env : Env) (bells : ℕ) (clock : Clock) :
    w.Reports (w.reportBells env bells clock) := by
  unfold reportBells
  split
  · split
    · exact ⟨.refl _, rfl, rfl, rfl, rfl⟩
    · exact ⟨w.toStage.tellMonitor_aside env trivial, rfl, rfl, rfl, rfl⟩
  · exact ⟨.refl _, rfl, rfl, rfl, rfl⟩

theorem reportActivity_reports (w : Wrapper vt) (env : Env) (clock : Clock) :
    w.Reports (w.reportActivity env clock) := by
  unfold reportActivity
  dsimp only
  split
  · exact ⟨w.toStage.tellMonitor_aside env trivial, rfl, rfl, rfl, rfl⟩
  · exact ⟨.refl _, rfl, rfl, rfl, rfl⟩

theorem proceed_eq_some {w w' : Wrapper vt} {result : Option String × Stage vt} :
    w.proceed result = some w' ↔ ∃ s, result = (none, s) ∧ w.withStage s = w' := by
  obtain ⟨error, s⟩ := result
  cases error with
  | none => simp [proceed]
  | some error => simp [proceed]

/-- Keyboard input forwards and toggles. -/
theorem typeKeys_steady {env : Env} {headless : Bool} (hhosted : headless = false)
    {held bs : Bytes} {s s' : Stage vt} (h : typeKeys env headless held bs s = (none, s')) :
    ReflTransGen (Stage.Steady env headless) s s' := by
  induction bs generalizing held s with
  | nil =>
    have haside := s.writePty_aside env held
    rw [show s.writePty env held = (none, s') from h] at haside
    exact .single (.aside haside)
  | cons b bs ih =>
    rw [typeKeys] at h
    split at h
    · have haside := s.writePty_aside env held
      cases hwrite : s.writePty env held with
      | mk error t =>
        rw [hwrite] at h haside
        cases error with
        | some error => cases h
        | none =>
          dsimp only at h
          cases htoggle : t.toggleSimulated env headless with
          | mk error u =>
            rw [htoggle] at h
            cases error with
            | some error => cases h
            | none => exact .head (.aside haside) (.head (.toggle hhosted htoggle) (ih h))
    · exact ih h

/-- The keyboard branch leaves everything but the stage alone. -/
theorem onStdin_steady {w w' : Wrapper vt} {env : Env} {config : Config} {bytes : Bytes}
    (hhosted : config.headless = false) (h : w.onStdin env config bytes = some w') :
    ∃ s, ReflTransGen (Stage.Steady env config.headless) w.toStage s ∧
      w.withStage s = w' := by
  unfold onStdin at h
  cases hkeys : typeKeys env config.headless [] bytes w.toStage with
  | mk error s =>
    rw [hkeys] at h
    cases error with
    | some error => cases h
    | none =>
      have hsteady := typeKeys_steady hhosted hkeys
      dsimp only at h
      split at h
      · obtain ⟨s', hwrite, hw'⟩ := proceed_eq_some.mp h
        have haside := s.writeHost_aside env config.headless (render s.mirror.refreshScrollback)
        rw [hwrite] at haside
        exact ⟨s', hsteady.tail (.aside haside), hw'⟩
      · obtain ⟨s', hsame, hw'⟩ := proceed_eq_some.mp h
        rw [Prod.mk.injEq] at hsame
        exact ⟨s', hsame.2 ▸ hsteady, hw'⟩

/-- The child output branch: reports, then the chunk and the title are streamed,
and if a viewer was lost there is a sweep. -/
theorem onOutput_cases {w w' : Wrapper vt} {env : Env} {config : Config} {bytes : Bytes}
    {rung wrote : Clock} (h : w.onOutput env config bytes rung wrote = some w') :
    ∃ w₁ remote title, w.Reports w₁ ∧
      let streamed := streamOutput w₁.toStage env remote
      let titled := streamTitle streamed.2 env title
      (streamed.1 = false ∧ titled.1 = false ∧ w₁.withStage titled.2 = w') ∨
        (w₁.withStage titled.2).sweep env config = some w' := by
  unfold onOutput at h
  have hsame : w.toStage.Aside (w.toStage.withMirror (w.mirror.process bytes).2) :=
    Stage.withMirror_aside (w.mirror.process_sameSizes bytes)
  cases hprocess : w.mirror.process bytes with
  | mk out mirror =>
    rw [hprocess] at h hsame
    dsimp only at h hsame
    have haside := hsame.trans
      ((w.toStage.withMirror mirror).writeHost_aside env config.headless (render out.host))
    cases hwrite : (w.toStage.withMirror mirror).writeHost env config.headless
        (render out.host) with
    | mk error s =>
      rw [hwrite] at h haside
      cases error with
      | some error => cases h
      | none =>
        have hreports : w.Reports
            (((w.withStage s).reportBells env out.bells rung).reportActivity env wrote) :=
          ((reports_of_aside haside).trans (reportBells_reports _ _ _ _)).trans
            (reportActivity_reports _ _ _)
        refine ⟨_, out.remote, out.title, hreports, ?_⟩
        dsimp only at h ⊢
        split at h
        · exact .inr h
        · rename_i hlost
          rw [Bool.or_eq_true, not_or, Bool.not_eq_true, Bool.not_eq_true] at hlost
          exact .inl ⟨hlost.1, hlost.2, Option.some.inj h⟩

end Wrapper

/-- The size that an event reports for the host terminal. -/
def Event.winch? : Event → Option (ℕ × ℕ)
  | .winch size => some (hostSize size)
  | _ => none

namespace Wrapper

/-- All that an event can do: leave the viewers alone, or change something about
them and sweep, or resize the host and sweep. -/
inductive Outcome (env : Env) (config : Config) (w w' : Wrapper vt) : Option (ℕ × ℕ) → Prop
  | steady (hstage : ReflTransGen (Stage.Steady env config.headless) w.toStage w'.toStage)
      (hrank : w'.hostRank = w.hostRank) (hnext : w.nextClientId ≤ w'.nextClientId)
      (hpendings : w'.pendings.map Client.id <+ w.pendings.map Client.id ++
        List.range' w.nextClientId (w'.nextClientId - w.nextClientId)) :
      Outcome env config w w' none
  | swept {s₁ s₀ : Stage vt} (hgroup : w.toStage.Regroups s₁)
      (hids : s₁.viewers.map Client.id ++ w'.pendings.map Client.id <+~ w.ids)
      (hnext : w'.nextClientId = w.nextClientId)
      (hmoves : ReflTransGen (Stage.Move env config.headless w'.hostRank) s₁ s₀)
      (hsweep : s₀.sweepAndRefresh env config.headless w'.hostRank = (none, w'.toStage)) :
      Outcome env config w w' none
  | resized {rows cols : ℕ} {s₀ : Stage vt} (hhosted : config.headless = false)
      (hrank : w'.hostRank = w.hostRank) (hnext : w'.nextClientId = w.nextClientId)
      (hpendings : w'.pendings = w.pendings)
      (happlied : (w.toStage.withMirror (w.mirror.hostResized rows cols).2).applyTransition env
        config.headless (w.mirror.hostResized rows cols).1 = (none, s₀))
      (hsweep : s₀.sweepAndRefresh env config.headless w'.hostRank = (none, w'.toStage)) :
      Outcome env config w w' (some (rows, cols))

/-- What holds between two events of a run. -/
structure Proper (config : Config) (w : Wrapper vt) : Prop where
  alive : ∀ c ∈ w.viewers, c.dead = false
  ids : w.ids.Nodup
  fresh : ∀ id ∈ w.ids, id < w.nextClientId
  hosted : w.stdinOpen = true → config.headless = false

variable {env : Env} {config : Config} {w w' : Wrapper vt}

/-- Events that only report something. -/
theorem Reports.outcome (h : w.Reports w') : Outcome env config w w' none :=
  .steady (.single (.aside h.stage)) h.hostRank h.nextClientId.ge
    (h.pendings ▸ List.sublist_append_left _ _)

/-- Events that change something about the viewers and then sweep. -/
theorem sweep_outcome (w : Wrapper vt) {v : Wrapper vt} (h : v.sweep env config = some w')
    {s₁ : Stage vt} (hgroup : w.toStage.Regroups s₁)
    (hids : s₁.viewers.map Client.id ++ v.pendings.map Client.id <+~ w.ids)
    (hnext : v.nextClientId = w.nextClientId)
    (hmoves : ReflTransGen (Stage.Move env config.headless v.hostRank) s₁ v.toStage) :
    w'.stdinOpen = v.stdinOpen ∧ Outcome env config w w' none := by
  obtain ⟨s, hswept, rfl⟩ := proceed_eq_some.mp h
  exact ⟨rfl, .swept hgroup hids hnext hmoves hswept⟩

/-- Child output streams, and may end with a sweep. -/
theorem onOutput_outcome {bytes : Bytes} {rung wrote : Clock}
    (h : w.onOutput env config bytes rung wrote = some w') :
    (w'.stdinOpen = true → w.stdinOpen = true) ∧ Outcome env config w w' none := by
  obtain ⟨w₁, remote, title, hreports, hcases⟩ := onOutput_cases h
  obtain ⟨hdied, hkept⟩ := streamOutput_outlived w₁.toStage env remote
  obtain ⟨hgroup, hids, haside⟩ :=
    streamTitle_cases (streamOutput w₁.toStage env remote).2 env title
  rcases hcases with ⟨houtput, htitle, rfl⟩ | hsweep
  · refine ⟨fun hopen => hreports.stdinOpen ▸ hopen, .steady ?_ hreports.hostRank
      hreports.nextClientId.ge (hreports.pendings ▸ List.sublist_append_left _ _)⟩
    exact .head (.aside hreports.stage) (.head (.stream (hkept houtput))
      (.single (.aside (haside htitle))))
  · have hsame : w₁.viewers.map Client.id ++ w₁.pendings.map Client.id <+~ w.ids := by
      rw [hreports.stage.viewers, hreports.pendings]
      exact .refl _
    have hmoves : ReflTransGen (Stage.Move env config.headless w₁.hostRank) w₁.toStage
        (streamTitle (streamOutput w₁.toStage env remote).2 env title).2 :=
      .head (.stream w₁.toStage remote) (.single (.regroup hgroup (hids ▸ .refl _)))
    obtain ⟨hopen, houtcome⟩ := sweep_outcome w hsweep hreports.stage.regroups hsame
      hreports.nextClientId hmoves
    exact ⟨fun h => hreports.stdinOpen ▸ hopen ▸ h, houtcome⟩

/-- A connection that is dismissed is told so. -/
theorem dismissed_reports (w : Wrapper vt) (env : Env) (p : Client) (message : String) :
    w.Reports (w.dismiss env p message) :=
  ⟨⟨rfl, .refl _, rfl, rfl, .cons trivial⟩, rfl, rfl, rfl, rfl⟩

/-- Events that only report something, after which there is one pending connection less. -/
theorem erased_outcome {i : ℕ} (h : (w.forget i).Reports w') :
    Outcome env config w w' none := by
  have herased : w'.pendings.map Client.id <+ w.pendings.map Client.id := by
    rw [h.pendings]
    exact (List.eraseIdx_sublist w.pendings i).map _
  exact .steady (.single (.aside h.stage)) h.hostRank h.nextClientId.ge
    (herased.trans (List.sublist_append_left _ _))

/-- An accepted connection moves from the pending ones to the viewers. -/
theorem acceptInit_ids {i : ℕ} {p : Client} (init : Init) (hp : w.pendings[i]? = some p) :
    ((w.forget i).acceptInit env init p).viewers.map Client.id ++
        (w.pendings.eraseIdx i).map Client.id <+~ w.ids := by
  obtain ⟨hi, rfl⟩ := List.getElem?_eq_some_iff.mp hp
  have hadmitted := (acceptInit_regroups (w.forget i) env init w.pendings[i]).2
  refine (hadmitted.append_right _).subperm.trans (List.Perm.subperm ?_)
  rw [List.append_assoc]
  exact ((List.getElem_cons_eraseIdx_perm hi).map Client.id).append_left _

/-- A pending connection's first message admits it, or dismisses it. -/
theorem onPendingMessage_outcome {i : ℕ} {received : Received}
    (h : w.onPendingMessage env config i received = some w') :
    (w'.stdinOpen = true → w.stdinOpen = true) ∧ Outcome env config w w' none := by
  unfold onPendingMessage at h
  cases hp : w.pendings[i]? with
  | none => rw [hp] at h; cases h
  | some p =>
    rw [hp] at h
    dsimp only at h
    have hdismissed (message : String) :=
      dismissed_reports (w.forget i) env p message
    have hsame : w.viewers.map Client.id ++ (w.pendings.eraseIdx i).map Client.id <+~ w.ids :=
      (((List.eraseIdx_sublist w.pendings i).map _).append_left _).subperm
    split at h
    · rename_i init
      split at h
      · rename_i message _
        obtain ⟨hopen, houtcome⟩ := sweep_outcome w h (hdismissed message).stage.regroups hsame
          rfl .refl
        exact ⟨fun h => hopen ▸ h, houtcome⟩
      · have hadmitted := (acceptInit_regroups (w.forget i) env init p).1
        obtain ⟨hopen, houtcome⟩ := sweep_outcome w h hadmitted (acceptInit_ids init hp) rfl .refl
        exact ⟨fun h => hopen ▸ h, houtcome⟩
    · split at h
      · have hmonitor : (w.forget i).Reports { w.forget i with monitor := some p } :=
          ⟨⟨rfl, .refl _, rfl, rfl, .refl _ _⟩, rfl, rfl, rfl, rfl⟩
        split at h
        · cases h
          exact ⟨id, erased_outcome hmonitor⟩
        · cases h
          exact ⟨id, erased_outcome (hmonitor.trans
            (reports_of_aside (Stage.tellMonitor_aside _ env (by exact trivial))))⟩
      · cases h
        exact ⟨id, erased_outcome (hdismissed _)⟩
    · cases h
      exact ⟨id, erased_outcome (hdismissed _)⟩
    · cases h
      exact ⟨id, erased_outcome ⟨.refl _, rfl, rfl, rfl, rfl⟩⟩

/-- A viewer's message may drop the viewer, and ends with a sweep. -/
theorem onViewerMessage_outcome (hproper : w.Proper config) {i : ℕ} {received : Received}
    {now : ℕ → ℕ} (h : w.onViewerMessage env config i received now = some w') :
    (w'.stdinOpen = true → w.stdinOpen = true) ∧ Outcome env config w w' none := by
  unfold onViewerMessage at h
  cases hc : w.viewers[i]? with
  | none => rw [hc] at h; cases h
  | some c =>
    rw [hc] at h
    dsimp only at h
    split at h
    · have hids : (killViewer w.toStage i).viewers.map Client.id = w.viewers.map Client.id :=
        (outlived_modify w.viewers i).ids
      obtain ⟨hopen, houtcome⟩ := sweep_outcome w h (killViewer_regroups w.toStage i)
        (hids ▸ .refl _) rfl .refl
      exact ⟨fun h => hopen ▸ h, houtcome⟩
    · rename_i msg
      have hmoves := Stage.handleViewerMessage_moves env config w.hostRank msg now w.inputQueue hc
        (hproper.alive c (List.mem_of_getElem? hc))
      generalize w.toStage.handleViewerMessage env config w.hostRank msg i c now w.inputQueue =
        result at h hmoves
      obtain ⟨error, s, queue⟩ := result
      cases error with
      | none =>
        dsimp only at h
        obtain ⟨hopen, houtcome⟩ := sweep_outcome w h (Stage.Aside.refl w.toStage).regroups
          (.refl _) rfl hmoves
        exact ⟨fun h => hopen ▸ h, houtcome⟩
      | some error =>
        dsimp only at h
        obtain ⟨hgroup, hids⟩ := dropViewer_regroups s env i error
        have hdropped := hmoves.tail (.regroup hgroup (hids ▸ .refl _))
        obtain ⟨hopen, houtcome⟩ := sweep_outcome w h (Stage.Aside.refl w.toStage).regroups
          (.refl _) rfl hdropped
        exact ⟨fun h => hopen ▸ h, houtcome⟩

/-- All that an event can do. -/
theorem step_outcome (hproper : w.Proper config) {event : Event}
    (h : step env config w event = some w') :
    (w'.stdinOpen = true → w.stdinOpen = true) ∧ Outcome env config w w' event.winch? := by
  cases event with
  | stdin bytes =>
    rw [step] at h
    split at h
    · rename_i hopen
      obtain ⟨s, hsteady, rfl⟩ := onStdin_steady (hproper.hosted hopen) h
      exact ⟨id, .steady hsteady rfl le_rfl (List.sublist_append_left _ _)⟩
    · cases h
  | stdinEof =>
    rw [step] at h
    split at h
    · cases h
      exact ⟨fun hopen => absurd hopen Bool.false_ne_true, .steady .refl rfl le_rfl (by simp)⟩
    · cases h
  | output bytes rung wrote => exact onOutput_outcome h
  | bellDue now =>
    rw [step] at h
    split at h
    · cases h
    · cases h
      exact ⟨id, Reports.outcome ⟨.refl _, rfl, rfl, rfl, rfl⟩⟩
    · cases h
      exact ⟨id, Reports.outcome
        ⟨w.toStage.tellMonitor_aside env (by exact trivial), rfl, rfl, rfl, rfl⟩⟩
  | inputDue now =>
    have hpump := w.toStage.pump_aside env w.inputQueue now
    rw [step] at h
    split at h
    · rename_i hdone
      cases h
      rw [hdone] at hpump
      exact ⟨id, Reports.outcome ⟨hpump, rfl, rfl, rfl, rfl⟩⟩
    · cases h
  | winch size =>
    rw [step] at h
    split at h
    · cases h
    · rename_i hhosted
      unfold onWinch at h
      dsimp only at h
      split at h
      · cases h
      · rename_i s₀ happlied
        obtain ⟨s, hswept, rfl⟩ := proceed_eq_some.mp h
        exact ⟨id, .resized (Bool.not_eq_true _ ▸ hhosted) rfl rfl rfl happlied hswept⟩
  | accept size =>
    cases h
    refine ⟨id, .steady (.single (.aside ⟨rfl, .refl _, rfl, rfl, .cons trivial⟩)) rfl
      (Nat.le_succ _) ?_⟩
    rw [show (w.onAccept env config size).nextClientId = w.nextClientId + 1 from rfl,
      Nat.add_sub_cancel_left]
    unfold onAccept
    dsimp only
    split
    · rw [List.map_append]
      exact .refl _
    · exact List.sublist_append_left _ _
  | pendingMessage i received => exact onPendingMessage_outcome h
  | viewerMessage i received now => exact onViewerMessage_outcome hproper h
  | monitorMessage received =>
    unfold step at h
    dsimp only at h
    split at h
    · split at h
      · cases h
        exact ⟨id, Reports.outcome ⟨.refl _, rfl, rfl, rfl, rfl⟩⟩
      · cases h
        exact ⟨id, Reports.outcome ⟨⟨rfl, .refl _, rfl, rfl, .refl _ _⟩, rfl, rfl, rfl, rfl⟩⟩
    · cases h

/-- Chains of moves, and of what happens while the viewers stay who they are. -/
theorem moves_frame {hostRank : ℕ} {s s' : Stage vt}
    (h : ReflTransGen (Stage.Move env config.headless hostRank) s s') :
    s'.viewers.map Client.id <+ s.viewers.map Client.id ∧ s.log <:+ s'.log := by
  induction h with
  | refl => exact ⟨.refl _, List.suffix_rfl⟩
  | tail _ hmove ih => exact ⟨hmove.frame.1.trans ih.1, ih.2.trans hmove.frame.2⟩

theorem steadies_frame {s s' : Stage vt}
    (h : ReflTransGen (Stage.Steady env config.headless) s s') :
    s'.viewers = s.viewers ∧ s.log <:+ s'.log := by
  induction h with
  | refl => exact ⟨rfl, List.suffix_rfl⟩
  | tail _ hsteady ih => exact ⟨hsteady.frame.1.trans ih.1, ih.2.trans hsteady.frame.2⟩

/-- No event takes anything out of the log. -/
theorem Outcome.log {winch : Option (ℕ × ℕ)} (h : Outcome env config w w' winch) :
    w.log <:+ w'.log := by
  cases h with
  | steady hstage => exact (steadies_frame hstage).2
  | swept hgroup _ _ hmoves hsweep =>
    exact (hgroup.log.suffix.trans (moves_frame hmoves).2).trans
      (moves_frame (Stage.sweepAndRefresh_moves hsweep)).2
  | resized _ _ _ _ happlied hsweep =>
    exact (Stage.hostResized_frame happlied).2.2.1.suffix.trans
      (moves_frame (Stage.sweepAndRefresh_moves hsweep)).2

/-- No id is used twice, if each was in use before or is new. -/
theorem Proper.of_ids (hproper : w.Proper config) (halive : ∀ c ∈ w'.viewers, c.dead = false)
    (hnext : w.nextClientId ≤ w'.nextClientId)
    (hids : w'.ids <+~ w.ids ++ List.range' w.nextClientId (w'.nextClientId - w.nextClientId))
    (hopen : w'.stdinOpen = true → w.stdinOpen = true) : w'.Proper config := by
  have hnodup :
      (w.ids ++ List.range' w.nextClientId (w'.nextClientId - w.nextClientId)).Nodup := by
    refine List.nodup_append.mpr ⟨hproper.ids, List.nodup_range', fun id hold new hnew => ?_⟩
    have hless := hproper.fresh id hold
    have hge := (List.mem_range'_1.mp hnew).1
    omega
  refine ⟨halive, ?_, fun id hid => ?_, fun h => hproper.hosted (hopen h)⟩
  · obtain ⟨ids, hperm, hsub⟩ := hids
    exact hperm.nodup_iff.mp (hnodup.sublist hsub)
  · rcases List.mem_append.mp (hids.subset hid) with hold | hnew
    · have hless := hproper.fresh id hold
      omega
    · have hless := (List.mem_range'_1.mp hnew).2
      omega

/-- Ids come from the pending connections or are new. -/
theorem Outcome.proper {winch : Option (ℕ × ℕ)} (h : Outcome env config w w' winch)
    (hproper : w.Proper config) (hopen : w'.stdinOpen = true → w.stdinOpen = true) :
    w'.Proper config := by
  have halive {s : Stage vt} (hsweep : s.sweepAndRefresh env config.headless w'.hostRank =
      (none, w'.toStage)) : ∀ c ∈ w'.viewers, c.dead = false := by
    obtain ⟨s₀, -, -, halive⟩ := Stage.sweepAndRefresh_cases hsweep
    exact halive
  have hkept (hnext : w'.nextClientId = w.nextClientId) (hids : w'.ids <+~ w.ids) :
      w'.ids <+~ w.ids ++ List.range' w.nextClientId (w'.nextClientId - w.nextClientId) :=
    hids.trans (List.sublist_append_left _ _).subperm
  cases h with
  | steady hstage hrank hnext hpendings =>
    have hviewers := (steadies_frame hstage).1
    refine hproper.of_ids (hviewers ▸ hproper.alive) hnext ?_ hopen
    rw [ids, hviewers, ids, List.append_assoc]
    exact (hpendings.append_left _).subperm
  | swept hgroup hids hnext hmoves hsweep =>
    have hsub := (moves_frame (hmoves.trans (Stage.sweepAndRefresh_moves hsweep))).1
    exact hproper.of_ids (halive hsweep) hnext.ge
      (hkept hnext ((hsub.append_right _).subperm.trans hids)) hopen
  | resized _ _ hnext hpendings happlied hsweep =>
    have hsub := (moves_frame (Stage.sweepAndRefresh_moves hsweep)).1
    rw [(Stage.hostResized_frame happlied).1] at hsub
    refine hproper.of_ids (halive hsweep) hnext.ge (hkept hnext ?_) hopen
    rw [ids, hpendings, ids]
    exact (hsub.append_right _).subperm

/-- Every event keeps what holds between two events. -/
theorem Proper.step (hproper : w.Proper config) {event : Event}
    (h : step env config w event = some w') : w'.Proper config :=
  (step_outcome hproper h).2.proper hproper (step_outcome hproper h).1

/-- A wrapper before its first event: nobody is connected, and all sizes are the initial one. -/
structure Begins (config : Config) (w : Wrapper vt) : Prop where
  viewers : w.viewers = []
  pendings : w.pendings = []
  view : w.mirror.view = none
  sizes : w.mirror.hostSize = config.size ∧ w.mirror.size = config.size ∧ w.pty = config.size
  hostAttached : w.hostAttached = false
  log : Log.Grows Obs.IsAside [] w.log
  stdinOpen : w.stdinOpen = !config.headless

theorem start_begins (h : start vt env config = some w) : w.Begins config := by
  unfold start at h
  cases htitle : config.title with
  | none =>
    rw [htitle] at h
    cases h
    exact ⟨rfl, rfl, rfl, ⟨rfl, rfl, rfl⟩, rfl, .refl _ _, rfl⟩
  | some title =>
    let new : Stage vt := ⟨[], none,
      (Mirror.new vt config.size.1 config.size.2).setHistoryLimit config.scrollback, false,
      config.size, []⟩
    let clean := String.ofList (title.toList.filter fun c => !isControl c)
    have haside := new.writeHost_aside env config.headless (TermOp.windowTitle clean).bytes
    rw [htitle] at h
    dsimp only at h
    split at h
    · cases h
    · rename_i stage hwrite
      cases h
      rw [show new.writeHost _ _ _ = (none, stage) from hwrite] at haside
      exact ⟨haside.viewers, rfl, haside.mirror.view,
        ⟨haside.mirror.hostSize, haside.mirror.size, haside.pty⟩, haside.hostAttached, haside.log,
        rfl⟩

/-- It holds before the first event. -/
theorem start_proper (h : start vt env config = some w) : w.Proper config := by
  have hbegins := start_begins h
  have hids : w.ids = [] := by simp [ids, hbegins.viewers, hbegins.pendings]
  refine ⟨?_, ?_, ?_, ?_⟩
  · rw [hbegins.viewers]
    exact fun _ hc => absurd hc List.not_mem_nil
  · rw [hids]
    exact List.nodup_nil
  · rw [hids]
    exact fun _ hid => absurd hid List.not_mem_nil
  · rw [hbegins.stdinOpen]
    simp

/-- A session is a run from the start. -/
theorem session_eq_some {events : List Event} :
    session vt env config events = some w' ↔
      ∃ w, start vt env config = some w ∧ Machine.run (step env config) w events = some w' :=
  Option.bind_eq_some_iff

/-- What holds between two events holds in every reachable state. -/
theorem session_proper {events : List Event} (h : session vt env config events = some w) :
    w.Proper config := by
  obtain ⟨w₀, hstart, hrun⟩ := session_eq_some.mp h
  exact Machine.run_invariant (I := Proper config) (fun _ _ _ hproper h => hproper.step h)
    (start_proper hstart) hrun

end Wrapper

end G2mirror
