import G2mirror.WrapperLog

/-!
# The differences of a run

The differences for devices that the mirror produces in the events of a run are
those in the log, in this order. In the event in which a snapshot is sent, they
come before it.
-/

namespace G2mirror

open scoped List

variable {vt : Vt100}

/-- The difference for devices that the mirror produces for a chunk, unless it is empty. -/
def Mirror.diff? (m : Mirror vt) (bytes : Bytes) : Option Bytes :=
  (m.process bytes).1.remote.filter fun data => data ≠ []

/-- The differences for several chunks, one after the other. -/
def Mirror.diffs (m : Mirror vt) : List Bytes → List Bytes
  | [] => []
  | bytes :: rest => (m.diff? bytes).toList ++ (m.process bytes).2.diffs rest

/-- The difference that is logged here, unless it is empty. -/
def Obs.diff? : Obs → Option Bytes
  | .produced data => if data = [] then none else some data
  | _ => none

/-- A snapshot to a client. -/
def Obs.isSnapshot : Obs → Bool
  | .sent _ (.snapshot ..) _ => true
  | _ => false

namespace Log

/-- The differences that were produced and are not empty, newest first. -/
def diffs (log : Log) : List Bytes := log.filterMap Obs.diff?

@[simp] theorem diffs_append (log log' : Log) : diffs (log ++ log') = diffs log ++ diffs log' :=
  List.filterMap_append

theorem diffs_eq_nil {log : Log} : diffs log = [] ↔ ∀ o ∈ log, o.diff? = none :=
  List.filterMap_eq_nil_iff

end Log

/-- An entry that logs no difference. -/
def Obs.Undiffed (o : Obs) : Prop := o.diff? = none

theorem routine_undiffed : Routine Obs.Undiffed := ⟨fun _ _ _ _ => rfl, fun _ _ => rfl⟩

theorem viewing_undiffed : Viewing Obs.Undiffed :=
  ⟨fun _ _ _ _ _ _ => rfl, fun _ _ _ => rfl, fun _ _ _ => rfl⟩

/-- An entry that logs neither a difference nor a snapshot. -/
def Obs.Unprimed (o : Obs) : Prop := o.diff? = none ∧ o.isSnapshot = false

theorem routine_unprimed : Routine Obs.Unprimed where
  sent := fun c msg ok h => by
    cases msg with
    | snapshot => exact h.elim
    | _ => exact ⟨rfl, rfl⟩
  hostWrote := fun _ _ => ⟨rfl, rfl⟩

theorem reporting_unprimed : Reporting Obs.Unprimed :=
  ⟨fun _ _ _ => ⟨rfl, rfl⟩, fun _ _ _ => ⟨rfl, rfl⟩⟩

theorem Obs.IsAside.unprimed {o : Obs} (h : o.IsAside) : o.Unprimed := by
  cases o with
  | sent c msg ok =>
    cases msg with
    | snapshot => exact h.elim
    | _ => exact ⟨rfl, rfl⟩
  | produced data => exact h.elim
  | _ => exact ⟨rfl, rfl⟩

namespace Wrapper

variable {env : Env} {config : Config} {w w' : Wrapper vt}

/-- Streaming logs the difference, unless it is empty, and sends no snapshot. -/
theorem streamOutput_diffs (s : Stage vt) (env : Env) (remote : Option Bytes) :
    ∃ new, (streamOutput s env remote).2.log = new ++ s.log ∧
      new.diffs = (remote.filter fun data => data ≠ []).toList ∧
      ∀ o ∈ new, o.isSnapshot = false := by
  unfold streamOutput
  cases remote with
  | none => exact ⟨[], rfl, rfl, List.forall_mem_nil _⟩
  | some data =>
    have hproduced : (Obs.produced data).isSnapshot = false := rfl
    by_cases hempty : data = []
    · subst hempty
      exact ⟨[.produced []], rfl, rfl, List.forall_mem_singleton.mpr hproduced⟩
    · obtain ⟨new, hnew, htries⟩ := broadcast_log env (.output (env.base64.encode data))
        (fun _ c => c.state = .viewing) 0 s.viewers (.produced data :: s.log)
      have hsent : ∀ o ∈ new, o.Unprimed := fun o ho => by
        obtain ⟨c, ok, -, rfl⟩ := htries o ho
        exact ⟨rfl, rfl⟩
      have hdiffs : Log.diffs new = [] := Log.diffs_eq_nil.mpr fun o ho => (hsent o ho).1
      simp only [hempty, if_false]
      refine ⟨new ++ [.produced data], ?_, ?_, ?_⟩
      · rw [List.append_assoc]
        exact hnew
      · rw [Log.diffs_append, hdiffs]
        simp [Log.diffs, Obs.diff?, Option.filter, hempty]
      · exact List.forall_mem_append.mpr
          ⟨fun o ho => (hsent o ho).2, List.forall_mem_singleton.mpr hproduced⟩

/-- The difference that the mirror produces in an event, unless it is empty. -/
def diff? (w : Wrapper vt) : Event → Option Bytes
  | .output bytes _ _ => w.mirror.diff? bytes
  | _ => none

/-- The differences that the mirror produces in the events of a run, without empty ones. -/
def diffsAlong (env : Env) (config : Config) (w : Wrapper vt) : List Event → List Bytes
  | [] => []
  | e :: es =>
    (w.diff? e).toList ++ (step env config w e).elim [] fun w' => diffsAlong env config w' es

theorem diffsAlong_concat {events : List Event}
    (hrun : Machine.run (step env config) w events = some w') (e : Event) :
    w.diffsAlong env config (events ++ [e]) =
      w.diffsAlong env config events ++ (w'.diff? e).toList := by
  induction events generalizing w with
  | nil =>
    obtain rfl := Option.some.inj hrun
    rw [List.nil_append, diffsAlong, diffsAlong, List.nil_append]
    cases step env config w e <;> simp [diffsAlong]
  | cons event events ih =>
    obtain ⟨u, hu, hrest⟩ := Machine.run_cons_eq_some.mp hrun
    rw [List.cons_append, diffsAlong, diffsAlong, hu, Option.elim_some, Option.elim_some, ih hrest,
      List.append_assoc]

/-- An event logs the difference that the mirror produces in it, and snapshots only later. -/
theorem step_diffs {e : Event} (h : step env config w e = some w') :
    ∃ later new, w'.log = later ++ (new ++ w.log) ∧ (∀ o ∈ later, o.diff? = none) ∧
      new.diffs = (w.diff? e).toList ∧ ∀ o ∈ new, o.isSnapshot = false := by
  have hR : Stage.Upkeep env config Obs.Undiffed (@Stage.Keeps vt Obs.Undiffed) :=
    Stage.upkeep_keeps routine_undiffed viewing_undiffed env config
  have hquiet (hevent : w.diff? e = none) (hgrows : Log.Grows Obs.Undiffed w.log w'.log) :
      ∃ later new, w'.log = later ++ (new ++ w.log) ∧ (∀ o ∈ later, o.diff? = none) ∧
        new.diffs = (w.diff? e).toList ∧ ∀ o ∈ new, o.isSnapshot = false := by
    obtain ⟨later, hlog, hlater⟩ := hgrows
    rw [hevent]
    exact ⟨later, [], hlog, hlater, rfl, List.forall_mem_nil _⟩
  by_cases hstreams : e.streams = true
  · obtain ⟨bytes, rung, wrote, rfl⟩ : ∃ bytes rung wrote, e = .output bytes rung wrote := by
      cases e with
      | output bytes rung wrote => exact ⟨bytes, rung, wrote, rfl⟩
      | _ => cases hstreams
    obtain ⟨v, hv, hreported⟩ := onOutput_keeps hR routine_unprimed reporting_unprimed h
    obtain ⟨between, hbetween, hunprimed⟩ := hv.stage.log
    obtain ⟨new, hnew, hdiffs, hsnapshots⟩ :=
      streamOutput_diffs v.toStage env (w.mirror.process bytes).1.remote
    have htitle := (streamTitle_beside (P := Obs.Undiffed) (fun _ _ _ => rfl)
      (streamOutput v.toStage env (w.mirror.process bytes).1.remote).2 env
      (w.mirror.process bytes).1.title).log
    obtain ⟨later, hlater, hundiffed⟩ := htitle.trans hreported.stage.log
    have hnone : Log.diffs between = [] := Log.diffs_eq_nil.mpr fun o ho => (hunprimed o ho).1
    refine ⟨later, new ++ between, ?_, hundiffed, ?_, ?_⟩
    · rw [hlater, hnew, show v.log = between ++ w.log from hbetween, List.append_assoc]
    · rw [Log.diffs_append, hnone, List.append_nil]
      exact hdiffs
    · exact List.forall_mem_append.mpr ⟨hsnapshots, fun o ho => (hunprimed o ho).2⟩
  · have hnone : w.diff? e = none := by
      cases e with
      | output => exact absurd rfl hstreams
      | _ => rfl
    refine hquiet hnone ?_
    by_cases haccept : ∃ size, e = .accept size
    · obtain ⟨size, rfl⟩ := haccept
      cases h
      exact .cons rfl
    · exact (step_grows routine_undiffed viewing_undiffed (fun h => absurd h hstreams)
        (fun _ _ _ => rfl) ⟨fun _ _ _ => rfl, fun _ _ _ => rfl⟩ (fun _ _ _ => rfl)
        (fun size heq => haccept ⟨size, heq⟩) h).log

/-- The entry was logged, on top of what was logged earlier, in the event after these,
which led to this wrapper. -/
def LoggedIn (env : Env) (config : Config) (before : List Event) (e : Event) (v : Wrapper vt)
    (o : Obs) (earlier : Log) : Prop :=
  ∃ u, session vt env config before = some u ∧ step env config u e = some v ∧
    u.log <:+ earlier ∧ o :: earlier <:+ v.log

/-- A snapshot was logged in some event, and the differences since then are those of
the events after it. -/
theorem snapshot_loggedIn {events : List Event} (hsession : session vt env config events = some w)
    {since earlier : Log} {o : Obs} (hlog : w.log = since ++ o :: earlier)
    (ho : o.isSnapshot = true) : ∃ before e after, ∃ v : Wrapper vt,
      events = before ++ e :: after ∧ LoggedIn env config before e v o earlier ∧
      Machine.run (step env config) v after = some w ∧
      since.diffs = (v.diffsAlong env config after).reverse := by
  obtain ⟨w₀, hstart, hrun⟩ := session_eq_some.mp hsession
  have hinv := Machine.run_history (s := w₀)
    (I := fun events w => ∀ since, w.log = since ++ o :: earlier → ∃ before e after,
      ∃ v : Wrapper vt, events = before ++ e :: after ∧ LoggedIn env config before e v o earlier ∧
      Machine.run (step env config) v after = some w ∧
      since.diffs = (v.diffsAlong env config after).reverse)
    (fun since hlog => ?_) (fun events w e w' hrun ih hstep since hlog => ?_) hrun
  · exact hinv since hlog
  · have hunprimed := start_log routine_unprimed hstart o (hlog ▸ by simp)
    rw [hunprimed.2] at ho
    cases ho
  · obtain ⟨later, new, hlogged, hlater, hnew, hsnapshots⟩ := step_diffs hstep
    rw [hlogged, ← List.append_assoc] at hlog
    rcases List.append_eq_append_iff.mp hlog with ⟨a, hsince, hold⟩ | ⟨b, hfresh, hold⟩
    · obtain ⟨before, e', after, v, rfl, hin, hafter, hdiffs⟩ := ih a hold
      refine ⟨before, e', after ++ [e], v, by simp, hin,
        Machine.run_concat_eq_some.mpr ⟨w, hafter, hstep⟩, ?_⟩
      rw [hsince, Log.diffs_append, Log.diffs_append, Log.diffs_eq_nil.mpr hlater, hnew, hdiffs,
        diffsAlong_concat hafter]
      cases w.diff? e <;> simp
    · cases b with
      | nil =>
        obtain ⟨before, e', after, v, rfl, hin, hafter, hdiffs⟩ := ih [] hold.symm
        refine ⟨before, e', after ++ [e], v, by simp, hin,
          Machine.run_concat_eq_some.mpr ⟨w, hafter, hstep⟩, ?_⟩
        rw [List.append_nil] at hfresh
        rw [← hfresh, Log.diffs_append, Log.diffs_eq_nil.mpr hlater, hnew,
          diffsAlong_concat hafter, List.reverse_append, ← hdiffs]
        cases w.diff? e <;> simp [Log.diffs]
      | cons o' b =>
        obtain ⟨rfl, rfl⟩ := List.cons.inj hold
        refine ⟨events, e, [], w', rfl, ⟨w, ?_, hstep, List.suffix_append _ _, ?_⟩, rfl, ?_⟩
        · exact session_eq_some.mpr ⟨w₀, hstart, hrun⟩
        · exact ⟨since, by rw [hlogged, ← List.append_assoc, hfresh]; simp⟩
        · rcases List.append_eq_append_iff.mp hfresh with ⟨a, hsince, hnewer⟩ | ⟨a, hlast, hnewer⟩
          · have hmem : o ∈ new := hnewer ▸ by simp
            rw [hsnapshots o hmem] at ho
            cases ho
          · exact Log.diffs_eq_nil.mpr fun o' ho' => hlater o' (hlast ▸ List.mem_append_left _ ho')

/-- Draining logs the differences of the chunks that it comes by, all of them unless
there is an error, and sends no snapshot. -/
theorem drainPty_diffs {headless : Bool} {chunks : List Bytes} {error : Option String}
    {s s' : Stage vt} (h : drainPty env headless chunks s = (error, s')) :
    ∃ drained new, drained <+: chunks ∧ (error = none → drained = chunks) ∧
      s'.log = new ++ s.log ∧ new.diffs = (s.mirror.diffs drained).reverse ∧
      ∀ o ∈ new, o.isSnapshot = false := by
  induction chunks generalizing s with
  | nil =>
    cases h
    exact ⟨[], [], List.prefix_rfl, fun _ => rfl, rfl, rfl, List.forall_mem_nil _⟩
  | cons bytes rest ih =>
    rw [drainPty] at h
    cases hprocess : s.mirror.process bytes with
    | mk out mirror =>
      rw [hprocess] at h
      dsimp only at h
      have hmirror : ((s.withMirror mirror).writeHost env headless (render out.host)).2.mirror =
          mirror := by
        unfold Stage.writeHost
        split <;> rfl
      obtain ⟨written, hwritten, hasides⟩ :=
        ((s.withMirror mirror).writeHost_aside env headless (render out.host)).log
      have hsilent : Log.diffs written = [] :=
        Log.diffs_eq_nil.mpr fun o ho => (hasides o ho).unprimed.1
      have hunprimed : ∀ o ∈ written, o.isSnapshot = false :=
        fun o ho => (hasides o ho).unprimed.2
      cases hwrite : (s.withMirror mirror).writeHost env headless (render out.host) with
      | mk error' t =>
        rw [hwrite] at h hwritten hmirror
        cases error' with
        | some error' =>
          cases h
          exact ⟨[], written, List.nil_prefix, nofun, hwritten, hsilent, hunprimed⟩
        | none =>
          dsimp only at h hwritten hmirror
          obtain ⟨new, hnew, hdiffs, hsnapshots⟩ := streamOutput_diffs t env out.remote
          have hkept : ∀ u, (u = (streamOutput t env out.remote).2 ∨
              u = (streamOutput t env out.remote).2.removeDead) →
              u.log = new ++ (written ++ s.log) ∧ u.mirror = mirror := by
            have hframe := (streamOutput_frame t env out.remote).1
            rintro u (rfl | rfl)
            · exact ⟨hnew.trans (congrArg (new ++ ·) hwritten), hframe.trans hmirror⟩
            · exact ⟨hnew.trans (congrArg (new ++ ·) hwritten), hframe.trans hmirror⟩
          obtain ⟨u, hu, hrest⟩ : ∃ u, (u = (streamOutput t env out.remote).2 ∨
              u = (streamOutput t env out.remote).2.removeDead) ∧
              drainPty env headless rest u = (error, s') := by
            split at h
            · exact ⟨_, .inl rfl, h⟩
            · exact ⟨_, .inr rfl, h⟩
          obtain ⟨hlogged, hmirrored⟩ := hkept u hu
          obtain ⟨drained, last, hprefix, hall, hlast, hlastDiffs, hlastSnapshots⟩ := ih hrest
          have hdiff : s.mirror.diff? bytes = out.remote.filter fun data => data ≠ [] := by
            unfold Mirror.diff?
            rw [hprocess]
          refine ⟨bytes :: drained, last ++ (new ++ written), List.cons_prefix_cons.mpr
            ⟨rfl, hprefix⟩, fun hnone => congrArg _ (hall hnone), ?_, ?_, ?_⟩
          · rw [hlast, hlogged, List.append_assoc, List.append_assoc]
          · rw [Log.diffs_append, Log.diffs_append, hsilent, hdiffs, hlastDiffs, hmirrored,
              Mirror.diffs, hprocess, hdiff]
            cases out.remote.filter fun data => data ≠ [] <;> simp
          · exact List.forall_mem_append.mpr
              ⟨hlastSnapshots, List.forall_mem_append.mpr ⟨hsnapshots, hunprimed⟩⟩

end Wrapper

end G2mirror
