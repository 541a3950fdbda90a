import G2mirror.AsciiLaws
import G2mirror.WrapperRuns
import Mathlib.Data.List.Nodup

/-!
# The size of the wrapped app

Several viewers and the host terminal compete for the size of the pty. Through
all moves the pty, the model and the current view agree about it; what a sweep
leaves behind is the view that the ranks ask for, and nothing that happens until
the next sweep changes that.
-/

namespace G2mirror

open Relation

variable {vt : Vt100}

/-- A resize of the pty that failed. -/
def Obs.resizeFailed : Obs → Bool
  | .ptyResized _ _ ok => !ok
  | _ => false

namespace Log

/-- The size of the last view started, if there was one. -/
def lastViewSize (initial : ℕ × ℕ) : Log → ℕ × ℕ
  | [] => initial
  | .viewStarted rows cols _ :: _ => (rows, cols)
  | _ :: log => lastViewSize initial log

/-- No resize of the pty failed so far. -/
def PtyResized (log : Log) : Prop := ∀ o ∈ log, o.resizeFailed = false

instance (log : Log) : Decidable log.PtyResized :=
  inferInstanceAs (Decidable (∀ o ∈ log, o.resizeFailed = false))

theorem PtyResized.of_suffix {log log' : Log} (h : PtyResized log') (hsuffix : log <:+ log') :
    PtyResized log :=
  fun o ho => h o (hsuffix.subset ho)

theorem PtyResized.ok {log : Log} (h : PtyResized log) {rows cols : ℕ} {ok : Bool}
    (hmem : Obs.ptyResized rows cols ok ∈ log) : ok = true :=
  Bool.not_eq_eq_eq_not.mp (h _ hmem)

/-- The last view's size is forgotten only for that of another view. -/
theorem lastViewSize_of_grows {initial : ℕ × ℕ} {P : Obs → Prop} {log log' : Log}
    (hP : ∀ rows cols ok, ¬ P (.viewStarted rows cols ok)) (h : Grows P log log') :
    lastViewSize initial log' = lastViewSize initial log := by
  obtain ⟨new, rfl, hnew⟩ := h
  induction new with
  | nil => rfl
  | cons o new ih =>
    have hrest := ih fun o' ho' => hnew o' (List.mem_cons_of_mem _ ho')
    cases o with
    | viewStarted rows cols ok => exact absurd (hnew _ List.mem_cons_self) (hP rows cols ok)
    | _ => exact hrest

end Log

namespace Stage

/-- The sizes agree: the pty's, the model's, and the view's or, without one, the
host's. Only hosted sessions have a simulated view; a headless session has the
size of its last view. -/
structure Sized (headless : Bool) (initial host : ℕ × ℕ) (s : Stage vt) : Prop where
  hostSize : s.mirror.hostSize = host
  pty : s.pty = s.mirror.size
  view : s.mirror.size = (s.mirror.view.map fun v => (v.rows, v.cols)).getD host
  simulated : ∀ v, s.mirror.view = some v → v.simulated = true →
    headless = false ∧ (v.rows, v.cols) = (simRows, simCols)
  last : headless = true → s.mirror.size = s.log.lastViewSize initial

/-- The same, but the pty agrees only if every resize of it succeeded. -/
structure Agrees (headless : Bool) (initial host : ℕ × ℕ) (s : Stage vt) : Prop where
  hostSize : s.mirror.hostSize = host
  pty : s.log.PtyResized → s.pty = s.mirror.size
  view : s.mirror.size = (s.mirror.view.map fun v => (v.rows, v.cols)).getD host
  simulated : ∀ v, s.mirror.view = some v → v.simulated = true →
    headless = false ∧ (v.rows, v.cols) = (simRows, simCols)
  last : headless = true → s.mirror.size = s.log.lastViewSize initial

theorem Agrees.sized {headless : Bool} {initial host : ℕ × ℕ} {s : Stage vt}
    (h : s.Agrees headless initial host) (hpty : s.log.PtyResized) :
    s.Sized headless initial host :=
  ⟨h.hostSize, h.pty hpty, h.view, h.simulated, h.last⟩

section Moves

variable {env : Env} {headless : Bool} {hostRank : ℕ} {initial host : ℕ × ℕ} {s s' : Stage vt}

/-- What changes no size keeps the sizes in agreement. -/
theorem Agrees.of_sameSizes (h : s.Agrees headless initial host)
    (hmirror : s.mirror.SameSizes s'.mirror) (hpty : s'.pty = s.pty) (hlog : s.log <:+ s'.log)
    (hlast : s'.log.lastViewSize initial = s.log.lastViewSize initial) :
    s'.Agrees headless initial host := by
  refine ⟨hmirror.hostSize.trans h.hostSize, fun hresized => ?_, ?_, ?_, ?_⟩
  · rw [hpty, h.pty (hresized.of_suffix hlog), hmirror.size]
  · rw [hmirror.size, hmirror.view, h.view]
  · rw [hmirror.view]
    exact h.simulated
  · rw [hmirror.size, hlast]
    exact h.last

theorem Agrees.regroups (h : s.Agrees headless initial host) (hgroup : s.Regroups s') :
    s'.Agrees headless initial host :=
  h.of_sameSizes hgroup.mirror hgroup.pty hgroup.log.suffix
    (Log.lastViewSize_of_grows (fun _ _ _ hview => hview) hgroup.log)

/-- Messages to viewers change no size. -/
theorem Agrees.broadcast {msg : FromSession} {wanted : ℕ → Client → Bool}
    (h : s.Agrees headless initial host) (cs : List Client) :
    ({ s with
      viewers := cs
      log := (broadcast env msg wanted 0 s.viewers s.log).log } : Stage vt).Agrees headless
        initial host := by
  have hlog := broadcast_log env msg wanted 0 s.viewers s.log
  refine h.of_sameSizes (.refl _) rfl hlog.suffix
    (Log.lastViewSize_of_grows (fun _ _ _ htries => ?_) hlog)
  obtain ⟨c, ok, -, hsent⟩ := htries
  cases hsent

theorem Agrees.stream (h : s.Agrees headless initial host) (remote : Option Bytes) :
    (Wrapper.streamOutput s env remote).2.Agrees headless initial host := by
  unfold Wrapper.streamOutput
  cases remote with
  | none => exact h
  | some data =>
    have hproduced : (s.note [.produced data]).Agrees headless initial host :=
      h.of_sameSizes (.refl _) rfl (List.suffix_cons _ _) rfl
    dsimp only
    split
    · exact hproduced
    · exact hproduced.broadcast _

theorem Agrees.announce (h : s.Agrees headless initial host) :
    (s.announceHost env).Agrees headless initial host := by
  rcases s.announceHost_cases env with ⟨-, hsame⟩ | ⟨monitor, log, hlog, htold⟩
  · rw [hsame]
    exact h
  · rw [htold]
    have hlast : Log.lastViewSize initial log = Log.lastViewSize initial s.log :=
      Log.lastViewSize_of_grows (fun _ _ _ htries => ?_) hlog
    · have hnoticed : ({ s with
          hostAttached := s.viewers.any Client.isHost
          monitor := monitor
          log := log } : Stage vt).Agrees headless initial host :=
        h.of_sameSizes (.refl _) rfl hlog.suffix hlast
      exact hnoticed.broadcast _
    · obtain ⟨c, ok, -, hsent⟩ := htries
      cases hsent

/-- A view start makes the sizes agree. -/
theorem Agrees.startView {view : View} {error : Option String}
    (h : s.Agrees headless initial host)
    (hsim : view.simulated = true →
      headless = false ∧ (view.rows, view.cols) = (simRows, simCols))
    (hstart : s.startView env headless view = (error, s')) :
    s'.Agrees headless initial host ∧ s'.mirror.view = some view := by
  obtain ⟨ok, t, haside, hresult⟩ := s.startView_cases env headless view
  rw [hstart] at hresult
  obtain rfl : s' = t.note [.viewStarted view.rows view.cols error.isNone] := hresult
  obtain ⟨-, hview, hhost, hsize⟩ := s.mirror.startView_sizes view
  have hviewed : t.mirror.view = some view := haside.mirror.view.trans hview
  have hsized : t.mirror.size = (view.rows, view.cols) := haside.mirror.size.trans hsize
  refine ⟨⟨?_, ?_, ?_, ?_, ?_⟩, hviewed⟩
  · exact (haside.mirror.hostSize.trans hhost).trans h.hostSize
  · intro hpty
    have hok : ok = true :=
      hpty.ok (List.mem_cons_of_mem _ (haside.log.suffix.subset List.mem_cons_self))
    exact (haside.pty.trans (if_pos hok)).trans hsized.symm
  · rw [show (t.note _).mirror.view = some view from hviewed]
    exact hsized
  · rintro v hv hsimulated
    cases hviewed.symm.trans hv
    exact hsim hsimulated
  · exact fun _ => hsized

/-- A view end makes the sizes agree. -/
theorem Agrees.endView {error : Option String} (h : s.Agrees headless initial host)
    (hhosted : headless = false)
    (hend : s.endView env headless = (error, s')) :
    s'.Agrees headless initial host ∧ s'.mirror.view = none := by
  obtain ⟨ok, haside⟩ := s.endView_cases env headless
  rw [hend] at haside
  obtain ⟨-, hview, hhost, hsize⟩ := s.mirror.endView_sizes
  have hviewed : s'.mirror.view = none := haside.mirror.view.trans hview
  have hsized : s'.mirror.size = s.mirror.hostSize := haside.mirror.size.trans hsize
  refine ⟨⟨?_, ?_, ?_, ?_, ?_⟩, hviewed⟩
  · exact (haside.mirror.hostSize.trans hhost).trans h.hostSize
  · intro hpty
    have hok : ok = true := hpty.ok (haside.log.suffix.subset List.mem_cons_self)
    exact (haside.pty.trans (if_pos hok)).trans hsized.symm
  · rw [hsized, hviewed, h.hostSize]
    rfl
  · rintro v hv
    cases hviewed.symm.trans hv
  · exact fun hheadless => absurd (hhosted.symm.trans hheadless) Bool.false_ne_true

/-- Re-deciding the view keeps the sizes in agreement. -/
theorem Agrees.refreshView {forceFor : Option ℕ} {error : Option String}
    (h : s.Agrees headless initial host)
    (hresult : s.refreshView env headless hostRank forceFor = (error, s')) :
    s'.Agrees headless initial host := by
  rcases s.refreshView_cases env headless hostRank forceFor with
    ⟨hcase, -⟩ | ⟨hcase, -, hhosted⟩ |
      ⟨rows, cols, -, ⟨hcase, -⟩ | ⟨error', t, ht, ⟨-, hcase⟩ | ⟨-, msg, -, hcase⟩⟩⟩
  · cases hresult.symm.trans hcase
    exact h
  · exact (h.endView hhosted (hcase.symm.trans hresult)).1
  · cases hresult.symm.trans hcase
    exact h
  · cases hresult.symm.trans hcase
    exact (h.startView (fun hsim => absurd hsim Bool.false_ne_true) ht).1
  · cases hresult.symm.trans hcase
    exact (h.startView (fun hsim => absurd hsim Bool.false_ne_true) ht).1.broadcast _

/-- Every move keeps the sizes in agreement. -/
theorem Agrees.move (h : s.Agrees headless initial host)
    (hmove : Move env headless hostRank s s') : s'.Agrees headless initial host := by
  cases hmove with
  | regroup hgroup _ => exact h.regroups hgroup
  | stream remote => exact h.stream remote
  | announce => exact h.announce
  | refresh hresult => exact h.refreshView hresult
  | @view _ i c _ _ _ hresult =>
    have hset : (s.withViewers (s.viewers.set i { c with state := .viewing })).Agrees headless
        initial host := h.of_sameSizes (.refl _) rfl (List.suffix_refl _) rfl
    exact hset.refreshView hresult

/-- So does what happens between two sweeps. -/
theorem Agrees.steady (h : s.Agrees headless initial host)
    (hsteady : Steady env headless s s') : s'.Agrees headless initial host := by
  cases hsteady with
  | aside haside => exact h.regroups haside.regroups
  | toggle hhosted htoggle =>
    rcases s.toggleSimulated_cases env headless with
      ⟨-, hstart⟩ | ⟨v, -, ⟨-, hend⟩ | ⟨-, hsame⟩⟩
    · exact (h.startView (fun _ => ⟨hhosted, rfl⟩) (hstart.symm.trans htoggle)).1
    · exact (h.endView hhosted (hend.symm.trans htoggle)).1
    · cases htoggle.symm.trans hsame
      exact h
  | stream _ => exact h.stream _

end Moves

/-- The view is the one that the ranks ask for. -/
structure Settled (headless : Bool) (hostRank : ℕ) (s : Stage vt) : Prop where
  viewed : ∀ rows cols, s.target hostRank headless = some (rows, cols) →
    s.needsView rows cols = false
  unviewed : s.target hostRank headless = none →
    headless = true ∨ ∀ v, s.mirror.view = some v → v.simulated = true

section Settling

variable {env : Env} {headless : Bool} {hostRank : ℕ} {s s' : Stage vt}

/-- The target depends on the viewers and the host's size only. -/
theorem target_congr (hviewers : s'.viewers = s.viewers)
    (hhost : s'.mirror.hostSize = s.mirror.hostSize) :
    s'.target hostRank headless = s.target hostRank headless := by
  rw [target, target, best, best, hviewers, hhost]

theorem Settled.congr (h : s.Settled headless hostRank) (hviewers : s'.viewers = s.viewers)
    (hhost : s'.mirror.hostSize = s.mirror.hostSize) (hview : s'.mirror.view = s.mirror.view) :
    s'.Settled headless hostRank := by
  constructor
  · intro rows cols htarget
    rw [target_congr hviewers hhost] at htarget
    rw [needsView, hview]
    exact h.viewed rows cols htarget
  · intro htarget
    rw [target_congr hviewers hhost] at htarget
    rw [hview]
    exact h.unviewed htarget

/-- While the hotkey has an effect, nobody is viewing. -/
theorem Settled.target_of_toggled (h : s.Settled headless hostRank)
    (hview : ∀ v, s.mirror.view = some v → v.simulated = true) :
    s.target hostRank headless = none := by
  cases htarget : s.target hostRank headless with
  | none => rfl
  | some size =>
    have hneeds := h.viewed size.1 size.2 htarget
    unfold needsView at hneeds
    cases hv : s.mirror.view with
    | none =>
      rw [hv] at hneeds
      cases hneeds
    | some v =>
      rw [hv] at hneeds
      dsimp only at hneeds
      rw [hview v hv, Bool.true_or] at hneeds
      cases hneeds

/-- Until the next sweep the view stays the one that the ranks ask for. -/
theorem Settled.steady (h : s.Settled headless hostRank) (hsteady : Steady env headless s s') :
    s'.Settled headless hostRank := by
  cases hsteady with
  | aside haside =>
    exact h.congr haside.viewers haside.mirror.hostSize haside.mirror.view
  | toggle _ htoggle =>
    rcases s.toggleSimulated_cases env headless with
      ⟨hnone, hstart⟩ | ⟨v, hv, ⟨hsim, hend⟩ | ⟨-, hsame⟩⟩
    · obtain ⟨hviewers, -, -, hview, hhost⟩ := startView_frame (hstart.symm.trans htoggle)
      have htarget := h.target_of_toggled fun v hv => by cases hnone.symm.trans hv
      rw [← target_congr hviewers hhost] at htarget
      refine ⟨fun rows cols hsome => ?_, fun _ => .inr fun v hv => ?_⟩
      · cases htarget.symm.trans hsome
      · cases hview.symm.trans hv
        rfl
    · obtain ⟨hviewers, -, -, hview, hhost⟩ := endView_frame (hend.symm.trans htoggle)
      have htarget := h.target_of_toggled fun u hu => by cases hv.symm.trans hu; exact hsim
      rw [← target_congr hviewers hhost] at htarget
      refine ⟨fun rows cols hsome => ?_, fun _ => .inr fun v hv => ?_⟩
      · cases htarget.symm.trans hsome
      · cases hview.symm.trans hv
    · cases htoggle.symm.trans hsame
      exact h
  | @stream remote hviewers =>
    have hmirror := (Wrapper.streamOutput_frame s env remote).1
    exact h.congr hviewers (congrArg Mirror.hostSize hmirror) (congrArg Mirror.view hmirror)

/-- A sweep leaves the view behind that the ranks ask for. -/
theorem settled_of_sweep (h : s.sweepAndRefresh env headless hostRank = (none, s')) :
    s'.Settled headless hostRank := by
  obtain ⟨s₀, -, hpass, halive⟩ := sweepAndRefresh_cases h
  generalize (s₀.announceHost env).removeDead = s₁ at hpass
  rcases s₁.refreshView_cases env headless hostRank none with
    ⟨hcase, htarget, hkept⟩ | ⟨hcase, htarget, hhosted⟩ |
      ⟨rows, cols, htarget, ⟨hcase, hneeds, -⟩ | ⟨error', t, ht, ⟨herror, hcase⟩ |
        ⟨rfl, msg, -, hcase⟩⟩⟩
  · cases hpass.symm.trans hcase
    refine ⟨fun rows cols hsome => ?_, fun _ => hkept⟩
    cases htarget.symm.trans hsome
  · obtain ⟨hviewers, -, -, hview, hhost⟩ := endView_frame (hcase.symm.trans hpass)
    rw [← target_congr hviewers hhost] at htarget
    refine ⟨fun rows cols hsome => ?_, fun _ => .inr fun v hv => ?_⟩
    · cases htarget.symm.trans hsome
    · cases hview.symm.trans hv
  · cases hpass.symm.trans hcase
    refine ⟨fun rows' cols' hsome => ?_, fun hnone => ?_⟩
    · cases htarget.symm.trans hsome
      exact hneeds
    · cases htarget.symm.trans hnone
  · cases hpass.symm.trans hcase
    cases herror
  · obtain rfl : s' = _ := (Prod.mk.inj (hpass.symm.trans hcase)).2
    obtain ⟨hviewers, -, -, hview, hhost⟩ := startView_frame ht
    have hkept := (t.tell_outlived env msg _).eq_of_alive halive
    rw [← target_congr (hkept.trans hviewers) hhost] at htarget
    refine ⟨fun rows' cols' hsome => ?_, fun hnone => ?_⟩
    · cases htarget.symm.trans hsome
      rw [needsView, show (t.tell env msg _).mirror.view = _ from hview]
      simp
    · cases htarget.symm.trans hnone

end Settling

/-- The best of the viewing clients is the one with the least rank and id. -/
theorem best_of_least {s : Stage vt} {hostRank : ℕ} {c : Client}
    (hids : (s.viewers.map Client.id).Nodup) (hc : c ∈ s.viewers) (hviewing : c.isViewing = true)
    (hleast : ∀ d ∈ s.viewers, d.isViewing = true →
      toLex (c.effectiveRank hostRank, c.id) ≤ toLex (d.effectiveRank hostRank, d.id)) :
    s.best hostRank = some c := by
  have hmem : c ∈ s.viewers.filter Client.isViewing := List.mem_filter.mpr ⟨hc, hviewing⟩
  cases hbest : s.best hostRank with
  | none =>
    rw [List.argmin_eq_none.mp hbest] at hmem
    exact absurd hmem List.not_mem_nil
  | some d =>
    obtain ⟨hd, hdviewing⟩ := List.mem_filter.mp (List.argmin_mem hbest)
    have hkeys := le_antisymm (List.le_of_mem_argmin hmem hbest) (hleast d hd hdviewing)
    have hsame : d.id = c.id := congrArg (fun key => (ofLex key).2) hkeys
    rw [List.inj_on_of_nodup_map hids hd hc hsame]

end Stage

namespace Wrapper

/-- The size of the host terminal after these events. -/
def hostSizeAfter (initial : ℕ × ℕ) (events : List Event) : ℕ × ℕ :=
  events.foldl (fun size event => event.winch?.getD size) initial

section Runs

variable {env : Env} {config : Config} {w w' : Wrapper vt} {initial host : ℕ × ℕ}

/-- Chains of moves keep the sizes in agreement. -/
theorem agrees_of_moves {hostRank : ℕ} {s s' : Stage vt}
    (hmoves : ReflTransGen (Stage.Move env config.headless hostRank) s s')
    (h : s.Agrees config.headless initial host) :
    s'.Agrees config.headless initial host := by
  induction hmoves with
  | refl => exact h
  | tail _ hmove ih => exact ih.move hmove

theorem agrees_of_steadies {s s' : Stage vt}
    (hsteadies : ReflTransGen (Stage.Steady env config.headless) s s')
    (h : s.Agrees config.headless initial host) :
    s'.Agrees config.headless initial host := by
  induction hsteadies with
  | refl => exact h
  | tail _ hsteady ih => exact ih.steady hsteady

/-- A resize of the host terminal keeps the sizes in agreement with its new size. -/
theorem agrees_of_resized {rows cols : ℕ} {s : Stage vt}
    (h : w.toStage.Agrees config.headless initial host) (hhosted : config.headless = false)
    (happlied : (w.toStage.withMirror (w.mirror.hostResized rows cols).2).applyTransition env
      config.headless (w.mirror.hostResized rows cols).1 = (none, s)) :
    s.Agrees config.headless initial (rows, cols) := by
  have happly := (w.toStage.withMirror (w.mirror.hostResized rows cols).2).applyTransition_cases
    env config.headless (w.mirror.hostResized rows cols).1
  rw [happlied] at happly
  obtain ⟨hview, hhost, hcases⟩ := w.mirror.hostResized_sizes rows cols
  have hsim : ∀ v, (w.mirror.hostResized rows cols).2.view = some v → v.simulated = true →
      config.headless = false ∧ (v.rows, v.cols) = (simRows, simCols) := by
    rw [hview]
    exact h.simulated
  have hlast (size : ℕ × ℕ) : config.headless = true → size = s.log.lastViewSize initial :=
    fun hheadless => absurd (hhosted.symm.trans hheadless) Bool.false_ne_true
  rcases hcases with ⟨hnone, hchild, hsize⟩ | ⟨hsome, hchild, hsize⟩
  · rcases happly with ⟨hno, -⟩ | ⟨r, c, ok, hchild', haside⟩
    · cases hchild.symm.trans hno
    · obtain ⟨rfl, rfl⟩ := Prod.mk.inj (Option.some.inj (hchild.symm.trans hchild'))
      have hsized : s.mirror.size = (rows, cols) := haside.mirror.size.trans hsize
      refine ⟨haside.mirror.hostSize.trans hhost, ?_, ?_, ?_, hlast _⟩
      · intro hpty
        have hok : ok = true := hpty.ok (haside.log.suffix.subset List.mem_cons_self)
        exact (haside.pty.trans (if_pos hok)).trans hsized.symm
      · rw [hsized, (haside.mirror.view.trans hview).trans hnone]
        rfl
      · rw [show s.mirror.view = _ from haside.mirror.view]
        exact hsim
  · rcases happly with ⟨-, haside⟩ | ⟨r, c, ok, hchild', -⟩
    · have hviewed : s.mirror.view = w.mirror.view := haside.mirror.view.trans hview
      have hsized : s.mirror.size = w.mirror.size := haside.mirror.size.trans hsize
      refine ⟨haside.mirror.hostSize.trans hhost, ?_, ?_, ?_, hlast _⟩
      · intro hpty
        exact haside.pty.trans ((h.pty (hpty.of_suffix haside.log.suffix)).trans hsized.symm)
      · obtain ⟨v, hv⟩ := Option.isSome_iff_exists.mp hsome
        rw [hsized, h.view, hviewed, hv]
        rfl
      · rw [hviewed]
        exact h.simulated
    · cases hchild.symm.trans hchild'

/-- Every event keeps the sizes in agreement. -/
theorem Outcome.agrees {winch : Option (ℕ × ℕ)} (houtcome : Outcome env config w w' winch)
    (h : w.toStage.Agrees config.headless initial host) :
    w'.toStage.Agrees config.headless initial (winch.getD host) := by
  cases houtcome with
  | steady hstage => exact agrees_of_steadies hstage h
  | swept hgroup _ _ hmoves hsweep =>
    exact agrees_of_moves (hmoves.trans (Stage.sweepAndRefresh_moves hsweep)) (h.regroups hgroup)
  | resized hhosted _ _ _ happlied hsweep =>
    exact agrees_of_moves (Stage.sweepAndRefresh_moves hsweep)
      (agrees_of_resized h hhosted happlied)

theorem settled_of_steadies {hostRank : ℕ} {s s' : Stage vt}
    (hsteadies : ReflTransGen (Stage.Steady env config.headless) s s')
    (h : s.Settled config.headless hostRank) : s'.Settled config.headless hostRank := by
  induction hsteadies with
  | refl => exact h
  | tail _ hsteady ih => exact ih.steady hsteady

/-- Every event leaves the view behind that the ranks ask for. -/
theorem Outcome.settled {winch : Option (ℕ × ℕ)} (houtcome : Outcome env config w w' winch)
    (h : w.toStage.Settled config.headless w.hostRank) :
    w'.toStage.Settled config.headless w'.hostRank := by
  cases houtcome with
  | steady hstage hrank => exact hrank ▸ settled_of_steadies hstage h
  | swept _ _ _ _ hsweep => exact Stage.settled_of_sweep hsweep
  | resized _ _ _ _ _ hsweep => exact Stage.settled_of_sweep hsweep

/-- In every reachable state the sizes agree, and the view is the one that the ranks ask for. -/
theorem run_agrees {events : List Event} (hproper : w.Proper config)
    (h : w.toStage.Agrees config.headless initial host)
    (hsettled : w.toStage.Settled config.headless w.hostRank)
    (hrun : Machine.run (step env config) w events = some w') :
    w'.toStage.Agrees config.headless initial (hostSizeAfter host events) ∧
      w'.toStage.Settled config.headless w'.hostRank := by
  induction events generalizing w host with
  | nil =>
    rw [Machine.run_nil, Option.some.injEq] at hrun
    exact hrun ▸ ⟨h, hsettled⟩
  | cons event events ih =>
    obtain ⟨w₁, hstep, hrest⟩ := Machine.run_cons_eq_some.mp hrun
    have houtcome := (step_outcome hproper hstep).2
    exact ih (hproper.step hstep) (houtcome.agrees h) (houtcome.settled hsettled) hrest

end Runs

/-- Before the first event the sizes agree, and nobody asks for a view. -/
theorem Begins.agrees {config : Config} {w : Wrapper vt} (h : w.Begins config) :
    w.toStage.Agrees config.headless config.size config.size ∧
      w.toStage.Settled config.headless w.hostRank := by
  obtain ⟨hhost, hsize, hpty⟩ := h.sizes
  refine ⟨⟨hhost, fun _ => hpty.trans hsize.symm, ?_, ?_, ?_⟩, ?_, ?_⟩
  · rw [hsize, h.view]
    rfl
  · intro v hv
    cases h.view.symm.trans hv
  · intro _
    rw [hsize, Log.lastViewSize_of_grows (fun _ _ _ hview => hview) h.log]
    rfl
  · intro rows cols htarget
    rw [Stage.target_eq_none.mpr (by simp [h.viewers])] at htarget
    cases htarget
  · intro _
    refine .inr fun v hv => ?_
    cases h.view.symm.trans hv

/-- In every reachable state of a session the sizes agree, and the view is the one that the
ranks ask for. -/
theorem session_agrees {env : Env} {config : Config} {events : List Event} {w : Wrapper vt}
    (hsession : session vt env config events = some w) :
    w.toStage.Agrees config.headless config.size (hostSizeAfter config.size events) ∧
      w.toStage.Settled config.headless w.hostRank := by
  obtain ⟨w₀, hstart, hrun⟩ := session_eq_some.mp hsession
  have hbegins := (start_begins hstart).agrees
  exact run_agrees (start_proper hstart) hbegins.1 hbegins.2 hrun

/-- The size policy. In every reachable state, if no resize of the pty failed, pty
and model have the same size. If somebody is viewing, it is the size of the
viewing client with the least rank and id, unless a physical host terminal
outranks that client, whose size it is then. If nobody is viewing, a headless
session keeps the size of its last view, and a hosted one has the size of its
host terminal or that of the simulated device. -/
theorem size_policy {env : Env} {config : Config} {events : List Event} {w : Wrapper vt}
    (hsession : session vt env config events = some w) (hpty : w.log.PtyResized) :
    w.pty = w.mirror.size ∧
      (∀ c ∈ w.viewers, c.isViewing = true →
        (∀ d ∈ w.viewers, d.isViewing = true →
          toLex (c.effectiveRank w.hostRank, c.id) ≤ toLex (d.effectiveRank w.hostRank, d.id)) →
        w.pty = if config.headless ∨ c.effectiveRank w.hostRank ≤ w.hostRank
          then (c.height, c.width) else hostSizeAfter config.size events) ∧
      ((∀ c ∈ w.viewers, c.isViewing = false) →
        w.pty = if config.headless then w.log.lastViewSize config.size
          else if w.mirror.view.any View.simulated then (24, 96)
          else hostSizeAfter config.size events) := by
  obtain ⟨hagrees, hsettled⟩ := session_agrees hsession
  have hsized := hagrees.sized hpty
  have hproper := session_proper hsession
  have hids : (w.viewers.map Client.id).Nodup := hproper.ids.sublist (List.sublist_append_left _ _)
  refine ⟨hsized.pty, fun c hc hviewing hleast => ?_, fun hunviewed => ?_⟩
  · have hbest := Stage.best_of_least hids hc hviewing hleast
    have htarget : w.toStage.target w.hostRank config.headless =
        some (if config.headless ∨ c.effectiveRank w.hostRank ≤ w.hostRank
          then (c.height, c.width) else hostSizeAfter config.size events) := by
      rw [Stage.target, hbest, hsized.hostSize]
      simp
    obtain ⟨v, hv, -, hdims⟩ := Stage.view_of_unneeded (hsettled.viewed _ _ htarget)
    rw [hsized.pty, hsized.view, hv]
    exact hdims
  · have hkept := hsettled.unviewed (Stage.target_eq_none.mpr hunviewed)
    cases hheadless : config.headless with
    | true => exact hsized.pty.trans (hsized.last hheadless)
    | false =>
      have hreal : ∀ v, w.mirror.view = some v → v.simulated = true := by
        simpa [hheadless] using hkept
      rw [hsized.pty, hsized.view, if_neg Bool.false_ne_true]
      cases hv : w.mirror.view with
      | none => rfl
      | some v =>
        obtain ⟨-, hdims⟩ := hsized.simulated v hv (hreal v hv)
        simp [hreal v hv, hdims, simRows, simCols]

/-- The second device has the better rank, and gets its size. -/
theorem size_policy_of_two_viewers :
    ∃ w ∈ session asciiVt100 (.failingAt []) (smallConfig false) (twoViewers 1 0),
      w.pty = w.mirror.size ∧ w.pty = (3, 6) := by
  let c : Client := ⟨.viewing, "b", 6, 3, 0, .viewer, 1, false⟩
  obtain ⟨w, hsession, hpty, hc, hleast, hrank⟩ :
      ∃ w ∈ session asciiVt100 (.failingAt []) (smallConfig false) (twoViewers 1 0),
        w.log.PtyResized ∧ c ∈ w.viewers ∧
        (∀ d ∈ w.viewers, d.isViewing = true →
          toLex (c.effectiveRank w.hostRank, c.id) ≤ toLex (d.effectiveRank w.hostRank, d.id)) ∧
        c.effectiveRank w.hostRank ≤ w.hostRank := by
    decide +kernel
  obtain ⟨hmodel, hviewed, -⟩ := size_policy hsession hpty
  exact ⟨w, hsession, hmodel, (hviewed c hc rfl hleast).trans (if_pos (.inr hrank))⟩

end Wrapper

end G2mirror
