import G2mirror.Archive
import G2mirror.Wrapper

/-!
# What the wrapper's operations can do

Each operation of the event loop gets one lemma that says all it can do. Most of
what happens between two decisions about the view is an aside: it talks to
clients, the host and the app, but leaves the viewers, the view and all sizes alone.
-/

namespace G2mirror

open scoped List

variable {vt : Vt100}

namespace Mirror

/-- Two mirrors have the same view, the same host size and the same model size. -/
structure SameSizes (m m' : Mirror vt) : Prop where
  view : m'.view = m.view
  hostSize : m'.hostSize = m.hostSize
  size : m'.size = m.size

theorem SameSizes.refl (m : Mirror vt) : m.SameSizes m := ⟨rfl, rfl, rfl⟩

theorem SameSizes.trans {m m' m'' : Mirror vt} (h : m.SameSizes m') (h' : m'.SameSizes m'') :
    m.SameSizes m'' :=
  ⟨h'.view.trans h.view, h'.hostSize.trans h.hostSize, h'.size.trans h.size⟩

/-- Child output changes no size. -/
theorem process_sameSizes (m : Mirror vt) (bytes : Bytes) : m.SameSizes (m.process bytes).2 := by
  have hsame := m.foldl_processSlice_sameView (chunks processSliceSize bytes)
  obtain ⟨title, shadow, zoneDirty, hdone⟩ := m.process_eq bytes
  rw [hdone]
  exact ⟨hsame.view, Prod.ext hsame.hostRows hsame.hostCols, Prod.ext hsame.rows hsame.cols⟩

/-- A view start sets the view and gives model and child its size. -/
theorem startView_sizes (m : Mirror vt) (view : View) :
    (m.startView view).1.childSize = some (view.rows, view.cols) ∧
      (m.startView view).2.view = some view ∧
      (m.startView view).2.hostSize = m.hostSize ∧
      (m.startView view).2.size = (view.rows, view.cols) := by
  have hsame := (m.flushHistoryForRebuild_rebooked view.rows).sameView
  refine ⟨rfl, rfl, Prod.ext hsame.hostRows hsame.hostCols, ?_⟩
  rw [size, parser_startView, Parser.process_rows, Parser.process_cols]
  rfl

/-- A view end gives model and child the host's size. -/
theorem endView_sizes (m : Mirror vt) :
    m.endView.1.childSize = some m.hostSize ∧ m.endView.2.view = none ∧
      m.endView.2.hostSize = m.hostSize ∧ m.endView.2.size = m.hostSize := by
  have hsame := m.harvest_rebooked.sameView
  have hhost : (m.harvest.hostRows, m.harvest.hostCols) = m.hostSize :=
    Prod.ext hsame.hostRows hsame.hostCols
  exact ⟨congrArg some hhost, rfl, hhost, hhost⟩

/-- A resize of the host gives model and child its size only while there is no view. -/
theorem hostResized_sizes (m : Mirror vt) (rows cols : ℕ) :
    (m.hostResized rows cols).2.view = m.view ∧
      (m.hostResized rows cols).2.hostSize = (rows, cols) ∧
      ((m.view = none ∧ (m.hostResized rows cols).1.childSize = some (rows, cols) ∧
          (m.hostResized rows cols).2.size = (rows, cols)) ∨
        (m.view.isSome ∧ (m.hostResized rows cols).1.childSize = none ∧
          (m.hostResized rows cols).2.size = m.size)) := by
  have hsame := (m.withHost rows cols).harvest_rebooked.sameView
  refine ⟨m.view_hostResized rows cols, ?_⟩
  cases hview : m.view with
  | none =>
    have hchild : (m.hostResized rows cols).1.childSize = some (rows, cols) := by
      simp only [hostResized, hview]
    rw [hostResized_of_none hview]
    exact ⟨Prod.ext hsame.hostRows hsame.hostCols, .inl ⟨rfl, hchild, rfl⟩⟩
  | some v =>
    have hchild : (m.hostResized rows cols).1.childSize = none := by
      simp only [hostResized, hview]
    rw [hostResized_of_some hview]
    exact ⟨rfl, .inr ⟨rfl, hchild, rfl⟩⟩

end Mirror

/-- A message that neither streams a view nor reports the host role. -/
def FromSession.IsAside : FromSession → Prop
  | .snapshot .. => False
  | .output _ => False
  | .hostChanged _ => False
  | _ => True

/-- Something the wrapper does besides viewing and the host role. -/
def Obs.IsAside : Obs → Prop
  | .sent _ msg _ => msg.IsAside
  | .hostWrote .. => True
  | .ptyWrote .. => True
  | _ => False

theorem Client.alive_of_isViewing {c : Client} (h : c.isViewing = true) : c.dead = false := by
  unfold Client.isViewing at h
  simp only [Bool.and_eq_true, Bool.not_eq_true'] at h
  exact h.1

theorem Client.state_of_isViewing {c : Client} (h : c.isViewing = true) : c.state = .viewing := by
  unfold Client.isViewing at h
  simp only [Bool.and_eq_true, decide_eq_true_eq] at h
  exact h.2

/-- Something the wrapper does for a decision about the view: neither output nor
anything about the host role, and snapshots only to clients that are viewing. -/
def Obs.ServesView : Obs → Prop
  | .sent _ (.output _) _ => False
  | .sent c (.snapshot ..) _ => c.state = .viewing
  | .sent _ (.hostChanged _) _ => False
  | .produced _ => False
  | _ => True

theorem Obs.IsAside.servesView {o : Obs} (h : o.IsAside) : o.ServesView := by
  cases o with
  | sent c msg ok => cases msg <;> trivial
  | hostWrote bytes ok => trivial
  | ptyWrote bytes ok => trivial
  | ptyResized rows cols ok => trivial
  | viewStarted rows cols ok => trivial
  | produced data => exact h

namespace Stage

/-- From the first stage to the second, nothing happened but asides. -/
structure Aside (s s' : Stage vt) : Prop where
  viewers : s'.viewers = s.viewers
  mirror : s.mirror.SameSizes s'.mirror
  hostAttached : s'.hostAttached = s.hostAttached
  pty : s'.pty = s.pty
  log : Log.Grows Obs.IsAside s.log s'.log

theorem Aside.refl (s : Stage vt) : s.Aside s := ⟨rfl, .refl _, rfl, rfl, .refl _ _⟩

theorem Aside.trans {s s' s'' : Stage vt} (h : s.Aside s') (h' : s'.Aside s'') : s.Aside s'' :=
  ⟨h'.viewers.trans h.viewers, h.mirror.trans h'.mirror, h'.hostAttached.trans h.hostAttached,
    h'.pty.trans h.pty, h.log.trans h'.log⟩

/-- Noting an aside. -/
theorem aside_note (s : Stage vt) {o : Obs} (ho : o.IsAside) : s.Aside (s.note [o]) :=
  ⟨rfl, .refl _, rfl, rfl, .cons ho⟩

theorem withMirror_aside {s : Stage vt} {m : Mirror vt} (h : s.mirror.SameSizes m) :
    s.Aside (s.withMirror m) := ⟨rfl, h, rfl, rfl, .refl _ _⟩

theorem writeHost_aside (s : Stage vt) (env : Env) (headless : Bool) (bytes : Bytes) :
    s.Aside (s.writeHost env headless bytes).2 := by
  unfold writeHost
  split
  · exact .refl s
  · exact s.aside_note trivial

theorem writePty_aside (s : Stage vt) (env : Env) (bytes : Bytes) :
    s.Aside (s.writePty env bytes).2 := by
  unfold writePty
  split
  · exact .refl s
  · exact s.aside_note trivial

theorem tellMonitor_aside (s : Stage vt) (env : Env) {msg : FromSession} (hmsg : msg.IsAside) :
    s.Aside (s.tellMonitor env msg) := by
  unfold tellMonitor
  split
  · exact .refl s
  · exact ⟨rfl, .refl _, rfl, rfl, .cons hmsg⟩

theorem reply_aside (s : Stage vt) (env : Env) (c : Client) {msg : FromSession}
    (hmsg : msg.IsAside) : s.Aside (s.reply env c msg).2 := ⟨rfl, .refl _, rfl, rfl, .cons hmsg⟩

/-- The stage after a resize of the pty was attempted. -/
def resized (s : Stage vt) (rows cols : ℕ) (ok : Bool) : Stage vt :=
  { s with
    pty := if ok then (rows, cols) else s.pty
    log := .ptyResized rows cols ok :: s.log }

/-- All a transition can do: resize the pty if it says so, and write to the host. -/
theorem applyTransition_cases (s : Stage vt) (env : Env) (headless : Bool) (t : Transition) :
    (t.childSize = none ∧ s.Aside (s.applyTransition env headless t).2) ∨
      ∃ rows cols ok, t.childSize = some (rows, cols) ∧
        (s.resized rows cols ok).Aside (s.applyTransition env headless t).2 := by
  unfold applyTransition
  split
  · rename_i hsize
    exact .inl ⟨hsize, s.writeHost_aside env headless _⟩
  · rename_i rows cols hsize
    refine .inr ⟨rows, cols, env.succeeds s.log, hsize, ?_⟩
    split
    · exact .refl _
    · exact writeHost_aside _ env headless _

/-- All a view start can do. -/
theorem startView_cases (s : Stage vt) (env : Env) (headless : Bool) (view : View) :
    ∃ ok s', ((s.withMirror (s.mirror.startView view).2).resized view.rows view.cols ok).Aside s' ∧
      (s.startView env headless view).2 =
        s'.note [.viewStarted view.rows view.cols (s.startView env headless view).1.isNone] := by
  rcases (s.withMirror (s.mirror.startView view).2).applyTransition_cases env headless
    (s.mirror.startView view).1 with ⟨hnone, -⟩ | ⟨rows, cols, ok, hsome, haside⟩
  · exact absurd hnone.symm (Option.some_ne_none _).symm
  · have hsize := (s.mirror.startView_sizes view).1
    rw [hsize, Option.some.injEq, Prod.mk.injEq] at hsome
    obtain ⟨rfl, rfl⟩ := hsome
    exact ⟨ok, _, haside, rfl⟩

/-- All a view end can do. -/
theorem endView_cases (s : Stage vt) (env : Env) (headless : Bool) :
    ∃ ok, ((s.withMirror s.mirror.endView.2).resized s.mirror.hostRows s.mirror.hostCols ok).Aside
      (s.endView env headless).2 := by
  have hsize := s.mirror.endView_sizes.1
  rcases (s.withMirror s.mirror.endView.2).applyTransition_cases env headless
    s.mirror.endView.1 with ⟨hnone, -⟩ | ⟨rows, cols, ok, hsome, haside⟩
  · rw [hsize] at hnone
    exact absurd hnone (Option.some_ne_none _)
  · rw [hsize, Option.some.injEq, Mirror.hostSize, Prod.mk.injEq] at hsome
    obtain ⟨rfl, rfl⟩ := hsome
    exact ⟨ok, haside⟩

/-- What a view start leaves alone, and what it sets. -/
theorem startView_frame {s s' : Stage vt} {env : Env} {headless : Bool} {view : View}
    {error : Option String} (h : s.startView env headless view = (error, s')) :
    s'.viewers = s.viewers ∧ s'.hostAttached = s.hostAttached ∧
      Log.Grows Obs.ServesView s.log s'.log ∧ s'.mirror.view = some view ∧
        s'.mirror.hostSize = s.mirror.hostSize := by
  obtain ⟨ok, t, haside, hresult⟩ := s.startView_cases env headless view
  obtain ⟨-, hview, hhost, -⟩ := s.mirror.startView_sizes view
  rw [h] at hresult
  rw [show s' = _ from hresult]
  have hresized : Log.Grows Obs.ServesView s.log t.log :=
    (Log.Grows.cons trivial).trans (haside.log.mono fun _ => Obs.IsAside.servesView)
  exact ⟨haside.viewers, haside.hostAttached, hresized.trans (.cons trivial),
    haside.mirror.view.trans hview, haside.mirror.hostSize.trans hhost⟩

/-- What a view end leaves alone, and what it sets. -/
theorem endView_frame {s s' : Stage vt} {env : Env} {headless : Bool} {error : Option String}
    (h : s.endView env headless = (error, s')) :
    s'.viewers = s.viewers ∧ s'.hostAttached = s.hostAttached ∧
      Log.Grows Obs.ServesView s.log s'.log ∧ s'.mirror.view = none ∧
        s'.mirror.hostSize = s.mirror.hostSize := by
  obtain ⟨ok, haside⟩ := s.endView_cases env headless
  obtain ⟨-, hview, hhost, -⟩ := s.mirror.endView_sizes
  rw [h] at haside
  have hresized : Log.Grows Obs.ServesView s.log s'.log :=
    (Log.Grows.cons trivial).trans (haside.log.mono fun _ => Obs.IsAside.servesView)
  exact ⟨haside.viewers, haside.hostAttached, hresized, haside.mirror.view.trans hview,
    haside.mirror.hostSize.trans hhost⟩

/-- What a resize of the host terminal leaves alone. -/
theorem hostResized_frame {s s' : Stage vt} {env : Env} {headless : Bool} {rows cols : ℕ}
    {error : Option String} (h : (s.withMirror (s.mirror.hostResized rows cols).2).applyTransition
      env headless (s.mirror.hostResized rows cols).1 = (error, s')) :
    s'.viewers = s.viewers ∧ s'.hostAttached = s.hostAttached ∧
      Log.Grows (fun o => o.IsAside ∨ ∃ rows cols ok, o = .ptyResized rows cols ok) s.log s'.log ∧
      s'.mirror.view = s.mirror.view := by
  have happly := (s.withMirror (s.mirror.hostResized rows cols).2).applyTransition_cases env
    headless (s.mirror.hostResized rows cols).1
  have hview := (s.mirror.hostResized_sizes rows cols).1
  rw [h] at happly
  rcases happly with ⟨-, haside⟩ | ⟨r, c, ok, -, haside⟩
  · exact ⟨haside.viewers, haside.hostAttached, haside.log.mono fun _ => .inl,
      haside.mirror.view.trans hview⟩
  · exact ⟨haside.viewers, haside.hostAttached,
      (Log.Grows.cons (.inr ⟨r, c, ok, rfl⟩)).trans (haside.log.mono fun _ => .inl),
      haside.mirror.view.trans hview⟩

/-- All that the hotkey can do. -/
theorem toggleSimulated_cases (s : Stage vt) (env : Env) (headless : Bool) :
    (s.mirror.view = none ∧ s.toggleSimulated env headless =
        s.startView env headless ⟨simRows, simCols, true⟩) ∨
      ∃ v, s.mirror.view = some v ∧
        ((v.simulated = true ∧ s.toggleSimulated env headless = s.endView env headless) ∨
          (v.simulated = false ∧ s.toggleSimulated env headless = (none, s))) := by
  unfold toggleSimulated
  cases s.mirror.view with
  | none => exact .inl ⟨rfl, rfl⟩
  | some v =>
    refine .inr ⟨v, rfl, ?_⟩
    dsimp only
    split
    · rename_i hsim
      exact .inl ⟨hsim, rfl⟩
    · rename_i hreal
      exact .inr ⟨Bool.not_eq_true _ |>.mp hreal, rfl⟩

/-- No size is asked for exactly if nobody is viewing. -/
theorem target_eq_none {s : Stage vt} {hostRank : ℕ} {headless : Bool} :
    s.target hostRank headless = none ↔ ∀ c ∈ s.viewers, c.isViewing = false := by
  rw [target, Option.map_eq_none_iff, best, List.argmin_eq_none, List.filter_eq_nil_iff]
  simp only [Bool.not_eq_true]

/-- No view is needed at the size of the one there is. -/
theorem view_of_unneeded {s : Stage vt} {rows cols : ℕ} (h : s.needsView rows cols = false) :
    ∃ v, s.mirror.view = some v ∧ v.simulated = false ∧ (v.rows, v.cols) = (rows, cols) := by
  unfold needsView at h
  cases hv : s.mirror.view with
  | none => rw [hv] at h; cases h
  | some v =>
    rw [hv] at h
    simp only [Bool.or_eq_false_iff, decide_eq_false_iff_not, ne_eq, not_not] at h
    exact ⟨v, rfl, h.1, h.2⟩

/-- All that re-deciding the view can do. -/
theorem refreshView_cases (s : Stage vt) (env : Env) (headless : Bool) (hostRank : ℕ)
    (forceFor : Option ℕ) :
    let result := s.refreshView env headless hostRank forceFor
    (result = (none, s) ∧ s.target hostRank headless = none ∧
        (headless = true ∨ ∀ v, s.mirror.view = some v → v.simulated = true)) ∨
      (result = s.endView env headless ∧ s.target hostRank headless = none ∧ headless = false) ∨
      ∃ rows cols, s.target hostRank headless = some (rows, cols) ∧
        ((result = (none, s) ∧ s.needsView rows cols = false ∧ forceFor = none) ∨
          ∃ error s', s.startView env headless ⟨rows, cols, false⟩ = (error, s') ∧
            ((error.isSome ∧ result = (error, s')) ∨
              (error = none ∧ ∃ msg, (∃ data next, msg = .snapshot data cols rows next) ∧
                result = (none, s'.tell env msg fun i c =>
                  c.isViewing && (s.needsView rows cols || forceFor = some i))))) := by
  intro result
  have hresult : result = s.refreshView env headless hostRank forceFor := rfl
  unfold refreshView at hresult
  cases htarget : s.target hostRank headless with
  | none =>
    simp only [htarget] at hresult
    split at hresult
    · rename_i hend
      simp only [Bool.and_eq_true, Bool.not_eq_true'] at hend
      exact .inr (.inl ⟨hresult, rfl, hend.1⟩)
    · rename_i hkeep
      refine .inl ⟨hresult, rfl, ?_⟩
      cases headless with
      | true => exact .inl rfl
      | false =>
        refine .inr fun v hv => ?_
        simpa [hv] using hkeep
  | some size =>
    obtain ⟨rows, cols⟩ := size
    refine .inr (.inr ⟨rows, cols, rfl, ?_⟩)
    simp only [htarget] at hresult
    split at hresult
    · cases hstart : s.startView env headless ⟨rows, cols, false⟩ with
      | mk error s' =>
        simp only [hstart] at hresult
        refine .inr ⟨error, s', rfl, ?_⟩
        cases error with
        | some error => exact .inl ⟨rfl, hresult⟩
        | none => exact .inr ⟨rfl, _, ⟨_, _, rfl⟩, hresult⟩
    · rename_i hkeep
      rw [Bool.or_eq_true, not_or, Bool.not_eq_true, Option.not_isSome_iff_eq_none] at hkeep
      exact .inl ⟨hresult, hkeep.1, hkeep.2⟩

/-- From the first stage to the second only the set of viewers changed, besides
asides, and nobody began to view. -/
structure Regroups (s s' : Stage vt) : Prop where
  viewing : ∀ c' ∈ s'.viewers, c'.isViewing = true →
    ∃ c ∈ s.viewers, c.id = c'.id ∧ c.isViewing = true
  mirror : s.mirror.SameSizes s'.mirror
  hostAttached : s'.hostAttached = s.hostAttached
  pty : s'.pty = s.pty
  log : Log.Grows Obs.IsAside s.log s'.log

theorem Aside.regroups {s s' : Stage vt} (h : s.Aside s') : s.Regroups s' :=
  ⟨fun c hc hviewing => ⟨c, h.viewers ▸ hc, rfl, hviewing⟩, h.mirror, h.hostAttached, h.pty, h.log⟩

theorem Regroups.trans {s s' s'' : Stage vt} (h : s.Regroups s') (h' : s'.Regroups s'') :
    s.Regroups s'' := by
  refine ⟨fun c'' hc'' hviewing => ?_, h.mirror.trans h'.mirror,
    h'.hostAttached.trans h.hostAttached, h'.pty.trans h.pty, h.log.trans h'.log⟩
  obtain ⟨c', hc', hid', hviewing'⟩ := h'.viewing c'' hc'' hviewing
  obtain ⟨c, hc, hid, hviewing⟩ := h.viewing c' hc' hviewing'
  exact ⟨c, hc, hid.trans hid', hviewing⟩

/-- Losing viewers. -/
theorem regroups_of_outlived {s : Stage vt} {cs : List Client} {log : Log}
    (h : Outlived s.viewers cs) (hlog : Log.Grows Obs.IsAside s.log log) :
    s.Regroups { s with viewers := cs, log := log } :=
  ⟨fun c hc hviewing => ⟨c, h.mem_of_alive hc (Client.alive_of_isViewing hviewing), rfl, hviewing⟩,
    .refl _, rfl, rfl, hlog⟩

/-- Who was told something may have died of it. -/
theorem tell_outlived (s : Stage vt) (env : Env) (msg : FromSession)
    (wanted : ℕ → Client → Bool) : Outlived s.viewers (s.tell env msg wanted).viewers :=
  broadcast_outlived env msg wanted 0 s.viewers s.log

/-- Telling the viewers something that does not concern their views. -/
theorem broadcast_aside {msg : FromSession} (hmsg : msg.IsAside) (env : Env)
    (wanted : ℕ → Client → Bool) (cs : List Client) (log : Log) :
    Log.Grows Obs.IsAside log (broadcast env msg wanted 0 cs log).log :=
  (broadcast_log env msg wanted 0 cs log).mono fun _ ⟨_, _, _, ho⟩ => ho ▸ hmsg

/-- Changing one viewer, who does not begin to view by that. -/
theorem set_regroups {s : Stage vt} {i : ℕ} {c c' : Client} (hc : s.viewers[i]? = some c)
    (hid : c'.id = c.id) (hviewing : c'.isViewing = true → c.isViewing = true) :
    s.Regroups (s.withViewers (s.viewers.set i c')) := by
  refine ⟨fun d hd hdviewing => ?_, .refl _, rfl, rfl, .refl _ _⟩
  rcases List.mem_or_eq_of_mem_set hd with hd | rfl
  · exact ⟨d, hd, rfl, hdviewing⟩
  · exact ⟨c, List.mem_of_getElem? hc, hid.symm, hviewing hdviewing⟩

theorem set_ids {s : Stage vt} {i : ℕ} {c c' : Client} (hc : s.viewers[i]? = some c)
    (hid : c'.id = c.id) : (s.viewers.set i c').map Client.id = s.viewers.map Client.id := by
  obtain ⟨hi, rfl⟩ := List.getElem?_eq_some_iff.mp hc
  rw [List.map_set, hid, ← List.getElem_map Client.id, List.set_getElem_self]
  rwa [List.length_map]

/-- Removing the dead. -/
theorem removeDead_regroups (s : Stage vt) : s.Regroups s.removeDead :=
  ⟨fun c hc hviewing => ⟨c, List.mem_of_mem_filter hc, rfl, hviewing⟩, .refl _, rfl, rfl, .refl _ _⟩

/-- All that a message to the monitor does. -/
theorem tellMonitor_eq (s : Stage vt) (env : Env) (msg : FromSession) :
    ∃ monitor log, s.tellMonitor env msg = { s with monitor := monitor, log := log } ∧
      Log.Grows (Obs.Tries msg fun _ => True) s.log log := by
  unfold tellMonitor
  split
  · exact ⟨s.monitor, s.log, rfl, .refl _ _⟩
  · exact ⟨_, _, rfl, .cons ⟨_, _, trivial, rfl⟩⟩

/-- All that the first half of a sweep's pass can do. -/
theorem announceHost_cases (s : Stage vt) (env : Env) :
    let now := s.viewers.any Client.isHost
    (now = s.hostAttached ∧ s.announceHost env = s) ∨
      ∃ monitor log,
        Log.Grows (Obs.Tries (.hostChanged now) fun _ => True) s.log log ∧
        s.announceHost env = ({ s with
          hostAttached := now
          monitor := monitor
          log := log }).tell env (.hostChanged now) fun _ c => !c.dead := by
  intro now
  by_cases hsame : now = s.hostAttached
  · exact .inl ⟨hsame, if_pos hsame⟩
  · obtain ⟨monitor, log, htold, hlog⟩ :=
      ({ s with hostAttached := now } : Stage vt).tellMonitor_eq env (.hostChanged now)
    refine .inr ⟨monitor, log, hlog, ?_⟩
    rw [announceHost, if_neg hsame]
    exact congrArg (fun t : Stage vt => t.tell env (.hostChanged now) fun _ c => !c.dead) htold

end Stage

namespace Wrapper

theorem killViewer_regroups (s : Stage vt) (i : ℕ) : s.Regroups (killViewer s i) :=
  Stage.regroups_of_outlived (outlived_modify s.viewers i) (.refl _ _)

/-- Dropping a viewer loses nobody's id before the next sweep. -/
theorem dropViewer_regroups (s : Stage vt) (env : Env) (i : ℕ) (error : String) :
    s.Regroups (dropViewer s env i error) ∧
      (dropViewer s env i error).viewers.map Client.id = s.viewers.map Client.id := by
  unfold dropViewer
  cases s.viewers[i]? with
  | none => exact ⟨(Stage.Aside.refl s).regroups, rfl⟩
  | some c =>
    have hdied := outlived_modify s.viewers i
    exact ⟨Stage.regroups_of_outlived hdied (.cons trivial), hdied.ids⟩

/-- A forced takeover: holders die, and are told why. -/
theorem displaceHosts_outlived (env : Env) (cs : List Client) (log : Log) :
    Outlived cs (displaceHosts env cs log).1 ∧
      Log.Grows Obs.IsAside log (displaceHosts env cs log).2 := by
  induction cs generalizing log with
  | nil => exact ⟨.nil, .refl _ _⟩
  | cons c cs ih =>
    rw [displaceHosts]
    split
    · obtain ⟨hdied, hlog⟩ := ih (env.send c takenOver log)
      have hsent : Log.Grows Obs.IsAside log (env.send c takenOver log) := .cons trivial
      exact ⟨.cons (.inr rfl) hdied, hsent.trans hlog⟩
    · obtain ⟨hdied, hlog⟩ := ih log
      exact ⟨.cons (.inl rfl) hdied, hlog⟩

/-- Viewers who may have died, and one more who is not viewing. -/
theorem regroups_snoc {s : Stage vt} {cs : List Client} {log : Log} {p : Client}
    (hdied : Outlived s.viewers cs) (hlog : Log.Grows Obs.IsAside s.log log)
    (hp : p.isViewing = false) : s.Regroups { s with viewers := cs ++ [p], log := log } := by
  refine ⟨fun c hc hviewing => ?_, .refl _, rfl, rfl, hlog⟩
  rcases List.mem_append.mp hc with hc | hc
  · exact (Stage.regroups_of_outlived hdied hlog).viewing c hc hviewing
  · rw [List.mem_singleton.mp hc, hp] at hviewing
    cases hviewing

/-- Nobody begins to view by being admitted. -/
theorem acceptInit_regroups (w : Wrapper vt) (env : Env) (init : Init) (p : Client) :
    w.toStage.Regroups (w.acceptInit env init p).toStage ∧
      (w.acceptInit env init p).viewers.map Client.id <+ w.viewers.map Client.id ++ [p.id] := by
  let kept :=
    if init.role = .host ∧ w.viewers.any Client.isHost then displaceHosts env w.viewers w.log
    else (w.viewers, w.log)
  have hkept : Outlived w.viewers kept.1 ∧ Log.Grows Obs.IsAside w.log kept.2 := by
    unfold kept
    split
    · exact displaceHosts_outlived env w.viewers w.log
    · exact ⟨.refl _, .refl _ _⟩
  obtain ⟨hdied, hlog⟩ := hkept
  have hready : (Init.client init p).isViewing = false := by simp [Client.isViewing, Init.client]
  have hjoined : (kept.1 ++ [Init.client init p]).map Client.id =
      w.viewers.map Client.id ++ [p.id] := by
    rw [List.map_append, hdied.ids]
    rfl
  unfold acceptInit
  cases w.mirror.title with
  | none => exact ⟨regroups_snoc hdied hlog hready, hjoined ▸ List.Sublist.refl _⟩
  | some title =>
    have htold : Log.Grows Obs.IsAside w.log
        (env.send (Init.client init p) (.title title) kept.2) := hlog.trans (.cons trivial)
    let viewers :=
      if env.succeeds kept.2 then kept.1 ++ [Init.client init p] else kept.1
    change w.toStage.Regroups { w.toStage with viewers := viewers, log := _ } ∧
      viewers.map Client.id <+ _
    unfold viewers
    split
    · exact ⟨regroups_snoc hdied htold hready, hjoined ▸ List.Sublist.refl _⟩
    · exact ⟨Stage.regroups_of_outlived hdied htold, hdied.ids ▸ List.sublist_append_left _ _⟩

/-- The title is reported to everyone. -/
theorem streamTitle_cases (s : Stage vt) (env : Env) (title : Option String) :
    s.Regroups (streamTitle s env title).2 ∧
      (streamTitle s env title).2.viewers.map Client.id = s.viewers.map Client.id ∧
      ((streamTitle s env title).1 = false → s.Aside (streamTitle s env title).2) := by
  unfold streamTitle
  cases title with
  | none => exact ⟨(Stage.Aside.refl s).regroups, rfl, fun _ => .refl s⟩
  | some title =>
    have hmsg : (FromSession.title title).IsAside := trivial
    have hmonitor := s.tellMonitor_aside env hmsg
    let told := s.tellMonitor env (.title title)
    have hlog : Log.Grows Obs.IsAside told.log
        (broadcast env (.title title) (fun _ _ => true) 0 told.viewers told.log).log :=
      Stage.broadcast_aside hmsg env _ told.viewers told.log
    have hdied := broadcast_outlived env (.title title) (fun _ _ => true) 0 told.viewers told.log
    refine ⟨hmonitor.regroups.trans (Stage.regroups_of_outlived hdied hlog), ?_, fun hlost => ?_⟩
    · exact hdied.ids.trans (congrArg _ hmonitor.viewers)
    · exact hmonitor.trans ⟨clients_of_not_lost hlost, .refl _, rfl, rfl, hlog⟩

/-- All that streaming a chunk can do to the set of viewers. -/
theorem streamOutput_outlived (s : Stage vt) (env : Env) (remote : Option Bytes) :
    Outlived s.viewers (streamOutput s env remote).2.viewers ∧
      ((streamOutput s env remote).1 = false →
        (streamOutput s env remote).2.viewers = s.viewers) := by
  unfold streamOutput
  cases remote with
  | none => exact ⟨.refl _, fun _ => rfl⟩
  | some data =>
    dsimp only
    split
    · exact ⟨.refl _, fun _ => rfl⟩
    · exact ⟨broadcast_outlived env _ _ 0 s.viewers _, fun hlost => clients_of_not_lost hlost⟩

/-- What streaming a chunk leaves alone. -/
theorem streamOutput_frame (s : Stage vt) (env : Env) (remote : Option Bytes) :
    (streamOutput s env remote).2.mirror = s.mirror ∧
      (streamOutput s env remote).2.hostAttached = s.hostAttached ∧
      s.log <:+ (streamOutput s env remote).2.log := by
  unfold streamOutput
  cases remote with
  | none => exact ⟨rfl, rfl, List.suffix_rfl⟩
  | some data =>
    dsimp only
    split
    · exact ⟨rfl, rfl, List.suffix_cons _ _⟩
    · exact ⟨rfl, rfl,
        (List.suffix_cons _ _).trans (broadcast_log env _ _ 0 s.viewers _).suffix⟩

end Wrapper

end G2mirror
