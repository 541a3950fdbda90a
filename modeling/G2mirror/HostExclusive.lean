import G2mirror.HostRole
import Mathlib.Data.List.Nodup

/-!
# One holder of the host role

At most one connected client holds the host role, at every point of an event.
Only an accepted claim can add a holder: it comes while nobody holds the role,
or by force, and then every earlier holder is dead before the claimant joins.
All else loses holders at most, and what happens between two claims loses one
only with a message to it that fails.
-/

namespace G2mirror

open Relation
open scoped List

variable {vt : Vt100}

/-- The ids of the connected clients that hold the host role. -/
def holderIds (cs : List Client) : List ℕ := (cs.filter Client.isHost).map Client.id

theorem mem_holderIds {cs : List Client} {id : ℕ} :
    id ∈ holderIds cs ↔ ∃ c ∈ cs, c.isHost = true ∧ c.id = id := by
  unfold holderIds
  simp [and_assoc]

theorem isHost_die (c : Client) : c.die.isHost = false := by simp [Client.isHost]

theorem holderIds_cons (c : Client) (cs : List Client) :
    holderIds (c :: cs) = if c.isHost then c.id :: holderIds cs else holderIds cs := by
  unfold holderIds
  rw [List.filter_cons]
  split
  · exact List.map_cons
  · rfl

@[simp] theorem holderIds_append (cs cs' : List Client) :
    holderIds (cs ++ cs') = holderIds cs ++ holderIds cs' := by
  unfold holderIds
  rw [List.filter_append, List.map_append]

/-- The dead hold nothing. -/
theorem holderIds_filter_alive (cs : List Client) :
    holderIds (cs.filter fun c => !c.dead) = holderIds cs := by
  unfold holderIds
  rw [List.filter_filter]
  congr 2
  funext c
  unfold Client.isHost
  cases c.dead <;> simp

/-- Nobody gets the host role by somebody's death. -/
theorem Outlived.holderIds {cs cs' : List Client} (h : Outlived cs cs') :
    holderIds cs' <+ holderIds cs := by
  induction h with
  | nil => exact .refl _
  | @cons c c' cs cs' hc _ ih =>
    rw [holderIds_cons, holderIds_cons]
    rcases hc with rfl | rfl
    · split
      · exact ih.cons_cons _
      · exact ih
    · rw [isHost_die, if_neg Bool.false_ne_true]
      split
      · exact ih.cons _
      · exact ih

/-- Who is there afterwards was there before. -/
theorem Outlived.origin {cs cs' : List Client} (h : Outlived cs cs') {c' : Client}
    (hc' : c' ∈ cs') : ∃ c ∈ cs, c'.id = c.id ∧ c'.role = c.role := by
  induction h with
  | nil => exact absurd hc' List.not_mem_nil
  | @cons d d' _ _ hd _ ih =>
    rcases List.mem_cons.mp hc' with rfl | hc'
    · rcases hd with rfl | rfl
      · exact ⟨c', List.mem_cons_self, rfl, rfl⟩
      · exact ⟨d, List.mem_cons_self, rfl, rfl⟩
    · obtain ⟨c, hc, hsame⟩ := ih hc'
      exact ⟨c, List.mem_cons_of_mem d hc, hsame⟩

/-- A client that is changed, but neither its id nor its role, and stays connected. -/
theorem holderIds_set {cs : List Client} {i : ℕ} {c c' : Client} (hc : cs[i]? = some c)
    (hid : c'.id = c.id) (hhost : c'.isHost = c.isHost) :
    holderIds (cs.set i c') = holderIds cs := by
  induction cs generalizing i with
  | nil => rfl
  | cons d cs ih =>
    cases i with
    | zero =>
      obtain rfl : d = c := Option.some.inj hc
      rw [List.set_cons_zero, holderIds_cons, holderIds_cons, hid, hhost]
    | succ i => rw [List.set_cons_succ, holderIds_cons, holderIds_cons, ih hc]

/-- What a broadcast adds to the log has a failed message to each client that died of it. -/
theorem broadcast_deaths (env : Env) (msg : FromSession) (wanted : ℕ → Client → Bool) (i : ℕ)
    (cs : List Client) (log : Log) :
    ∃ new, (broadcast env msg wanted i cs log).log = new ++ log ∧
      List.Forall₂ (fun c c' => c' = c ∨ c' = c.die ∧ Obs.sent c msg false ∈ new) cs
        (broadcast env msg wanted i cs log).clients := by
  induction cs generalizing i log with
  | nil => exact ⟨[], rfl, .nil⟩
  | cons c cs ih =>
    rw [broadcast]
    split
    · obtain ⟨new, hnew, hclients⟩ := ih (i + 1) (env.send c msg log)
      have hlater := hclients.imp fun d d' => Or.imp_right fun h =>
        And.intro h.1 (List.mem_append_left [.sent c msg (env.succeeds log)] h.2)
      refine ⟨new ++ [.sent c msg (env.succeeds log)], ?_, ?_⟩
      · rw [List.append_assoc]
        split <;> exact hnew
      · by_cases hok : env.succeeds log = true
        · rw [if_pos hok]
          exact .cons (.inl rfl) hlater
        · rw [if_neg hok]
          refine .cons (.inr ⟨rfl, ?_⟩) hlater
          rw [Bool.not_eq_true] at hok
          simp [hok]
    · obtain ⟨new, hnew, hclients⟩ := ih (i + 1) log
      exact ⟨new, hnew, .cons (.inl rfl) hclients⟩

/-- Who lost the host role by such deaths was sent a message that failed. -/
theorem sent_of_holder_lost {msg : FromSession} {new : Log} {cs cs' : List Client}
    (h : List.Forall₂ (fun c c' => c' = c ∨ c' = c.die ∧ Obs.sent c msg false ∈ new) cs cs')
    {id : ℕ} (hheld : id ∈ holderIds cs) (hgone : id ∉ holderIds cs') :
    ∃ c msg, c.id = id ∧ Obs.sent c msg false ∈ new := by
  induction h with
  | nil => exact absurd hheld List.not_mem_nil
  | @cons c c' cs cs' hc _ ih =>
    rw [holderIds_cons] at hheld hgone
    rcases hc with rfl | ⟨rfl, hsent⟩
    · split at hheld
      · rename_i hhost
        rw [if_pos hhost, List.mem_cons, not_or] at hgone
        exact ih ((List.mem_cons.mp hheld).resolve_left hgone.1) hgone.2
      · rename_i hother
        rw [if_neg hother] at hgone
        exact ih hheld hgone
    · rw [isHost_die, if_neg Bool.false_ne_true] at hgone
      by_cases hid : c.id = id
      · exact ⟨c, msg, hid, hsent⟩
      · apply ih _ hgone
        split at hheld
        · exact (List.mem_cons.mp hheld).resolve_left (Ne.symm hid)
        · exact hheld

namespace Stage

/-- The ids of the connected clients that hold the host role. -/
def holders (s : Stage vt) : List ℕ := holderIds s.viewers

theorem holders_sublist {s s' : Stage vt} (h : s'.viewers = s.viewers) :
    s'.holders <+ s.holders := by
  unfold holders
  rw [h]

/-- From the first stage to the second nobody got the host role, and who lost it
was lost by a message that failed. -/
structure Spares (s s' : Stage vt) : Prop where
  holders : s'.holders <+ s.holders
  lost : ∃ new, s'.log = new ++ s.log ∧
    ∀ id ∈ s.holders, id ∉ s'.holders → ∃ c msg, c.id = id ∧ Obs.sent c msg false ∈ new

theorem Spares.trans {s s' s'' : Stage vt} (h : s.Spares s') (h' : s'.Spares s'') :
    s.Spares s'' := by
  obtain ⟨new, hnew, hlost⟩ := h.lost
  obtain ⟨new', hnew', hlost'⟩ := h'.lost
  refine ⟨h'.holders.trans h.holders, new' ++ new, ?_, fun id hheld hgone => ?_⟩
  · rw [hnew', hnew, List.append_assoc]
  · by_cases hstill : id ∈ s'.holders
    · obtain ⟨c, msg, hid, hsent⟩ := hlost' id hstill hgone
      exact ⟨c, msg, hid, List.mem_append_left _ hsent⟩
    · obtain ⟨c, msg, hid, hsent⟩ := hlost id hheld hstill
      exact ⟨c, msg, hid, List.mem_append_right _ hsent⟩

/-- The same holders, and more in the log. -/
theorem spares_of_holders {s s' : Stage vt} (h : s'.holders = s.holders) (hlog : s.log <:+ s'.log) :
    s.Spares s' := by
  obtain ⟨new, hnew⟩ := hlog
  refine ⟨h ▸ .refl _, new, hnew.symm, fun id hheld hgone => ?_⟩
  rw [h] at hgone
  exact absurd hheld hgone

/-- Besides, nobody connected, and who stayed connected did not change. -/
structure Thins (s s' : Stage vt) : Prop extends Spares s s' where
  connected : ∀ c ∈ s'.viewers, c.dead = false → c ∈ s.viewers

theorem Thins.trans {s s' s'' : Stage vt} (h : s.Thins s') (h' : s'.Thins s'') : s.Thins s'' :=
  ⟨h.toSpares.trans h'.toSpares,
    fun c hc halive => h.connected c (h'.connected c hc halive) halive⟩

theorem thins_of_viewers {s s' : Stage vt} (h : s'.viewers = s.viewers)
    (hlog : s.log <:+ s'.log) : s.Thins s' :=
  ⟨spares_of_holders (congrArg holderIds h) hlog, fun _ hc _ => h ▸ hc⟩

/-- Telling the viewers something. -/
theorem tell_thins (s : Stage vt) (env : Env) (msg : FromSession)
    (wanted : ℕ → Client → Bool) : s.Thins (s.tell env msg wanted) := by
  obtain ⟨new, hnew, hclients⟩ := broadcast_deaths env msg wanted 0 s.viewers s.log
  have hdied := s.tell_outlived env msg wanted
  constructor
  · exact ⟨hdied.holderIds, new, hnew, fun _ => sent_of_holder_lost hclients⟩
  · exact fun _ => hdied.mem_of_alive

theorem announceHost_thins (s : Stage vt) (env : Env) : s.Thins (s.announceHost env) := by
  rcases s.announceHost_cases env with ⟨-, hsame⟩ | ⟨monitor, log, hlog, htold⟩
  · rw [hsame]
    exact thins_of_viewers rfl List.suffix_rfl
  · rw [htold]
    refine Thins.trans ?_ (tell_thins _ env _ _)
    exact thins_of_viewers rfl hlog.suffix

theorem removeDead_thins (s : Stage vt) : s.Thins s.removeDead :=
  ⟨spares_of_holders (holderIds_filter_alive s.viewers) List.suffix_rfl,
    fun _ hc _ => List.mem_of_mem_filter hc⟩

theorem refreshView_thins {s s' : Stage vt} {env : Env} {headless : Bool} {hostRank : ℕ}
    {forceFor : Option ℕ} {error : Option String}
    (hresult : s.refreshView env headless hostRank forceFor = (error, s')) : s.Thins s' := by
  rcases s.refreshView_cases env headless hostRank forceFor with
    ⟨h, -⟩ | ⟨h, -⟩ | ⟨rows, cols, -, ⟨h, -⟩ | ⟨error', t, ht, ⟨-, h⟩ | ⟨-, msg, -, h⟩⟩⟩
  · cases hresult.symm.trans h
    exact thins_of_viewers rfl List.suffix_rfl
  · obtain ⟨hviewers, -, hlog, -⟩ := endView_frame (h.symm.trans hresult)
    exact thins_of_viewers hviewers hlog.suffix
  · cases hresult.symm.trans h
    exact thins_of_viewers rfl List.suffix_rfl
  · cases hresult.symm.trans h
    obtain ⟨hviewers, -, hlog, -⟩ := startView_frame ht
    exact thins_of_viewers hviewers hlog.suffix
  · cases hresult.symm.trans h
    obtain ⟨hviewers, -, hlog, -⟩ := startView_frame ht
    exact (thins_of_viewers hviewers hlog.suffix).trans (t.tell_thins env _ _)

/-- Every pass of a sweep, and the whole sweep. -/
theorem sweepLoop_thins {env : Env} {headless : Bool} {hostRank fuel : ℕ} {s s' : Stage vt}
    {error : Option String} (h : sweepLoop env headless hostRank fuel s = (error, s')) :
    s.Thins s' := by
  induction fuel generalizing s with
  | zero =>
    cases h
    exact thins_of_viewers rfl List.suffix_rfl
  | succ fuel ih =>
    rw [sweepLoop] at h
    cases hpass : ((s.announceHost env).removeDead).refreshView env headless hostRank none with
    | mk failed t =>
      have ht := ((s.announceHost_thins env).trans (removeDead_thins _)).trans
        (refreshView_thins hpass)
      rw [hpass] at h
      cases failed with
      | some failed =>
        cases h
        exact ht
      | none =>
        dsimp only at h
        split at h
        · cases h
          exact ht
        · exact ht.trans (ih h)

end Stage

namespace Wrapper

variable {env : Env} {config : Config} {w w' : Wrapper vt}

/-- A sweep that returns leaves only connected clients, who were connected before. -/
theorem sweep_thins (h : w.sweep env config = some w') :
    w.toStage.Thins w'.toStage ∧ ∀ c ∈ w'.viewers, c.dead = false := by
  obtain ⟨s, hswept, rfl⟩ := proceed_eq_some.mp h
  obtain ⟨-, -, -, halive⟩ := Stage.sweepAndRefresh_cases hswept
  exact ⟨Stage.sweepLoop_thins hswept, halive⟩

theorem streamTitle_holders (s : Stage vt) (env : Env) (title : Option String) :
    (streamTitle s env title).2.holders <+ s.holders := by
  unfold streamTitle
  cases title with
  | none => exact .refl _
  | some title =>
    have hmsg : (FromSession.title title).IsAside := trivial
    let told := s.tellMonitor env (.title title)
    have hdied := broadcast_outlived env (.title title) (fun _ _ => true) 0 told.viewers told.log
    exact hdied.holderIds.trans
      (congrArg holderIds (s.tellMonitor_aside env hmsg).viewers ▸ .refl _)

/-- Handling a viewer's message gives nobody the host role. -/
theorem handleViewerMessage_holders {s : Stage vt} {i : ℕ} {c : Client} (env : Env)
    (config : Config) (hostRank : ℕ) (msg : ToSession) (now : ℕ → ℕ) (queue : InputQueue)
    (hc : s.viewers[i]? = some c) :
    (s.handleViewerMessage env config hostRank msg i c now queue).2.1.holders <+ s.holders := by
  have hset (c' : Client) (hid : c'.id = c.id) (hhost : c'.isHost = c.isHost)
      (forceFor : Option ℕ) :
      ((s.withViewers (s.viewers.set i c')).refreshView env config.headless hostRank
        forceFor).2.holders <+ s.holders := by
    have hsame : (s.withViewers (s.viewers.set i c')).holders = s.holders :=
      holderIds_set hc hid hhost
    have hrefreshed : (s.withViewers (s.viewers.set i c')).Thins
        ((s.withViewers (s.viewers.set i c')).refreshView env config.headless hostRank
          forceFor).2 := Stage.refreshView_thins rfl
    exact hsame ▸ hrefreshed.holders
  cases msg with
  | init init => exact .refl _
  | monitor version => exact .refl _
  | resize width height =>
    unfold Stage.handleViewerMessage
    dsimp only
    split
    · exact hset { c with width := width, height := height } rfl rfl none
    · exact .refl _
  | input data delays =>
    unfold Stage.handleViewerMessage
    dsimp only
    split
    · exact .refl _
    · split
      · exact .refl _
      · split
        · exact .refl _
        · split
          · exact .refl _
          · exact .refl _
  | view => exact hset { c with state := .viewing } rfl rfl (some i)
  | history before limit => exact .refl _
  | unview =>
    unfold Stage.handleViewerMessage
    dsimp only
    split
    · exact hset { c with state := .ready } rfl rfl none
    · exact .refl _

/-- A takeover leaves nobody with the host role. -/
theorem displaceHosts_dead (env : Env) (cs : List Client) (log : Log) :
    ∀ c ∈ (displaceHosts env cs log).1, c.role = .host → c.dead = true := by
  induction cs generalizing log with
  | nil => exact fun _ hc => absurd hc List.not_mem_nil
  | cons c cs ih =>
    rw [displaceHosts]
    split
    · intro d hd hhost
      rcases List.mem_cons.mp hd with rfl | hd
      · exact c.die_dead
      · exact ih _ d hd hhost
    · rename_i hother
      intro d hd hhost
      rcases List.mem_cons.mp hd with rfl | hd
      · exact absurd hhost hother
      · exact ih _ d hd hhost

/-- An accepted init of a viewer adds no holder, and takes none away. -/
theorem acceptInit_spares (env : Env) {init : Init} (hrole : init.role = .viewer) (p : Client) :
    w.toStage.Spares (w.acceptInit env init p).toStage := by
  have hclient : holderIds [Init.client init p] = [] := by
    simp [holderIds, Client.isHost, Init.client, hrole]
  unfold acceptInit
  rw [if_neg (by simp [hrole])]
  cases w.mirror.title with
  | none => exact Stage.spares_of_holders (by simp [Stage.holders, hclient]) List.suffix_rfl
  | some title =>
    refine Stage.spares_of_holders ?_ (List.suffix_cons _ _)
    unfold Stage.holders
    dsimp only
    split
    · rw [holderIds_append, hclient, List.append_nil]
    · rfl

/-- An accepted claim finds every earlier holder dead, and adds the claimant at most. -/
theorem acceptInit_viewers (env : Env) {init : Init} (hrole : init.role = .host) (p : Client) :
    ∃ cs, Outlived w.viewers cs ∧ (∀ c ∈ cs, c.role = .host → c.dead = true) ∧
      (w.acceptInit env init p).viewers <+ cs ++ [Init.client init p] := by
  let kept :=
    if init.role = .host ∧ w.viewers.any Client.isHost then displaceHosts env w.viewers w.log
    else (w.viewers, w.log)
  have hkept : Outlived w.viewers kept.1 ∧ ∀ c ∈ kept.1, c.role = .host → c.dead = true := by
    unfold kept
    split
    · exact ⟨(displaceHosts_outlived env w.viewers w.log).1, displaceHosts_dead env _ _⟩
    · rename_i hfree
      refine ⟨.refl _, fun c hc hhost => ?_⟩
      by_contra halive
      apply hfree
      refine ⟨hrole, List.any_eq_true.mpr ⟨c, hc, ?_⟩⟩
      simpa [Client.isHost, hhost] using halive
  refine ⟨kept.1, hkept.1, hkept.2, ?_⟩
  unfold acceptInit
  cases w.mirror.title with
  | none => exact .refl _
  | some title =>
    change (if env.succeeds kept.2 then kept.1 ++ [Init.client init p] else kept.1) <+ _
    split
    · exact .refl _
    · exact List.sublist_append_left _ _

/-- After an accepted claim at most the claimant holds the host role. -/
theorem acceptInit_holders (env : Env) {init : Init} (hrole : init.role = .host) (p : Client) :
    (w.acceptInit env init p).holders <+ [p.id] := by
  obtain ⟨cs, -, hdead, hviewers⟩ := w.acceptInit_viewers env hrole p
  have hnone : holderIds cs = [] := by
    refine List.eq_nil_iff_forall_not_mem.mpr fun id hid => ?_
    obtain ⟨c, hc, hhost, -⟩ := mem_holderIds.mp hid
    have halive := Client.alive_of_isHost hhost
    unfold Client.isHost at hhost
    simp only [Bool.and_eq_true, decide_eq_true_eq] at hhost
    rw [hdead c hc hhost.2] at halive
    cases halive
  have hclient : holderIds [Init.client init p] <+ [p.id] :=
    List.filter_sublist.map Client.id
  have hsub : (w.acceptInit env init p).holders <+ holderIds (cs ++ [Init.client init p]) :=
    (hviewers.filter _).map _
  rw [holderIds_append, hnone, List.nil_append] at hsub
  exact hsub.trans hclient

/-- After an accepted claim every earlier holder is dead. -/
theorem acceptInit_dead (hids : (w.viewers.map Client.id).Nodup) {init : Init}
    (hrole : init.role = .host) {p c d : Client} (hc : c ∈ w.viewers) (hhost : c.isHost = true)
    (hp : p.id ≠ c.id) (hd : d ∈ (w.acceptInit env init p).viewers) (hid : d.id = c.id) :
    d.dead = true := by
  obtain ⟨cs, hdied, hdead, hviewers⟩ := w.acceptInit_viewers env hrole p
  rcases List.mem_append.mp (hviewers.subset hd) with hd | hd
  · obtain ⟨c', hc', hid', hrole'⟩ := hdied.origin hd
    obtain rfl : c' = c := List.inj_on_of_nodup_map hids hc' hc (hid'.symm.trans hid)
    apply hdead d hd
    unfold Client.isHost at hhost
    simp only [Bool.and_eq_true, decide_eq_true_eq] at hhost
    exact hrole'.trans hhost.2
  · rw [List.mem_singleton.mp hd] at hid
    exact absurd hid hp

/-- A claim is accepted only on a headless session. -/
theorem headless_of_claim {init : Init} (hrole : init.role = .host)
    (h : w.refusal config init = none) : config.headless = true := by
  unfold refusal at h
  split_ifs at h with _ _ hhosted
  simpa [hrole] using hhosted

/-- A message from a viewer gives nobody the host role. -/
theorem onViewerMessage_holders {i : ℕ} {received : Received} {now : ℕ → ℕ}
    (h : w.onViewerMessage env config i received now = some w') : w'.holders <+ w.holders := by
  unfold onViewerMessage at h
  cases hc : w.viewers[i]? with
  | none => rw [hc] at h; cases h
  | some c =>
    rw [hc] at h
    dsimp only at h
    split at h
    · exact (sweep_thins h).1.holders.trans (outlived_modify w.viewers i).holderIds
    · rename_i msg
      have hhandled := handleViewerMessage_holders env config w.hostRank msg now w.inputQueue hc
      generalize w.toStage.handleViewerMessage env config w.hostRank msg i c now w.inputQueue =
        result at h hhandled
      obtain ⟨error, s, queue⟩ := result
      have hswept := (sweep_thins h).1.holders
      cases error with
      | none => exact hswept.trans hhandled
      | some error =>
        refine (hswept.trans ?_).trans hhandled
        change (dropViewer s env i error).holders <+ s.holders
        unfold dropViewer
        split
        · exact .refl _
        · exact (outlived_modify s.viewers i).holderIds

/-- Child output gives nobody the host role. -/
theorem onOutput_holders {bytes : Bytes} {rung wrote : Clock}
    (h : w.onOutput env config bytes rung wrote = some w') : w'.holders <+ w.holders := by
  obtain ⟨w₁, remote, title, hreports, hcases⟩ := onOutput_cases h
  have hstreamed : (streamTitle (streamOutput w₁.toStage env remote).2 env title).2.holders <+
      w.holders := by
    exact (streamTitle_holders _ env title).trans
      ((streamOutput_outlived w₁.toStage env remote).1.holderIds.trans
        (Stage.holders_sublist hreports.stage.viewers))
  rcases hcases with ⟨-, -, rfl⟩ | hsweep
  · exact hstreamed
  · exact (sweep_thins hsweep).1.holders.trans hstreamed

/-- An init gives nobody but its client the host role, and that only if it is an accepted claim. -/
theorem onPendingMessage_holders {i : ℕ} {received : Received}
    (h : w.onPendingMessage env config i received = some w') :
    w'.holders <+ w.holders ∨
      config.headless = true ∧ ∃ p, w.pendings[i]? = some p ∧ w'.holders <+ [p.id] := by
  unfold onPendingMessage at h
  cases hp : w.pendings[i]? with
  | none => rw [hp] at h; cases h
  | some p =>
    rw [hp] at h
    dsimp only at h
    split at h
    · rename_i init
      split at h
      · exact .inl (sweep_thins h).1.holders
      · rename_i haccepted
        have hswept := (sweep_thins h).1.holders
        cases hrole : init.role with
        | viewer => exact .inl (hswept.trans (acceptInit_spares env hrole p).holders)
        | host => exact .inr ⟨headless_of_claim hrole haccepted, p, rfl,
            hswept.trans (acceptInit_holders env hrole p)⟩
    · split at h
      · split at h
        · cases h
          exact .inl (.refl _)
        · cases h
          exact .inl (Stage.holders_sublist
            (Stage.tellMonitor_aside _ env (by exact trivial)).viewers)
      · cases h
        exact .inl (.refl _)
    · cases h
      exact .inl (.refl _)
    · cases h
      exact .inl (.refl _)

/-- At most one connected client holds the host role, and none if there is a
real host terminal. -/
structure Exclusive (config : Config) (s : Stage vt) : Prop where
  one : s.holders.length ≤ 1
  hosted : config.headless = false → s.holders = []

theorem Exclusive.of_sublist {s s' : Stage vt} (hs : Exclusive config s)
    (h : s'.holders <+ s.holders) : Exclusive config s' := by
  constructor
  · exact h.length_le.trans hs.one
  · intro hhosted
    rw [hs.hosted hhosted] at h
    exact List.sublist_nil.mp h

theorem exclusive_of_claim {s : Stage vt} {id : ℕ} (hheadless : config.headless = true)
    (h : s.holders <+ [id]) : Exclusive config s := by
  constructor
  · exact h.length_le
  · intro hhosted
    rw [hheadless] at hhosted
    cases hhosted

/-- Every event keeps the host role exclusive. -/
theorem Exclusive.step (hproper : w.Proper config) (hw : Exclusive config w.toStage)
    {event : Event} (h : step env config w event = some w') : Exclusive config w'.toStage := by
  cases event with
  | stdin bytes =>
    rw [Wrapper.step] at h
    split at h
    · rename_i hopen
      obtain ⟨s, hsteady, rfl⟩ := onStdin_steady (hproper.hosted hopen) h
      exact hw.of_sublist (Stage.holders_sublist (steadies_frame hsteady).1)
    · cases h
  | stdinEof =>
    rw [Wrapper.step] at h
    split at h
    · cases h
      exact hw
    · cases h
  | output bytes rung wrote => exact hw.of_sublist (onOutput_holders h)
  | bellDue now =>
    rw [Wrapper.step] at h
    split at h
    · cases h
    · cases h
      exact hw
    · cases h
      exact hw.of_sublist (Stage.holders_sublist
        (w.toStage.tellMonitor_aside env (by exact trivial)).viewers)
  | inputDue now =>
    rw [Wrapper.step] at h
    split at h
    · cases h
      exact hw.of_sublist (.refl _)
    · cases h
  | winch size =>
    rw [Wrapper.step] at h
    split at h
    · cases h
    · unfold onWinch at h
      dsimp only at h
      split at h
      · cases h
      · rename_i s₀ happlied
        exact hw.of_sublist ((sweep_thins h).1.holders.trans
          (Stage.holders_sublist (Stage.hostResized_frame happlied).1))
  | accept size =>
    cases h
    exact hw.of_sublist (.refl _)
  | pendingMessage i received =>
    rcases onPendingMessage_holders h with hkept | ⟨hheadless, p, -, hclaimed⟩
    · exact hw.of_sublist hkept
    · exact exclusive_of_claim hheadless hclaimed
  | viewerMessage i received now => exact hw.of_sublist (onViewerMessage_holders h)
  | monitorMessage received =>
    unfold Wrapper.step at h
    dsimp only at h
    split at h
    · split at h
      · cases h
        exact hw
      · cases h
        exact hw.of_sublist (.refl _)
    · cases h

/-- In every reachable state the host role is exclusive. -/
theorem session_exclusive {events : List Event} (h : session vt env config events = some w) :
    Exclusive config w.toStage := by
  obtain ⟨w₀, hstart, hrun⟩ := session_eq_some.mp h
  have hnone : w₀.holders = [] := by
    unfold Stage.holders
    rw [(start_begins hstart).viewers]
    rfl
  have hinv := Machine.run_invariant
    (I := fun v : Wrapper vt => v.Proper config ∧ Exclusive config v.toStage)
    (fun v event v' hv hstep => ⟨hv.1.step hstep, hv.2.step hv.1 hstep⟩)
    ⟨start_proper hstart, by simp [hnone], fun _ => hnone⟩ hrun
  exact hinv.2

/-- Exclusiveness of the host role. In every reachable state at most one
connected client holds it, and none does if there is a real host terminal. An
init that is not a claim by force gives a role that is held to nobody, and
takes it from nobody but by a message to the holder that fails. An accepted
claim finds every earlier holder dead, at once and after the sweep. -/
theorem host_role_exclusive {events : List Event}
    (hsession : session vt env config events = some w) :
    Exclusive config w.toStage ∧
      ∀ i p init, w.pendings[i]? = some p →
        (w.holders ≠ [] → ¬ (init.role = .host ∧ init.force = true) →
          ∀ w', w.onPendingMessage env config i (.message (.init init)) = some w' →
            w.toStage.Spares w'.toStage) ∧
        (init.role = .host → w.refusal config init = none →
          Exclusive config ((w.forget i).acceptInit env init p).toStage ∧
          ∀ c ∈ w.viewers, c.isHost = true →
            (∀ d ∈ ((w.forget i).acceptInit env init p).viewers, d.id = c.id → d.dead = true) ∧
            ∀ w', w.onPendingMessage env config i (.message (.init init)) = some w' →
              w'.holders <+ [p.id] ∧ ∀ d ∈ w'.viewers, d.id ≠ c.id) := by
  have hproper := session_proper hsession
  refine ⟨session_exclusive hsession, fun i p init hp => ⟨?_, ?_⟩⟩
  · intro hheld hunforced w' h
    unfold onPendingMessage at h
    rw [hp] at h
    dsimp only at h
    split at h
    · rename_i message _
      have hdismissed : w.toStage.Spares ((w.forget i).dismiss env p message).toStage :=
        Stage.spares_of_holders rfl (List.suffix_cons _ _)
      exact hdismissed.trans (sweep_thins h).1.toSpares
    · rename_i haccepted
      cases hrole : init.role with
      | viewer =>
        have haccept := (w.forget i).acceptInit_spares env hrole p
        exact haccept.trans (sweep_thins h).1.toSpares
      | host =>
        obtain ⟨id, hid⟩ := List.exists_mem_of_ne_nil _ hheld
        obtain ⟨c, hc, hhost, -⟩ := mem_holderIds.mp hid
        have htaken : w.viewers.any Client.isHost = true := List.any_eq_true.mpr ⟨c, hc, hhost⟩
        unfold refusal at haccepted
        split_ifs at haccepted with _ _ _ hrefused
        rw [hrole] at hunforced
        exact absurd ⟨hrole, htaken, by simpa using hunforced⟩ hrefused
  · intro hrole haccepted
    have hclaimed := (w.forget i).acceptInit_holders env hrole p
    refine ⟨exclusive_of_claim (headless_of_claim hrole haccepted) hclaimed, ?_⟩
    intro c hc hhost
    obtain ⟨hids, -, hdisjoint⟩ := List.nodup_append.mp hproper.ids
    have hother : p.id ≠ c.id := (hdisjoint c.id (List.mem_map_of_mem hc) p.id
      (List.mem_map_of_mem (List.mem_of_getElem? hp))).symm
    have hdead : ∀ d ∈ ((w.forget i).acceptInit env init p).viewers, d.id = c.id →
        d.dead = true := fun d => acceptInit_dead hids hrole hc hhost hother
    refine ⟨hdead, fun w' h => ?_⟩
    have hrefusal : (w.forget i).refusal config init = none := haccepted
    unfold onPendingMessage at h
    rw [hp] at h
    dsimp only at h
    rw [hrefusal] at h
    obtain ⟨hthins, halive⟩ := sweep_thins h
    refine ⟨hthins.holders.trans hclaimed, fun d hd hid => ?_⟩
    have hconnected := halive d hd
    rw [hdead d (hthins.connected d hd hconnected) hid] at hconnected
    cases hconnected

/-- A second client takes the role over by force. -/
theorem host_role_exclusive_in_takeover :
    let init : Init := ⟨1, "attach", 4, 2, none, none, .host, true⟩
    ∃ w ∈ session asciiVt100 (.failingAt []) (smallConfig true) (attach false ++ [.accept none]),
      w.holders = [0] ∧ ∃ p ∈ w.pendings[0]?, ∃ w' ∈ w.onPendingMessage (.failingAt [])
        (smallConfig true) 0 (.message (.init init)),
        w'.holders = [1] ∧ Exclusive (smallConfig true) w.toStage ∧ w'.holders <+ [p.id] := by
  intro init
  obtain ⟨w, hsession, hheld, ⟨c, hc, hhost⟩, p, hp, haccepted, w', hw', hheld'⟩ :
      ∃ w ∈ session asciiVt100 (.failingAt []) (smallConfig true) (attach false ++ [.accept none]),
        w.holders = [0] ∧ (∃ c ∈ w.viewers, c.isHost = true) ∧ ∃ p ∈ w.pendings[0]?,
          w.refusal (smallConfig true) ⟨1, "attach", 4, 2, none, none, .host, true⟩ = none ∧
          ∃ w' ∈ w.onPendingMessage (.failingAt []) (smallConfig true) 0
            (.message (.init ⟨1, "attach", 4, 2, none, none, .host, true⟩)),
            w'.holders = [1] := by
    decide +kernel
  obtain ⟨hexclusive, hinit⟩ := host_role_exclusive hsession
  obtain ⟨-, hclaimed⟩ := (hinit 0 p init hp).2 rfl haccepted
  exact ⟨w, hsession, hheld, p, hp, w', hw', hheld', hexclusive,
    ((hclaimed c hc hhost).2 w' hw').1⟩

end Wrapper

end G2mirror
