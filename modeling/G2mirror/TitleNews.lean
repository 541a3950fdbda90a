import G2mirror.MonitorPicture
import G2mirror.WrapperLog

/-!
# Who knows the window title

A connection learns the window title from its greeting, and then from each `title`. Between two
events of the loop every viewer and the monitor know the title, whatever has happened.
-/

namespace G2mirror

variable {vt : Vt100}

/-- The title, as far as the message tells it. -/
def FromSession.title? : FromSession → Option (Option String)
  | .connect c => some c.title
  | .title text => some (some text)
  | _ => none

/-- An entry that tells nobody the title. -/
def Obs.Untitled : Obs → Prop
  | .sent _ msg _ => msg.title? = none
  | _ => True

/-- An entry that tells nobody of a title that there is. -/
def Obs.Unnamed : Obs → Prop
  | .sent _ msg _ => ∀ text, msg.title? ≠ some (some text)
  | _ => True

theorem Obs.Untitled.unnamed {o : Obs} (h : o.Untitled) : o.Unnamed := by
  cases o with
  | sent c msg ok =>
    intro text htext
    cases h.symm.trans htext
  | _ => trivial

theorem routine_untitled : Routine Obs.Untitled where
  sent := fun c msg ok h => by
    cases msg with
    | connect c => exact h.elim
    | title text => exact h.elim
    | _ => rfl
  hostWrote := fun _ _ => trivial

theorem viewing_untitled : Viewing Obs.Untitled where
  snapshot := fun _ _ _ _ _ _ => rfl
  ptyResized := fun _ _ _ => trivial
  viewStarted := fun _ _ _ => trivial

theorem streaming_untitled : Streaming Obs.Untitled := ⟨fun _ _ _ => rfl, fun _ => trivial⟩

theorem reporting_untitled : Reporting Obs.Untitled := ⟨fun _ _ _ => rfl, fun _ _ _ => rfl⟩

/-- Upkeep tells nobody the title. -/
theorem upkeep_untitled (env : Env) (config : Config) :
    Stage.Upkeep env config Obs.Untitled (@Stage.Keeps vt Obs.Untitled) :=
  Stage.upkeep_keeps routine_untitled viewing_untitled env config

namespace Log

/-- What the client with this id last learned about the title. -/
def knownTitle (id : ℕ) (log : Log) : Option (Option String) :=
  (log.sentTo id).findSome? fun said => if said.2 then said.1.title? else none

variable {id : ℕ} {log log' : Log}

theorem knownTitle_append (id : ℕ) (new log : Log) :
    knownTitle id (new ++ log) = (knownTitle id new).or (knownTitle id log) := by
  rw [knownTitle, sentTo_append, List.findSome?_append]
  rfl

/-- A message to a client tells nobody else the title. -/
theorem knownTitle_cons (id : ℕ) (c : Client) (msg : FromSession) (ok : Bool) (log : Log) :
    knownTitle id (.sent c msg ok :: log) =
      (if c.id = id ∧ ok then msg.title? else none).or (log.knownTitle id) := by
  have happend := knownTitle_append id [.sent c msg ok] log
  rw [List.singleton_append] at happend
  rw [happend]
  congr 1
  by_cases hid : c.id = id
  · cases ok <;> simp [knownTitle, sentTo, Obs.to?, hid]
  · simp [knownTitle, sentTo, Obs.to?, hid]

theorem knownTitle_of_untitled (h : Grows Obs.Untitled log log') :
    log'.knownTitle id = log.knownTitle id := by
  obtain ⟨new, rfl, hnew⟩ := h
  have hnone : knownTitle id new = none := by
    refine List.findSome?_eq_none_iff.mpr fun said hsaid => ?_
    obtain ⟨o, ho, hto⟩ := List.mem_filterMap.mp hsaid
    obtain ⟨msg, ok⟩ := said
    obtain ⟨c, rfl, -⟩ := Obs.to?_eq_some.mp hto
    have huntitled : msg.title? = none := hnew _ ho
    cases ok with
    | false => rfl
    | true => exact huntitled
  rw [knownTitle_append, hnone, Option.none_or]

/-- Whoever is told, or not told, what it knows already goes on knowing it. -/
theorem knownTitle_of_tries {title : String} {Q : Client → Prop}
    (h : Grows (Obs.Tries (.title title) Q) log log')
    (hknown : log.knownTitle id = some (some title)) :
    log'.knownTitle id = some (some title) := by
  obtain ⟨new, rfl, hnew⟩ := h
  induction new with
  | nil => exact hknown
  | cons o new ih =>
    have hrest := ih fun o' ho' => hnew o' (List.mem_cons_of_mem _ ho')
    obtain ⟨c, ok, -, rfl⟩ := hnew _ List.mem_cons_self
    rw [List.cons_append, knownTitle_cons, hrest]
    split <;> rfl

end Log

namespace Mirror

theorem takeTitleChange_title (m : Mirror vt) :
    m.takeTitleChange.2.title = m.takeTitleChange.1.or m.title := by
  unfold takeTitleChange
  split
  · rfl
  · dsimp only
    split <;> rfl

/-- A chunk sets the title that it reports, and leaves it alone if it reports none. -/
theorem process_title (m : Mirror vt) (bytes : Bytes) :
    (m.process bytes).2.title = (m.process bytes).1.title.or m.title := by
  have hsame : (m.processSlices bytes).title = m.title :=
    (m.foldl_processSlice_sameView (chunks processSliceSize bytes)).title
  have htaken := takeTitleChange_title (m.processSlices bytes).takeBells.2
  rw [show (m.processSlices bytes).takeBells.2.title = m.title from hsame] at htaken
  simp only [process]
  split
  · exact htaken
  · exact htaken

end Mirror

namespace Wrapper

variable {env : Env} {config : Config} {w w' : Wrapper vt}

/-- Viewers and the monitor know the title. A connection that still has to introduce itself has
been greeted, and if there is no title yet it was told so. -/
structure TitleKnown (w : Wrapper vt) : Prop where
  viewers : ∀ c ∈ w.viewers, c.dead = false → w.log.knownTitle c.id = some w.mirror.title
  monitor : ∀ m, w.monitor = some m →
    w.log.knownTitle m.id = some w.mirror.title ∧ m.id < w.nextClientId
  pendings : ∀ p ∈ w.pendings, ∃ title, w.log.knownTitle p.id = some title ∧
    (w.mirror.title = none → title = none)
  unnamed : w.mirror.title = none → ∀ o ∈ w.log, o.Unnamed

/-- Nobody is told of a title by entries that tell none. -/
theorem unnamed_of_grows {log log' : Log} (h : Log.Grows Obs.Untitled log log')
    (hlog : ∀ o ∈ log, o.Unnamed) : ∀ o ∈ log', o.Unnamed := by
  obtain ⟨new, rfl, hnew⟩ := h
  exact List.forall_mem_append.mpr ⟨fun o ho => (hnew o ho).unnamed, hlog⟩

theorem TitleKnown.of_keeps (hw : w.TitleKnown) (h : w.Keeps (Stage.Keeps Obs.Untitled) w') :
    w'.TitleKnown := by
  have hknown (id : ℕ) : w'.log.knownTitle id = w.log.knownTitle id :=
    Log.knownTitle_of_untitled h.stage.log
  refine ⟨fun c' hc' halive => ?_, fun m hm => ?_, fun p hp => ?_, fun hnone => ?_⟩
  · obtain ⟨c, hc, hid, hdead⟩ := h.stage.alive c' hc' halive
    rw [hknown, h.stage.title, ← hid, hw.viewers c hc hdead]
  · rcases h.stage.monitor with hsame | hnone
    · rw [hknown, h.stage.title, h.nextClientId]
      exact hw.monitor m (hsame.symm.trans hm)
    · rw [hnone] at hm
      cases hm
  · rw [h.pendings] at hp
    rw [hknown, h.stage.title]
    exact hw.pendings p hp
  · exact unnamed_of_grows h.stage.log (hw.unnamed (h.stage.title.symm.trans hnone))

/-- Telling the monitor the title. -/
theorem tellMonitor_title (s : Stage vt) (env : Env) (title : String) :
    ∀ m, (s.tellMonitor env (.title title)).monitor = some m →
      s.monitor = some m ∧
        (s.tellMonitor env (.title title)).log.knownTitle m.id = some (some title) := by
  intro m hm
  unfold Stage.tellMonitor at hm ⊢
  split at hm
  · rename_i hnone
    cases hnone.symm.trans hm
  · rename_i m' hm'
    dsimp only at hm ⊢
    split at hm
    · rename_i hok
      obtain rfl := Option.some.inj hm
      refine ⟨hm', ?_⟩
      rw [Env.send, Log.knownTitle_cons, hok, if_pos ⟨rfl, rfl⟩]
      rfl
    · cases hm

/-- Everyone who is alive after it knows a title that was reported. -/
theorem streamTitle_title (s : Stage vt) (env : Env) (title : String)
    (hids : (s.viewers.map Client.id).Nodup) :
    let s' := (streamTitle s env (some title)).2
    (∀ c ∈ s'.viewers, c.dead = false → s'.log.knownTitle c.id = some (some title)) ∧
      (∀ m, s'.monitor = some m →
        s.monitor = some m ∧ s'.log.knownTitle m.id = some (some title)) ∧
      (∀ id, (s.log.knownTitle id).isSome → (s'.log.knownTitle id).isSome) := by
  intro s'
  let told := s.tellMonitor env (.title title)
  have hbroadcast := broadcast_log env (.title title) (fun _ _ => true) 0 told.viewers told.log
  have hviewers : told.viewers = s.viewers := by
    unfold told Stage.tellMonitor
    split <;> rfl
  refine ⟨fun c hc halive => ?_, fun m hm => ?_, fun id hid => ?_⟩
  · obtain ⟨k, hk⟩ := List.mem_iff_getElem?.mp hc
    rw [← hviewers] at hids
    obtain ⟨-, new, hnew, hsent⟩ := broadcast_sentTo hids hk halive
    have hlog : s'.log = new ++ told.log := hnew
    rw [hlog, Log.knownTitle_append, Log.knownTitle, hsent, if_pos rfl]
    rfl
  · obtain ⟨hsame, hknown⟩ := tellMonitor_title s env title m hm
    exact ⟨hsame, Log.knownTitle_of_tries hbroadcast hknown⟩
  · obtain ⟨new, hnew, -⟩ := hbroadcast
    have hlog : s'.log = new ++ told.log := hnew
    have htold : ∃ first, told.log = first ++ s.log := by
      unfold told Stage.tellMonitor
      split
      · exact ⟨[], rfl⟩
      · exact ⟨[_], rfl⟩
    obtain ⟨first, hfirst⟩ := htold
    rw [hlog, hfirst, Log.knownTitle_append, Log.knownTitle_append, Option.isSome_or,
      Option.isSome_or, hid, Bool.or_true, Bool.or_true]

/-- Child output: a new title is reported to everyone. -/
theorem TitleKnown.output (hw : w.TitleKnown) (hproper : w.Proper config) {bytes : Bytes}
    {rung wrote : Clock} (h : w.onOutput env config bytes rung wrote = some w') :
    w'.TitleKnown := by
  obtain ⟨u, hu, hreported⟩ := onOutput_keeps (upkeep_untitled env config) routine_untitled
    reporting_untitled h
  let v := u.withStage (streamOutput u.toStage env (w.mirror.process bytes).1.remote).2
  have hv : (w.withStage (w.toStage.withMirror (w.mirror.process bytes).2)).Keeps
      (Stage.Keeps Obs.Untitled) v :=
    Keeps.trans (upkeep_untitled env config) (hu.mono Stage.Beside.keeps)
      (withStage_keeps (streamOutput_keeps streaming_untitled u.toStage env _))
  have htitle : v.mirror.title = (w.mirror.process bytes).1.title.or w.mirror.title :=
    hv.stage.title.trans (w.mirror.process_title bytes)
  have hknown (id : ℕ) : v.log.knownTitle id = w.log.knownTitle id :=
    Log.knownTitle_of_untitled hv.stage.log
  have hmonitor (m : Client) (hm : v.monitor = some m) : w.monitor = some m := by
    rcases hv.stage.monitor with hsame | hnone
    · exact hsame.symm.trans hm
    · rw [hnone] at hm
      cases hm
  cases hnew : (w.mirror.process bytes).1.title with
  | none =>
    rw [hnew, Option.none_or] at htitle
    have hkept : v.TitleKnown := by
      refine ⟨fun c' hc' halive => ?_, fun m hm => ?_, fun p hp => ?_, fun hnone => ?_⟩
      · obtain ⟨c, hc, hid, hdead⟩ := hv.stage.alive c' hc' halive
        rw [hknown, htitle, ← hid, hw.viewers c hc hdead]
      · rw [hknown, htitle, hv.nextClientId]
        exact hw.monitor m (hmonitor m hm)
      · rw [hknown, htitle]
        exact hw.pendings p (hv.pendings ▸ hp)
      · exact unnamed_of_grows hv.stage.log (hw.unnamed (htitle.symm.trans hnone))
    rw [hnew] at hreported
    exact hkept.of_keeps hreported
  | some title =>
    rw [hnew, Option.some_or] at htitle
    rw [hnew] at hreported
    have hids : (v.viewers.map Client.id).Nodup :=
      (List.nodup_append.mp hproper.ids).1.sublist hv.stage.ids
    obtain ⟨hviewers, htold, hgreeted⟩ := streamTitle_title v.toStage env title hids
    have hmirror : (streamTitle v.toStage env (some title)).2.mirror = v.mirror := by
      have htold : (v.toStage.tellMonitor env (.title title)).mirror = v.mirror := by
        unfold Stage.tellMonitor
        split <;> rfl
      exact htold
    have hpending (p : Client) (hp : p ∈ v.pendings) : (v.log.knownTitle p.id).isSome := by
      obtain ⟨known, hp, -⟩ := hw.pendings p (hv.pendings ▸ hp)
      rw [hknown, hp]
      rfl
    have hset : (streamTitle v.toStage env (some title)).2.mirror.title = some title := by
      rw [hmirror, htitle]
    refine TitleKnown.of_keeps ⟨fun c hc halive => ?_, fun m hm => ?_, fun p hp => ?_,
      fun hnone => absurd (hset.symm.trans hnone) (Option.some_ne_none title)⟩ hreported
    · exact (hviewers c hc halive).trans (congrArg some hset.symm)
    · obtain ⟨hsame, hm⟩ := htold m hm
      refine ⟨hm.trans (congrArg some hset.symm), ?_⟩
      have hless : m.id < w.nextClientId := (hw.monitor m (hmonitor m hsame)).2
      exact hless.trans_eq hv.nextClientId.symm
    · obtain ⟨known, hp⟩ := Option.isSome_iff_exists.mp (hgreeted p.id (hpending p hp))
      exact ⟨known, hp, fun hnone => nomatch hset.symm.trans hnone⟩

/-- A new connection is greeted with the title. -/
theorem TitleKnown.accept (hw : w.TitleKnown) (hproper : w.Proper config) (size : Option (ℕ × ℕ)) :
    (w.onAccept env config size).TitleKnown := by
  have hother {id : ℕ} (hid : id < w.nextClientId) :
      (w.onAccept env config size).log.knownTitle id = w.log.knownTitle id := by
    unfold onAccept Env.send
    rw [Log.knownTitle_cons, if_neg fun h => Nat.ne_of_gt hid h.1, Option.none_or]
  have hfresh (c : Client) (hc : c ∈ w.viewers ∨ c ∈ w.pendings) : c.id < w.nextClientId := by
    refine hproper.fresh _ (List.mem_append.mpr ?_)
    exact hc.imp List.mem_map_of_mem List.mem_map_of_mem
  refine ⟨fun c hc halive => ?_, fun m hm => ?_, fun p hp => ?_, fun hnone => ?_⟩
  · rw [hother (hfresh c (.inl hc))]
    exact hw.viewers c hc halive
  · obtain ⟨hknown, hless⟩ := hw.monitor m hm
    rw [hother hless]
    exact ⟨hknown, Nat.lt_succ_of_lt hless⟩
  · have hold (hp : p ∈ w.pendings) := hw.pendings p hp
    have hpendings : (w.onAccept env config size).pendings =
        if env.succeeds w.log then w.pendings ++ [Client.new w.nextClientId] else w.pendings := rfl
    rw [hpendings] at hp
    split at hp
    · rename_i hok
      rcases List.mem_append.mp hp with hp | hp
      · rw [hother (hfresh p (.inr hp))]
        exact hold hp
      · rw [List.mem_singleton.mp hp]
        refine ⟨w.mirror.title, ?_, id⟩
        unfold onAccept Env.send
        rw [Log.knownTitle_cons, hok, if_pos ⟨rfl, rfl⟩]
        rfl
    · rw [hother (hfresh p (.inr hp))]
      exact hold hp
  · have hgreeting (text : String) :
        (FromSession.connect (w.greeting config size)).title? ≠ some (some text) := by
      intro htext
      cases hnone.symm.trans (Option.some.inj htext)
    exact List.forall_mem_cons.mpr ⟨hgreeting, hw.unnamed hnone⟩

/-- A connection is forgotten. -/
theorem TitleKnown.forget (hw : w.TitleKnown) (i : ℕ) : (w.forget i).TitleKnown :=
  ⟨hw.viewers, hw.monitor, fun p hp => hw.pendings p (List.mem_of_mem_eraseIdx hp), hw.unnamed⟩

/-- An accepted connection is told the title if there is one. -/
theorem TitleKnown.acceptInit (hw : w.TitleKnown) (init : Init) {p : Client}
    (hp : ∃ title, w.log.knownTitle p.id = some title ∧ (w.mirror.title = none → title = none)) :
    (w.acceptInit env init p).TitleKnown := by
  let kept :=
    if init.role = .host ∧ w.viewers.any Client.isHost then displaceHosts env w.viewers w.log
    else (w.viewers, w.log)
  have hkept : Outlived w.viewers kept.1 ∧ Log.Grows Obs.Untitled w.log kept.2 := by
    unfold kept
    split
    · exact ⟨(displaceHosts_outlived env w.viewers w.log).1,
        displaceHosts_log routine_untitled env w.viewers w.log⟩
    · exact ⟨.refl _, .refl _ _⟩
  obtain ⟨hdied, hlog⟩ := hkept
  have hknown (id : ℕ) : Log.knownTitle id kept.2 = w.log.knownTitle id :=
    Log.knownTitle_of_untitled hlog
  have hviewers (c : Client) (hc : c ∈ kept.1) (halive : c.dead = false) :
      w.log.knownTitle c.id = some w.mirror.title :=
    hw.viewers c (hdied.mem_of_alive hc halive) halive
  let client := Init.client init p
  have hclient (htitle : w.mirror.title = none) :
      w.log.knownTitle p.id = some w.mirror.title := by
    obtain ⟨known, hknown, hnone⟩ := hp
    rw [hknown, hnone htitle, htitle]
  unfold Wrapper.acceptInit
  cases htitle : w.mirror.title with
  | none =>
    refine ⟨fun c hc halive => ?_, fun m hm => ?_, fun q hq => ?_,
      fun hnone => unnamed_of_grows hlog (hw.unnamed hnone)⟩
    · refine (hknown c.id).trans ?_
      rcases List.mem_append.mp hc with hc | hc
      · exact hviewers c hc halive
      · rw [List.mem_singleton.mp hc]
        exact hclient htitle
    · exact ⟨(hknown m.id).trans (hw.monitor m hm).1, (hw.monitor m hm).2⟩
    · obtain ⟨known, hq, hnone⟩ := hw.pendings q hq
      exact ⟨known, (hknown q.id).trans hq, hnone⟩
  | some title =>
    have htold : Log.Grows (Obs.Tries (.title title) fun _ => True) kept.2
        (env.send client (.title title) kept.2) := .cons ⟨client, _, trivial, rfl⟩
    have hgoeson {id : ℕ} (h : w.log.knownTitle id = some w.mirror.title) :
        Log.knownTitle id (env.send client (.title title) kept.2) = some w.mirror.title := by
      rw [htitle] at h ⊢
      exact Log.knownTitle_of_tries htold ((hknown id).trans h)
    refine ⟨fun c hc halive => ?_, fun m hm => ?_, fun q hq => ?_,
      fun hnone => nomatch htitle.symm.trans hnone⟩
    · have hmem : c ∈ if env.succeeds kept.2 then kept.1 ++ [client] else kept.1 := hc
      by_cases hok : env.succeeds kept.2 = true
      · rw [if_pos hok] at hmem
        rcases List.mem_append.mp hmem with hold | hnew
        · exact hgoeson (hviewers c hold halive)
        · obtain rfl := List.mem_singleton.mp hnew
          have hsent : Log.knownTitle client.id (env.send client (.title title) kept.2) =
              some w.mirror.title := by
            rw [Env.send, Log.knownTitle_cons, hok, if_pos ⟨rfl, rfl⟩, htitle]
            rfl
          exact hsent
      · rw [if_neg hok] at hmem
        exact hgoeson (hviewers c hmem halive)
    · exact ⟨hgoeson (hw.monitor m hm).1, (hw.monitor m hm).2⟩
    · obtain ⟨known, hq, -⟩ := hw.pendings q hq
      have hsome : (Log.knownTitle q.id (env.send client (.title title) kept.2)).isSome := by
        rw [Env.send, Log.knownTitle_cons, Option.isSome_or, hknown, hq, Option.isSome_some,
          Bool.or_true]
      obtain ⟨known, hq⟩ := Option.isSome_iff_exists.mp hsome
      exact ⟨known, hq, fun hnone => nomatch htitle.symm.trans hnone⟩

/-- A new monitor is told the title if there is one. -/
theorem TitleKnown.monitors (hw : w.TitleKnown) {p : Client} (hless : p.id < w.nextClientId)
    {title : String} (htitle : w.mirror.title = some title) :
    (w.withStage (({ w.toStage with monitor := some p } : Stage vt).tellMonitor env
      (.title title))).TitleKnown := by
  have hmonitor := tellMonitor_title { w.toStage with monitor := some p } env title
  obtain ⟨m', log, htold, htries⟩ :=
    ({ w.toStage with monitor := some p } : Stage vt).tellMonitor_eq env (.title title)
  have hgoeson {id : ℕ} (h : w.log.knownTitle id = some w.mirror.title) :
      log.knownTitle id = some w.mirror.title := by
    rw [htitle] at h ⊢
    exact Log.knownTitle_of_tries htries h
  rw [htold] at hmonitor ⊢
  refine ⟨fun c hc halive => hgoeson (hw.viewers c hc halive), fun m hm => ?_, fun q hq => ?_,
    fun hnone => nomatch htitle.symm.trans hnone⟩
  · obtain ⟨hsame, hm⟩ := hmonitor m hm
    obtain rfl := Option.some.inj hsame
    exact ⟨hm.trans (congrArg some htitle.symm), hless⟩
  · obtain ⟨known, hq, -⟩ := hw.pendings q hq
    obtain ⟨new, hnew, -⟩ := htries
    have hsome : (log.knownTitle q.id).isSome := by
      rw [hnew, Log.knownTitle_append, Option.isSome_or, hq, Option.isSome_some, Bool.or_true]
    obtain ⟨known, hq⟩ := Option.isSome_iff_exists.mp hsome
    exact ⟨known, hq, fun hnone => nomatch htitle.symm.trans hnone⟩

/-- The first message of a connection. -/
theorem TitleKnown.pendingMessage (hw : w.TitleKnown) (hproper : w.Proper config) {i : ℕ}
    {received : Received} (h : w.onPendingMessage env config i received = some w') :
    w'.TitleKnown := by
  unfold onPendingMessage at h
  cases hp : w.pendings[i]? with
  | none => rw [hp] at h; cases h
  | some p =>
    rw [hp] at h
    dsimp only at h
    have hforgot := hw.forget i
    have hmem := List.mem_of_getElem? hp
    have hdismissed (message : String) :
        ((w.forget i).dismiss env p message).TitleKnown :=
      hforgot.of_keeps ((dismiss_beside routine_untitled _ env p message).mono Stage.Beside.keeps)
    split at h
    · rename_i init
      split at h
      · exact (hdismissed _).of_keeps (sweep_keeps (upkeep_untitled env config) h)
      · exact (hforgot.acceptInit init (hw.pendings p hmem)).of_keeps
          (sweep_keeps (upkeep_untitled env config) h)
    · rename_i version
      split at h
      · have hless : p.id < w.nextClientId :=
          hproper.fresh _ (List.mem_append_right _ (List.mem_map_of_mem hmem))
        obtain ⟨known, hknown, hnone⟩ := hw.pendings p hmem
        split at h
        · rename_i htitle
          cases h
          refine ⟨hforgot.viewers, ?_, hforgot.pendings, hforgot.unnamed⟩
          rintro m ⟨⟩
          exact ⟨hknown.trans (by rw [hnone htitle, htitle]), hless⟩
        · rename_i title htitle
          cases h
          exact hforgot.monitors hless htitle
      · cases h
        exact hdismissed _
    · cases h
      exact hdismissed _
    · cases h
      exact hforgot

/-- Every event keeps everyone informed of the title. -/
theorem TitleKnown.step (hw : w.TitleKnown) (hproper : w.Proper config) {event : Event}
    (h : step env config w event = some w') : w'.TitleKnown := by
  have htyping : Typing Obs.Untitled := fun _ _ => trivial
  cases event with
  | stdin bytes =>
    rw [Wrapper.step] at h
    split at h
    · exact hw.of_keeps (onStdin_keeps (upkeep_untitled env config) htyping h)
    · cases h
  | stdinEof =>
    rw [Wrapper.step] at h
    split at h
    · cases h
      exact ⟨hw.viewers, hw.monitor, hw.pendings, hw.unnamed⟩
    · cases h
  | output bytes rung wrote => exact hw.output hproper h
  | bellDue now =>
    rw [Wrapper.step] at h
    split at h
    · cases h
    · cases h
      exact hw
    · cases h
      exact hw.of_keeps ⟨(w.toStage.tellMonitor_beside env fun c ok =>
        reporting_untitled.bell c _ ok).keeps, rfl, rfl⟩
  | inputDue now =>
    have hpump := Stage.pump_beside htyping w.toStage env w.inputQueue now
    rw [Wrapper.step] at h
    split at h
    · rename_i hdone
      cases h
      rw [hdone] at hpump
      exact hw.of_keeps ⟨hpump.keeps, rfl, rfl⟩
    · cases h
  | winch size =>
    rw [Wrapper.step] at h
    split at h
    · cases h
    · exact hw.of_keeps (onWinch_keeps (upkeep_untitled env config) h)
  | accept size =>
    cases h
    exact hw.accept hproper size
  | pendingMessage i received => exact hw.pendingMessage hproper h
  | viewerMessage i received now =>
    exact hw.of_keeps
      (onViewerMessage_keeps (upkeep_untitled env config) (fun _ _ _ _ => htyping) h)
  | monitorMessage received =>
    unfold Wrapper.step at h
    dsimp only at h
    split at h
    · split at h
      · cases h
        exact hw
      · cases h
        exact ⟨hw.viewers, by simp, hw.pendings, hw.unnamed⟩
    · cases h

/-- Nobody has to be told of the title before the first event. -/
theorem start_titleKnown (h : start vt env config = some w) : w.TitleKnown := by
  have hbegins := start_begins h
  have hmonitor := start_monitor h
  refine ⟨fun c hc => ?_, fun m hm => ?_, fun p hp => ?_, fun hnone => ?_⟩
  · rw [hbegins.viewers] at hc
    exact absurd hc List.not_mem_nil
  · cases hmonitor.symm.trans hm
  · rw [hbegins.pendings] at hp
    exact absurd hp List.not_mem_nil
  · exact fun o ho => (start_log routine_untitled h o ho).unnamed

/-- Between two events of a run, what each viewer and the monitor last learned about the window
title is the title. -/
theorem everyone_knows_title {events : List Event} (hrun : session vt env config events = some w) :
    (∀ c ∈ w.viewers, w.log.knownTitle c.id = some w.mirror.title) ∧
      ∀ m, w.monitor = some m → w.log.knownTitle m.id = some w.mirror.title := by
  obtain ⟨w₀, hstart, hrun⟩ := session_eq_some.mp hrun
  have hinv := Machine.run_invariant (I := fun v : Wrapper vt => v.Proper config ∧ v.TitleKnown)
    (fun v event v' hv hstep => ⟨hv.1.step hstep, hv.2.step hv.1 hstep⟩)
    ⟨start_proper hstart, start_titleKnown hstart⟩ hrun
  exact ⟨fun c hc => hinv.2.viewers c hc (hinv.1.alive c hc),
    fun m hm => (hinv.2.monitor m hm).1⟩

/-- A session with a title, which a viewer and a monitor join. -/
theorem everyone_knows_title_of_two :
    ∃ w : Wrapper asciiVt100, w.viewers.length = 1 ∧ w.monitor.isSome ∧
      (∀ c ∈ w.viewers, w.log.knownTitle c.id = some (some "b")) ∧
      ∀ m, w.monitor = some m → w.log.knownTitle m.id = some (some "b") := by
  obtain ⟨w, hrun, hviewers, hmonitor, htitle⟩ :
      ∃ w ∈ session asciiVt100 (.failingAt []) { smallConfig true with title := some "b" }
        (joins ⟨1, "a", 4, 2, none, none, .viewer, false⟩ ++
          [.accept none, .pendingMessage 0 (.message (.monitor 1))]),
      w.viewers.length = 1 ∧ w.monitor.isSome ∧ w.mirror.title = some "b" := by
    decide +kernel
  obtain ⟨hknown, htold⟩ := everyone_knows_title hrun
  rw [htitle] at hknown htold
  exact ⟨w, hviewers, hmonitor, hknown, htold⟩

end Wrapper

end G2mirror
