import G2mirror.WrapperRuns
import Mathlib.Data.List.Nodup

/-!
# News of the host role

A client learns whether a headless session is detached from the greeting of its
connection, and then from each `host_changed`. Whatever the loop does, the
monitor and every viewer that is left afterwards were told what holds now, or
nothing has changed and they were told nothing.
-/

namespace G2mirror

open Relation
open scoped List

variable {vt : Vt100}

/-- Whether the session is detached, if the message says so. -/
def FromSession.detached? : FromSession → Option Bool
  | .connect c => some c.detached
  | .hostChanged attached => some !attached
  | _ => none

/-- What the client with this id learns here about whether the session is detached. -/
def Obs.picture? (id : ℕ) : Obs → Option Bool
  | .sent c msg true => if c.id = id then msg.detached? else none
  | _ => none

/-- What a greeting to the client with this id says here about whether the session is detached. -/
def Obs.greeting? (id : ℕ) : Obs → Option Bool
  | .sent c (.connect greeting) true => if c.id = id then some greeting.detached else none
  | _ => none

/-- An entry of the log that tells nobody whether the session is detached. -/
def Obs.Silent : Obs → Prop
  | .sent _ msg _ => msg.detached? = none
  | _ => True

theorem Obs.Silent.picture? {o : Obs} (h : o.Silent) (id : ℕ) : o.picture? id = none := by
  cases o with
  | sent c msg ok =>
    cases ok with
    | false => rfl
    | true =>
      change (if c.id = id then msg.detached? else none) = none
      split
      · exact h
      · rfl
  | _ => rfl

theorem Obs.Silent.greeting? {o : Obs} (h : o.Silent) (id : ℕ) : o.greeting? id = none := by
  cases o with
  | sent c msg ok =>
    cases msg with
    | connect greeting => cases h
    | _ => rfl
  | _ => rfl

namespace Log

/-- What the client with this id last learned about whether the session is detached. -/
def picture (id : ℕ) (log : Log) : Option Bool := log.findSome? (Obs.picture? id)

/-- Whether the session was detached by the greeting of the client with this id. -/
def greeted (id : ℕ) (log : Log) : Option Bool := log.findSome? (Obs.greeting? id)

variable {P : Obs → Prop} {log log' : Log} {id : ℕ}

theorem picture_of_grows (hP : ∀ o, P o → o.picture? id = none) (h : Grows P log log') :
    log'.picture id = log.picture id := by
  obtain ⟨new, rfl, hnew⟩ := h
  unfold picture
  rw [List.findSome?_append, List.findSome?_eq_none_iff.mpr fun o ho => hP o (hnew o ho),
    Option.none_or]

theorem greeted_of_grows (hP : ∀ o, P o → o.greeting? id = none) (h : Grows P log log') :
    log'.greeted id = log.greeted id := by
  obtain ⟨new, rfl, hnew⟩ := h
  unfold greeted
  rw [List.findSome?_append, List.findSome?_eq_none_iff.mpr fun o ho => hP o (hnew o ho),
    Option.none_or]

/-- Whoever is told, or not told, what it knows already goes on knowing it. -/
theorem picture_of_tries {attached : Bool} {Q : Client → Prop}
    (h : Grows (Obs.Tries (.hostChanged attached) Q) log log')
    (hknown : log.picture id = some !attached) : log'.picture id = some !attached := by
  obtain ⟨new, rfl, hnew⟩ := h
  induction new with
  | nil => exact hknown
  | cons o new ih =>
    have hrest := ih fun o' ho' => hnew o' (List.mem_cons_of_mem _ ho')
    obtain ⟨c, ok, -, rfl⟩ := hnew _ List.mem_cons_self
    unfold picture at hrest ⊢
    rw [List.cons_append, List.findSome?_cons, hrest]
    cases ok with
    | false => rfl
    | true =>
      by_cases hid : c.id = id
      · have hsaid : Obs.picture? id (.sent c (.hostChanged attached) true) = some !attached :=
          if_pos hid
        rw [hsaid]
      · have hsaid : Obs.picture? id (.sent c (.hostChanged attached) true) = none := if_neg hid
        rw [hsaid]

end Log

/-- Everybody here was there before, and nobody has come back to life. -/
def Remain (cs cs' : List Client) : Prop :=
  ∀ c' ∈ cs', ∃ c ∈ cs, c.id = c'.id ∧ (c'.dead = false → c.dead = false)

theorem Remain.refl (cs : List Client) : Remain cs cs := fun c hc => ⟨c, hc, rfl, id⟩

theorem Remain.trans {cs cs' cs'' : List Client} (h : Remain cs cs') (h' : Remain cs' cs'') :
    Remain cs cs'' := by
  intro c'' hc''
  obtain ⟨c', hc', hid', hdead'⟩ := h' c'' hc''
  obtain ⟨c, hc, hid, hdead⟩ := h c' hc'
  exact ⟨c, hc, hid.trans hid', fun halive => hdead (hdead' halive)⟩

theorem Remain.ids {cs cs' : List Client} (h : Remain cs cs') :
    cs'.map Client.id ⊆ cs.map Client.id := by
  intro id hid
  obtain ⟨c', hc', rfl⟩ := List.mem_map.mp hid
  obtain ⟨c, hc, hsame, -⟩ := h c' hc'
  exact hsame ▸ List.mem_map_of_mem hc

theorem Outlived.remain {cs cs' : List Client} (h : Outlived cs cs') : Remain cs cs' := by
  induction h with
  | nil => exact .refl []
  | @cons c c' _ _ hc _ ih =>
    refine List.forall_mem_cons.mpr ⟨⟨c, List.mem_cons_self, ?_⟩, fun d' hd' => ?_⟩
    · rcases hc with rfl | rfl
      · exact ⟨rfl, id⟩
      · exact ⟨rfl, nofun⟩
    · obtain ⟨d, hd, hsame⟩ := ih d' hd'
      exact ⟨d, List.mem_cons_of_mem c hd, hsame⟩

theorem remain_set {cs : List Client} {i : ℕ} {c c' : Client} (hc : cs[i]? = some c)
    (hid : c'.id = c.id) (hdead : c'.dead = c.dead) : Remain cs (cs.set i c') := by
  intro d hd
  rcases List.mem_or_eq_of_mem_set hd with hd | rfl
  · exact ⟨d, hd, rfl, id⟩
  · exact ⟨c, List.mem_of_getElem? hc, hid.symm, fun halive => hdead.symm.trans halive⟩

/-- Who is alive after a broadcast about the host role knows what it is. -/
theorem broadcast_picture {env : Env} {attached : Bool} {i : ℕ} {cs : List Client} {log : Log}
    {c : Client} (hc : c ∈ (broadcast env (.hostChanged attached) (fun _ c => !c.dead) i cs
      log).clients) (halive : c.dead = false) :
    (broadcast env (.hostChanged attached) (fun _ c => !c.dead) i cs log).log.picture c.id =
      some !attached := by
  induction cs generalizing i log with
  | nil => exact absurd hc List.not_mem_nil
  | cons d cs ih =>
    have hrest := broadcast_log env (.hostChanged attached) (fun _ c => !c.dead) (i + 1) cs
      (if !d.dead then env.send d (.hostChanged attached) log else log)
    rw [broadcast_cons_log]
    rw [broadcast] at hc
    cases hdead : d.dead with
    | true =>
      simp only [hdead, Bool.not_true, Bool.false_eq_true, if_false, List.mem_cons] at hc ⊢
      rcases hc with rfl | hc
      · cases hdead.symm.trans halive
      · exact ih hc
    | false =>
      simp only [hdead, Bool.not_false, if_true] at hc hrest ⊢
      split at hc
      · rename_i hok
        rcases List.mem_cons.mp hc with rfl | hc
        · refine Log.picture_of_tries hrest ?_
          rw [Env.send, hok]
          unfold Log.picture
          have hsaid : Obs.picture? c.id (.sent c (.hostChanged attached) true) = some !attached :=
            if_pos rfl
          rw [List.findSome?_cons, hsaid]
        · exact ih hc
      · rcases List.mem_cons.mp hc with rfl | hc
        · cases halive
        · exact ih hc

namespace Stage

/-- The client with this id is told of the host role: it is the monitor, or a viewer
that is alive. -/
def Hears (s : Stage vt) (id : ℕ) : Prop :=
  ∃ c, (s.monitor = some c ∨ c ∈ s.viewers ∧ c.dead = false) ∧ c.id = id

/-- From the first stage to the second everybody who is told of the host role, and
is not lost, was told what it is now, or it is what it was and they were told
nothing; and nobody else was told. -/
structure Informs (s s' : Stage vt) : Prop where
  monitor : s'.monitor = s.monitor ∨ s'.monitor = none
  viewers : Remain s.viewers s'.viewers
  informed : ∀ id, s'.Hears id → s'.log.picture id = some (!s'.hostAttached) ∨
    s'.hostAttached = s.hostAttached ∧ s'.log.picture id = s.log.picture id
  greeted : ∀ id, s'.log.greeted id = s.log.greeted id
  others : ∀ id, id ∉ s.viewers.map Client.id → (∀ m, s.monitor = some m → m.id ≠ id) →
    s'.log.picture id = s.log.picture id

/-- Nobody hears who did not before. -/
theorem Informs.hears {s s' : Stage vt} (h : s.Informs s') {id : ℕ} (hears : s'.Hears id) :
    s.Hears id := by
  obtain ⟨c, hmonitor | ⟨hc, halive⟩, hid⟩ := hears
  · rcases h.monitor with hsame | hnone
    · exact ⟨c, .inl (hsame.symm.trans hmonitor), hid⟩
    · cases hnone.symm.trans hmonitor
  · obtain ⟨d, hd, hsame, hdead⟩ := h.viewers c hc
    exact ⟨d, .inr ⟨hd, hdead halive⟩, hsame.trans hid⟩

theorem Informs.trans {s s' s'' : Stage vt} (h : s.Informs s') (h' : s'.Informs s'') :
    s.Informs s'' := by
  constructor
  · rcases h'.monitor with hsame | hnone
    · rw [hsame]
      exact h.monitor
    · exact .inr hnone
  · exact h.viewers.trans h'.viewers
  · intro id hears
    rcases h'.informed id hears with hright | ⟨hattached', hpicture'⟩
    · exact .inl hright
    · rw [hattached', hpicture']
      exact h.informed id (h'.hears hears)
  · exact fun id => (h'.greeted id).trans (h.greeted id)
  · intro id hid hmonitor
    refine (h'.others id (fun hid' => hid (h.viewers.ids hid')) fun m hm => ?_).trans
      (h.others id hid hmonitor)
    rcases h.monitor with hsame | hnone
    · exact hmonitor m (hsame.symm.trans hm)
    · rw [hnone] at hm
      cases hm

/-- Nothing is said about the host role, and it stays as it is. -/
theorem informs_of_silent {s s' : Stage vt} (hmonitor : s'.monitor = s.monitor ∨ s'.monitor = none)
    (hattached : s'.hostAttached = s.hostAttached)
    (hviewers : Remain s.viewers s'.viewers)
    (hlog : Log.Grows Obs.Silent s.log s'.log) : s.Informs s' := by
  have hpicture (id : ℕ) : s'.log.picture id = s.log.picture id :=
    Log.picture_of_grows (fun _ ho => ho.picture? id) hlog
  refine ⟨hmonitor, hviewers, fun id _ => .inr ⟨hattached, hpicture id⟩, fun id => ?_,
    fun id _ _ => hpicture id⟩
  exact Log.greeted_of_grows (fun _ ho => ho.greeting? id) hlog

theorem Informs.refl (s : Stage vt) : s.Informs s :=
  informs_of_silent (.inl rfl) rfl (.refl _) (.refl _ _)

/-- An announcement of the host role, as to the monitor or to a viewer. -/
def Announces (s : Stage vt) (attached : Bool) (o : Obs) : Prop :=
  ∃ c ok, o = .sent c (.hostChanged attached) ok ∧ (s.monitor = some c ∨ c ∈ s.viewers)

theorem Announces.greeting? {s : Stage vt} {attached : Bool} {o : Obs} (h : s.Announces attached o)
    (id : ℕ) : o.greeting? id = none := by
  obtain ⟨c, ok, rfl, -⟩ := h
  rfl

/-- Others learn nothing from an announcement. -/
theorem Announces.picture? {s : Stage vt} {attached : Bool} {o : Obs} (h : s.Announces attached o)
    {id : ℕ} (hid : id ∉ s.viewers.map Client.id) (hmonitor : ∀ m, s.monitor = some m → m.id ≠ id) :
    o.picture? id = none := by
  obtain ⟨c, ok, rfl, hc⟩ := h
  have hother : c.id ≠ id := by
    rcases hc with hc | hc
    · exact hmonitor c hc
    · rintro rfl
      exact hid (List.mem_map_of_mem hc)
  cases ok with
  | false => rfl
  | true => exact if_neg hother

section Operations

variable (s : Stage vt) (env : Env) (headless : Bool)

theorem writeHost_informs (bytes : Bytes) : s.Informs (s.writeHost env headless bytes).2 := by
  unfold writeHost
  split
  · exact .refl s
  · exact informs_of_silent (.inl rfl) rfl (.refl _) (.cons trivial)

theorem resizePty_informs (rows cols : ℕ) : s.Informs (s.resizePty env rows cols) :=
  informs_of_silent (.inl rfl) rfl (.refl _) (.cons trivial)

theorem applyTransition_informs (t : Transition) :
    s.Informs (s.applyTransition env headless t).2 := by
  unfold applyTransition
  split
  · exact s.writeHost_informs env headless _
  · split
    · exact s.resizePty_informs env _ _
    · exact (s.resizePty_informs env _ _).trans (writeHost_informs _ env headless _)

theorem withMirror_informs (m : Mirror vt) : s.Informs (s.withMirror m) :=
  informs_of_silent (.inl rfl) rfl (.refl _) (.refl _ _)

theorem startView_informs (view : View) : s.Informs (s.startView env headless view).2 := by
  have happlied : s.Informs ((s.withMirror (s.mirror.startView view).2).applyTransition env headless
      (s.mirror.startView view).1).2 :=
    (s.withMirror_informs _).trans (applyTransition_informs _ env headless _)
  exact happlied.trans
    (informs_of_silent (.inl rfl) rfl (.refl _) (.cons (by exact trivial)))

theorem endView_informs : s.Informs (s.endView env headless).2 :=
  (s.withMirror_informs s.mirror.endView.2).trans (applyTransition_informs _ env headless _)

theorem withViewers_informs {cs : List Client} (h : Remain s.viewers cs) :
    s.Informs (s.withViewers cs) :=
  informs_of_silent (.inl rfl) rfl h (.refl _ _)

/-- Telling the viewers something else. -/
theorem tell_informs {msg : FromSession} (hmsg : msg.detached? = none)
    (wanted : ℕ → Client → Bool) : s.Informs (s.tell env msg wanted) := by
  refine informs_of_silent (.inl rfl) rfl ?_ ?_
  · exact (s.tell_outlived env msg wanted).remain
  · refine (broadcast_log env msg wanted 0 s.viewers s.log).mono fun o ho => ?_
    obtain ⟨c, ok, -, rfl⟩ := ho
    exact hmsg

theorem tellMonitor_informs {msg : FromSession} (hmsg : msg.detached? = none) :
    s.Informs (s.tellMonitor env msg) := by
  unfold tellMonitor
  split
  · exact .refl s
  · rename_i m hm
    refine informs_of_silent ?_ rfl (.refl _) (.cons hmsg)
    by_cases hok : env.succeeds s.log = true
    · exact .inl ((if_pos hok).trans hm.symm)
    · exact .inr (if_neg hok)

theorem reply_informs (c : Client) {msg : FromSession} (hmsg : msg.detached? = none) :
    s.Informs (s.reply env c msg).2 :=
  informs_of_silent (.inl rfl) rfl (.refl _) (.cons hmsg)

/-- Re-deciding the view. -/
theorem refreshView_informs (hostRank : ℕ) (forceFor : Option ℕ) :
    s.Informs (s.refreshView env headless hostRank forceFor).2 := by
  rcases s.refreshView_cases env headless hostRank forceFor with
    ⟨h, -⟩ | ⟨h, -⟩ | ⟨rows, cols, -, ⟨h, -⟩ | ⟨error, t, ht, ⟨-, h⟩ | ⟨-, msg, hmsg, h⟩⟩⟩
  · rw [h]
    exact .refl s
  · rw [h]
    exact s.endView_informs env headless
  · rw [h]
    exact .refl s
  · have hstarted := s.startView_informs env headless ⟨rows, cols, false⟩
    rw [ht] at hstarted
    rw [h]
    exact hstarted
  · have hstarted := s.startView_informs env headless ⟨rows, cols, false⟩
    rw [ht] at hstarted
    obtain ⟨data, next, rfl⟩ := hmsg
    rw [h]
    exact hstarted.trans (t.tell_informs env rfl _)

/-- A monitor that is told of a change of the host role knows of it, or is lost. -/
theorem tellMonitor_hostChanged (attached : Bool) :
    let told := ({ s with hostAttached := attached } : Stage vt).tellMonitor env
      (.hostChanged attached)
    (told.monitor = s.monitor ∨ told.monitor = none) ∧
      (∀ m, told.monitor = some m → told.log.picture m.id = some !attached) ∧
      Log.Grows (Announces s attached) s.log told.log ∧ told.viewers = s.viewers ∧
      told.hostAttached = attached := by
  intro told
  cases hm : s.monitor with
  | none =>
    have htold : told = { s with hostAttached := attached } := by
      unfold told tellMonitor
      rw [hm]
    rw [htold]
    refine ⟨.inl hm, fun m hm' => ?_, .refl _ _, rfl, rfl⟩
    cases hm.symm.trans hm'
  | some m =>
    have htold : told = { s with
        hostAttached := attached
        monitor := if env.succeeds s.log then some m else none
        log := env.send m (.hostChanged attached) s.log } := by
      unfold told tellMonitor
      rw [hm]
    rw [htold]
    refine ⟨?_, fun m' hm' => ?_, .cons ⟨m, _, rfl, .inl hm⟩, rfl, rfl⟩
    · by_cases hok : env.succeeds s.log = true
      · exact .inl (if_pos hok)
      · exact .inr (if_neg hok)
    · by_cases hok : env.succeeds s.log = true
      · obtain rfl : m = m' := Option.some.inj ((if_pos hok).symm.trans hm')
        unfold Env.send Log.picture
        have hsaid : Obs.picture? m.id (.sent m (.hostChanged attached) true) = some !attached :=
          if_pos rfl
        rw [hok, List.findSome?_cons, hsaid]
      · cases (if_neg hok).symm.trans hm'

/-- A change of the host role is announced to the monitor and to the viewers. -/
theorem announceHost_informs : s.Informs (s.announceHost env) := by
  by_cases hsame : s.viewers.any Client.isHost = s.hostAttached
  · rw [announceHost, if_pos hsame]
    exact .refl s
  · let now := s.viewers.any Client.isHost
    let noted : Stage vt := { s with hostAttached := now }
    let told := noted.tellMonitor env (.hostChanged now)
    have hsaid : s.announceHost env = told.tell env (.hostChanged now) fun _ c => !c.dead :=
      if_neg hsame
    obtain ⟨hkept, hknown, hlog, hviewers, hattached⟩ := s.tellMonitor_hostChanged env now
    have htries := broadcast_log env (.hostChanged now) (fun _ c => !c.dead) 0 told.viewers told.log
    have hgrows : Log.Grows (Announces s now) s.log (s.announceHost env).log := by
      rw [hsaid]
      refine hlog.trans (htries.mono fun o ho => ?_)
      obtain ⟨c, ok, ⟨hc, -⟩, rfl⟩ := ho
      exact ⟨c, ok, rfl, .inr (hviewers ▸ hc)⟩
    constructor
    · rw [hsaid]
      exact hkept
    · rw [hsaid, ← hviewers]
      exact (told.tell_outlived env _ _).remain
    · intro id hears
      have htold : (s.announceHost env).hostAttached = now := by
        rw [hsaid]
        exact hattached
      rw [htold]
      rw [hsaid] at hears ⊢
      obtain ⟨c, hmonitor | ⟨hc, halive⟩, rfl⟩ := hears
      · exact .inl (Log.picture_of_tries htries (hknown c hmonitor))
      · exact .inl (broadcast_picture hc halive)
    · exact fun id => Log.greeted_of_grows (fun o ho => ho.greeting? id) hgrows
    · intro id hid hother
      exact Log.picture_of_grows (fun o ho => ho.picture? hid hother) hgrows

theorem removeDead_informs : s.Informs s.removeDead :=
  s.withViewers_informs fun c hc => ⟨c, List.mem_of_mem_filter hc, rfl, id⟩

/-- Every pass of a sweep, and the whole sweep. -/
theorem sweepLoop_informs (hostRank fuel : ℕ) :
    s.Informs (sweepLoop env headless hostRank fuel s).2 := by
  induction fuel generalizing s with
  | zero => exact .refl s
  | succ fuel ih =>
    have hpass := ((s.announceHost_informs env).trans (removeDead_informs _)).trans
      (refreshView_informs _ env headless hostRank none)
    rw [sweepLoop]
    split
    · rename_i h
      rw [h] at hpass
      exact hpass
    · rename_i h
      rw [h] at hpass
      split
      · exact hpass
      · exact hpass.trans (ih _)

end Operations

/-- Writing queued input. -/
theorem pump_informs (s : Stage vt) (env : Env) (queue : InputQueue) (now : ℕ → ℕ) :
    s.Informs { s with log := (queue.pump env now s.log).2.2 } :=
  informs_of_silent (.inl rfl) rfl (.refl _)
    (InputQueue.pumpLoop_log env now (fun _ _ => trivial) 0 queue.queue queue.due s.log)

/-- Handling a viewer's message. -/
theorem handleViewerMessage_informs {s : Stage vt} {i : ℕ} {c : Client} (env : Env)
    (config : Config) (hostRank : ℕ) (msg : ToSession) (now : ℕ → ℕ) (queue : InputQueue)
    (hc : s.viewers[i]? = some c) :
    s.Informs (s.handleViewerMessage env config hostRank msg i c now queue).2.1 := by
  have hset (c' : Client) (hid : c'.id = c.id) (hdead : c'.dead = c.dead)
      (forceFor : Option ℕ) : s.Informs ((s.withViewers (s.viewers.set i c')).refreshView env
        config.headless hostRank forceFor).2 :=
    (s.withViewers_informs (remain_set hc hid hdead)).trans (refreshView_informs _ env _ _ _)
  cases msg with
  | init init => exact .refl s
  | monitor version => exact .refl s
  | resize width height =>
    unfold handleViewerMessage
    dsimp only
    split
    · exact hset { c with width := width, height := height } rfl rfl none
    · exact .refl s
  | input data delays =>
    unfold handleViewerMessage
    dsimp only
    split
    · exact s.reply_informs env c rfl
    · split
      · exact .refl s
      · split
        · exact .refl s
        · split
          · exact .refl s
          · exact s.pump_informs env _ now
  | view => exact hset { c with state := .viewing } rfl rfl (some i)
  | history before limit => exact s.reply_informs env c (by exact rfl)
  | unview =>
    unfold handleViewerMessage
    dsimp only
    split
    · exact hset { c with state := .ready } rfl rfl none
    · exact .refl s

end Stage

namespace Wrapper

variable {env : Env} {config : Config} {w w' : Wrapper vt}

/-- Besides, the same connections are pending. -/
structure Informs (w w' : Wrapper vt) : Prop where
  stage : w.toStage.Informs w'.toStage
  pendings : w'.pendings = w.pendings
  nextClientId : w'.nextClientId = w.nextClientId

theorem Informs.refl (w : Wrapper vt) : w.Informs w := ⟨.refl _, rfl, rfl⟩

theorem Informs.trans {w w' w'' : Wrapper vt} (h : w.Informs w') (h' : w'.Informs w'') :
    w.Informs w'' :=
  ⟨h.stage.trans h'.stage, h'.pendings.trans h.pendings, h'.nextClientId.trans h.nextClientId⟩

theorem withStage_informs {s : Stage vt} (h : w.toStage.Informs s) : w.Informs (w.withStage s) :=
  ⟨h, rfl, rfl⟩

theorem sweep_informs (h : w.sweep env config = some w') : w.Informs w' := by
  obtain ⟨s, hswept, rfl⟩ := proceed_eq_some.mp h
  have hinforms := Stage.sweepLoop_informs w.toStage env config.headless w.hostRank
    (w.viewers.length + 1)
  rw [show Stage.sweepLoop env config.headless w.hostRank (w.viewers.length + 1) w.toStage =
    (none, s) from hswept] at hinforms
  exact withStage_informs hinforms

theorem displaceHosts_silent (env : Env) (cs : List Client) (log : Log) :
    Log.Grows Obs.Silent log (displaceHosts env cs log).2 := by
  induction cs generalizing log with
  | nil => exact .refl _ _
  | cons c cs ih =>
    rw [displaceHosts]
    split
    · have htold : Log.Grows Obs.Silent log (env.send c takenOver log) := .cons rfl
      exact htold.trans (ih _)
    · exact ih log

/-- An accepted init makes a viewer of the connection, and others may die of it. -/
theorem acceptInit_remain (init : Init) (p : Client) :
    Remain (w.viewers ++ [p]) (w.acceptInit env init p).viewers := by
  let kept :=
    if init.role = .host ∧ w.viewers.any Client.isHost then displaceHosts env w.viewers w.log
    else (w.viewers, w.log)
  have hkept : Remain w.viewers kept.1 := by
    unfold kept
    split
    · exact (displaceHosts_outlived env w.viewers w.log).1.remain
    · exact .refl _
  have hleft : Remain (w.viewers ++ [p]) kept.1 := by
    intro c' hc'
    obtain ⟨c, hc, hsame⟩ := hkept c' hc'
    exact ⟨c, List.mem_append_left _ hc, hsame⟩
  have hjoined : Remain (w.viewers ++ [p]) (kept.1 ++ [Init.client init p]) := by
    refine List.forall_mem_append.mpr ⟨hleft, fun c hc => ?_⟩
    rw [List.mem_singleton.mp hc]
    exact ⟨p, List.mem_append_right _ List.mem_cons_self, rfl, id⟩
  unfold acceptInit
  cases w.mirror.title with
  | none => exact hjoined
  | some title =>
    have hviewers : ∀ ok, Remain (w.viewers ++ [p])
        (if ok = true then kept.1 ++ [Init.client init p] else kept.1) := by
      intro ok
      cases ok with
      | true => exact hjoined
      | false => exact hleft
    exact hviewers (env.succeeds kept.2)

/-- An accepted init says nothing about the host role, before the sweep. -/
theorem acceptInit_informs (init : Init) (p : Client) :
    (w.toStage.withViewers (w.viewers ++ [p])).Informs (w.acceptInit env init p).toStage := by
  refine Stage.informs_of_silent (.inl rfl) rfl (acceptInit_remain init p) ?_
  let kept :=
    if init.role = .host ∧ w.viewers.any Client.isHost then displaceHosts env w.viewers w.log
    else (w.viewers, w.log)
  have hkept : Log.Grows Obs.Silent w.log kept.2 := by
    unfold kept
    split
    · exact displaceHosts_silent env w.viewers w.log
    · exact .refl _ _
  unfold acceptInit
  cases w.mirror.title with
  | none => exact hkept
  | some title => exact hkept.trans (.cons rfl)

/-- A message from a viewer. -/
theorem onViewerMessage_informs {i : ℕ} {received : Received} {now : ℕ → ℕ}
    (h : w.onViewerMessage env config i received now = some w') : w.Informs w' := by
  have hkilled (s : Stage vt) : s.Informs (killViewer s i) :=
    s.withViewers_informs (outlived_modify s.viewers i).remain
  unfold onViewerMessage at h
  cases hc : w.viewers[i]? with
  | none => rw [hc] at h; cases h
  | some c =>
    rw [hc] at h
    dsimp only at h
    split at h
    · exact (withStage_informs (hkilled w.toStage)).trans (sweep_informs h)
    · rename_i msg
      have hhandled := Stage.handleViewerMessage_informs env config w.hostRank msg now
        w.inputQueue hc
      generalize w.toStage.handleViewerMessage env config w.hostRank msg i c now w.inputQueue =
        result at h hhandled
      obtain ⟨error, s, queue⟩ := result
      have hqueued (s : Stage vt) (hs : w.toStage.Informs s) :
          w.Informs ({ w with inputQueue := queue }.withStage s) := ⟨hs, rfl, rfl⟩
      have hswept := sweep_informs h
      cases error with
      | none => exact (hqueued s hhandled).trans hswept
      | some error =>
        have hdropped : s.Informs (dropViewer s env i error) := by
          unfold dropViewer
          split
          · exact .refl s
          · rename_i c' _
            have htold : s.Informs { s with log := env.send c' (.error error) s.log } :=
              Stage.informs_of_silent (.inl rfl) rfl (.refl _) (.cons rfl)
            exact htold.trans (hkilled _)
        exact (hqueued _ (hhandled.trans hdropped)).trans hswept

theorem reportBells_informs (w : Wrapper vt) (env : Env) (bells : ℕ) (clock : Clock) :
    w.Informs (w.reportBells env bells clock) := by
  unfold reportBells
  split
  · split
    · exact ⟨.refl _, rfl, rfl⟩
    · exact ⟨w.toStage.tellMonitor_informs env (by exact rfl), rfl, rfl⟩
  · exact .refl w

theorem reportActivity_informs (w : Wrapper vt) (env : Env) (clock : Clock) :
    w.Informs (w.reportActivity env clock) := by
  unfold reportActivity
  dsimp only
  split
  · exact ⟨w.toStage.tellMonitor_informs env (by exact rfl), rfl, rfl⟩
  · exact ⟨.refl _, rfl, rfl⟩

theorem streamOutput_informs (s : Stage vt) (env : Env) (remote : Option Bytes) :
    s.Informs (streamOutput s env remote).2 := by
  unfold streamOutput
  cases remote with
  | none => exact .refl s
  | some data =>
    have hnoted : s.Informs (s.note [.produced data]) :=
      Stage.informs_of_silent (.inl rfl) rfl (.refl _) (.cons trivial)
    dsimp only
    split
    · exact hnoted
    · have hmsg : (FromSession.output (env.base64.encode data)).detached? = none := rfl
      exact hnoted.trans (Stage.tell_informs _ env hmsg fun _ c => c.state = .viewing)

theorem streamTitle_informs (s : Stage vt) (env : Env) (title : Option String) :
    s.Informs (streamTitle s env title).2 := by
  unfold streamTitle
  cases title with
  | none => exact .refl s
  | some title =>
    have hmsg : (FromSession.title title).detached? = none := rfl
    exact (s.tellMonitor_informs env hmsg).trans (Stage.tell_informs _ env hmsg fun _ _ => true)

/-- Child output. -/
theorem onOutput_informs {bytes : Bytes} {rung wrote : Clock}
    (h : w.onOutput env config bytes rung wrote = some w') : w.Informs w' := by
  unfold onOutput at h
  cases hprocess : w.mirror.process bytes with
  | mk out mirror =>
    rw [hprocess] at h
    dsimp only at h
    have hwritten := (w.toStage.withMirror_informs mirror).trans
      ((w.toStage.withMirror mirror).writeHost_informs env config.headless (render out.host))
    cases hwrite : (w.toStage.withMirror mirror).writeHost env config.headless
        (render out.host) with
    | mk error s =>
      rw [hwrite] at h hwritten
      cases error with
      | some error => cases h
      | none =>
        let reported := ((w.withStage s).reportBells env out.bells rung).reportActivity env wrote
        have hreported : w.Informs reported :=
          ((withStage_informs hwritten).trans (reportBells_informs _ env out.bells rung)).trans
            (reportActivity_informs _ env wrote)
        have hstreamed := hreported.trans (withStage_informs
          ((streamOutput_informs reported.toStage env out.remote).trans
            (streamTitle_informs _ env out.title)))
        dsimp only at h
        split at h
        · exact hstreamed.trans (sweep_informs h)
        · cases h
          exact hstreamed

/-- What an event does to the connections first: a new one is greeted, or one of
them is forgotten, becomes a viewer, or becomes the monitor. -/
inductive Admits (env : Env) (config : Config) (w : Wrapper vt) : Event → Wrapper vt → Prop
  | nobody (event : Event) : Admits env config w event w
  | greeted (size : Option (ℕ × ℕ)) :
      Admits env config w (.accept size) (w.onAccept env config size)
  | forgotten (i : ℕ) (received : Received) :
      Admits env config w (.pendingMessage i received) (w.forget i)
  | viewer {i : ℕ} {p : Client} {received : Received} (hp : w.pendings[i]? = some p) :
      Admits env config w (.pendingMessage i received)
        { w.forget i with viewers := w.viewers ++ [p] }
  | monitor {i : ℕ} {p : Client} (hp : w.pendings[i]? = some p) :
      Admits env config w (.pendingMessage i (.message (.monitor protocolVersion)))
        { w.forget i with monitor := some p }

/-- The first message of a connection. -/
theorem onPendingMessage_informs {i : ℕ} {received : Received}
    (h : w.onPendingMessage env config i received = some w') :
    ∃ u, Admits env config w (.pendingMessage i received) u ∧ u.Informs w' := by
  unfold onPendingMessage at h
  cases hp : w.pendings[i]? with
  | none => rw [hp] at h; cases h
  | some p =>
    rw [hp] at h
    dsimp only at h
    have hdismissed (message : String) :
        (w.forget i).Informs ((w.forget i).dismiss env p message) :=
      ⟨Stage.informs_of_silent (.inl rfl) rfl (.refl _) (.cons rfl), rfl, rfl⟩
    split at h
    · rename_i init
      split at h
      · exact ⟨_, .forgotten i _, (hdismissed _).trans (sweep_informs h)⟩
      · have haccepted : Informs { w.forget i with viewers := w.viewers ++ [p] }
            ((w.forget i).acceptInit env init p) := ⟨acceptInit_informs init p, rfl, rfl⟩
        exact ⟨_, .viewer hp, haccepted.trans (sweep_informs h)⟩
    · rename_i version
      split at h
      · rename_i hversion
        subst hversion
        refine ⟨_, .monitor hp, ?_⟩
        split at h
        · cases h
          exact .refl _
        · cases h
          exact withStage_informs (Stage.tellMonitor_informs _ env (by exact rfl))
      · cases h
        exact ⟨_, .forgotten i _, hdismissed _⟩
    · cases h
      exact ⟨_, .forgotten i _, hdismissed _⟩
    · cases h
      exact ⟨_, .forgotten i _, .refl _⟩

/-- The ids of pending connections are not those of viewers. -/
theorem Proper.pending_not_viewer (hproper : w.Proper config) :
    ∀ p ∈ w.pendings, p.id ∉ w.viewers.map Client.id := by
  intro p hp hviewer
  obtain ⟨-, -, hdisjoint⟩ := List.nodup_append.mp hproper.ids
  exact hdisjoint _ hviewer _ (List.mem_map_of_mem hp) rfl

/-- A connection that is taken out of the pending ones was there once. -/
theorem Proper.erased_ne (hproper : w.Proper config) {i : ℕ} {p : Client}
    (hp : w.pendings[i]? = some p) : p.id ∉ (w.pendings.eraseIdx i).map Client.id := by
  obtain ⟨hi, rfl⟩ := List.getElem?_eq_some_iff.mp hp
  have hperm := (List.getElem_cons_eraseIdx_perm hi).map Client.id
  have hnodup := hperm.nodup_iff.mpr (List.nodup_append.mp hproper.ids).2.1
  exact (List.nodup_cons.mp hnodup).1

/-- After what an event does to the connections, everybody is told what holds. -/
theorem step_informs (hproper : w.Proper config) (hheadless : config.headless = true)
    {event : Event} (h : step env config w event = some w') :
    ∃ u, Admits env config w event u ∧ u.Informs w' := by
  cases event with
  | stdin bytes =>
    rw [step] at h
    split at h
    · rename_i hopen
      cases hheadless.symm.trans (hproper.hosted hopen)
    · cases h
  | stdinEof =>
    rw [step] at h
    split at h
    · cases h
      exact ⟨w, .nobody _, ⟨.refl _, rfl, rfl⟩⟩
    · cases h
  | output bytes rung wrote => exact ⟨w, .nobody _, onOutput_informs h⟩
  | bellDue now =>
    rw [step] at h
    split at h
    · cases h
    · cases h
      exact ⟨w, .nobody _, .refl w⟩
    · cases h
      exact ⟨w, .nobody _, ⟨w.toStage.tellMonitor_informs env (by exact rfl), rfl, rfl⟩⟩
  | inputDue now =>
    have hpump := w.toStage.pump_informs env w.inputQueue now
    rw [step] at h
    split at h
    · rename_i hdone
      cases h
      rw [hdone] at hpump
      exact ⟨w, .nobody _, ⟨hpump, rfl, rfl⟩⟩
    · cases h
  | winch size =>
    rw [step, if_pos hheadless] at h
    cases h
  | accept size =>
    cases h
    exact ⟨_, .greeted size, .refl _⟩
  | pendingMessage i received => exact onPendingMessage_informs h
  | viewerMessage i received now => exact ⟨w, .nobody _, onViewerMessage_informs h⟩
  | monitorMessage received =>
    unfold step at h
    dsimp only at h
    split at h
    · split at h
      · cases h
        exact ⟨w, .nobody _, .refl w⟩
      · cases h
        exact ⟨w, .nobody _,
          ⟨Stage.informs_of_silent (.inr rfl) rfl (.refl _) (.refl _ _), rfl, rfl⟩⟩
    · cases h

theorem start_monitor (h : start vt env config = some w) : w.monitor = none := by
  have hwritten (s : Stage vt) (bytes : Bytes) :
      (s.writeHost env config.headless bytes).2.monitor = s.monitor := by
    unfold Stage.writeHost
    split <;> rfl
  unfold start at h
  cases htitle : config.title with
  | none =>
    rw [htitle] at h
    cases h
    rfl
  | some title =>
    rw [htitle] at h
    dsimp only at h
    split at h
    · cases h
    · rename_i stage hwrite
      cases h
      exact (congrArg (fun r : Option String × Stage vt => r.2.monitor) hwrite).symm.trans
        (hwritten _ _)

end Wrapper

end G2mirror
