import G2mirror.AsciiLaws
import G2mirror.StreamDiffs

/-!
# What a viewer is sent

A viewing client is sent a snapshot of the view and then the differences that the
mirror produces. It stays in sync as long as no view is started at another size
behind its back. That happens only when a view start fails half way: the viewer
whose message caused it is dropped, and the others miss their snapshots if the
view already has the size that the ranks ask for then.
-/

namespace G2mirror

open Relation

variable {vt : Vt100}

/-- A part of a view's stream. -/
def FromSession.isStream : FromSession → Bool
  | .snapshot .. => true
  | .output _ => true
  | _ => false

/-- A view start whose transition could not be applied. -/
def Obs.startFailed : Obs → Bool
  | .viewStarted _ _ ok => !ok
  | _ => false

/-- Not a view start at any other size. -/
def Obs.KeepsSize (rows cols : ℕ) (o : Obs) : Prop :=
  ∀ rows' cols' ok, o = .viewStarted rows' cols' ok → (rows', cols') = (rows, cols)

namespace Log

/-- What the client with this id was sent of its view's stream, newest first. -/
def streamTo (id : ℕ) (log : Log) : List (FromSession × Bool) :=
  (log.sentTo id).filter fun m => m.1.isStream

/-- Every view start was applied. -/
def StartsApplied (log : Log) : Prop := ∀ o ∈ log, o.startFailed = false

instance (log : Log) : Decidable log.StartsApplied :=
  inferInstanceAs (Decidable (∀ o ∈ log, o.startFailed = false))

theorem StartsApplied.of_suffix {log log' : Log} (h : StartsApplied log') (hsuffix : log <:+ log') :
    StartsApplied log :=
  fun o ho => h o (hsuffix.subset ho)

@[simp] theorem streamTo_append (id : ℕ) (log log' : Log) :
    streamTo id (log ++ log') = streamTo id log ++ streamTo id log' := by
  rw [streamTo, sentTo_append, List.filter_append]
  rfl

/-- The client with this id was sent a snapshot of this size; since then no view
was started at another size, and the client was sent exactly the differences
that are not empty, each once and in order. -/
def InSync (base64 : Base64) (id rows cols : ℕ) (log : Log) : Prop :=
  ∃ (since before : Log) (c : Client) (data : String) (next : ℕ),
    log = since ++ .sent c (.snapshot data cols rows next) true :: before ∧ c.id = id ∧
    (∀ o ∈ since, o.KeepsSize rows cols) ∧
    since.streamTo id = since.diffs.map fun d => (.output (base64.encode d), true)

/-- Being in sync lasts while each new difference is sent and the size is kept. -/
theorem InSync.append {base64 : Base64} {id rows cols : ℕ} {log : Log}
    (h : InSync base64 id rows cols log) (new : Log) (hsize : ∀ o ∈ new, o.KeepsSize rows cols)
    (hstream : new.streamTo id = new.diffs.map fun d => (.output (base64.encode d), true)) :
    InSync base64 id rows cols (new ++ log) := by
  obtain ⟨since, before, c, data, next, rfl, hid, hkeeps, hsent⟩ := h
  refine ⟨new ++ since, before, c, data, next, (List.append_assoc _ _ _).symm, hid, ?_, ?_⟩
  · intro o ho
    rcases List.mem_append.mp ho with ho | ho
    · exact hsize o ho
    · exact hkeeps o ho
  · rw [streamTo_append, diffs_append, List.map_append, hstream, hsent]


end Log

/-- Something that streams to nobody, produces nothing, and starts no view at another size. -/
structure Obs.IsQuiet (rows cols : ℕ) (o : Obs) : Prop where
  unsent : ∀ c msg ok, o = .sent c msg ok → msg.isStream = false
  unproduced : o.diff? = none
  keepsSize : o.KeepsSize rows cols

theorem Obs.IsAside.isQuiet {o : Obs} (h : o.IsAside) (rows cols : ℕ) : o.IsQuiet rows cols := by
  refine ⟨?_, ?_, ?_⟩
  · rintro c msg ok rfl
    cases msg <;> first | rfl | cases h
  · cases o <;> first | rfl | cases h
  · rintro rows' cols' ok rfl
    cases h

theorem Obs.isQuiet_ptyResized (r c : ℕ) (ok : Bool) (rows cols : ℕ) :
    (Obs.ptyResized r c ok).IsQuiet rows cols := by
  refine ⟨?_, rfl, ?_⟩
  · rintro c msg ok ⟨⟩
  · rintro rows' cols' ok ⟨⟩

/-- Messages about the host role are no part of a stream. -/
theorem Obs.isQuiet_of_tries {attached : Bool} {P : Client → Prop} {o : Obs}
    (h : o.Tries (.hostChanged attached) P) (rows cols : ℕ) : o.IsQuiet rows cols := by
  obtain ⟨c, ok, -, rfl⟩ := h
  refine ⟨?_, rfl, ?_⟩
  · rintro c' msg ok' hsent
    cases hsent
    rfl
  · rintro rows' cols' ok' hview
    cases hview

/-- Being in sync lasts while nothing happens that concerns it. -/
theorem Log.InSync.quiet {base64 : Base64} {id rows cols : ℕ} {log log' : Log}
    (h : log.InSync base64 id rows cols) (hgrows : Log.Grows (Obs.IsQuiet rows cols) log log') :
    log'.InSync base64 id rows cols := by
  obtain ⟨new, rfl, hnew⟩ := hgrows
  refine h.append new (fun o ho => (hnew o ho).keepsSize) ?_
  have hdiffs : Log.diffs new = [] :=
    List.filterMap_eq_nil_iff.mpr fun o ho => (hnew o ho).unproduced
  have hstream : Log.streamTo id new = [] := by
    refine List.filter_eq_nil_iff.mpr fun m hm => ?_
    obtain ⟨o, ho, hto⟩ := List.mem_filterMap.mp hm
    obtain ⟨c, hsent, -⟩ := Obs.to?_eq_some.mp hto
    rw [(hnew o ho).unsent c m.1 m.2 hsent]
    exact Bool.false_ne_true
  rw [hstream, hdiffs]
  rfl

/-- A snapshot that was sent as the only thing puts the client in sync. -/
theorem Log.inSync_of_snapshot {base64 : Base64} {id rows cols next : ℕ} {data : String}
    {new log : Log} (hsent : new.sentTo id = [(.snapshot data cols rows next, true)])
    (hsize : ∀ o ∈ new, o.KeepsSize rows cols) (hdiffs : new.diffs = []) :
    (new ++ log).InSync base64 id rows cols := by
  obtain ⟨since, o, before, rfl, hsince, hto, hbefore⟩ := List.filterMap_eq_cons_iff.mp hsent
  obtain ⟨c, rfl, hid⟩ := Obs.to?_eq_some.mp hto
  have hnone : Log.sentTo id since = [] := List.filterMap_eq_nil_iff.mpr hsince
  rw [Log.diffs_append, List.append_eq_nil_iff] at hdiffs
  refine ⟨since, before ++ log, c, data, next, List.append_assoc _ _ _, hid,
    fun o ho => hsize o (List.mem_append_left _ ho), ?_⟩
  rw [hdiffs.1, Log.streamTo, hnone]
  rfl

namespace Stage

/-- Each viewing client is in sync with the view. -/
def Coherent (base64 : Base64) (s : Stage vt) : Prop :=
  ∀ c ∈ s.viewers, c.isViewing = true →
    ∃ v, s.mirror.view = some v ∧ v.simulated = false ∧ s.log.InSync base64 c.id v.rows v.cols

section Moves

variable {env : Env} {headless : Bool} {hostRank : ℕ} {base64 : Base64} {s s' : Stage vt}

/-- What neither concerns the view nor makes anybody view keeps the clients in sync. -/
theorem Coherent.of_quiet (h : s.Coherent base64)
    (hviewing : ∀ c' ∈ s'.viewers, c'.isViewing = true →
      ∃ c ∈ s.viewers, c.id = c'.id ∧ c.isViewing = true)
    (hview : s'.mirror.view = s.mirror.view)
    (hlog : ∀ rows cols, Log.Grows (Obs.IsQuiet rows cols) s.log s'.log) :
    s'.Coherent base64 := by
  intro c' hc' hviewing'
  obtain ⟨c, hc, hid, hviews⟩ := hviewing c' hc' hviewing'
  obtain ⟨v, hv, hreal, hsync⟩ := h c hc hviews
  exact ⟨v, hview.trans hv, hreal, hid ▸ hsync.quiet (hlog v.rows v.cols)⟩

theorem Coherent.regroups (h : s.Coherent base64) (hgroup : s.Regroups s') :
    s'.Coherent base64 :=
  h.of_quiet hgroup.viewing hgroup.mirror.view fun rows cols =>
    hgroup.log.mono fun _ ho => ho.isQuiet rows cols

theorem Coherent.announce (h : s.Coherent base64) : (s.announceHost env).Coherent base64 := by
  have hdied := s.announceHost_outlived env
  refine h.of_quiet (fun c hc hviewing => ?_) ?_ fun rows cols => ?_
  · exact ⟨c, hdied.mem_of_alive hc (Client.alive_of_isViewing hviewing), rfl, hviewing⟩
  · rcases s.announceHost_cases env with ⟨-, hsame⟩ | ⟨monitor, log, -, htold⟩
    · rw [hsame]
    · rw [htold]
      rfl
  · rcases s.announceHost_cases env with ⟨-, hsame⟩ | ⟨monitor, log, hlog, htold⟩
    · rw [hsame]
      exact .refl _ _
    · rw [htold]
      exact (hlog.mono fun _ ho => Obs.isQuiet_of_tries ho rows cols).trans
        ((broadcast_log env _ _ 0 s.viewers log).mono fun _ ho =>
          Obs.isQuiet_of_tries ho rows cols)

/-- Attempts to send something that is not a difference produce nothing and start no view. -/
theorem diffs_of_tries {msg : FromSession} {P : Client → Prop} {new : Log}
    (h : ∀ o ∈ new, o.Tries msg P) :
    new.diffs = [] ∧ ∀ rows cols, ∀ o ∈ new, o.KeepsSize rows cols := by
  refine ⟨List.filterMap_eq_nil_iff.mpr fun o ho => ?_, fun rows cols o ho => ?_⟩
  · obtain ⟨c, ok, -, rfl⟩ := h o ho
    rfl
  · obtain ⟨c, ok, -, rfl⟩ := h o ho
    rintro rows' cols' ok' ⟨⟩

/-- What a broadcast did for a client that survived it. -/
theorem broadcast_survivor {msg : FromSession} {wanted : ℕ → Client → Bool} {cs : List Client}
    {log : Log} (hids : (cs.map Client.id).Nodup) {c : Client}
    (hc : c ∈ (broadcast env msg wanted 0 cs log).clients) (halive : c.dead = false) :
    ∃ k new, cs[k]? = some c ∧ (broadcast env msg wanted 0 cs log).log = new ++ log ∧
      new.sentTo c.id = (if wanted k c then [(msg, true)] else []) ∧
      Log.diffs new = [] ∧ ∀ rows cols, ∀ o ∈ new, o.KeepsSize rows cols := by
  obtain ⟨k, hk⟩ := List.mem_iff_getElem?.mp hc
  obtain ⟨hmem, new, hnew, hsent⟩ := broadcast_sentTo hids hk halive
  obtain ⟨new', hnew', htries⟩ := broadcast_log env msg wanted 0 cs log
  obtain rfl : new = new' := List.append_cancel_right (hnew.symm.trans hnew')
  rw [Nat.zero_add] at hsent
  exact ⟨k, new, hmem, hnew, hsent, diffs_of_tries htries⟩

/-- Every difference that is not empty goes to every viewing client that survives it. -/
theorem Coherent.stream (h : s.Coherent env.base64) (hids : (s.viewers.map Client.id).Nodup)
    (remote : Option Bytes) : (Wrapper.streamOutput s env remote).2.Coherent env.base64 := by
  unfold Wrapper.streamOutput
  cases remote with
  | none => exact h
  | some data =>
    dsimp only
    split
    · rename_i hempty
      intro c hc hviewing
      obtain ⟨v, hv, hreal, hsync⟩ := h c hc hviewing
      refine ⟨v, hv, hreal, hsync.append [.produced data] ?_ ?_⟩
      · intro o ho
        rw [List.mem_singleton.mp ho]
        rintro rows cols ok ⟨⟩
      · simp [Log.streamTo, Log.sentTo, Log.diffs, Obs.to?, Obs.diff?, hempty]
    · rename_i hsome
      intro c hc hviewing
      have halive := Client.alive_of_isViewing hviewing
      obtain ⟨k, new, hk, hnew, hsent, hdiffs, hkeeps⟩ := broadcast_survivor hids hc halive
      obtain ⟨v, hv, hreal, hsync⟩ := h c (List.mem_of_getElem? hk) hviewing
      refine ⟨v, hv, hreal, ?_⟩
      rw [if_pos (decide_eq_true (Client.state_of_isViewing hviewing))] at hsent
      change Log.InSync env.base64 c.id v.rows v.cols (broadcast env
        (.output (env.base64.encode data)) (fun _ c => decide (c.state = .viewing)) 0 s.viewers
        (s.note [.produced data]).log).log
      rw [hnew, note, ← List.append_assoc]
      refine hsync.append (new ++ [.produced data]) ?_ ?_
      · intro o ho
        rcases List.mem_append.mp ho with ho | ho
        · exact hkeeps v.rows v.cols o ho
        · rw [List.mem_singleton.mp ho]
          rintro rows cols ok ⟨⟩
      · rw [Log.streamTo_append, Log.diffs_append, hdiffs, Log.streamTo, hsent]
        simp [Log.streamTo, Log.sentTo, Log.diffs, Obs.to?, Obs.diff?, hsome,
          FromSession.isStream]

/-- A view start is quiet but for starting the view. -/
theorem startView_quiet {view : View} {error : Option String}
    (h : s.startView env headless view = (error, s')) :
    Log.Grows (Obs.IsQuiet view.rows view.cols) s.log s'.log ∧
      (s'.log.StartsApplied → error = none) := by
  obtain ⟨ok, t, haside, hresult⟩ := s.startView_cases env headless view
  rw [h] at hresult
  obtain rfl : s' = t.note [.viewStarted view.rows view.cols error.isNone] := hresult
  have hstarted :
      (Obs.viewStarted view.rows view.cols error.isNone).IsQuiet view.rows view.cols := by
    refine ⟨?_, rfl, ?_⟩
    · rintro c msg ok ⟨⟩
    · rintro rows cols ok ⟨⟩
      rfl
  constructor
  · exact ((Log.Grows.cons (Obs.isQuiet_ptyResized _ _ ok _ _)).trans
      (haside.log.mono fun _ ho => ho.isQuiet _ _)).trans (.cons hstarted)
  · intro happlied
    simpa [Obs.startFailed] using happlied _ List.mem_cons_self

theorem coherent_of_unviewed (h : ∀ c ∈ s.viewers, c.isViewing = false) : s.Coherent base64 := by
  intro c hc hviewing
  rw [h c hc] at hviewing
  cases hviewing

/-- Re-deciding the view keeps in sync who was, and puts in sync who asked for the
view, unless a view start fails half way. -/
theorem coherent_of_refresh {forceFor : Option ℕ} {error : Option String}
    (hids : (s.viewers.map Client.id).Nodup)
    (h : ∀ i c, s.viewers[i]? = some c → c.isViewing = true → forceFor ≠ some i →
      ∃ v, s.mirror.view = some v ∧ v.simulated = false ∧
        s.log.InSync env.base64 c.id v.rows v.cols)
    (happlied : s'.log.StartsApplied)
    (hresult : s.refreshView env headless hostRank forceFor = (error, s')) :
    s'.Coherent env.base64 := by
  rcases s.refreshView_cases env headless hostRank forceFor with
    ⟨hcase, htarget, -⟩ | ⟨hcase, htarget, -⟩ |
      ⟨rows, cols, -, ⟨hcase, -, rfl⟩ | ⟨error', t, ht, ⟨herror, hcase⟩ | ⟨rfl, msg, hmsg, hcase⟩⟩⟩
  · cases hresult.symm.trans hcase
    exact coherent_of_unviewed (target_eq_none.mp htarget)
  · obtain ⟨hviewers, -⟩ := endView_frame (hcase.symm.trans hresult)
    exact coherent_of_unviewed (hviewers ▸ target_eq_none.mp htarget)
  · cases hresult.symm.trans hcase
    intro c hc hviewing
    obtain ⟨i, hi⟩ := List.mem_iff_getElem?.mp hc
    exact h i c hi hviewing (Option.some_ne_none i).symm
  · cases hresult.symm.trans hcase
    rw [(startView_quiet ht).2 happlied] at herror
    cases herror
  · cases hresult.symm.trans hcase
    obtain ⟨data, next, rfl⟩ := hmsg
    obtain ⟨hviewers, -, -, hview, -⟩ := startView_frame ht
    intro c hc hviewing
    obtain ⟨k, new, hk, hnew, hsent, hdiffs, hkeeps⟩ := broadcast_survivor (hviewers ▸ hids) hc
      (Client.alive_of_isViewing hviewing)
    refine ⟨_, hview, rfl, ?_⟩
    rw [show (t.tell env _ _).log = _ from hnew]
    split at hsent
    · exact Log.inSync_of_snapshot hsent (hkeeps rows cols) hdiffs
    · rename_i hunwanted
      rw [hviewing, Bool.true_and, Bool.or_eq_true, decide_eq_true_eq, not_or,
        Bool.not_eq_true] at hunwanted
      obtain ⟨v, hv, hreal, hsync⟩ := h k c (hviewers ▸ hk) hviewing hunwanted.2
      obtain ⟨u, hu, -, hdims⟩ := view_of_unneeded hunwanted.1
      cases hv.symm.trans hu
      obtain ⟨rfl, rfl⟩ := Prod.mk.inj hdims
      refine (hsync.quiet (startView_quiet ht).1).append new (hkeeps _ _) ?_
      rw [Log.streamTo, hsent, hdiffs]
      rfl

/-- Every move keeps the clients in sync, unless a view start fails half way. -/
theorem Coherent.move (h : s.Coherent env.base64) (hids : (s.viewers.map Client.id).Nodup)
    (happlied : s'.log.StartsApplied) (hmove : Move env headless hostRank s s') :
    s'.Coherent env.base64 := by
  cases hmove with
  | regroup hgroup _ => exact h.regroups hgroup
  | stream remote => exact h.stream hids remote
  | announce => exact h.announce
  | refresh hresult =>
    exact coherent_of_refresh hids
      (fun i c hi hviewing _ => h c (List.mem_of_getElem? hi) hviewing) happlied hresult
  | @view _ i c _ hc _ hresult =>
    have hset : (s.viewers.set i { c with state := .viewing }).map Client.id =
        s.viewers.map Client.id := set_ids hc rfl
    refine coherent_of_refresh (s := s.withViewers _) ?_ (fun j d hd hviewing hforced => ?_)
      happlied hresult
    · rw [withViewers, hset]
      exact hids
    · have hne : i ≠ j := fun hij => hforced (congrArg some hij)
      rw [withViewers, List.getElem?_set_ne hne] at hd
      exact h d (List.mem_of_getElem? hd) hviewing

/-- So does what happens between two sweeps. -/
theorem Coherent.steady (h : s.Coherent env.base64) (hids : (s.viewers.map Client.id).Nodup)
    (hsteady : Steady env headless s s') : s'.Coherent env.base64 := by
  have hunviewed (hview : ∀ v, s.mirror.view = some v → v.simulated = true) :
      ∀ c ∈ s.viewers, c.isViewing = false := by
    intro c hc
    by_contra hviewing
    rw [Bool.not_eq_false] at hviewing
    obtain ⟨v, hv, hreal, -⟩ := h c hc hviewing
    cases (hview v hv).symm.trans hreal
  cases hsteady with
  | aside haside => exact h.regroups haside.regroups
  | toggle _ htoggle =>
    rcases s.toggleSimulated_cases env headless with
      ⟨hnone, hstart⟩ | ⟨v, hv, ⟨hsim, hend⟩ | ⟨-, hsame⟩⟩
    · obtain ⟨hviewers, -⟩ := startView_frame (hstart.symm.trans htoggle)
      refine coherent_of_unviewed (hviewers ▸ hunviewed fun u hu => ?_)
      cases hnone.symm.trans hu
    · obtain ⟨hviewers, -⟩ := endView_frame (hend.symm.trans htoggle)
      refine coherent_of_unviewed (hviewers ▸ hunviewed fun u hu => ?_)
      cases hv.symm.trans hu
      exact hsim
    · cases htoggle.symm.trans hsame
      exact h
  | stream _ => exact h.stream hids _

/-- A resize of the host terminal keeps the clients in sync. -/
theorem Coherent.hostResized {rows cols : ℕ} {error : Option String} (h : s.Coherent base64)
    (hresult : (s.withMirror (s.mirror.hostResized rows cols).2).applyTransition env headless
      (s.mirror.hostResized rows cols).1 = (error, s')) : s'.Coherent base64 := by
  obtain ⟨hviewers, -, hlog, hview⟩ := hostResized_frame hresult
  refine h.of_quiet (fun c hc hviewing => ⟨c, hviewers ▸ hc, rfl, hviewing⟩) hview
    fun rows cols => hlog.mono fun o ho => ?_
  rcases ho with haside | ⟨r, c, ok, rfl⟩
  · exact haside.isQuiet rows cols
  · exact Obs.isQuiet_ptyResized r c ok rows cols

end Moves

end Stage

/-- Snapshots and output go to clients that are viewing only. -/
def Obs.ToViewing : Obs → Prop
  | .sent c msg _ => msg.isStream = true → c.state = .viewing
  | _ => True

namespace Stage

section Addressees

variable {env : Env} {headless : Bool} {hostRank : ℕ} {s s' : Stage vt}

theorem toViewing_of_servesView {o : Obs} (h : o.ServesView) : o.ToViewing := by
  cases o with
  | sent c msg ok =>
    cases msg with
    | snapshot data rows cols next => exact fun _ => h
    | output data => exact h.elim
    | _ => exact fun hstream => by cases hstream
  | _ => trivial

theorem toViewing_of_tries {attached : Bool} {P : Client → Prop} {o : Obs}
    (h : o.Tries (.hostChanged attached) P) : o.ToViewing := by
  obtain ⟨c, ok, -, rfl⟩ := h
  exact fun hstream => by cases hstream

theorem streamOutput_toViewing (s : Stage vt) (env : Env) (remote : Option Bytes) :
    Log.Grows Obs.ToViewing s.log (Wrapper.streamOutput s env remote).2.log := by
  unfold Wrapper.streamOutput
  cases remote with
  | none => exact .refl _ _
  | some data =>
    have hproduced : Log.Grows Obs.ToViewing s.log (s.note [.produced data]).log := .cons trivial
    dsimp only
    split
    · exact hproduced
    · refine hproduced.trans ((broadcast_log env _ _ 0 s.viewers _).mono fun o ho => ?_)
      obtain ⟨c, ok, ⟨-, k, hwanted⟩, rfl⟩ := ho
      exact fun _ => of_decide_eq_true hwanted

/-- No move streams to a client that is not viewing. -/
theorem Move.toViewing (hmove : Move env headless hostRank s s') :
    Log.Grows Obs.ToViewing s.log s'.log := by
  cases hmove with
  | regroup hgroup _ => exact hgroup.log.mono fun _ ho => toViewing_of_servesView ho.servesView
  | stream remote => exact s.streamOutput_toViewing env remote
  | announce =>
    rcases s.announceHost_cases env with ⟨-, hsame⟩ | ⟨monitor, log, hlog, htold⟩
    · rw [hsame]
      exact .refl _ _
    · rw [htold]
      exact (hlog.mono fun _ => toViewing_of_tries).trans
        ((broadcast_log env _ _ 0 s.viewers log).mono fun _ => toViewing_of_tries)
  | refresh hresult => exact (refreshView_frame hresult).2.2.mono fun _ => toViewing_of_servesView
  | view _ _ hresult =>
    have hgrows := (refreshView_frame hresult).2.2
    exact hgrows.mono fun _ => toViewing_of_servesView

theorem Steady.toViewing (hsteady : Steady env headless s s') :
    Log.Grows Obs.ToViewing s.log s'.log := by
  cases hsteady with
  | aside haside => exact haside.log.mono fun _ ho => toViewing_of_servesView ho.servesView
  | toggle _ htoggle =>
    rcases s.toggleSimulated_cases env headless with
      ⟨-, hstart⟩ | ⟨v, -, ⟨-, hend⟩ | ⟨-, hsame⟩⟩
    · obtain ⟨-, -, hlog, -⟩ := startView_frame (hstart.symm.trans htoggle)
      exact hlog.mono fun _ => toViewing_of_servesView
    · obtain ⟨-, -, hlog, -⟩ := endView_frame (hend.symm.trans htoggle)
      exact hlog.mono fun _ => toViewing_of_servesView
    · cases htoggle.symm.trans hsame
      exact .refl _ _
  | stream _ => exact s.streamOutput_toViewing env _

/-- Who asks for the view is sent a snapshot, unless the view start fails half way. -/
theorem refreshView_answers {i : ℕ} {c : Client} {error : Option String}
    (hc : s.viewers[i]? = some c) (hviewing : c.isViewing = true)
    (happlied : s'.log.StartsApplied)
    (hresult : s.refreshView env headless hostRank (some i) = (error, s')) :
    error = none ∧ ∃ new data rows cols next ok,
      s'.log = new ++ s.log ∧ .sent c (.snapshot data cols rows next) ok ∈ new := by
  rcases s.refreshView_cases env headless hostRank (some i) with
    ⟨-, htarget, -⟩ | ⟨-, htarget, -⟩ |
      ⟨rows, cols, -, ⟨-, -, hno⟩ | ⟨error', t, ht, ⟨herror, hcase⟩ | ⟨rfl, msg, hmsg, hcase⟩⟩⟩
  · rw [target_eq_none.mp htarget c (List.mem_of_getElem? hc)] at hviewing
    cases hviewing
  · rw [target_eq_none.mp htarget c (List.mem_of_getElem? hc)] at hviewing
    cases hviewing
  · cases hno
  · cases hresult.symm.trans hcase
    rw [(startView_quiet ht).2 happlied] at herror
    cases herror
  · cases hresult.symm.trans hcase
    obtain ⟨data, next, rfl⟩ := hmsg
    obtain ⟨hviewers, -, ⟨before, hbefore, -⟩, -⟩ := startView_frame ht
    let wanted (k : ℕ) (d : Client) : Bool :=
      d.isViewing && (s.needsView rows cols || decide (some i = some k))
    have hwanted : wanted (0 + i) c = true := by simp [wanted, hviewing]
    obtain ⟨new, ok, hnew, hsent⟩ := broadcast_sends env (.snapshot data cols rows next) t.log
      (hviewers ▸ hc) hwanted
    refine ⟨rfl, new ++ before, data, rows, cols, next, ok, ?_, List.mem_append_left _ hsent⟩
    rw [List.append_assoc, ← hbefore]
    exact hnew

end Addressees

end Stage

namespace Wrapper

variable {env : Env} {config : Config} {w w' : Wrapper vt}

theorem coherent_of_moves {hostRank : ℕ} {s s' : Stage vt}
    (hmoves : ReflTransGen (Stage.Move env config.headless hostRank) s s')
    (h : s.Coherent env.base64) (hids : (s.viewers.map Client.id).Nodup)
    (happlied : s'.log.StartsApplied) : s'.Coherent env.base64 := by
  induction hmoves with
  | refl => exact h
  | tail hmoves hmove ih =>
    exact (ih (happlied.of_suffix hmove.frame.2)).move (hids.sublist (moves_frame hmoves).1)
      happlied hmove

theorem coherent_of_steadies {s s' : Stage vt}
    (hsteadies : ReflTransGen (Stage.Steady env config.headless) s s')
    (h : s.Coherent env.base64) (hids : (s.viewers.map Client.id).Nodup) :
    s'.Coherent env.base64 := by
  induction hsteadies with
  | refl => exact h
  | tail hsteadies hsteady ih => exact ih.steady ((steadies_frame hsteadies).1 ▸ hids) hsteady

/-- Every event keeps the clients in sync, unless a view start fails half way. -/
theorem Outcome.coherent {winch : Option (ℕ × ℕ)} (houtcome : Outcome env config w w' winch)
    (hproper : w.Proper config) (h : w.toStage.Coherent env.base64)
    (happlied : w'.log.StartsApplied) : w'.toStage.Coherent env.base64 := by
  have hviewers : (w.viewers.map Client.id).Nodup :=
    hproper.ids.sublist (List.sublist_append_left _ _)
  cases houtcome with
  | steady hstage => exact coherent_of_steadies hstage h hviewers
  | swept hgroup hids _ hmoves hsweep =>
    obtain ⟨ids, hperm, hsub⟩ := hids
    have hnodup := hperm.nodup_iff.mp (hproper.ids.sublist hsub)
    exact coherent_of_moves (hmoves.trans (Stage.sweepAndRefresh_moves hsweep))
      (h.regroups hgroup) (hnodup.sublist (List.sublist_append_left _ _)) happlied
  | resized _ _ _ _ hresult hsweep =>
    exact coherent_of_moves (Stage.sweepAndRefresh_moves hsweep) (h.hostResized hresult)
      ((Stage.hostResized_frame hresult).1 ▸ hviewers) happlied

theorem toViewing_of_moves {hostRank : ℕ} {s s' : Stage vt}
    (hmoves : ReflTransGen (Stage.Move env config.headless hostRank) s s') :
    Log.Grows Obs.ToViewing s.log s'.log := by
  induction hmoves with
  | refl => exact .refl _ _
  | tail _ hmove ih => exact ih.trans hmove.toViewing

theorem toViewing_of_steadies {s s' : Stage vt}
    (hsteadies : ReflTransGen (Stage.Steady env config.headless) s s') :
    Log.Grows Obs.ToViewing s.log s'.log := by
  induction hsteadies with
  | refl => exact .refl _ _
  | tail _ hsteady ih => exact ih.trans hsteady.toViewing

/-- No event streams to a client that is not viewing. -/
theorem Outcome.toViewing {winch : Option (ℕ × ℕ)} (houtcome : Outcome env config w w' winch) :
    Log.Grows Obs.ToViewing w.log w'.log := by
  cases houtcome with
  | steady hstage => exact toViewing_of_steadies hstage
  | swept hgroup _ _ hmoves hsweep =>
    exact (hgroup.log.mono fun _ ho => Stage.toViewing_of_servesView ho.servesView).trans
      (toViewing_of_moves (hmoves.trans (Stage.sweepAndRefresh_moves hsweep)))
  | resized _ _ _ _ hresult hsweep =>
    refine ((Stage.hostResized_frame hresult).2.2.1.mono fun o ho => ?_).trans
      (toViewing_of_moves (Stage.sweepAndRefresh_moves hsweep))
    rcases ho with haside | ⟨r, c, ok, rfl⟩
    · exact Stage.toViewing_of_servesView haside.servesView
    · trivial

/-- Every view message is answered with a snapshot, unless a view start fails half way. -/
theorem view_answered (hproper : w.Proper config) {i : ℕ} {now : ℕ → ℕ}
    (h : step env config w (.viewerMessage i (.message .view) now) = some w')
    (happlied : w'.log.StartsApplied) :
    ∃ c new data rows cols next ok, w.viewers[i]? = some c ∧ w'.log = new ++ w.log ∧
      .sent { c with state := .viewing } (.snapshot data cols rows next) ok ∈ new := by
  unfold step onViewerMessage at h
  dsimp only at h
  cases hc : w.viewers[i]? with
  | none => rw [hc] at h; cases h
  | some c =>
    rw [hc] at h
    dsimp only [Stage.handleViewerMessage] at h
    let s := w.toStage.withViewers (w.viewers.set i { c with state := .viewing })
    cases hresult : s.refreshView env config.headless w.hostRank (some i) with
    | mk error s' =>
      rw [show Stage.refreshView _ env config.headless w.hostRank (some i) = _ from hresult] at h
      have hi := (List.getElem?_eq_some_iff.mp hc).1
      have hasked : s.viewers[i]? = some { c with state := .viewing } := by
        rw [show s.viewers = w.viewers.set i _ from rfl, List.getElem?_set_self hi]
      have hviewing : Client.isViewing { c with state := .viewing } = true := by
        simp [Client.isViewing, hproper.alive c (List.mem_of_getElem? hc)]
      have hanswers := fun happlied => Stage.refreshView_answers hasked hviewing happlied hresult
      cases error with
      | none =>
        obtain ⟨t, hswept, rfl⟩ := proceed_eq_some.mp h
        obtain ⟨later, hlater⟩ := (moves_frame (Stage.sweepAndRefresh_moves hswept)).2
        obtain ⟨-, new, data, rows, cols, next, ok, hnew, hsent⟩ :=
          hanswers (happlied.of_suffix ⟨later, hlater⟩)
        refine ⟨c, later ++ new, data, rows, cols, next, ok, rfl, ?_,
          List.mem_append_right _ hsent⟩
        rw [List.append_assoc]
        exact hlater.symm.trans (congrArg (later ++ ·) hnew)
      | some error =>
        obtain ⟨t, hswept, rfl⟩ := proceed_eq_some.mp h
        have hdropped := (dropViewer_regroups s' env i error).1.log.suffix
        have hlater := (moves_frame (Stage.sweepAndRefresh_moves hswept)).2
        cases (hanswers (happlied.of_suffix (hdropped.trans hlater))).1

/-- What the app wrote last is streamed like all of its output. -/
theorem drainPty_coherent {headless : Bool} {chunks : List Bytes} {error : Option String}
    {s s' : Stage vt} (h : s.Coherent env.base64) (hids : (s.viewers.map Client.id).Nodup)
    (hdrained : drainPty env headless chunks s = (error, s')) :
    s'.Coherent env.base64 ∧ Log.Grows Obs.ToViewing s.log s'.log := by
  induction chunks generalizing s with
  | nil =>
    cases hdrained
    exact ⟨h, .refl _ _⟩
  | cons bytes rest ih =>
    rw [drainPty] at hdrained
    have hsame : s.Aside (s.withMirror (s.mirror.process bytes).2) :=
      Stage.withMirror_aside (s.mirror.process_sameSizes bytes)
    cases hprocess : s.mirror.process bytes with
    | mk out mirror =>
      rw [hprocess] at hdrained hsame
      dsimp only at hdrained hsame
      have haside := hsame.trans
        ((s.withMirror mirror).writeHost_aside env headless (render out.host))
      cases hwrite : (s.withMirror mirror).writeHost env headless (render out.host) with
      | mk error' t =>
        rw [hwrite] at hdrained haside
        have hcoherent := h.regroups haside.regroups
        have hgrows : Log.Grows Obs.ToViewing s.log t.log :=
          haside.log.mono fun _ ho => Stage.toViewing_of_servesView ho.servesView
        cases error' with
        | some error' =>
          cases hdrained
          exact ⟨hcoherent, hgrows⟩
        | none =>
          dsimp only at hdrained
          have hids' : (t.viewers.map Client.id).Nodup := haside.viewers ▸ hids
          have hstreamed := hcoherent.stream hids' out.remote
          have hstreams := hgrows.trans (t.streamOutput_toViewing env out.remote)
          have hkept : ((streamOutput t env out.remote).2.viewers.map Client.id).Nodup :=
            (streamOutput_outlived t env out.remote).1.ids ▸ hids'
          split at hdrained
          · obtain ⟨hlast, hlog⟩ := ih hstreamed hkept hdrained
            exact ⟨hlast, hstreams.trans hlog⟩
          · obtain ⟨hlast, hlog⟩ := ih (hstreamed.regroups (Stage.removeDead_regroups _))
              (hkept.sublist (List.filter_sublist.map _)) hdrained
            exact ⟨hlast, hstreams.trans hlog⟩

/-- In every reachable state in which every view start so far was applied, each viewing client is
in sync with the view. -/
theorem session_coherent {events : List Event} (hsession : session vt env config events = some w)
    (happlied : w.log.StartsApplied) : w.toStage.Coherent env.base64 := by
  obtain ⟨w₀, hstart, hrun⟩ := session_eq_some.mp hsession
  have hbegins := start_begins hstart
  have hunviewed : ∀ c ∈ w₀.viewers, c.isViewing = false :=
    hbegins.viewers ▸ List.forall_mem_nil _
  have hinv := Machine.run_invariant
    (I := fun v : Wrapper vt => v.Proper config ∧
      (v.log.StartsApplied → v.toStage.Coherent env.base64))
    (fun v event v' hv hstep => by
      have houtcome := (step_outcome hv.1 hstep).2
      exact ⟨hv.1.step hstep, fun happlied =>
        houtcome.coherent hv.1 (hv.2 (happlied.of_suffix houtcome.log)) happlied⟩)
    ⟨start_proper hstart, fun _ => Stage.coherent_of_unviewed hunviewed⟩ hrun
  exact hinv.2 happlied

/-- In the run of these events the client with this id was sent a snapshot of this size; since
then no view was started at another size, and the client was sent exactly the differences that
the mirror produced, first in the events after that one and then the `drained` ones, none of
them empty, each once and in order. -/
def Follows (vt : Vt100) (env : Env) (config : Config) (events : List Event)
    (drained : List Bytes) (log : Log) (id rows cols : ℕ) : Prop :=
  ∃ (before : List Event) (e : Event) (after : List Event) (v : Wrapper vt) (since earlier : Log)
    (c : Client) (data : String) (next : ℕ),
    events = before ++ e :: after ∧
    LoggedIn env config before e v (.sent c (.snapshot data cols rows next) true) earlier ∧
    log = since ++ .sent c (.snapshot data cols rows next) true :: earlier ∧ c.id = id ∧
    (∀ o ∈ since, o.KeepsSize rows cols) ∧
    since.streamTo id = (v.diffsAlong env config after ++ drained).reverse.map fun d =>
      (.output (env.base64.encode d), true)

/-- Who is in sync follows the view, also through what is logged after the run, if that sends
no snapshot. -/
theorem follows_of_inSync {events : List Event}
    (hsession : session vt env config events = some w) {log new : Log} {drained : List Bytes}
    (hlog : log = new ++ w.log) (hdiffs : new.diffs = drained.reverse)
    (hsnapshots : ∀ o ∈ new, o.isSnapshot = false) {id rows cols : ℕ}
    (hsync : log.InSync env.base64 id rows cols) :
    Follows vt env config events drained log id rows cols := by
  obtain ⟨since, earlier, c, data, next, hsplit, hid, hkeeps, hstream⟩ := hsync
  obtain ⟨old, hsince, hold⟩ : ∃ old, since = new ++ old ∧
      w.log = old ++ .sent c (.snapshot data cols rows next) true :: earlier := by
    rw [hlog] at hsplit
    rcases List.append_eq_append_iff.mp hsplit with ⟨a, ha, hrest⟩ | ⟨b, hnew, hrest⟩
    · exact ⟨a, ha, hrest⟩
    · cases b with
      | nil =>
        rw [List.append_nil] at hnew
        exact ⟨[], by rw [hnew, List.append_nil], hrest.symm⟩
      | cons o b =>
        obtain ⟨rfl, -⟩ := List.cons.inj hrest
        cases hsnapshots _ (hnew ▸ List.mem_append_right _ List.mem_cons_self)
  obtain ⟨before, e, after, v, hevents, hin, -, holder⟩ := snapshot_loggedIn hsession hold rfl
  refine ⟨before, e, after, v, since, earlier, c, data, next, hevents, hin, hsplit, hid, hkeeps, ?_⟩
  rw [hstream, hsince, Log.diffs_append, hdiffs, holder, List.reverse_append]

/-- The streams of the viewers. In every reachable state in which every view start
so far was applied, each viewing client follows the view, also while what the app wrote
last is drained; the next view message is answered with a snapshot, and snapshots
and output went to viewing clients only. -/
theorem viewers_in_sync {events : List Event} (hsession : session vt env config events = some w)
    (happlied : w.log.StartsApplied) :
    (∀ c ∈ w.viewers, c.isViewing = true → ∃ view, w.mirror.view = some view ∧
        view.simulated = false ∧
        Follows vt env config events [] w.log c.id view.rows view.cols) ∧
      (∀ i now w', step env config w (.viewerMessage i (.message .view) now) = some w' →
        w'.log.StartsApplied → ∃ c new data rows cols next ok,
          w.viewers[i]? = some c ∧ w'.log = new ++ w.log ∧
            .sent { c with state := .viewing } (.snapshot data cols rows next) ok ∈ new) ∧
      (∀ o ∈ w.log, o.ToViewing) ∧
      ∀ chunks error s, drainPty env config.headless chunks w.toStage = (error, s) →
        (∀ o ∈ s.log, o.ToViewing) ∧ ∃ drained, drained <+: chunks ∧
          (error = none → drained = chunks) ∧
          ∀ c ∈ s.viewers, c.isViewing = true → ∃ view, s.mirror.view = some view ∧
            view.simulated = false ∧ Follows vt env config events (w.mirror.diffs drained) s.log
              c.id view.rows view.cols := by
  obtain ⟨w₀, hstart, hrun⟩ := session_eq_some.mp hsession
  have hgrown {log log' : Log} (h : ∀ o ∈ log, o.ToViewing)
      (hgrows : Log.Grows Obs.ToViewing log log') : ∀ o ∈ log', o.ToViewing := by
    obtain ⟨new, rfl, hnew⟩ := hgrows
    exact fun o ho => (List.mem_append.mp ho).elim (hnew o) (h o)
  have hinv := Machine.run_invariant
    (I := fun v : Wrapper vt => v.Proper config ∧ ∀ o ∈ v.log, o.ToViewing)
    (fun v event v' hv hstep =>
      ⟨hv.1.step hstep, hgrown hv.2 (step_outcome hv.1 hstep).2.toViewing⟩)
    ⟨start_proper hstart, hgrown (fun _ ho => absurd ho List.not_mem_nil)
      ((start_begins hstart).log.mono fun _ ho => Stage.toViewing_of_servesView ho.servesView)⟩ hrun
  obtain ⟨hproper, htoViewing⟩ := hinv
  have hcoherent := session_coherent hsession happlied
  refine ⟨fun c hc hviewing => ?_, fun i now w' => view_answered hproper, htoViewing,
    fun chunks error s hdrained => ?_⟩
  · obtain ⟨view, hview, hreal, hsync⟩ := hcoherent c hc hviewing
    exact ⟨view, hview, hreal, follows_of_inSync hsession (List.nil_append _).symm rfl
      (List.forall_mem_nil _) hsync⟩
  · have hids : (w.viewers.map Client.id).Nodup :=
      hproper.ids.sublist (List.sublist_append_left _ _)
    obtain ⟨hlast, hlog⟩ := drainPty_coherent hcoherent hids hdrained
    obtain ⟨drained, new, hprefix, hall, hnew, hdiffs, hsnapshots⟩ := drainPty_diffs hdrained
    refine ⟨hgrown htoViewing hlog, drained, hprefix, hall, fun c hc hviewing => ?_⟩
    obtain ⟨view, hview, hreal, hsync⟩ := hlast c hc hviewing
    exact ⟨view, hview, hreal, follows_of_inSync hsession hnew hdiffs hsnapshots hsync⟩

/-- The size of a snapshot that the client with this id got. -/
def snapshotSize (id : ℕ) : Obs → Option (ℕ × ℕ)
  | .sent c (.snapshot _ cols rows _) true => if c.id = id then some (rows, cols) else none
  | _ => none

/-- The first device stops viewing, and the view start for the second one fails half
way: the first device is dropped for it, and the second one, still viewing, never
got a snapshot of the size that the view has now. -/
theorem viewer_misses_snapshot :
    ∃ w ∈ session asciiVt100 (.failingAt [11]) (smallConfig false)
        (twoViewers 0 1 ++ [.viewerMessage 0 (.message .unview) fun _ => 0]),
      ∃ c ∈ w.viewers, c.isViewing = true ∧
        ∃ v ∈ w.mirror.view, ∀ o ∈ w.log, snapshotSize c.id o ≠ some (v.rows, v.cols) := by
  decide +kernel

/-- Without the failure both devices follow the view. -/
theorem viewers_in_sync_without_failure :
    ∃ w ∈ session asciiVt100 (.failingAt []) (smallConfig false)
        (twoViewers 0 1 ++ [.output (ascii "x") ⟨0, 0⟩ ⟨0, 0⟩]),
      w.viewers.length = 2 ∧ ∀ c ∈ w.viewers, ∃ view, w.mirror.view = some view ∧
        Follows asciiVt100 (.failingAt []) (smallConfig false)
          (twoViewers 0 1 ++ [.output (ascii "x") ⟨0, 0⟩ ⟨0, 0⟩]) [] w.log c.id view.rows
          view.cols := by
  obtain ⟨w, hsession, happlied, hviewing, hlength⟩ :
      ∃ w ∈ session asciiVt100 (.failingAt []) (smallConfig false)
          (twoViewers 0 1 ++ [.output (ascii "x") ⟨0, 0⟩ ⟨0, 0⟩]),
        w.log.StartsApplied ∧ (∀ c ∈ w.viewers, c.isViewing = true) ∧ w.viewers.length = 2 := by
    decide +kernel
  refine ⟨w, hsession, hlength, fun c hc => ?_⟩
  obtain ⟨view, hview, -, hfollows⟩ := (viewers_in_sync hsession happlied).1 c hc (hviewing c hc)
  exact ⟨view, hview, hfollows⟩

end Wrapper

end G2mirror
