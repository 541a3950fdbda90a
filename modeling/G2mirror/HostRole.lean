import G2mirror.AsciiLaws
import G2mirror.HostNews

/-!
# The host role of a headless session

A headless wrapper keeps note of whether a client holds the host role, and
announces each change of it. The note is exact after a sweep unless the holder
is lost by the announcement itself: a pass of the sweep looks for holders before
its own messages can fail, and nobody looks again if only the holder is lost.
-/

namespace G2mirror

open Relation

variable {vt : Vt100}

/-- A client with the host role could not be told about the host role. -/
def Obs.lostHolder : Obs → Bool
  | .sent c (.hostChanged _) ok => c.role = .host && !ok
  | _ => false

namespace Log

/-- Every client with the host role that was told about the host role got the message. -/
def HoldersTold (log : Log) : Prop := ∀ o ∈ log, o.lostHolder = false

instance (log : Log) : Decidable log.HoldersTold :=
  inferInstanceAs (Decidable (∀ o ∈ log, o.lostHolder = false))

theorem HoldersTold.of_suffix {log log' : Log} (h : HoldersTold log') (hsuffix : log <:+ log') :
    HoldersTold log :=
  fun o ho => h o (hsuffix.subset ho)

end Log

/-- A client with the host role is alive. -/
theorem Client.alive_of_isHost {c : Client} (h : c.isHost = true) : c.dead = false := by
  unfold Client.isHost at h
  simp only [Bool.and_eq_true, Bool.not_eq_true'] at h
  exact h.1

namespace Stage

section Moves

variable {env : Env} {headless : Bool} {hostRank : ℕ} {s s' : Stage vt}

/-- Between two sweeps the note stays the same. -/
theorem Steady.hostAttached (hsteady : Steady env headless s s') :
    s'.hostAttached = s.hostAttached := by
  cases hsteady with
  | aside haside => exact haside.hostAttached
  | toggle _ htoggle =>
    rcases s.toggleSimulated_cases env headless with
      ⟨-, hstart⟩ | ⟨v, -, ⟨-, hend⟩ | ⟨-, hsame⟩⟩
    · exact (startView_frame (hstart.symm.trans htoggle)).2.1
    · exact (endView_frame (hend.symm.trans htoggle)).2.1
    · cases htoggle.symm.trans hsame
      rfl
  | stream _ => exact (Wrapper.streamOutput_frame s env _).2.1

/-- Holders of the host role are lost only by messages that fail. -/
theorem any_isHost_of_told {cs cs' : List Client} {log : Log} {attached : Bool}
    (hclients : List.Forall₂ (fun c c' => c' = c ∨
      c' = c.die ∧ Obs.sent c (.hostChanged attached) false ∈ log) cs cs')
    (htold : log.HoldersTold) : cs'.any Client.isHost = cs.any Client.isHost := by
  induction hclients with
  | nil => rfl
  | @cons c c' _ _ hc _ ih =>
    have hsame : c'.isHost = c.isHost := by
      rcases hc with rfl | ⟨rfl, hsent⟩
      · rfl
      · have hlost := htold _ hsent
        simp only [Obs.lostHolder, Bool.not_false, Bool.and_true, decide_eq_false_iff_not] at hlost
        simp [Client.isHost, hlost]
    rw [List.any_cons, List.any_cons, hsame, ih]

/-- After an announcement that every holder got the note is exact. -/
theorem any_isHost_announceHost (s : Stage vt) (env : Env)
    (htold : (s.announceHost env).log.HoldersTold) :
    (s.announceHost env).viewers.any Client.isHost = (s.announceHost env).hostAttached := by
  rcases s.announceHost_cases env with ⟨hexact, hsame⟩ | ⟨monitor, log, -, hsaid⟩
  · rw [hsame]
    exact hexact
  · rw [hsaid] at htold ⊢
    exact any_isHost_of_told (broadcast_clients env _ _ 0 s.viewers log) htold

/-- After a sweep the note is exact, if every holder it was announced to got the message. -/
theorem hostAttached_of_sweep (h : s.sweepAndRefresh env headless hostRank = (none, s'))
    (htold : s'.log.HoldersTold) : s'.hostAttached = s'.viewers.any Client.isHost := by
  obtain ⟨s₀, -, hpass, halive⟩ := sweepAndRefresh_cases h
  obtain ⟨hdied, hattached, hlog⟩ := refreshView_frame hpass
  have hsame : s'.viewers = (s₀.announceHost env).viewers.filter fun c => !c.dead :=
    hdied.eq_of_alive halive
  have hexact := s₀.any_isHost_announceHost env (htold.of_suffix hlog.suffix)
  have hremoved : ((s₀.announceHost env).viewers.filter fun c => !c.dead).any Client.isHost =
      (s₀.announceHost env).viewers.any Client.isHost := by
    rw [List.any_filter]
    congr 1
    funext c
    cases hdead : c.dead <;> simp [Client.isHost, hdead]
  rw [hattached, hsame, hremoved, hexact]
  rfl

end Moves

end Stage

namespace Wrapper

variable {env : Env} {config : Config} {w w' : Wrapper vt}

/-- The note says whether a client holds the host role. -/
def NotesHost (w : Wrapper vt) : Prop := w.hostAttached = w.viewers.any Client.isHost

theorem hostAttached_of_steadies {s s' : Stage vt}
    (hsteadies : ReflTransGen (Stage.Steady env config.headless) s s') :
    s'.hostAttached = s.hostAttached := by
  induction hsteadies with
  | refl => rfl
  | tail _ hsteady ih => exact hsteady.hostAttached.trans ih

/-- Every event keeps the note exact, if every holder it is announced to gets the message. -/
theorem Outcome.notesHost {winch : Option (ℕ × ℕ)} (houtcome : Outcome env config w w' winch)
    (h : w.NotesHost) (htold : w'.log.HoldersTold) : w'.NotesHost := by
  cases houtcome with
  | steady hstage =>
    have hsame := hostAttached_of_steadies hstage
    exact hsame.trans ((steadies_frame hstage).1 ▸ h)
  | swept _ _ _ _ hsweep => exact Stage.hostAttached_of_sweep hsweep htold
  | resized _ _ _ _ _ hsweep => exact Stage.hostAttached_of_sweep hsweep htold

/-- Before the first event nobody holds the host role. -/
theorem Begins.notesHost (h : w.Begins config) : w.NotesHost := by
  unfold NotesHost
  rw [h.hostAttached, h.viewers]
  rfl

/-- The id is of a connection that was accepted and is not pending any more. -/
def Settled (w : Wrapper vt) (id : ℕ) : Prop :=
  id < w.nextClientId ∧ id ∉ w.pendings.map Client.id

/-- What is settled stays so. -/
theorem Settled.step {id : ℕ} (hproper : w.Proper config) (hheadless : config.headless = true)
    {event : Event} (h : step env config w event = some w') (hid : w.Settled id) :
    w'.Settled id := by
  obtain ⟨u, hadmits, hinforms⟩ := step_informs hproper hheadless h
  obtain ⟨hless, hpending⟩ := hid
  have herased (i : ℕ) : id ∉ (w.forget i).pendings.map Client.id :=
    fun hid => hpending (((List.eraseIdx_sublist _ _).map _).subset hid)
  unfold Settled
  rw [hinforms.nextClientId, hinforms.pendings]
  cases hadmits with
  | nobody => exact ⟨hless, hpending⟩
  | greeted size =>
    refine ⟨Nat.lt_succ_of_lt hless, fun hid => ?_⟩
    unfold onAccept at hid
    dsimp only at hid
    split at hid
    · rw [List.map_append, List.mem_append, List.map_singleton, List.mem_singleton] at hid
      rcases hid with hid | rfl
      · exact hpending hid
      · exact absurd hless (Nat.lt_irrefl _)
    · exact hpending hid
  | forgotten i => exact ⟨hless, herased i⟩
  | @viewer i => exact ⟨hless, herased i⟩
  | @monitor i => exact ⟨hless, herased i⟩

/-- Whoever hears of the host role after an event heard of it before, or was pending. -/
theorem hears_of_step (hproper : w.Proper config) (hheadless : config.headless = true)
    {event : Event} (h : step env config w event = some w') {id : ℕ} (hears : w'.Hears id) :
    w.Hears id ∨ ¬ w.Settled id ∧ w'.Settled id := by
  obtain ⟨u, hadmits, hinforms⟩ := step_informs hproper hheadless h
  have hheard := hinforms.stage.hears hears
  have hjoined {i : ℕ} {p : Client} (hp : w.pendings[i]? = some p)
      (hpendings : w'.pendings = w.pendings.eraseIdx i) (hnext : w'.nextClientId = w.nextClientId) :
      ¬ w.Settled p.id ∧ w'.Settled p.id := by
    have hmem := List.mem_map_of_mem (f := Client.id) (List.mem_of_getElem? hp)
    refine ⟨fun hsettled => hsettled.2 hmem, ?_⟩
    unfold Settled
    rw [hpendings, hnext]
    exact ⟨hproper.fresh _ (List.mem_append_right _ hmem), hproper.erased_ne hp⟩
  cases hadmits with
  | nobody => exact .inl hheard
  | greeted size => exact .inl hheard
  | forgotten i => exact .inl hheard
  | @viewer i p received hp =>
    obtain ⟨c, hmonitor | ⟨hc, halive⟩, rfl⟩ := hheard
    · exact .inl ⟨c, .inl hmonitor, rfl⟩
    · rcases List.mem_append.mp hc with hc | hc
      · exact .inl ⟨c, .inr ⟨hc, halive⟩, rfl⟩
      · rw [List.mem_singleton.mp hc]
        exact .inr (hjoined hp hinforms.pendings hinforms.nextClientId)
  | @monitor i p hp =>
    obtain ⟨c, hmonitor | ⟨hc, halive⟩, rfl⟩ := hheard
    · cases hmonitor
      exact .inr (hjoined hp hinforms.pendings hinforms.nextClientId)
    · exact .inl ⟨c, .inr ⟨hc, halive⟩, rfl⟩

/-- Whoever hears of the host role after an event was told what it is now, or it is
what it was and they were told nothing. -/
theorem informed_of_step (hproper : w.Proper config) (hheadless : config.headless = true)
    {event : Event} (h : step env config w event = some w') {id : ℕ} (hears : w'.Hears id) :
    w'.log.picture id = some (!w'.hostAttached) ∨
      w'.hostAttached = w.hostAttached ∧ w'.log.picture id = w.log.picture id := by
  obtain ⟨u, hadmits, hinforms⟩ := step_informs hproper hheadless h
  rcases hinforms.stage.informed id hears with hright | ⟨hattached, hpicture⟩
  · exact .inl hright
  · rw [hattached, hpicture]
    cases hadmits with
    | greeted size =>
      by_cases hsaid : env.succeeds w.log = true ∧ w.nextClientId = id
      · left
        unfold onAccept Env.send Log.picture
        simp [Obs.picture?, hsaid, Client.new, FromSession.detached?, greeting, hheadless]
      · right
        refine ⟨rfl, ?_⟩
        unfold onAccept Env.send Log.picture
        cases hok : env.succeeds w.log with
        | false => rfl
        | true =>
          have hne : (Client.new w.nextClientId).id ≠ id := fun heq => hsaid ⟨hok, heq⟩
          simp [Obs.picture?, hne]
    | _ => exact .inr ⟨rfl, rfl⟩

/-- Whoever hears of the host role is settled. -/
theorem settled_of_hears {w₀ : Wrapper vt} {events : List Event}
    (hheadless : config.headless = true) (hstart : start vt env config = some w₀)
    (hrun : Machine.run (step env config) w₀ events = some w) :
    ∀ id, w.Hears id → w.Settled id := by
  have hnobody (id : ℕ) : ¬ w₀.Hears id := by
    rintro ⟨c, hmonitor | ⟨hc, -⟩, -⟩
    · cases (start_monitor hstart).symm.trans hmonitor
    · rw [(start_begins hstart).viewers] at hc
      exact absurd hc List.not_mem_nil
  have hinv := Machine.run_invariant
    (I := fun v : Wrapper vt => v.Proper config ∧ ∀ id, v.Hears id → v.Settled id)
    (fun v event v' hv hstep => by
      refine ⟨hv.1.step hstep, fun id hears => ?_⟩
      rcases hears_of_step hv.1 hheadless hstep hears with hheard | ⟨-, hsettled⟩
      · exact (hv.2 id hheard).step hv.1 hheadless hstep
      · exact hsettled)
    ⟨start_proper hstart, fun id hears => absurd hears (hnobody id)⟩ hrun
  exact hinv.2

/-- Over a whole run, whoever hears of the host role before and after it was told what it is
in the end, or it is what it was and they were told nothing. -/
theorem informed_of_run {v : Wrapper vt} {events : List Event} (hproper : v.Proper config)
    (hheadless : config.headless = true) (hsettled : ∀ id, v.Hears id → v.Settled id)
    (hrun : Machine.run (step env config) v events = some w) {id : ℕ} (hbefore : v.Hears id)
    (hears : w.Hears id) : w.log.picture id = some (!w.hostAttached) ∨
      w.hostAttached = v.hostAttached ∧ w.log.picture id = v.log.picture id := by
  have hinv := Machine.run_invariant
    (I := fun u : Wrapper vt => u.Proper config ∧ u.Settled id ∧
      (u.Hears id → u.log.picture id = some (!u.hostAttached) ∨
        u.hostAttached = v.hostAttached ∧ u.log.picture id = v.log.picture id))
    (fun u event u' hu hstep => by
      obtain ⟨huproper, husettled, hinformed⟩ := hu
      refine ⟨huproper.step hstep, husettled.step huproper hheadless hstep, fun hears => ?_⟩
      rcases informed_of_step huproper hheadless hstep hears with hright | ⟨hattached, hpicture⟩
      · exact .inl hright
      · rw [hattached, hpicture]
        rcases hears_of_step huproper hheadless hstep hears with hheard | ⟨hunsettled, -⟩
        · exact hinformed hheard
        · exact absurd husettled hunsettled)
    ⟨hproper, hsettled id hbefore, fun _ => .inr ⟨rfl, rfl⟩⟩ hrun
  exact hinv.2.2 hears

/-- The bookkeeping of the host role. In every reachable state, if every client
with the host role that was told about the host role got the message, the note
says whether a client holds it, and no greeting calls the session claimed while
nobody holds it. The messages agree with the note: of a headless session, every
client that has heard of the host role since some earlier state was told last
what the note says, or the note is as it was and the client was told nothing. -/
theorem host_role_exact {events : List Event} (hsession : session vt env config events = some w)
    (htold : w.log.HoldersTold) :
    (w.hostAttached = true ↔ ∃ c ∈ w.viewers, c.dead = false ∧ c.role = .host) ∧
      (∀ size, config.headless = true → (w.greeting config size).detached = false →
        ∃ c ∈ w.viewers, c.dead = false ∧ c.role = .host) ∧
      (config.headless = true → ∀ before after v, events = before ++ after →
        session vt env config before = some v → ∀ id, v.Hears id → w.Hears id →
          w.log.picture id = some (!w.hostAttached) ∨
            w.hostAttached = v.hostAttached ∧ w.log.picture id = v.log.picture id) := by
  obtain ⟨w₀, hstart, hrun⟩ := session_eq_some.mp hsession
  have hinv := Machine.run_invariant
    (I := fun v : Wrapper vt => v.Proper config ∧ (v.log.HoldersTold → v.NotesHost))
    (fun v event v' hv hstep => by
      have houtcome := (step_outcome hv.1 hstep).2
      exact ⟨hv.1.step hstep, fun htold =>
        houtcome.notesHost (hv.2 (htold.of_suffix houtcome.log)) htold⟩)
    ⟨start_proper hstart, fun _ => (start_begins hstart).notesHost⟩ hrun
  have hexact : w.hostAttached = true ↔ ∃ c ∈ w.viewers, c.dead = false ∧ c.role = .host := by
    rw [hinv.2 htold, List.any_eq_true]
    simp [Client.isHost]
  refine ⟨hexact, fun size hheadless hdetached => hexact.mp ?_,
    fun hheadless before after v hevents hbefore id hheard hears => ?_⟩
  · simpa [greeting, hheadless] using hdetached
  · obtain ⟨v₀, hstart', hrun'⟩ := session_eq_some.mp hbefore
    obtain rfl := Option.some.inj (hstart.symm.trans hstart')
    rw [hevents] at hrun
    obtain ⟨m, hm, hafter⟩ := Machine.run_append_eq_some.mp hrun
    obtain rfl := Option.some.inj (hm.symm.trans hrun')
    exact informed_of_run (session_proper hbefore) hheadless
      (settled_of_hears hheadless hstart hrun') hafter hheard hears

/-- An attach client connects and claims the host role. -/
def attach (force : Bool) : List Event := joins ⟨1, "attach", 4, 2, none, none, .host, force⟩

/-- The claim's announcement does not reach the new holder: the client is
removed, but the note stays. -/
theorem claim_noted_without_holder :
    ∃ w ∈ session asciiVt100 (.failingAt [1]) (smallConfig true) (attach false),
      w.hostAttached = true ∧ w.viewers = [] ∧
        (w.greeting (smallConfig true) none).detached = false := by
  decide +kernel

/-- A viewer that is there before a takeover by force is told of it: the session that it
took for detached is claimed. -/
theorem host_role_exact_after_takeover :
    ∃ w ∈ session asciiVt100 (.failingAt []) (smallConfig true)
        (joins ⟨1, "a", 4, 2, none, none, .viewer, false⟩ ++ (attach false ++ attach true)),
      (∃ c ∈ w.viewers, c.dead = false ∧ c.role = .host) ∧ w.log.picture 0 = some false := by
  obtain ⟨w, hsession, htold, hattached, hears⟩ :
      ∃ w ∈ session asciiVt100 (.failingAt []) (smallConfig true)
          (joins ⟨1, "a", 4, 2, none, none, .viewer, false⟩ ++ (attach false ++ attach true)),
        w.log.HoldersTold ∧ w.hostAttached = true ∧ ∃ c ∈ w.viewers, c.dead = false ∧ c.id = 0 := by
    decide +kernel
  obtain ⟨v, hbefore, hdetached, hheard⟩ :
      ∃ v ∈ session asciiVt100 (.failingAt []) (smallConfig true)
          (joins ⟨1, "a", 4, 2, none, none, .viewer, false⟩),
        v.hostAttached = false ∧ ∃ c ∈ v.viewers, c.dead = false ∧ c.id = 0 := by
    decide +kernel
  obtain ⟨hexact, -, htells⟩ := host_role_exact hsession htold
  obtain ⟨c, hc, halive, hid⟩ := hheard
  obtain ⟨d, hd, hlives, hsame⟩ := hears
  refine ⟨w, hsession, hexact.mp hattached, ?_⟩
  rcases htells rfl _ _ v rfl hbefore 0 ⟨c, .inr ⟨hc, halive⟩, hid⟩
    ⟨d, .inr ⟨hd, hlives⟩, hsame⟩ with hright | ⟨hsame, -⟩
  · rw [hright, hattached]
    rfl
  · rw [hattached, hdetached] at hsame
    cases hsame

end Wrapper

end G2mirror
