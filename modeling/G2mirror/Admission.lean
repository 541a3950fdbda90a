import G2mirror.Library.Machine
import G2mirror.WrapOptions
import Mathlib.Data.List.Induction

/-!
# Connections before they authenticate

The accept loops of `g2mirror-server` and the tasks of its connections share a counter of the
connections that have not authenticated yet, and drop a new connection if there are too many of
them. The counter is an atomic one with relaxed ordering: a load, also the one of an exchange that
fails, may see any value that the counter has had, and an exchange may fail for no reason.
-/

namespace G2mirror

/-- `MAX_UNAUTHENTICATED`. -/
def maxUnauthenticated : ℕ := 32

/-- Where a connection that was accepted is. -/
inductive Admission
  /-- In the loop of `UnauthGuard::acquire`, with what it has seen of the counter. -/
  | acquiring (current : ℕ)
  /-- `acquire` has returned nothing: the connection is dropped. -/
  | refused
  /-- In `authenticate_device`, with a guard. -/
  | authenticating
  /-- In the loop of `handle_device`, where the guard has been dropped. -/
  | serving
  | closed
  deriving DecidableEq

/-- The counter and the connections, oldest first. -/
structure Door where
  counter : ℕ
  /-- What the counter has been before, newest first. -/
  past : List ℕ
  conns : List Admission
  deriving DecidableEq

/-- A step of an accept loop or of a connection's task. -/
inductive Door.Action
  /-- A connection is accepted, and the counter loaded as it was so many changes ago. -/
  | accept (age : ℕ)
  /-- The counter is exchanged. -/
  | exchange (i : ℕ)
  /-- The exchange fails, and has loaded the counter as it was so many changes ago. -/
  | retry (i age : ℕ)
  | refuse (i : ℕ)
  /-- `authenticate_device` has returned a token. -/
  | authenticate (i : ℕ)
  /-- The task of the connection returns. -/
  | close (i : ℕ)

namespace Door

/-- The server when it has started. -/
def start : Door := ⟨0, [], []⟩

/-- What a load may see. -/
def load (d : Door) (age : ℕ) : Option ℕ := (d.counter :: d.past)[age]?

/-- A connection goes on to this phase. -/
def enter (d : Door) (i : ℕ) (phase : Admission) : Door := { d with conns := d.conns.set i phase }

/-- The counter gets a new value. -/
def store (d : Door) (value : ℕ) : Door := { d with counter := value, past := d.counter :: d.past }

/-- `UnauthGuard::drop`: the subtraction wraps around. -/
def dropGuard (d : Door) : Door :=
  d.store (if d.counter = 0 then usizeMax else d.counter - 1)

/-- What a step comes to, if it is possible. -/
def step (d : Door) : Action → Option Door
  | .accept age =>
    (d.load age).map fun current => { d with conns := d.conns ++ [.acquiring current] }
  | .exchange i =>
    if d.conns[i]? = some (.acquiring d.counter) ∧ d.counter < maxUnauthenticated then
      some ((d.store (d.counter + 1)).enter i .authenticating)
    else none
  | .retry i age =>
    match d.conns[i]?, d.load age with
    | some (.acquiring current), some seen =>
      if current < maxUnauthenticated then some (d.enter i (.acquiring seen)) else none
    | _, _ => none
  | .refuse i =>
    match d.conns[i]? with
    | some (.acquiring current) =>
      if maxUnauthenticated ≤ current then some (d.enter i .refused) else none
    | _ => none
  | .authenticate i =>
    if d.conns[i]? = some .authenticating then some (d.dropGuard.enter i .serving) else none
  | .close i =>
    match d.conns[i]? with
    | some .authenticating => some (d.dropGuard.enter i .closed)
    | some .serving => some (d.enter i .closed)
    | _ => none

/-- How many connections have not authenticated yet, besides those that are being let in. -/
def unauthenticated (d : Door) : ℕ := d.conns.count .authenticating

/-- The counter counts the guards, and no value that it has had is beyond the maximum. -/
structure Sound (d : Door) : Prop where
  counter : d.counter = d.unauthenticated
  bounded : ∀ value ∈ d.counter :: d.past, value ≤ maxUnauthenticated
  seen : ∀ current, .acquiring current ∈ d.conns → current ∈ d.counter :: d.past
  full : .refused ∈ d.conns → maxUnauthenticated ∈ d.counter :: d.past

variable {d d' : Door} {i : ℕ} {phase phase' : Admission}

/-- A connection that goes on leaves one phase and enters another one. -/
theorem count_set {conns : List Admission} (hi : conns[i]? = some phase) (phase' : Admission)
    (counted : Admission) :
    (conns.set i phase').count counted + (if phase = counted then 1 else 0) =
      conns.count counted + if phase' = counted then 1 else 0 := by
  induction conns generalizing i with
  | nil => cases hi
  | cons first conns ih =>
    cases i with
    | zero =>
      obtain rfl := Option.some.inj hi
      simp only [List.set_cons_zero, List.count_cons, beq_iff_eq]
      omega
    | succ i =>
      have ih := ih hi
      simp only [List.set_cons_succ, List.count_cons, beq_iff_eq] at ih ⊢
      omega

/-- A phase that says nothing about the counter may be entered from another such phase. -/
theorem Sound.enter (hd : d.Sound) (hi : d.conns[i]? = some phase)
    (hphase : phase ≠ .authenticating) (hphase' : phase' ≠ .authenticating)
    (hseen : ∀ current, phase' = .acquiring current → current ∈ d.counter :: d.past)
    (hfull : phase' = .refused → maxUnauthenticated ∈ d.counter :: d.past) :
    (d.enter i phase').Sound := by
  have hcount := count_set hi phase' .authenticating
  rw [if_neg hphase, if_neg hphase'] at hcount
  refine ⟨hd.counter.trans hcount.symm, hd.bounded, fun current hmem => ?_, fun hmem => ?_⟩
  · rcases List.mem_or_eq_of_mem_set hmem with hold | hnew
    · exact hd.seen current hold
    · exact hseen current hnew.symm
  · rcases List.mem_or_eq_of_mem_set hmem with hold | hnew
    · exact hd.full hold
    · exact hfull hnew.symm

/-- What has been seen once may always be seen again. -/
theorem Sound.store (hd : d.Sound) {value : ℕ} (hi : d.conns[i]? = some phase)
    (hphase' : phase' ≠ .refused ∧ ∀ current, phase' ≠ .acquiring current)
    (hbounded : value ≤ maxUnauthenticated)
    (hvalue : value + (if phase = .authenticating then 1 else 0) =
      d.counter + if phase' = .authenticating then 1 else 0) :
    ((d.store value).enter i phase').Sound := by
  have hcount := count_set hi phase' .authenticating
  have hcounter := hd.counter
  unfold unauthenticated at hcounter
  refine ⟨?_, List.forall_mem_cons.mpr ⟨hbounded, hd.bounded⟩, fun current hmem => ?_,
    fun hmem => ?_⟩
  · unfold unauthenticated Door.enter Door.store
    dsimp only
    omega
  · rcases List.mem_or_eq_of_mem_set hmem with hold | hnew
    · exact List.mem_cons_of_mem _ (hd.seen current hold)
    · exact absurd hnew.symm (hphase'.2 current)
  · rcases List.mem_or_eq_of_mem_set hmem with hold | hnew
    · exact List.mem_cons_of_mem _ (hd.full hold)
    · exact absurd hnew.symm hphase'.1

/-- A guard that is dropped was counted. -/
theorem Sound.dropGuard (hd : d.Sound) (hi : d.conns[i]? = some .authenticating)
    (hphase' : phase' = .serving ∨ phase' = .closed) : (d.dropGuard.enter i phase').Sound := by
  have hpositive : 0 < d.counter := by
    rw [hd.counter]
    exact List.count_pos_iff.mpr (List.mem_of_getElem? hi)
  have hbounded := hd.bounded d.counter List.mem_cons_self
  unfold Door.dropGuard
  rw [if_neg (Nat.ne_of_gt hpositive)]
  rcases hphase' with rfl | rfl
  · exact hd.store hi ⟨nofun, nofun⟩ (by omega) (by simp; omega)
  · exact hd.store hi ⟨nofun, nofun⟩ (by omega) (by simp; omega)

theorem Sound.step {a : Action} (hd : d.Sound) (h : d.step a = some d') : d'.Sound := by
  cases a with
  | accept age =>
    obtain ⟨current, hload, rfl⟩ := Option.map_eq_some_iff.mp h
    refine ⟨hd.counter.trans ?_, hd.bounded, fun seen hmem => ?_, fun hmem => ?_⟩
    · unfold unauthenticated
      rw [List.count_append]
      exact (Nat.add_zero _).symm
    · rcases List.mem_append.mp hmem with hold | hnew
      · exact hd.seen seen hold
      · obtain rfl := Admission.acquiring.inj (List.mem_singleton.mp hnew)
        exact List.mem_of_getElem? hload
    · rcases List.mem_append.mp hmem with hold | hnew
      · exact hd.full hold
      · cases List.mem_singleton.mp hnew
  | exchange i =>
    obtain ⟨⟨hi, hlt⟩, heq⟩ := Option.ite_none_right_eq_some.mp h
    obtain rfl := Option.some.inj heq
    exact hd.store hi ⟨nofun, nofun⟩ hlt rfl
  | retry i age =>
    unfold Door.step at h
    dsimp only at h
    split at h
    · rename_i current seen hi hload
      obtain ⟨-, heq⟩ := Option.ite_none_right_eq_some.mp h
      obtain rfl := Option.some.inj heq
      refine hd.enter hi nofun nofun (fun other hother => ?_) nofun
      obtain rfl := Admission.acquiring.inj hother
      exact List.mem_of_getElem? hload
    · cases h
  | refuse i =>
    unfold Door.step at h
    dsimp only at h
    split at h
    · rename_i current hi
      obtain ⟨hle, heq⟩ := Option.ite_none_right_eq_some.mp h
      obtain rfl := Option.some.inj heq
      have hseen := hd.seen current (List.mem_of_getElem? hi)
      have hmax : current = maxUnauthenticated := Nat.le_antisymm (hd.bounded current hseen) hle
      exact hd.enter hi nofun nofun nofun fun _ => hmax ▸ hseen
    · cases h
  | authenticate i =>
    obtain ⟨hi, heq⟩ := Option.ite_none_right_eq_some.mp h
    obtain rfl := Option.some.inj heq
    exact hd.dropGuard hi (.inl rfl)
  | close i =>
    unfold Door.step at h
    dsimp only at h
    split at h
    · rename_i hi
      obtain rfl := Option.some.inj h
      exact hd.dropGuard hi (.inr rfl)
    · rename_i hi
      obtain rfl := Option.some.inj h
      exact hd.enter hi nofun nofun nofun nofun
    · cases h

theorem start_sound : start.Sound :=
  ⟨rfl, by simp [start], nofun, nofun⟩

theorem sound_of_run {as : List Action} (hrun : Machine.run step start as = some d) : d.Sound :=
  Machine.run_invariant (fun _ _ _ hd h => Sound.step hd h) start_sound hrun

/-- A step keeps the counter, or remembers what it was. -/
theorem past_step {a : Action} (h : d.step a = some d') :
    d'.counter = d.counter ∧ d'.past = d.past ∨ d'.past = d.counter :: d.past := by
  cases a with
  | accept age =>
    obtain ⟨current, -, rfl⟩ := Option.map_eq_some_iff.mp h
    exact .inl ⟨rfl, rfl⟩
  | exchange i =>
    obtain ⟨-, heq⟩ := Option.ite_none_right_eq_some.mp h
    obtain rfl := Option.some.inj heq
    exact .inr rfl
  | retry i age =>
    unfold step at h
    dsimp only at h
    split at h
    · obtain ⟨-, heq⟩ := Option.ite_none_right_eq_some.mp h
      obtain rfl := Option.some.inj heq
      exact .inl ⟨rfl, rfl⟩
    · cases h
  | refuse i =>
    unfold step at h
    dsimp only at h
    split at h
    · obtain ⟨-, heq⟩ := Option.ite_none_right_eq_some.mp h
      obtain rfl := Option.some.inj heq
      exact .inl ⟨rfl, rfl⟩
    · cases h
  | authenticate i =>
    obtain ⟨-, heq⟩ := Option.ite_none_right_eq_some.mp h
    obtain rfl := Option.some.inj heq
    exact .inr rfl
  | close i =>
    unfold step at h
    dsimp only at h
    split at h
    · obtain rfl := Option.some.inj h
      exact .inr rfl
    · obtain rfl := Option.some.inj h
      exact .inl ⟨rfl, rfl⟩
    · cases h

/-- Whatever value the counter has had, it had after some of the steps. -/
theorem exists_moment {as : List Action} (hrun : Machine.run step start as = some d) {value : ℕ}
    (h : value ∈ d.counter :: d.past) :
    ∃ earlier, earlier <+: as ∧ ∃ t, Machine.run step start earlier = some t ∧
      t.counter = value := by
  induction as using List.reverseRecOn generalizing d with
  | nil =>
    obtain rfl := Option.some.inj hrun
    obtain rfl := List.mem_singleton.mp h
    exact ⟨[], List.prefix_rfl, start, rfl, rfl⟩
  | append_singleton as a ih =>
    obtain ⟨before, hbefore, hstep⟩ := Machine.run_concat_eq_some.mp hrun
    have hold (hvalue : value ∈ before.counter :: before.past) :
        ∃ earlier, earlier <+: as ++ [a] ∧ ∃ t, Machine.run step start earlier = some t ∧
          t.counter = value := by
      obtain ⟨earlier, hearlier, hmoment⟩ := ih hbefore hvalue
      exact ⟨earlier, hearlier.trans (List.prefix_append as [a]), hmoment⟩
    rcases past_step hstep with ⟨hcounter, hpast⟩ | hpast
    · rw [hcounter, hpast] at h
      exact hold h
    · rw [hpast] at h
      rcases List.mem_cons.mp h with rfl | hmem
      · exact ⟨as ++ [a], List.prefix_rfl, d, hrun, rfl⟩
      · exact hold hmem

/-- However the accept loops and the tasks of the connections take turns, the counter is the number
of connections that hold a guard, there are never too many of these, and whenever a connection was
refused, there have been as many as there may be. -/
theorem unauthenticated_bounded {as : List Action}
    (hrun : Machine.run step start as = some d) :
    d.counter = d.unauthenticated ∧ d.unauthenticated ≤ maxUnauthenticated ∧
      (.refused ∈ d.conns → ∃ earlier, earlier <+: as ∧ ∃ t,
        Machine.run step start earlier = some t ∧ t.unauthenticated = maxUnauthenticated) := by
  have hsound := sound_of_run hrun
  refine ⟨hsound.counter, ?_, fun hrefused => ?_⟩
  · rw [← hsound.counter]
    exact hsound.bounded _ List.mem_cons_self
  · obtain ⟨earlier, hearlier, t, ht, hfull⟩ := exists_moment hrun (hsound.full hrefused)
    exact ⟨earlier, hearlier, t, ht, (sound_of_run ht).counter.symm.trans hfull⟩

/-- As many connections as there may be. -/
def crowd : List Action :=
  (List.range maxUnauthenticated).flatMap fun i => [.accept 0, .exchange i]

/-- One more connection is refused. -/
theorem unauthenticated_bounded_of_crowd :
    ∃ d, Machine.run step start (crowd ++ [.accept 0, .refuse 32]) = some d ∧
      .refused ∈ d.conns ∧ ∃ earlier t, Machine.run step start earlier = some t ∧
        t.unauthenticated = maxUnauthenticated := by
  obtain ⟨d, hrun, hrefused⟩ :
      ∃ d ∈ Machine.run step start (crowd ++ [.accept 0, .refuse 32]), .refused ∈ d.conns := by
    decide +kernel
  obtain ⟨earlier, -, hmoment⟩ := (unauthenticated_bounded hrun).2.2 hrefused
  exact ⟨d, hrun, hrefused, earlier, hmoment⟩

end Door

end G2mirror
