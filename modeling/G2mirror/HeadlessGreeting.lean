import G2mirror.SizePolicy

/-!
# The size in the greeting

A headless session greets a new connection with the size of the host side of its
mirror. No host terminal ever resizes that, while the model gets the size of every
view: the greeting states the size of the model as long as the last view had the size
that the session began with.
-/

namespace G2mirror

/-- The height and width in a greeting. -/
def Connect.hostSize (greeting : Connect) : ℕ × ℕ := (greeting.hostHeight, greeting.hostWidth)

namespace Wrapper

variable {vt : Vt100} {env : Env} {config : Config}

theorem greeting_hostSize (hheadless : config.headless = true) (w : Wrapper vt)
    (size : Option (ℕ × ℕ)) : (w.greeting config size).hostSize = w.mirror.hostSize := by
  unfold greeting
  rw [if_pos hheadless]
  rfl

/-- The next event accepts a connection, which is greeted with this message. -/
def Greets (env : Env) (config : Config) (w : Wrapper vt) (size : Option (ℕ × ℕ))
    (greeting : Connect) : Prop :=
  ∃ w' client ok, step env config w (.accept size) = some w' ∧
    w'.log = .sent client (.connect greeting) ok :: w.log

/-- Every connection is greeted, once. -/
theorem greets_iff {w : Wrapper vt} {size : Option (ℕ × ℕ)} {greeting : Connect} :
    w.Greets env config size greeting ↔ greeting = w.greeting config size := by
  constructor
  · rintro ⟨w', client, ok, hstep, hlog⟩
    obtain rfl := Option.some.inj hstep
    obtain ⟨hsent, -⟩ := List.cons.inj hlog
    cases hsent
    rfl
  · rintro rfl
    exact ⟨_, _, _, rfl, rfl⟩

/-- No event of a headless session resizes a host terminal. -/
theorem winch_of_headless (hheadless : config.headless = true) {w w' : Wrapper vt}
    {winch : Option (ℕ × ℕ)} (houtcome : Outcome env config w w' winch) : winch = none := by
  cases houtcome with
  | steady => rfl
  | swept => rfl
  | resized hhosted => exact absurd (hhosted.symm.trans hheadless) Bool.false_ne_true

theorem hostSizeAfter_of_headless (hheadless : config.headless = true) {events : List Event}
    {w w' : Wrapper vt} (hproper : w.Proper config) (size : ℕ × ℕ)
    (hrun : Machine.run (step env config) w events = some w') :
    hostSizeAfter size events = size := by
  induction events generalizing w with
  | nil => rfl
  | cons event events ih =>
    obtain ⟨w₁, hstep, hrest⟩ := Machine.run_cons_eq_some.mp hrun
    have hwinch := winch_of_headless hheadless (step_outcome hproper hstep).2
    rw [hostSizeAfter, List.foldl_cons, hwinch]
    exact ih (hproper.step hstep) hrest

/-- In every reachable state of a headless session the model has the size of the last view,
or the initial size before any, and so has the pty if no resize of it failed. A new connection
is told that size exactly if it is the initial one. -/
theorem headless_greeting_iff {events : List Event} {w : Wrapper vt}
    (hheadless : config.headless = true) (hsession : session vt env config events = some w) :
    w.mirror.size = w.log.lastViewSize config.size ∧
      (w.log.PtyResized → w.pty = w.mirror.size) ∧
      ∀ size greeting, w.Greets env config size greeting →
        (greeting.hostSize = w.mirror.size ↔ w.log.lastViewSize config.size = config.size) := by
  obtain ⟨w₀, hstart, hrun⟩ := session_eq_some.mp hsession
  have hagrees := (session_agrees hsession).1
  have hlast := hagrees.last hheadless
  have hhost := hagrees.hostSize
  rw [hostSizeAfter_of_headless hheadless (start_proper hstart) _ hrun] at hhost
  refine ⟨hlast, hagrees.pty, fun size greeting hgreets => ?_⟩
  rw [greets_iff.mp hgreets, greeting_hostSize hheadless, hlast, hhost]
  exact eq_comm

/-- A device of this size is viewing. -/
def viewedBy (width height : ℕ) : List Event :=
  joins ⟨1, "a", width, height, none, none, .viewer, false⟩ ++
    [.viewerMessage 0 (.message .view) fun _ => 0]

/-- A viewer of another size is watching when the next connection is accepted: it is told a
height and a width of five cells, but the model has two rows of four. -/
theorem greeting_not_current :
    ¬ ∀ (events : List Event) (w : Wrapper asciiVt100),
      session asciiVt100 (.failingAt []) (smallConfig true) events = some w →
        ∀ size greeting, w.Greets (.failingAt []) (smallConfig true) size greeting →
          greeting.hostSize = w.mirror.size := by
  intro hcurrent
  obtain ⟨w, hsession, hdiffer⟩ :
      ∃ w ∈ session asciiVt100 (.failingAt []) (smallConfig true) (viewedBy 4 2),
        (w.greeting (smallConfig true) none).hostSize ≠ w.mirror.size := by
    decide +kernel
  exact hdiffer (hcurrent _ w hsession none _ (greets_iff.mpr rfl))

/-- With a view of the initial size the greeting is right. -/
theorem greeting_current_sample :
    ∃ w ∈ session asciiVt100 (.failingAt []) (smallConfig true) (viewedBy 5 5),
      ∀ size greeting, w.Greets (.failingAt []) (smallConfig true) size greeting →
        greeting.hostSize = w.mirror.size := by
  obtain ⟨w, hsession, hlast⟩ :
      ∃ w ∈ session asciiVt100 (.failingAt []) (smallConfig true) (viewedBy 5 5),
        w.log.lastViewSize (5, 5) = (5, 5) := by
    decide +kernel
  exact ⟨w, hsession, fun size greeting hgreets =>
    ((headless_greeting_iff rfl hsession).2.2 size greeting hgreets).mpr hlast⟩

end Wrapper

end G2mirror
