import G2mirror.AppInput

/-!
# What the app waits for

An input that a session accepted is written at once up to its first pause. What is left of it has a
deadline: a reading of the clock and the pause of the first chunk that waits. Whatever else happens,
the deadline stands and the chunk waits, until the deadline fires; then it goes to the app. So what
was accepted is lost only if a write to the app fails.
-/

namespace G2mirror

variable {vt : Vt100}

/-- The clock of an event that may pump the queue. -/
def Event.clock? : Event → Option (ℕ → ℕ)
  | .inputDue now => some now
  | .viewerMessage _ (.message (.input ..)) now => some now
  | _ => none

/-- A clock of these events was read at this time. -/
def ReadAt (events : List Event) (time : ℕ) : Prop :=
  ∃ event ∈ events, ∃ now ∈ event.clock?, ∃ k, now k = time

theorem ReadAt.append {earlier : List Event} {time : ℕ} (h : ReadAt earlier time)
    (events : List Event) : ReadAt (earlier ++ events) time := by
  obtain ⟨event, hevent, hread⟩ := h
  exact ⟨event, List.mem_append_left _ hevent, hread⟩

/-- A clock that the last of these events has. -/
theorem ReadAt.last {earlier : List Event} {event : Event} {now : ℕ → ℕ}
    (h : event.clock? = some now) (k : ℕ) : ReadAt (earlier ++ [event]) (now k) :=
  ⟨event, List.mem_append_right _ (List.mem_singleton_self _), now, h, k, rfl⟩

/-- If no write to the app failed, the app has all that was written to it. -/
theorem Log.ptyBytes_eq_of_unfailed {log : Log} (h : ∀ bytes, .ptyWrote bytes false ∉ log) :
    log.ptyBytes = log.appWrites.flatten := by
  induction log with
  | nil => rfl
  | cons o log ih =>
    have hrest := ih fun bytes hmem => h bytes (List.mem_cons_of_mem _ hmem)
    cases o with
    | ptyWrote bytes ok =>
      cases ok with
      | true =>
        rw [Log.ptyBytes, hrest, Log.appWrites_wrote, List.flatten_append, List.flatten_singleton]
      | false => exact absurd List.mem_cons_self (h bytes)
    | _ => exact hrest

namespace InputQueue

variable {env : Env} {now : ℕ → ℕ} {events : List Event}

/-- Only a chunk that waits has a deadline: its pause after a reading of the clock. -/
structure Timed (events : List Event) (q : InputQueue) : Prop where
  idle : q.queue = [] → q.due = none
  head : ∀ chunk ∈ q.queue.head?, ∀ t ∈ q.due,
    0 < chunk.1 ∧ ∃ time, ReadAt events time ∧ t = time + chunk.1

theorem Timed.append {earlier : List Event} {q : InputQueue} (h : q.Timed earlier)
    (events : List Event) : q.Timed (earlier ++ events) := by
  refine ⟨h.idle, fun chunk hchunk t ht => ?_⟩
  obtain ⟨hpause, time, hread, heq⟩ := h.head chunk hchunk t ht
  exact ⟨hpause, time, hread.append events, heq⟩

theorem Timed.queue_ne_nil {q : InputQueue} (h : q.Timed events) {t : ℕ} (ht : q.due = some t) :
    q.queue ≠ [] := by
  intro hempty
  cases (h.idle hempty).symm.trans ht

/-- What is accepted goes behind what waits. -/
theorem Timed.push {q : InputQueue} (h : q.Timed events) (bytes : Bytes)
    (delays : List InputDelay) : (q.push bytes delays).Timed events := by
  constructor
  · intro hempty
    exact h.idle (List.append_eq_nil_iff.mp hempty).1
  · intro chunk hchunk t ht
    have hne := h.queue_ne_nil ht
    refine h.head chunk ?_ t ht
    rwa [InputQueue.push, List.head?_append_of_ne_nil _ hne] at hchunk

/-- A deadline that a pump leaves is its own reading of the clock and the pause of the head, or
was there before. -/
theorem pumpLoop_timed {k : ℕ} {chunks : List (ℕ × Bytes)} {due : Option ℕ} {log : Log}
    (h : (⟨chunks, due⟩ : InputQueue).Timed events) (hnow : ∀ k, ReadAt events (now k)) :
    (pumpLoop env now k chunks due log).2.1.Timed events := by
  induction chunks generalizing k due log with
  | nil => exact h
  | cons chunk rest ih =>
    obtain ⟨pause, bytes⟩ := chunk
    have hrest : (⟨rest, none⟩ : InputQueue).Timed events := ⟨fun _ => rfl, by rintro _ _ _ ⟨⟩⟩
    unfold pumpLoop
    dsimp only
    split
    · rename_i hearly
      refine ⟨fun hempty => absurd hempty (List.cons_ne_nil _ _), ?_⟩
      rintro _ ⟨⟩ t ⟨⟩
      cases due with
      | some t => exact h.head _ rfl t rfl
      | none =>
        rw [Option.getD_none] at hearly
        exact ⟨by dsimp only; omega, now k, hnow k, rfl⟩
    · split
      · exact ih hrest
      · split
        · exact ih hrest
        · exact hrest

theorem Timed.pump {q : InputQueue} (h : q.Timed events) (hnow : ∀ k, ReadAt events (now k))
    (env : Env) (log : Log) : (q.pump env now log).2.1.Timed events :=
  pumpLoop_timed h hnow

/-- A pump that comes early leaves everything as it is. -/
theorem pump_of_early {q : InputQueue} (hqueue : q.queue ≠ []) {t : ℕ} (hdue : q.due = some t)
    (hearly : now 0 < t) (env : Env) (log : Log) : q.pump env now log = (none, q, log) := by
  obtain ⟨chunks, due⟩ := q
  obtain rfl : due = some t := hdue
  cases chunks with
  | nil => exact absurd rfl hqueue
  | cons chunk rest =>
    unfold InputQueue.pump pumpLoop
    exact if_pos hearly

/-- A pump fails only if a write fails. -/
theorem pumpLoop_unfailed {k : ℕ} {chunks : List (ℕ × Bytes)} {due : Option ℕ} {log : Log}
    (h : ∀ bytes, .ptyWrote bytes false ∉ (pumpLoop env now k chunks due log).2.2) :
    (pumpLoop env now k chunks due log).1 = none := by
  induction chunks generalizing k due log with
  | nil => rfl
  | cons chunk rest ih =>
    obtain ⟨pause, bytes⟩ := chunk
    unfold pumpLoop at h ⊢
    dsimp only at h ⊢
    split at h
    · rename_i hearly
      rw [if_pos hearly]
    · rename_i hdue
      rw [if_neg hdue]
      split at h
      · rename_i hempty
        rw [if_pos hempty]
        exact ih h
      · rename_i hbytes
        rw [if_neg hbytes]
        cases hfailed : env.failure log with
        | none =>
          rw [hfailed] at h
          exact ih h
        | some error =>
          rw [hfailed] at h
          have hwrite : env.succeeds log = false := by
            apply Bool.eq_false_iff.mpr
            intro hok
            cases (Env.failure_eq_none.mpr hok).symm.trans hfailed
          refine absurd ?_ (h bytes)
          rw [hwrite]
          exact List.mem_cons_self

/-- Unless a write fails, a pump leaves nothing, or a chunk whose pause runs. -/
theorem Timed.armed {q : InputQueue} (h : q.Timed events) {log : Log}
    (hok : ∀ bytes, .ptyWrote bytes false ∉ (q.pump env now log).2.2) :
    (q.pump env now log).2.1.queue = [] ∨ (q.pump env now log).2.1.due.isSome = true := by
  have hpumped : q.pump env now log =
      (none, (q.pump env now log).2.1, (q.pump env now log).2.2) :=
    Prod.ext (pumpLoop_unfailed hok) rfl
  rcases pumpLoop_armed hpumped h.idle with ⟨hempty, -⟩ | ⟨-, hdue⟩
  · exact .inl hempty
  · exact .inr hdue

end InputQueue

namespace Wrapper

variable {env : Env} {config : Config} {w w' : Wrapper vt}

/-- The keyboard has nothing to do with the queue. -/
theorem onStdin_inputQueue {bytes : Bytes} (h : w.onStdin env config bytes = some w') :
    w'.inputQueue = w.inputQueue := by
  unfold onStdin at h
  split at h
  · cases h
  · split at h
    · obtain ⟨t, -, rfl⟩ := proceed_eq_some.mp h
      rfl
    · obtain ⟨t, -, rfl⟩ := proceed_eq_some.mp h
      rfl

/-- All that an event can do to the queue: it leaves it, it pumps it, or it accepts an input that
is pumped. -/
theorem step_inputQueue_cases {event : Event} (h : step env config w event = some w') :
    w'.inputQueue = w.inputQueue ∨
      ∃ now q log, event.clock? = some now ∧
        (q = w.inputQueue ∨ ∃ bytes delays, q = w.inputQueue.push bytes delays) ∧
        w'.inputQueue = (q.pump env now log).2.1 ∧ (q.pump env now log).2.2 <:+ w'.log := by
  by_cases htypes : event.types = false
  · exact .inl (step_inputQueue htypes h)
  · cases event with
    | stdin bytes =>
      rw [step] at h
      split at h
      · exact .inl (onStdin_inputQueue h)
      · cases h
    | inputDue now =>
      rw [step] at h
      split at h
      · rename_i hpumped
        cases h
        refine .inr ⟨now, w.inputQueue, w.log, rfl, .inl rfl, ?_⟩
        rw [hpumped]
        exact ⟨rfl, List.suffix_refl _⟩
      · cases h
    | viewerMessage i received now =>
      cases received with
      | closed => exact absurd rfl htypes
      | message msg =>
        cases msg with
        | input data delays =>
          have hhandled : w.onViewerMessage env config i (.message (.input data delays)) now =
              some w' := h
          obtain ⟨c, -, hqueue, hlog⟩ := onViewerMessage_handled hhandled
          rcases handleInput_cases w.toStage env config w.hostRank data delays i c now
            w.inputQueue with ⟨-, hsame, -⟩ | ⟨bytes, -, -, hpumped, hwrote⟩
          · exact .inl (hqueue.trans hsame)
          · rw [hwrote] at hlog
            rw [hpumped] at hqueue
            exact .inr ⟨now, w.inputQueue.push bytes delays, w.toStage.log, rfl,
              .inr ⟨bytes, delays, rfl⟩, hqueue, hlog.suffix⟩
        | _ => exact absurd rfl htypes
    | _ => exact absurd rfl htypes

/-- Whatever happens, the log only grows. -/
theorem log_suffix_of_step {event : Event} (h : step env config w event = some w') :
    w.log <:+ w'.log := by
  by_cases haccept : ∃ size, event = .accept size
  · obtain ⟨size, rfl⟩ := haccept
    cases h
    exact List.suffix_cons _ _
  · refine (step_grows (P := fun _ => True) ⟨fun _ _ _ _ => trivial, fun _ _ => trivial⟩
      ⟨fun _ _ _ _ _ _ => trivial, fun _ _ _ => trivial, fun _ _ _ => trivial⟩
      (fun _ => ⟨fun _ _ _ => trivial, fun _ => trivial⟩) (fun _ _ _ => trivial)
      ⟨fun _ _ _ => trivial, fun _ _ _ => trivial⟩ (fun _ _ _ => trivial)
      (fun size heq => haccept ⟨size, heq⟩) h).log.suffix

/-- A deadline that is there is a reading of the clock and the pause of the first chunk, and there
is one for what waits, unless a write to the app failed. -/
structure Timed (events : List Event) (w : Wrapper vt) : Prop where
  timed : w.inputQueue.Timed events
  armed : (∀ bytes, .ptyWrote bytes false ∉ w.log) →
    w.inputQueue.queue = [] ∨ w.inputQueue.due.isSome = true

theorem Timed.step {earlier : List Event} (h : w.Timed earlier) {event : Event}
    (hstep : step env config w event = some w') : w'.Timed (earlier ++ [event]) := by
  have hlater := h.timed.append [event]
  rcases step_inputQueue_cases hstep with hsame | ⟨now, q, log, hclock, hq, hpumped, hlog⟩
  · rw [← hsame] at hlater
    refine ⟨hlater, fun hok => ?_⟩
    rw [hsame]
    exact h.armed fun bytes hmem => hok bytes ((log_suffix_of_step hstep).subset hmem)
  · have hqueued : q.Timed (earlier ++ [event]) := by
      rcases hq with rfl | ⟨bytes, delays, rfl⟩
      · exact hlater
      · exact hlater.push bytes delays
    constructor
    · rw [hpumped]
      exact hqueued.pump (fun k => .last hclock k) env log
    · intro hok
      rw [hpumped]
      exact hqueued.armed fun bytes hmem => hok bytes (hlog.subset hmem)

theorem Timed.run {earlier : List Event} (h : w.Timed earlier) {events : List Event}
    (hrun : Machine.run (Wrapper.step env config) w events = some w') :
    w'.Timed (earlier ++ events) := by
  induction events generalizing w earlier with
  | nil =>
    obtain rfl := Option.some.inj hrun
    rwa [List.append_nil]
  | cons event events ih =>
    obtain ⟨w₁, hstep, hrest⟩ := Machine.run_cons_eq_some.mp hrun
    have hall := ih (h.step hstep) hrest
    rwa [List.append_assoc] at hall

/-- Before the deadline, what waits goes on waiting. -/
theorem Timed.waits {events : List Event} (h : w.Timed events) {event : Event}
    (hstep : Wrapper.step env config w event = some w') {t : ℕ} (ht : w.inputQueue.due = some t)
    (hearly : ∀ now ∈ event.clock?, now 0 < t) :
    w'.inputQueue.due = some t ∧ w.inputQueue.queue <+: w'.inputQueue.queue := by
  have hne := h.timed.queue_ne_nil ht
  rcases step_inputQueue_cases hstep with hsame | ⟨now, q, log, hclock, hq, hpumped, -⟩
  · rw [hsame]
    exact ⟨ht, List.prefix_refl _⟩
  · obtain ⟨hdue, hqueue⟩ : q.due = some t ∧ w.inputQueue.queue <+: q.queue := by
      rcases hq with rfl | ⟨bytes, delays, rfl⟩
      · exact ⟨ht, List.prefix_refl _⟩
      · exact ⟨ht, List.prefix_append _ _⟩
    rw [hpumped, InputQueue.pump_of_early (hqueue.ne_nil hne) hdue (hearly now hclock)]
    exact ⟨hdue, hqueue⟩

/-- When the deadline fires, at least the first chunk goes to the app. -/
theorem Timed.fires {events : List Event} (h : w.Timed events) {now : ℕ → ℕ}
    (hstep : Wrapper.step env config w (.inputDue now) = some w') {t : ℕ}
    (ht : w.inputQueue.due = some t) (hdue : t ≤ now 0) :
    ∃ gone, gone ≠ [] ∧ w.inputQueue.queue = gone ++ w'.inputQueue.queue ∧
      w'.log.ptyBytes = w.log.ptyBytes ++ gone.flatMap Prod.snd := by
  rw [Wrapper.step] at hstep
  split at hstep
  · rename_i hpumped
    cases hstep
    obtain ⟨hqueue, hlog⟩ := InputQueue.pumpLoop_writes hpumped
    refine ⟨(w.inputQueue.releases now).map Release.chunk, ?_, hqueue.symm, ?_⟩
    · intro hnone
      exact InputQueue.releases_ne_nil (h.timed.queue_ne_nil ht) ht hdue
        (List.map_eq_nil_iff.mp hnone)
    · rw [List.flatMap_map]
      exact hlog
  · cases hstep

/-- Everything that a session writes to its app was typed on the host's keyboard, or is part of an
input that it accepted. The writes from the keyboard are what was typed there, those from clients
are what was accepted from them, byte for byte and in order, apart from what still waits for its
pause; a read-only session writes nothing that a client sent. If no write fails, the app gets all of
that, and what waits has a deadline. Before it, nothing makes it go; when it fires, it goes. -/
theorem app_input_accounted (hstart : start vt env config = some w)
    {events : List Event} (hrun : Machine.run (Wrapper.step env config) w events = some w') :
    ∃ (sourced : List (InputSource × Bytes)) (waiting : List (ℕ × Bytes)),
      sourced.map Prod.snd = w'.log.appWrites ∧
      waiting.map Prod.snd = w'.inputQueue.queue.map Prod.snd ∧
      sourced.flatMap InputSource.keys = events.flatMap Event.keys ∧
      sourced.flatMap InputSource.inputs ++ waiting.flatMap tagged =
        (acceptedIn env config w events).flatMap tagged ∧
      (config.readonly = true → ∀ write ∈ sourced, write.1 = .keyboard) ∧
      ((∀ bytes, .ptyWrote bytes false ∉ w'.log) →
        w'.log.ptyBytes = sourced.flatMap Prod.snd ∧
        ∀ chunk ∈ w'.inputQueue.queue.head?, 0 < chunk.1 ∧
          ∃ time, ReadAt events time ∧ w'.inputQueue.due = some (time + chunk.1)) ∧
      (∀ event w₂ t, Wrapper.step env config w' event = some w₂ → w'.inputQueue.due = some t →
        ((∀ now ∈ event.clock?, now 0 < t) →
          w₂.inputQueue.due = some t ∧ w'.inputQueue.queue <+: w₂.inputQueue.queue) ∧
        ∀ now, event = .inputDue now → t ≤ now 0 →
          ∃ gone, gone ≠ [] ∧ w'.inputQueue.queue = gone ++ w₂.inputQueue.queue ∧
            w₂.log.ptyBytes = w'.log.ptyBytes ++ gone.flatMap Prod.snd) := by
  obtain ⟨sourced, waiting, hsourced, hwaiting, hwrites, hkeys, hinputs⟩ :=
    (appAccounts_start hstart).run hrun
  have hidle : w.Timed [] := by
    have hempty := start_inputQueue hstart
    constructor
    · rw [hempty]
      exact ⟨fun _ => rfl, by rintro _ ⟨⟩⟩
    · intro _
      rw [hempty]
      exact .inl rfl
  have htimed := hidle.run hrun
  refine ⟨sourced, waiting, hsourced, hwaiting, hkeys, hinputs, ?_, ?_, ?_⟩
  · intro hreadonly write hwrite
    rw [acceptedIn_of_readonly hreadonly] at hinputs
    obtain ⟨source, bytes⟩ := write
    cases source with
    | keyboard => rfl
    | client id =>
      have hnothing : tagged (id, bytes) = [] :=
        List.flatMap_eq_nil_iff.mp (List.append_eq_nil_iff.mp hinputs).1 _ hwrite
      have hwritten : bytes ∈ w'.log.appWrites := hsourced ▸ List.mem_map_of_mem hwrite
      exact absurd (List.map_eq_nil_iff.mp hnothing) (hwrites _ hwritten)
  · intro hok
    refine ⟨?_, fun chunk hchunk => ?_⟩
    · rw [Log.ptyBytes_eq_of_unfailed hok, ← hsourced, List.flatMap_def]
    · rcases htimed.armed hok with hempty | harmed
      · rw [hempty] at hchunk
        cases hchunk
      · obtain ⟨t, ht⟩ := Option.isSome_iff_exists.mp harmed
        obtain ⟨hpause, time, hread, rfl⟩ := htimed.timed.head chunk hchunk t ht
        exact ⟨hpause, time, hread, ht⟩
  · intro event w₂ t hstep ht
    refine ⟨fun hearly => htimed.waits hstep ht hearly, ?_⟩
    rintro now rfl hdue
    exact htimed.fires hstep ht hdue

/-- Someone types on the host's keyboard while a client sends two inputs, the second of them with a
pause in it. -/
def typedAtBoth : List Event :=
  joins ⟨1, "a", 4, 2, none, none, .viewer, false⟩ ++
    [.stdin (ascii "ls"), .viewerMessage 0 (.message (.input "SGVsbG8=" [])) fun _ => 0,
      .stdin (ascii "\n"),
      .viewerMessage 0 (.message (.input "SGVsbG8=" [⟨2, 50⟩])) fun _ => 7,
      .stdin (hotkey :: ascii "q")]

theorem app_input_accounted_of_both :
    ∃ w₀ ∈ start asciiVt100 base64Env (smallConfig false),
      ∃ w ∈ Machine.run (step base64Env (smallConfig false)) w₀ typedAtBoth,
        w.log.appWrites = [ascii "ls", ascii "Hello", ascii "\n", ascii "He", ascii "q"] ∧
        w.inputQueue.due = some 57 ∧
        ∃ (sourced : List (InputSource × Bytes)) (waiting : List (ℕ × Bytes)),
          sourced.map Prod.snd = w.log.appWrites ∧ waiting.map Prod.snd = [ascii "llo"] ∧
          sourced.flatMap InputSource.keys = ascii "ls\nq" ∧
          sourced.flatMap InputSource.inputs ++ waiting.flatMap tagged =
            tagged (0, ascii "HelloHello") ∧
          w.log.ptyBytes = sourced.flatMap Prod.snd ∧
          ∃ w₂ ∈ step base64Env (smallConfig false) w (.inputDue fun _ => 57),
            w₂.log.ptyBytes = w.log.ptyBytes ++ ascii "llo" := by
  obtain ⟨w₀, hstart, w, hrun, hwrites, hqueue, hdue, ⟨w₂, hfired, hempty⟩, hok, hkeys, hinputs⟩ :
      ∃ w₀ ∈ start asciiVt100 base64Env (smallConfig false),
        ∃ w ∈ Machine.run (step base64Env (smallConfig false)) w₀ typedAtBoth,
          w.log.appWrites = [ascii "ls", ascii "Hello", ascii "\n", ascii "He", ascii "q"] ∧
          w.inputQueue.queue = [(50, ascii "llo")] ∧ w.inputQueue.due = some 57 ∧
          (∃ w₂ ∈ step base64Env (smallConfig false) w (.inputDue fun _ => 57),
            w₂.inputQueue.queue = []) ∧
          (∀ o ∈ w.log, ∀ bytes ∈ o.appWrite?, o = .ptyWrote bytes true) ∧
          typedAtBoth.flatMap Event.keys = ascii "ls\nq" ∧
          (acceptedIn base64Env (smallConfig false) w₀ typedAtBoth).flatMap tagged =
            tagged (0, ascii "HelloHello") := by
    decide +kernel
  obtain ⟨sourced, waiting, hsourced, hwaiting, hkeyboard, hclients, -, hunfailed, hnext⟩ :=
    app_input_accounted hstart hrun
  have hno (bytes : Bytes) : .ptyWrote bytes false ∉ w.log := by
    intro hmem
    cases hok _ hmem bytes rfl
  obtain ⟨gone, -, hleft, hbytes⟩ := (hnext _ w₂ 57 hfired hdue).2 _ rfl le_rfl
  rw [hempty, List.append_nil, hqueue] at hleft
  subst hleft
  rw [hqueue] at hwaiting
  exact ⟨w₀, hstart, w, hrun, hwrites, hdue, sourced, waiting, hsourced, hwaiting,
    hkeyboard.trans hkeys, hclients.trans hinputs, (hunfailed hno).1, w₂, hfired, hbytes⟩

end Wrapper

end G2mirror
