import Mathlib.Data.List.Chain
import G2mirror.AsciiTerminal
import G2mirror.Library.Machine
import G2mirror.Wrapper

/-!
# Delayed client input

Inputs of any clients are split at their delay offsets and queued, and the queue
is pumped from time to time. Whatever the times of the pumps, bytes are written
in the order of arrival, a pause runs from the end of the write before it, and a
deadline is armed as long as anything is queued.
-/

namespace G2mirror

variable {vt : Vt100}

/-- The bytes written to the pty, in order. -/
def Log.ptyBytes : Log → Bytes
  | [] => []
  | .ptyWrote bytes true :: log => ptyBytes log ++ bytes
  | _ :: log => ptyBytes log

/-- A chunk the queue let go: it was written between `start` and `finish`. -/
structure Release where
  pause : ℕ
  bytes : Bytes
  start : ℕ
  finish : ℕ

namespace Release

/-- The pause before a chunk is no shorter than asked for. -/
def Paused (a b : Release) : Prop := a.finish + b.pause ≤ b.start

/-- The chunk as it was queued. -/
def chunk (r : Release) : ℕ × Bytes := (r.pause, r.bytes)

/-- When the last of these chunks was written, `finish` being the end of an earlier write. -/
def finishes (finish : ℕ) (rs : List Release) : ℕ := rs.foldl (fun _ r => r.finish) finish

/-- Every chunk waits its pause from the end of the write before it, the first one from `finish`. -/
def PausedFrom : ℕ → List Release → Prop
  | _, [] => True
  | finish, r :: rs => finish + r.pause ≤ r.start ∧ PausedFrom r.finish rs

theorem finishes_append (finish : ℕ) (rs ss : List Release) :
    finishes finish (rs ++ ss) = finishes (finishes finish rs) ss := List.foldl_append

theorem pausedFrom_append {finish : ℕ} {rs ss : List Release} :
    PausedFrom finish (rs ++ ss) ↔
      PausedFrom finish rs ∧ PausedFrom (finishes finish rs) ss := by
  induction rs generalizing finish with
  | nil => simp [PausedFrom, finishes]
  | cons r rs ih =>
    rw [List.cons_append, PausedFrom, PausedFrom, ih, and_assoc]
    rfl

theorem PausedFrom.isChain {finish : ℕ} {rs : List Release} (h : PausedFrom finish rs) :
    rs.IsChain Paused := by
  induction rs generalizing finish with
  | nil => exact .nil
  | cons r rs ih =>
    apply (ih h.2).cons
    intro next hnext
    cases rs with
    | nil => cases hnext
    | cons s rs =>
      obtain rfl := Option.some.inj hnext
      exact h.2.1

end Release

namespace InputQueue

/-- A slice, failing where its bounds are not in order or not within the bytes. -/
def strictSlice (bytes : Bytes) (start stop : ℕ) : Option Bytes :=
  if start ≤ stop ∧ stop ≤ bytes.length then some ((bytes.take stop).drop start) else none

/-- The chunks of an input, failing where a slice does. -/
def strictChunksFrom (bytes : Bytes) : ℕ → ℕ → List InputDelay → Option (List (ℕ × Bytes))
  | start, pause, [] => (strictSlice bytes start bytes.length).map fun chunk => [(pause, chunk)]
  | start, pause, d :: ds =>
    (strictSlice bytes start d.offset).bind fun chunk =>
      (strictChunksFrom bytes d.offset (min d.ms maxInputDelayMs) ds).map ((pause, chunk) :: ·)

/-- What the loop of `pump` lets go, with the readings of the clock around each write. -/
def releaseLoop (now : ℕ → ℕ) : ℕ → List (ℕ × Bytes) → Option ℕ → List Release
  | _, [], _ => []
  | k, (pause, bytes) :: rest, due =>
    if now k < due.getD (now k + pause) then []
    else ⟨pause, bytes, now k, now (k + 1)⟩ :: releaseLoop now (k + 1) rest none

/-- What `pump` lets go. -/
def releases (q : InputQueue) (now : ℕ → ℕ) : List Release := releaseLoop now 0 q.queue q.due

section Chunks

variable {bytes : Bytes}

/-- Offsets that passed the check slice the input within its bounds. -/
theorem strictChunksFrom_eq {start pause : ℕ} {delays : List InputDelay}
    (hstart : start ≤ bytes.length) (horder : delaysInOrder bytes.length start delays = true) :
    strictChunksFrom bytes start pause delays = some (chunksFrom bytes start pause delays) := by
  induction delays generalizing start pause with
  | nil => simp [strictChunksFrom, chunksFrom, strictSlice, hstart]
  | cons d ds ih =>
    unfold delaysInOrder at horder
    simp only [Bool.and_eq_true, decide_eq_true_eq] at horder
    obtain ⟨⟨hle, hwithin⟩, hrest⟩ := horder
    unfold strictChunksFrom
    rw [strictSlice, if_pos ⟨hle, hwithin⟩, ih hwithin hrest]
    rfl

/-- The first chunk waits for what is before it, and each further one for its delay. -/
theorem chunksFrom_pauses (start pause : ℕ) (delays : List InputDelay) :
    (chunksFrom bytes start pause delays).map Prod.fst =
      pause :: delays.map fun d => min d.ms maxInputDelayMs := by
  induction delays generalizing start pause with
  | nil => rfl
  | cons d ds ih =>
    unfold chunksFrom
    rw [List.map_cons, ih, List.map_cons]

/-- The chunks make up the input. -/
theorem chunksFrom_bytes {start pause : ℕ} {delays : List InputDelay}
    (horder : delaysInOrder bytes.length start delays = true) :
    (chunksFrom bytes start pause delays).flatMap Prod.snd = bytes.drop start := by
  induction delays generalizing start pause with
  | nil => simp [chunksFrom]
  | cons d ds ih =>
    unfold delaysInOrder at horder
    simp only [Bool.and_eq_true, decide_eq_true_eq] at horder
    obtain ⟨⟨hle, hwithin⟩, hrest⟩ := horder
    unfold chunksFrom
    rw [List.flatMap_cons, ih hrest]
    have hsplit : bytes = bytes.take d.offset ++ bytes.drop d.offset :=
      (List.take_append_drop _ _).symm
    have hlength : (bytes.take d.offset).length = d.offset := List.length_take_of_le hwithin
    conv_rhs => rw [hsplit, List.drop_append_of_le_length (by omega)]

end Chunks

section Pump

variable {env : Env} {now : ℕ → ℕ}

/-- A pump that succeeds lets chunks go from the front of the queue and writes their bytes. -/
theorem pumpLoop_writes {k : ℕ} {chunks : List (ℕ × Bytes)} {due : Option ℕ} {log log' : Log}
    {q : InputQueue} (hok : pumpLoop env now k chunks due log = (none, q, log')) :
    (releaseLoop now k chunks due).map Release.chunk ++ q.queue = chunks ∧
      log'.ptyBytes = log.ptyBytes ++ (releaseLoop now k chunks due).flatMap Release.bytes := by
  induction chunks generalizing k due log with
  | nil =>
    obtain ⟨-, rfl, rfl⟩ := hok
    simp [releaseLoop]
  | cons chunk rest ih =>
    obtain ⟨pause, bytes⟩ := chunk
    unfold pumpLoop at hok
    unfold releaseLoop
    simp only at hok
    split_ifs at hok ⊢ with hearly hempty
    · obtain ⟨-, rfl, rfl⟩ := hok
      simp
    · obtain ⟨hqueue, hlog⟩ := ih hok
      subst hempty
      exact ⟨by rw [List.map_cons, List.cons_append, hqueue]; rfl, by simpa using hlog⟩
    · split at hok
      · rename_i hsent
        obtain ⟨hqueue, hlog⟩ := ih hok
        rw [Env.failure_eq_none.mp hsent] at hlog
        refine ⟨by rw [List.map_cons, List.cons_append, hqueue]; rfl, ?_⟩
        rw [hlog, Log.ptyBytes, List.flatMap_cons, List.append_assoc]
      · cases hok

/-- After a pump that succeeds nothing is queued, or the pause of the head runs. -/
theorem pumpLoop_armed {k : ℕ} {chunks : List (ℕ × Bytes)} {due : Option ℕ} {log log' : Log}
    {q : InputQueue} (hok : pumpLoop env now k chunks due log = (none, q, log'))
    (hdue : chunks = [] → due = none) :
    (q.queue = [] ∧ q.due = none) ∨ (q.queue ≠ [] ∧ q.due.isSome = true) := by
  induction chunks generalizing k due log with
  | nil =>
    obtain ⟨-, rfl, rfl⟩ := hok
    exact .inl ⟨rfl, hdue rfl⟩
  | cons chunk rest ih =>
    obtain ⟨pause, bytes⟩ := chunk
    unfold pumpLoop at hok
    simp only at hok
    split_ifs at hok with hearly hempty
    · obtain ⟨-, rfl, rfl⟩ := hok
      exact .inr ⟨List.cons_ne_nil _ _, rfl⟩
    · exact ih hok fun _ => rfl
    · split at hok
      · exact ih hok fun _ => rfl
      · cases hok

/-- Whatever is queued, its head waits its pause from `finish` on. -/
def Waits (finish : ℕ) (queue : List (ℕ × Bytes)) (due : Option ℕ) : Prop :=
  ∀ c ∈ queue.head?, ∀ t ∈ due, finish + c.1 ≤ t

/-- A pump respects the pauses, and what it leaves goes on waiting from its last write. -/
theorem pumpLoop_waits {k finish : ℕ} {chunks : List (ℕ × Bytes)}
    {due : Option ℕ} {log log' : Log} {q : InputQueue}
    (hok : pumpLoop env now k chunks due log = (none, q, log')) (hfinish : finish ≤ now k)
    (hwaits : Waits finish chunks due) :
    Release.PausedFrom finish (releaseLoop now k chunks due) ∧
      Release.finishes finish (releaseLoop now k chunks due) ≤
        now (k + (releaseLoop now k chunks due).length) ∧
      Waits (Release.finishes finish (releaseLoop now k chunks due)) q.queue q.due := by
  induction chunks generalizing k due log finish with
  | nil =>
    obtain ⟨-, rfl, rfl⟩ := hok
    exact ⟨trivial, hfinish, hwaits⟩
  | cons chunk rest ih =>
    obtain ⟨pause, bytes⟩ := chunk
    have hdue : finish + pause ≤ due.getD (now k + pause) := by
      cases due with
      | none => exact Nat.add_le_add_right hfinish pause
      | some t => exact hwaits _ rfl t rfl
    -- Once the head is let go, the next pause starts after its write.
    have hgo {log : Log} (hstart : ¬ now k < due.getD (now k + pause))
        (hok : pumpLoop env now (k + 1) rest none log = (none, q, log')) :
        Release.PausedFrom finish
            (⟨pause, bytes, now k, now (k + 1)⟩ :: releaseLoop now (k + 1) rest none) ∧
          Release.finishes (now (k + 1)) (releaseLoop now (k + 1) rest none) ≤
            now (k + ((releaseLoop now (k + 1) rest none).length + 1)) ∧
          Waits (Release.finishes (now (k + 1)) (releaseLoop now (k + 1) rest none))
            q.queue q.due := by
      obtain ⟨hpaused, hlast, hleft⟩ := ih hok le_rfl (by rintro _ _ _ ⟨⟩)
      refine ⟨⟨?_, hpaused⟩, ?_, hleft⟩
      · change finish + pause ≤ now k
        omega
      · rwa [Nat.add_comm (List.length _) 1, ← Nat.add_assoc]
    unfold pumpLoop at hok
    unfold releaseLoop
    simp only at hok
    split_ifs at hok ⊢ with hearly hempty
    · obtain ⟨-, rfl, rfl⟩ := hok
      refine ⟨trivial, hfinish, ?_⟩
      rintro _ ⟨⟩ _ ⟨⟩
      exact hdue
    · exact hgo hearly hok
    · split at hok
      · exact hgo hearly hok
      · cases hok

/-- A pump at the armed deadline lets at least the head go. -/
theorem releases_ne_nil {q : InputQueue} (hqueue : q.queue ≠ []) {t : ℕ}
    (hdue : q.due = some t) (ht : t ≤ now 0) : q.releases now ≠ [] := by
  obtain ⟨chunks, due⟩ := q
  cases chunks with
  | nil => exact absurd rfl hqueue
  | cons chunk rest =>
    obtain rfl : due = some t := hdue
    have hnot : ¬ now 0 < t := by omega
    unfold releases releaseLoop
    simp [hnot]

end Pump

end InputQueue

/-- The input queue in use. The inputs accepted so far and the chunks let go so
far are kept in order, and `reads` counts the readings of the clock. -/
structure InputRun (vt : Vt100) where
  stage : Stage vt
  queue : InputQueue
  accepted : List (Bytes × List InputDelay)
  releases : List Release
  reads : ℕ

/-- What happens to the queue, from the `k`-th reading of the clock on. -/
inductive InputEvent
  /-- Viewer `i`, who is `c`, sends an input. -/
  | input (i : ℕ) (c : Client) (data : String) (delays : List InputDelay) (k : ℕ)
  | pump (k : ℕ)

namespace InputRun

variable {env : Env} {config : Config} {hostRank : ℕ} {clock : ℕ → ℕ}

/-- Nothing is queued yet. -/
def start (stage : Stage vt) : InputRun vt := ⟨stage, .empty, [], [], 0⟩

/-- An input that is accepted, or a pump, without an error. -/
def step (env : Env) (config : Config) (hostRank : ℕ) (clock : ℕ → ℕ) (r : InputRun vt) :
    InputEvent → Option (InputRun vt)
  | .input i c data delays k =>
    let now := fun j => clock (k + j)
    match env.base64.decode data,
      r.stage.handleViewerMessage env config hostRank (.input data delays) i c now r.queue with
    | .ok bytes, (none, stage, queue) =>
      if r.reads ≤ k ∧ config.readonly = false then
        let released := (r.queue.push bytes delays).releases now
        some ⟨stage, queue, r.accepted ++ [(bytes, delays)], r.releases ++ released,
          k + released.length⟩
      else none
    | _, _ => none
  | .pump k =>
    let now := fun j => clock (k + j)
    match r.queue.pump env now r.stage.log with
    | (none, queue, log) =>
      if r.reads ≤ k then
        let released := r.queue.releases now
        some ⟨{ r.stage with log := log }, queue, r.accepted, r.releases ++ released,
          k + released.length⟩
      else none
    | _ => none

/-- The bytes the queue has written. -/
def written (r : InputRun vt) : Bytes := r.releases.flatMap Release.bytes

/-- The bytes of all accepted inputs, in the order of arrival. -/
def acceptedBytes (r : InputRun vt) : Bytes := r.accepted.flatMap Prod.fst

/-- The chunks that all accepted inputs are split into. -/
def chunks (r : InputRun vt) : List (ℕ × Bytes) :=
  r.accepted.flatMap fun a => InputQueue.chunksFrom a.1 0 0 a.2

/-- The pumps come at or after the deadline then armed. -/
def Due (clock : ℕ → ℕ) (r : InputRun vt) : InputEvent → Prop
  | .pump k => ∀ t ∈ r.queue.deadline, t ≤ clock k
  | .input _ _ _ _ _ => False

/-- What accepting inputs and pumping keep. -/
structure Kept (clock : ℕ → ℕ) (before : Bytes) (r : InputRun vt) : Prop where
  inOrder : ∀ a ∈ r.accepted, InputQueue.delaysInOrder a.1.length 0 a.2 = true
  queued : r.releases.map Release.chunk ++ r.queue.queue = r.chunks
  log : r.stage.log.ptyBytes = before ++ r.written
  paused : Release.PausedFrom 0 r.releases
  past : Release.finishes 0 r.releases ≤ clock r.reads
  waits : InputQueue.Waits (Release.finishes 0 r.releases) r.queue.queue r.queue.due
  idle : r.queue.queue = [] → r.queue.due = none

/-- After an event nothing is queued, or a deadline is armed. -/
def Armed (r : InputRun vt) : Prop := r.queue.queue = [] ∨ r.queue.deadline.isSome = true

/-- An accepted input goes behind what is queued. -/
theorem Kept.push {before : Bytes} {r : InputRun vt} (hr : r.Kept clock before) {bytes : Bytes}
    {delays : List InputDelay}
    (horder : InputQueue.delaysInOrder bytes.length 0 delays = true) :
    Kept clock before { r with
      queue := r.queue.push bytes delays
      accepted := r.accepted ++ [(bytes, delays)] } := by
  refine ⟨?_, ?_, hr.log, hr.paused, hr.past, ?_, ?_⟩
  · intro a ha
    rcases List.mem_append.mp ha with ha | ha
    · exact hr.inOrder a ha
    · obtain rfl := List.mem_singleton.mp ha
      exact horder
  · simp only [chunks, InputQueue.push, List.flatMap_append, List.flatMap_singleton]
    rw [← List.append_assoc, hr.queued]
    rfl
  · intro c hc t ht
    cases hqueue : r.queue.queue with
    | nil =>
      rw [InputQueue.push, hr.idle hqueue] at ht
      cases ht
    | cons head rest =>
      apply hr.waits c _ t ht
      simpa [InputQueue.push, hqueue] using hc
  · intro hempty
    have hempty := List.append_eq_nil_iff.mp hempty
    exact hr.idle hempty.1

/-- A pump that succeeds. -/
theorem Kept.pump (hclock : Monotone clock) {before : Bytes} {r : InputRun vt}
    (hr : r.Kept clock before) {k : ℕ} (hk : r.reads ≤ k) {queue : InputQueue} {log : Log}
    (hok : r.queue.pump env (fun j => clock (k + j)) r.stage.log = (none, queue, log)) :
    let r' : InputRun vt := ⟨{ r.stage with log := log }, queue, r.accepted,
      r.releases ++ r.queue.releases fun j => clock (k + j),
      k + (r.queue.releases fun j => clock (k + j)).length⟩
    r'.Kept clock before ∧ r'.Armed := by
  intro r'
  obtain ⟨hqueue, hlog⟩ := InputQueue.pumpLoop_writes hok
  have hpast : Release.finishes 0 r.releases ≤ clock (k + 0) := hr.past.trans (hclock hk)
  obtain ⟨hpaused, hlast, hleft⟩ := InputQueue.pumpLoop_waits hok hpast hr.waits
  have harmed := InputQueue.pumpLoop_armed hok hr.idle
  have hfinishes : Release.finishes 0 r'.releases = Release.finishes (Release.finishes 0 r.releases)
      (r.queue.releases fun j => clock (k + j)) := Release.finishes_append _ _ _
  constructor
  · refine ⟨hr.inOrder, ?_, ?_, ?_, ?_, ?_, ?_⟩
    · rw [List.map_append, List.append_assoc]
      exact (congrArg (r.releases.map Release.chunk ++ ·) hqueue).trans hr.queued
    · change log.ptyBytes = before ++ (r.releases ++ _).flatMap Release.bytes
      rw [hlog, hr.log, List.flatMap_append, ← List.append_assoc]
      rfl
    · exact Release.pausedFrom_append.mpr ⟨hr.paused, hpaused⟩
    · rw [hfinishes]
      rwa [Nat.zero_add] at hlast
    · rw [hfinishes]
      exact hleft
    · intro hempty
      rcases harmed with ⟨-, hdue⟩ | ⟨hne, -⟩
      · exact hdue
      · exact absurd hempty hne
  · rcases harmed with ⟨hempty, -⟩ | ⟨-, hdue⟩
    · exact .inl hempty
    · exact .inr hdue

/-- An accepted input passes the checks, is queued, and the queue is pumped. -/
theorem step_input_eq_some {r r' : InputRun vt} {i : ℕ} {c : Client} {data : String}
    {delays : List InputDelay} {k : ℕ}
    (hstep : r.step env config hostRank clock (.input i c data delays k) = some r') :
    ∃ bytes queue log, InputQueue.delaysInOrder bytes.length 0 delays = true ∧ r.reads ≤ k ∧
      (r.queue.push bytes delays).pump env (fun j => clock (k + j)) r.stage.log =
        (none, queue, log) ∧
      r' = ⟨{ r.stage with log := log }, queue, r.accepted ++ [(bytes, delays)],
        r.releases ++ (r.queue.push bytes delays).releases fun j => clock (k + j),
        k + ((r.queue.push bytes delays).releases fun j => clock (k + j)).length⟩ := by
  unfold step at hstep
  simp only at hstep
  split at hstep
  · rename_i bytes stage queue hdecode hhandled
    obtain ⟨⟨hk, hwritable⟩, hr'⟩ := Option.ite_none_right_eq_some.mp hstep
    obtain rfl := Option.some.inj hr'
    unfold Stage.handleViewerMessage at hhandled
    simp only [hwritable, hdecode, Bool.false_eq_true, if_false] at hhandled
    split_ifs at hhandled with hmany horder
    · cases hhandled
    · cases hhandled
    · simp only [Bool.not_eq_true', Bool.not_eq_false] at horder
      generalize hpump : (r.queue.push bytes delays).pump env (fun j => clock (k + j))
        r.stage.log = result at hhandled
      obtain ⟨error, queue', log⟩ := result
      simp only [Prod.mk.injEq] at hhandled
      obtain ⟨rfl, rfl, rfl⟩ := hhandled
      exact ⟨bytes, queue', log, horder, hk, hpump, rfl⟩
  · cases hstep

/-- A pump of the run is a pump of its queue. -/
theorem step_pump_eq_some {r r' : InputRun vt} {k : ℕ}
    (hstep : r.step env config hostRank clock (.pump k) = some r') :
    ∃ queue log, r.reads ≤ k ∧
      r.queue.pump env (fun j => clock (k + j)) r.stage.log = (none, queue, log) ∧
      r' = ⟨{ r.stage with log := log }, queue, r.accepted,
        r.releases ++ r.queue.releases fun j => clock (k + j),
        k + (r.queue.releases fun j => clock (k + j)).length⟩ := by
  unfold step at hstep
  simp only at hstep
  split at hstep
  · rename_i queue log hpump
    obtain ⟨hk, hr'⟩ := Option.ite_none_right_eq_some.mp hstep
    exact ⟨queue, log, hk, hpump, (Option.some.inj hr').symm⟩
  · cases hstep

/-- Every event keeps the run in order and leaves a deadline armed if anything is queued. -/
theorem Kept.step (hclock : Monotone clock) {before : Bytes} {r r' : InputRun vt}
    (hr : r.Kept clock before) {event : InputEvent}
    (hstep : r.step env config hostRank clock event = some r') :
    r'.Kept clock before ∧ r'.Armed := by
  cases event with
  | input i c data delays k =>
    obtain ⟨bytes, queue, log, horder, hk, hpump, rfl⟩ := step_input_eq_some hstep
    exact (hr.push horder).pump hclock hk hpump
  | pump k =>
    obtain ⟨queue, log, hk, hpump, rfl⟩ := step_pump_eq_some hstep
    exact hr.pump hclock hk hpump

/-- Pumps at their deadlines empty the queue, one chunk each at least. -/
theorem length_queue_of_due (hclock : Monotone clock) {before : Bytes} {ks : List ℕ}
    {r r' : InputRun vt} (hr : r.Kept clock before) (harmed : r.Armed)
    (hrun : Machine.run (step env config hostRank clock) r (ks.map .pump) = some r')
    (hdue : Machine.Along (step env config hostRank clock) (Due clock) r (ks.map .pump)) :
    r'.queue.queue.length ≤ r.queue.queue.length - ks.length := by
  induction ks generalizing r with
  | nil =>
    obtain rfl := Option.some.inj hrun
    exact le_rfl
  | cons k ks ih =>
    obtain ⟨s, hs, hrest⟩ := Machine.run_cons_eq_some.mp hrun
    obtain ⟨hkept, hnext⟩ := hr.step hclock hs
    have hlater := ih hkept hnext hrest (hdue.2 s hs)
    obtain ⟨queue, log, hk, hpump, rfl⟩ := step_pump_eq_some hs
    have hqueue := congrArg List.length (InputQueue.pumpLoop_writes hpump).1
    rw [List.length_append, List.length_map] at hqueue
    rw [List.length_cons]
    by_cases hempty : r.queue.queue = []
    · rw [hempty] at hqueue ⊢
      simp only [List.length_nil] at hqueue ⊢
      have hzero : queue.queue.length = 0 := by omega
      simp only at hlater
      omega
    · obtain ⟨t, ht⟩ := Option.isSome_iff_exists.mp (harmed.resolve_left hempty)
      have hgone : r.queue.releases (fun j => clock (k + j)) ≠ [] :=
        InputQueue.releases_ne_nil hempty ht (hdue.1 t ht)
      have hpos := List.length_pos_iff.mpr hgone
      unfold InputQueue.releases at hpos
      simp only at hlater
      omega

/-- Pumps accept nothing. -/
theorem Kept.pumps (hclock : Monotone clock) {before : Bytes} {ks : List ℕ} {r r' : InputRun vt}
    (hr : r.Kept clock before)
    (hrun : Machine.run (InputRun.step env config hostRank clock) r (ks.map .pump) = some r') :
    r'.Kept clock before ∧ r'.acceptedBytes = r.acceptedBytes := by
  induction ks generalizing r with
  | nil =>
    obtain rfl := Option.some.inj hrun
    exact ⟨hr, rfl⟩
  | cons k ks ih =>
    obtain ⟨s, hs, hrest⟩ := Machine.run_cons_eq_some.mp hrun
    obtain ⟨hkept, haccepted⟩ := ih (hr.step hclock hs).1 hrest
    obtain ⟨queue, log, -, -, rfl⟩ := step_pump_eq_some hs
    exact ⟨hkept, haccepted⟩

/-- What holds whenever the queue is at rest between two events. -/
structure Orderly (env : Env) (config : Config) (hostRank : ℕ) (clock : ℕ → ℕ) (before : Bytes)
    (r : InputRun vt) : Prop where
  /-- The pty got what the queue has written, a prefix of everything accepted. -/
  written : r.stage.log.ptyBytes = before ++ r.written ∧ r.written <+: r.acceptedBytes
  /-- No slice of an accepted input is out of bounds. -/
  sliced : ∀ a ∈ r.accepted,
    InputQueue.strictChunksFrom a.1 0 0 a.2 = some (InputQueue.chunksFrom a.1 0 0 a.2)
  /-- The bytes after a delay offset are a chunk with that pause before it, at most a second. -/
  pauses : ∀ a ∈ r.accepted, (InputQueue.chunksFrom a.1 0 0 a.2).map Prod.fst =
    0 :: a.2.map fun d => min d.ms maxInputDelayMs
  /-- The chunks are written in order, -/
  chunked : r.releases.map Release.chunk ++ r.queue.queue = r.chunks
  /-- and none before its pause after the chunk before it was written is over. -/
  paused : r.releases.IsChain Release.Paused
  armed : r.queue.queue = [] ∨ r.queue.deadline.isSome = true
  /-- Without an armed deadline everything was written. -/
  caughtUp : r.queue.deadline = none → r.queue.queue = [] ∧ r.written = r.acceptedBytes
  /-- Once the armed deadlines were pumped, nothing is queued and everything was written. -/
  drained : ∀ (ks : List ℕ) (r' : InputRun vt),
    Machine.run (step env config hostRank clock) r (ks.map .pump) = some r' →
    Machine.Along (step env config hostRank clock) (Due clock) r (ks.map .pump) →
    r.queue.queue.length ≤ ks.length → r'.queue.queue = [] ∧ r'.written = r.acceptedBytes

/-- What is written and what is queued are what was accepted. -/
theorem Kept.written_append {before : Bytes} {r : InputRun vt} (hr : r.Kept clock before) :
    r.written ++ r.queue.queue.flatMap Prod.snd = r.acceptedBytes := by
  have hchunks : r.chunks.flatMap Prod.snd = r.acceptedBytes := by
    unfold chunks acceptedBytes
    rw [List.flatMap_assoc]
    apply List.flatMap_congr
    intro a ha
    exact InputQueue.chunksFrom_bytes (hr.inOrder a ha)
  rw [← hchunks, ← hr.queued, List.flatMap_append, List.flatMap_map]
  rfl

/-- Accepted input is written in its order and with its pauses, however inputs
and pumps follow each other. -/
theorem delayed_input_orderly (hclock : Monotone clock) {stage : Stage vt}
    {events : List InputEvent} {r : InputRun vt}
    (hrun : Machine.run (step env config hostRank clock) (start stage) events = some r) :
    r.Orderly env config hostRank clock stage.log.ptyBytes := by
  have hstart : (start stage).Kept clock stage.log.ptyBytes ∧ (start stage).Armed := by
    refine ⟨⟨?_, rfl, ?_, trivial, Nat.zero_le _, ?_, fun _ => rfl⟩, .inl rfl⟩
    · rintro a ⟨⟩
    · exact (List.append_nil _).symm
    · rintro c ⟨⟩
  obtain ⟨hr, harmed⟩ := Machine.run_invariant
    (I := fun r => r.Kept clock stage.log.ptyBytes ∧ r.Armed)
    (fun s event s' hs hstep => hs.1.step hclock hstep) hstart hrun
  refine ⟨⟨hr.log, _, hr.written_append⟩, ?_, ?_, hr.queued, hr.paused.isChain, harmed, ?_, ?_⟩
  · intro a ha
    exact InputQueue.strictChunksFrom_eq (Nat.zero_le _) (hr.inOrder a ha)
  · intro a ha
    exact InputQueue.chunksFrom_pauses 0 0 a.2
  · intro hdeadline
    have hempty := harmed.resolve_right (by simp [hdeadline])
    have happend := hr.written_append
    rw [hempty] at happend
    exact ⟨hempty, by simpa using happend⟩
  · intro ks r' hpumps hdue hks
    have hlength := length_queue_of_due hclock hr harmed hpumps hdue
    have hempty : r'.queue.queue = [] := List.length_eq_zero_iff.mp (by omega)
    obtain ⟨hr', haccepted⟩ := hr.pumps hclock hpumps
    have happend := hr'.written_append
    rw [hempty] at happend
    refine ⟨hempty, ?_⟩
    rw [← haccepted]
    simpa using happend

/-- An input with a pause of 300 ms after its second byte, pumped too early and
then in time. -/
theorem delayed_input_orderly_of_pause :
    let env : Env := { Env.failingAt [] with base64 := ⟨fun _ => "", fun data =>
      if data = "SGVsbG8=" then .ok [72, 101, 108, 108, 111] else .error "Invalid padding"⟩ }
    let config := Wrapper.smallConfig true
    let stage : Stage asciiVt100 := ⟨[], none, Mirror.new asciiVt100 2 4, false, (2, 4), []⟩
    ∃ r, Machine.run (step env config 0 id) (start stage)
        [.input 0 (.new 0) "SGVsbG8=" [⟨2, 300⟩] 5, .pump 100, .pump 306] = some r ∧
      r.written = [72, 101, 108, 108, 111] ∧ r.Orderly env config 0 id [] := by
  intro env config stage
  obtain ⟨r, hrun, hwritten⟩ : ∃ r, Machine.run (step env config 0 id) (start stage)
      [.input 0 (.new 0) "SGVsbG8=" [⟨2, 300⟩] 5, .pump 100, .pump 306] = some r ∧
      r.written = [72, 101, 108, 108, 111] := ⟨_, rfl, rfl⟩
  exact ⟨r, hrun, hwritten, delayed_input_orderly monotone_id hrun⟩

end InputRun

end G2mirror
