import G2mirror.AsciiTerminal
import G2mirror.HistoryFetch
import G2mirror.Wrapper

/-!
# Paging backwards through the history

A client asks for the lines before an index, and then for those before the first
line it got, while the wrapped app goes on writing. Its pages are put together
from the front, so that what it has is always one range of the pushed lines.
-/

namespace G2mirror

variable {vt : Vt100}

/-- The mirror with another archive. -/
def Mirror.withHistory (m : Mirror vt) (history : History) : Mirror vt :=
  { m with history := history }

/-- A record as a line of a history reply. -/
def HistoryRecord.line (env : Env) (r : HistoryRecord) : HistoryLine :=
  ⟨env.base64.encode r.bytes, r.width, r.wrapped⟩

/-- A client that pages backwards through the archive of a session. -/
structure Paging (vt : Vt100) where
  stage : Stage vt
  /-- Everything pushed to the archive so far. -/
  pushed : List HistoryRecord
  /-- The index that the next request asks for the lines before. -/
  before : ℕ
  /-- The pages received, the one received last in front. -/
  pages : List (List HistoryLine)
  requests : ℕ
  /-- The index of the oldest line that the archive retained at the last request. -/
  oldest : ℕ
  finished : Bool

/-- What happens in the session and at its client. -/
inductive PagingEvent
  /-- The archive changes. -/
  | change (op : HistoryOp)
  /-- The session answers the client's next request. Only one is under way at a time. -/
  | request (limit : Option ℕ)

namespace Paging

/-- Before the first request. -/
def start (stage : Stage vt) (pushed : List HistoryRecord) (before : ℕ) : Paging vt :=
  ⟨stage, pushed, before, [], 0, 0, false⟩

/-- A reply arrives: the client goes on from its first line, unless the reply is
empty or starts at the oldest line. -/
def receive (s : Paging vt) (first oldest : ℕ) (lines : List HistoryLine) : Paging vt :=
  { s with
    before := if lines = [] then s.before else first
    pages := lines :: s.pages
    requests := s.requests + 1
    finished := lines = [] || first = oldest }

/-- The index of the oldest line that the archive retains: the lines that it retains are the
last of those pushed. -/
def retainedFrom (s : Paging vt) : ℕ := s.pushed.length - s.stage.mirror.history.lines.length

/-- One event; a client that is finished asks no more, and none asks for no lines. -/
def step (env : Env) (s : Paging vt) : PagingEvent → Option (Paging vt)
  | .change op =>
    some { s with
      stage := s.stage.withMirror
        (s.stage.mirror.withHistory (s.stage.mirror.history.apply op))
      pushed := s.pushed ++ op.record?.toList }
  | .request limit =>
    if s.finished ∨ limit = some 0 then none
    else match s.stage.historyReply env s.before limit with
      | .historyLines first oldest _ lines =>
        some { s.receive first oldest lines with oldest := s.retainedFrom }
      | _ => none

/-- What the client has is a range of the pushed lines that ends before `top`, and
every request but the last one moved its front. -/
structure Paged (env : Env) (top : ℕ) (s : Paging vt) : Prop where
  retains : s.stage.mirror.history.Retains s.pushed
  pushed : top ≤ s.pushed.length
  before : s.before ≤ top
  pages : s.pages.flatten = ((s.pushed.take top).drop s.before).map (HistoryRecord.line env)
  going : s.finished = false → s.requests + s.before ≤ top
  stopped : s.finished = true → s.requests + s.before ≤ top + 1 ∧ s.before ≤ s.oldest

/-- A change of the archive leaves the lines before `top` as they are. -/
theorem Paged.change {env : Env} {top : ℕ} {s : Paging vt} (h : s.Paged env top)
    (op : HistoryOp) {s' : Paging vt} (hstep : s.step env (.change op) = some s') :
    s'.Paged env top := by
  rw [step, Option.some.injEq] at hstep
  rw [← hstep]
  have hlines : (s.pushed ++ op.record?.toList).take top = s.pushed.take top :=
    List.take_append_of_le_length h.pushed
  refine ⟨h.retains.apply op, ?_, h.before, ?_, h.going, h.stopped⟩
  · rw [List.length_append]
    exact h.pushed.trans (Nat.le_add_right _ _)
  · rw [hlines]
    exact h.pages

/-- A reply to a request for the lines before `before`: it is empty when nothing
older is retained, and otherwise it ends there and starts below. -/
theorem reply_range {h : History} {pushed : List HistoryRecord} (hr : h.Retains pushed)
    {before limit : ℕ} (hbefore : before ≤ pushed.length) (hlimit : 1 ≤ limit) :
    ((h.fetch before limit).2 = [] ∧ before ≤ h.oldest) ∨
      ((h.fetch before limit).2 ≠ [] ∧ (h.fetch before limit).1 < before ∧
        (h.fetch before limit).2 = (pushed.take before).drop (h.fetch before limit).1) := by
  have hexact := hr.exact before limit
  rw [hr.next, Nat.min_eq_left hbefore] at hexact
  rcases Nat.lt_or_ge h.oldest before with holder | hnone
  · right
    rw [Nat.max_eq_left (Nat.le_of_lt holder)] at hexact
    have hsome := hexact.some_line hlimit holder
    refine ⟨hsome, ?_, hexact.lines⟩
    refine Nat.lt_of_le_of_ne hexact.start.2 fun heq => hsome ?_
    rw [hexact.lines, heq, List.drop_eq_nil_iff, List.length_take]
    exact Nat.min_le_left _ _
  · left
    rw [Nat.max_eq_right hnone] at hexact
    refine ⟨?_, hnone⟩
    rw [hexact.lines, List.drop_eq_nil_iff, List.length_take]
    exact (Nat.min_le_left _ _).trans hexact.start.1

/-- Ranges that meet at `middle` make one range. -/
theorem drop_take_append_drop {α : Type} (l : List α) {first middle top : ℕ}
    (hfirst : first ≤ middle) (hmiddle : middle ≤ top) :
    (l.take middle).drop first ++ (l.take top).drop middle = (l.take top).drop first := by
  have hfront : l.take middle = (l.take top).take middle := by
    rw [List.take_take, Nat.min_eq_left hmiddle]
  have hback : (l.take top).drop middle = ((l.take top).drop first).drop (middle - first) := by
    rw [List.drop_drop, Nat.add_sub_cancel' hfirst]
  rw [hfront, hback, List.drop_take, List.take_append_drop]

/-- What the client does with the reply to its request. -/
theorem step_request {env : Env} {s s' : Paging vt} {limit : Option ℕ}
    (hstep : s.step env (.request limit) = some s') :
    s.finished = false ∧ limit ≠ some 0 ∧
      s' =
        let reply := s.stage.mirror.history.fetch s.before
          (min (limit.getD defaultFetchLimit) defaultFetchLimit)
        { s.receive reply.1 s.stage.mirror.history.oldest
            (reply.2.map (HistoryRecord.line env)) with oldest := s.retainedFrom } := by
  rw [step] at hstep
  split at hstep
  · cases hstep
  · rename_i hopen
    rw [not_or, Bool.not_eq_true] at hopen
    exact ⟨hopen.1, hopen.2, (Option.some.inj hstep).symm⟩

/-- A limit that asks for something leaves something after it is capped. -/
theorem one_le_limit {limit : Option ℕ} (hlimit : limit ≠ some 0) :
    1 ≤ min (limit.getD defaultFetchLimit) defaultFetchLimit := by
  cases limit with
  | none => decide
  | some n =>
    have hpos : 0 < n := Nat.pos_of_ne_zero fun hzero => hlimit (congrArg some hzero)
    exact Nat.le_min.mpr ⟨hpos, by decide⟩

/-- A request extends the range downwards, or it is the last one. -/
theorem Paged.request {env : Env} {top : ℕ} {s : Paging vt} (h : s.Paged env top)
    {limit : Option ℕ} {s' : Paging vt} (hstep : s.step env (.request limit) = some s') :
    s'.Paged env top := by
  obtain ⟨hopen, hlimit, rfl⟩ := step_request hstep
  have hcount := h.going hopen
  have hbefore := h.before
  have hreply := reply_range h.retains (hbefore.trans h.pushed) (one_le_limit hlimit)
  have holdest : s.stage.mirror.history.oldest = s.retainedFrom := by
    rw [retainedFrom, ← h.retains.next]
    rfl
  rw [holdest] at hreply ⊢
  generalize s.stage.mirror.history.fetch s.before
    (min (limit.getD defaultFetchLimit) defaultFetchLimit) = reply at hreply ⊢
  obtain ⟨first, records⟩ := reply
  rcases hreply with ⟨hempty, hreached⟩ | ⟨hsome, hlt, hlines⟩
  · subst hempty
    refine ⟨h.retains, h.pushed, hbefore, h.pages, nofun, fun _ => ⟨?_, hreached⟩⟩
    change s.requests + 1 + s.before ≤ top + 1
    omega
  · have hpage : records.map (HistoryRecord.line env) ≠ [] := mt List.map_eq_nil_iff.mp hsome
    simp only [receive, if_neg hpage, decide_eq_false hpage, Bool.false_or]
    refine ⟨h.retains, h.pushed, (Nat.le_of_lt hlt).trans hbefore, ?_, fun _ => ?_, fun hdone => ?_⟩
    · have hrecords : records = (s.pushed.take s.before).drop first := hlines
      rw [List.flatten_cons, h.pages, ← List.map_append, hrecords]
      exact congrArg _ (drop_take_append_drop s.pushed (Nat.le_of_lt hlt) hbefore)
    · change s.requests + 1 + first ≤ top
      omega
    · refine ⟨?_, (of_decide_eq_true hdone).le⟩
      change s.requests + 1 + first ≤ top + 1
      omega

/-- See `Paged`. -/
theorem Paged.step {env : Env} {top : ℕ} {s s' : Paging vt} (h : s.Paged env top)
    {event : PagingEvent} (hstep : s.step env event = some s') : s'.Paged env top := by
  cases event with
  | change op => exact h.change op hstep
  | request limit => exact h.request hstep

/-- A client that pages backwards sees every retained line once, whatever is
pushed meanwhile. The pages make up the pushed lines from some index to just
before `top`; after no more than `top + 1` requests the client is finished, and
then nothing older was retained at its last request. -/
theorem paging_sees_every_line (env : Env) {stage : Stage vt} {pushed : List HistoryRecord}
    (hretains : stage.mirror.history.Retains pushed) {top : ℕ}
    (htop : top ≤ stage.mirror.history.nextIndex) {events : List PagingEvent} {s : Paging vt}
    (hrun : Machine.run (step env) (start stage pushed top) events = some s) :
    s.before ≤ top ∧
      s.pages.flatten = ((s.pushed.take top).drop s.before).map (HistoryRecord.line env) ∧
      s.requests ≤ top + 1 ∧
      (s.finished = true → s.before ≤ s.oldest) ∧
      (s.finished = false → ∀ limit, limit ≠ some 0 → (s.step env (.request limit)).isSome) := by
  have hstart : (start stage pushed top).Paged env top := by
    have hlength : top ≤ pushed.length := htop.trans_eq hretains.next
    refine ⟨hretains, hlength, le_rfl, ?_, fun _ => (Nat.zero_add top).le, nofun⟩
    exact (congrArg (List.map _) (List.drop_eq_nil_of_le (List.length_take_le top pushed))).symm
  have h : s.Paged env top :=
    Machine.run_invariant (I := Paged env top) (fun _ _ _ hs hstep => hs.step hstep) hstart hrun
  refine ⟨h.before, h.pages, ?_, fun hdone => (h.stopped hdone).2, fun hopen limit hlimit => ?_⟩
  · cases hdone : s.finished with
    | false => exact (Nat.le_of_add_right_le (h.going hdone)).trans (Nat.le_succ top)
    | true => exact Nat.le_of_add_right_le (h.stopped hdone).1
  · rw [Paging.step, if_neg (by simp [hopen, hlimit])]
    rfl

/-- Two lines are paged one by one while a third is pushed and evicts the first. -/
theorem paging_sees_both_lines :
    let record (b : UInt8) : HistoryRecord := ⟨[b], 4, false⟩
    let env := Env.failingAt []
    let mirror := (Mirror.new asciiVt100 2 4).withHistory
      ((History.new 2).applyAll [.push (record 97), .push (record 98)])
    let stage : Stage asciiVt100 := ⟨[], none, mirror, false, (2, 4), []⟩
    ∃ s, Machine.run (step env) (start stage [record 97, record 98] 2)
        [.request (some 1), .change (.push (record 99)), .request none] = some s ∧
      s.finished = true ∧ s.pages.flatten = [(record 98).line env] ∧ s.before ≤ s.oldest := by
  intro record env mirror stage
  have hretains : stage.mirror.history.Retains [record 97, record 98] :=
    ⟨rfl, ⟨[], rfl⟩⟩
  obtain ⟨s, hrun, hdone, hpages⟩ : ∃ s, Machine.run (step env)
      (start stage [record 97, record 98] 2)
      [.request (some 1), .change (.push (record 99)), .request none] = some s ∧
        s.finished = true ∧ s.pages.flatten = [(record 98).line env] := ⟨_, rfl, rfl, rfl⟩
  exact ⟨s, hrun, hdone, hpages,
    (paging_sees_every_line env hretains (by decide) hrun).2.2.2.1 hdone⟩

end Paging

end G2mirror
