import G2mirror.Library.CappedQueue

/-!
# The scrollback history archive

`history.rs`: an append-only sequence of lines with stable indices, retained up
to a line cap. A `History` carries the two facts its index arithmetic rests on:
it retains no more than its cap and no more than was ever appended.
-/

namespace G2mirror

/-- Bytes as the pty, the sockets and the archive carry them. -/
abbrev Bytes := List UInt8

/-- `DEFAULT_MAX_LINES`: history lines retained unless told otherwise. -/
def defaultMaxLines : ℕ := 10000

/-- `MAX_LINE_BYTES`: cap on one line's stored bytes. -/
def maxLineBytes : ℕ := 64 * 1024

/-- `REPLY_BYTE_BUDGET`: byte budget for one history reply. -/
def replyByteBudget : ℕ := 192 * 1024

/-- `DEFAULT_FETCH_LIMIT`: lines per fetch when the client does not say. -/
def defaultFetchLimit : ℕ := 500

/-- One archived line: self-contained styled text, the width it was laid out
at, and whether it soft-wraps onto the next record. -/
structure HistoryRecord where
  /-- Printable text plus SGR sequences, starting from default attributes. -/
  bytes : Bytes
  /-- Columns the line was laid out at. -/
  width : ℕ
  /-- The line and the next record form one logical line. -/
  wrapped : Bool
  deriving DecidableEq

/-- The archive. `next` is the index the next appended line will get. -/
structure History where
  lines : List HistoryRecord
  next : ℕ
  maxLines : ℕ
  /-- No more lines are retained than the cap allows. -/
  retained : lines.length ≤ maxLines
  /-- No more lines are retained than were appended. -/
  counted : lines.length ≤ next

namespace History

/-- `History::new`. -/
def new (maxLines : ℕ) : History := ⟨[], 0, maxLines, Nat.zero_le _, le_rfl⟩

/-- `History::set_max_lines`: the new cap takes effect at once. -/
def setMaxLines (h : History) (maxLines : ℕ) : History where
  lines := h.lines.rtake maxLines
  next := h.next
  maxLines := maxLines
  retained := by rw [CappedQueue.length_rtake]; exact Nat.min_le_left _ _
  counted := by
    rw [CappedQueue.length_rtake]
    exact (Nat.min_le_right _ _).trans h.counted

/-- `History::push`: append one line and evict from the front down to the cap. -/
def push (h : History) (record : HistoryRecord) : History where
  lines := CappedQueue.push h.maxLines h.lines record
  next := h.next + 1
  maxLines := h.maxLines
  retained := by rw [CappedQueue.length_push]; exact Nat.min_le_left _ _
  counted := by
    rw [CappedQueue.length_push]
    exact (Nat.min_le_right _ _).trans (Nat.succ_le_succ h.counted)

/-- Append several lines, the first of the list first. -/
def pushAll (h : History) (records : List HistoryRecord) : History := records.foldl push h

/-- `History::next_index`: index one past the newest line. -/
def nextIndex (h : History) : ℕ := h.next

/-- `History::oldest`: index of the oldest line still retained. -/
def oldest (h : History) : ℕ := h.next - h.lines.length

/-- `History::tail`: the newest `count` retained lines, oldest first. -/
def tail (h : History) (count : ℕ) : List HistoryRecord :=
  h.lines.drop (h.lines.length - count)

/-- The loop of `History::fetch`, with `n` lines retained below its `index`.
It answers how many of them it left and the lines it collected, newest first. -/
def fetchLoop (lines : List HistoryRecord) (limit : ℕ) :
    ℕ → ℕ → List HistoryRecord → ℕ × List HistoryRecord
  | 0, _, collected => (0, collected)
  | n + 1, budget, collected =>
    if collected.length < limit then
      match lines[n]? with
      | none => (n + 1, collected)
      | some record =>
        if collected ≠ [] ∧ budget < record.bytes.length then (n + 1, collected)
        else fetchLoop lines limit n (budget - record.bytes.length) (collected ++ [record])
    else (n + 1, collected)

/-- `History::fetch`: lines ending just before `before`, bounded by `limit` and
the reply byte budget, oldest first, with the index of the first of them. -/
def fetch (h : History) (before limit : ℕ) : ℕ × List HistoryRecord :=
  let stop := max (min before h.next) h.oldest
  let (left, collected) := fetchLoop h.lines limit (stop - h.oldest) replyByteBudget []
  (h.oldest + left, collected.reverse)

@[simp] theorem pushAll_nil (h : History) : h.pushAll [] = h := rfl

@[simp] theorem pushAll_cons (h : History) (r : HistoryRecord) (rs : List HistoryRecord) :
    h.pushAll (r :: rs) = (h.push r).pushAll rs := rfl

/-- Appending in two portions is appending their concatenation. -/
theorem pushAll_append (h : History) (rs ss : List HistoryRecord) :
    h.pushAll (rs ++ ss) = (h.pushAll rs).pushAll ss := List.foldl_append

/-- Appending keeps the cap. -/
@[simp] theorem pushAll_maxLines (h : History) (rs : List HistoryRecord) :
    (h.pushAll rs).maxLines = h.maxLines := by
  induction rs generalizing h with
  | nil => rfl
  | cons r rs ih => exact ih (h.push r)

/-- Every appended line takes one index. -/
@[simp] theorem pushAll_next (h : History) (rs : List HistoryRecord) :
    (h.pushAll rs).next = h.next + rs.length := by
  induction rs generalizing h with
  | nil => rfl
  | cons r rs ih =>
    rw [pushAll_cons, ih, List.length_cons]
    change h.next + 1 + rs.length = h.next + (rs.length + 1)
    omega

/-- The retained lines are the last ones of everything appended. -/
theorem pushAll_lines (h : History) (rs : List HistoryRecord) :
    (h.pushAll rs).lines = (h.lines ++ rs).rtake h.maxLines := by
  rw [← CappedQueue.pushAll_eq_rtake rs h.retained]
  induction rs generalizing h with
  | nil => rfl
  | cons r rs ih => exact ih (h.push r)

/-- The newest lines are exactly those just appended, as long as the cap has room for them. -/
theorem tail_pushAll {h : History} {rs : List HistoryRecord} (hroom : rs.length ≤ h.maxLines) :
    (h.pushAll rs).tail rs.length = rs := by
  have htail : (h.pushAll rs).tail rs.length = (h.pushAll rs).lines.rtake rs.length := rfl
  rw [htail, pushAll_lines, CappedQueue.rtake_rtake, Nat.min_eq_left hroom,
    CappedQueue.rtake_append, Nat.sub_self, List.rtake_zero, List.nil_append,
    CappedQueue.rtake_of_length_le le_rfl]

/-- Appending leaves the archive as it was only when there was nothing to append. -/
theorem pushAll_eq_self_iff {h : History} {rs : List HistoryRecord} :
    h = h.pushAll rs ↔ rs = [] := by
  constructor
  · intro heq
    have hnext := congrArg History.next heq
    rw [pushAll_next] at hnext
    exact List.length_eq_zero_iff.mp (by omega)
  · rintro rfl
    rfl

end History

end G2mirror
