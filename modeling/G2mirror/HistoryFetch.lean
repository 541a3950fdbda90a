import Mathlib.Algebra.BigOperators.Group.List.Basic
import Mathlib.Algebra.Ring.Nat
import Mathlib.Data.Nat.PSub
import G2mirror.History

/-!
# Stable indices and exact fetches

A line keeps the index it was pushed under, whatever is evicted before it. A
fetch walks back from `before` and answers a contiguous range of indices, which
ends early only for the line limit, the oldest line or the byte budget.
-/

namespace G2mirror

/-- What changes an archive. -/
inductive HistoryOp
  | push (record : HistoryRecord)
  | setMaxLines (maxLines : ℕ)

/-- The record an operation pushes. -/
def HistoryOp.record? : HistoryOp → Option HistoryRecord
  | .push record => some record
  | .setMaxLines _ => none

/-- The limit that an operation sets. -/
def HistoryOp.limit? : HistoryOp → Option ℕ
  | .push _ => none
  | .setMaxLines maxLines => some maxLines

/-- The limit in force after these operations: the one set last, or else the first one. -/
def limitAfter (maxLines : ℕ) (ops : List HistoryOp) : ℕ :=
  ((ops.filterMap HistoryOp.limit?).getLast?).getD maxLines

/-- The bytes of these records together. -/
def totalBytes (records : List HistoryRecord) : ℕ := (records.map (·.bytes.length)).sum

@[simp] theorem totalBytes_append (rs ss : List HistoryRecord) :
    totalBytes (rs ++ ss) = totalBytes rs + totalBytes ss := by
  simp [totalBytes]

@[simp] theorem totalBytes_singleton (r : HistoryRecord) : totalBytes [r] = r.bytes.length := by
  simp [totalBytes]

@[simp] theorem totalBytes_reverse (rs : List HistoryRecord) :
    totalBytes rs.reverse = totalBytes rs := by
  rw [totalBytes, List.map_reverse, List.sum_reverse]
  rfl

namespace History

/-- The archive after one operation. -/
def apply (h : History) : HistoryOp → History
  | .push record => h.push record
  | .setMaxLines maxLines => h.setMaxLines maxLines

/-- The archive after a run of operations. -/
def applyAll (h : History) (ops : List HistoryOp) : History := ops.foldl apply h

/-- `History::oldest`, with a subtraction that fails below zero. -/
def strictOldest (h : History) : Option ℕ := h.next.psub h.lines.length

/-- The loop of `History::fetch` over its `index`, where a subtraction below
zero and an index outside the retained lines fail. -/
def strictFetchLoop (lines : List HistoryRecord) (oldest limit : ℕ) :
    ℕ → ℕ → List HistoryRecord → Option (ℕ × List HistoryRecord)
  | 0, _, collected => some (0, collected)
  | index + 1, budget, collected =>
    if oldest < index + 1 ∧ collected.length < limit then
      (index.psub oldest).bind fun place => lines[place]?.bind fun record =>
        if collected ≠ [] ∧ budget < record.bytes.length then some (index + 1, collected)
        else strictFetchLoop lines oldest limit index (budget - record.bytes.length)
          (collected ++ [record])
    else some (index + 1, collected)

/-- `History::fetch`, failing where its index arithmetic would. -/
def strictFetch (h : History) (before limit : ℕ) : Option (ℕ × List HistoryRecord) :=
  h.strictOldest.bind fun oldest =>
    (strictFetchLoop h.lines oldest limit (max (min before h.next) oldest)
      replyByteBudget []).map fun (index, collected) => (index, collected.reverse)

/-- What `h` retains are the last lines of everything pushed. -/
structure Retains (h : History) (pushed : List HistoryRecord) : Prop where
  next : h.nextIndex = pushed.length
  lines : h.lines <:+ pushed

/-- An operation retains the last lines of what was pushed before it and by it. -/
theorem Retains.apply {h : History} {pushed : List HistoryRecord} (hr : h.Retains pushed)
    (op : HistoryOp) : (h.apply op).Retains (pushed ++ op.record?.toList) := by
  cases op with
  | push record =>
    constructor
    · simpa [HistoryOp.record?, nextIndex, History.apply, push] using hr.next
    · have hsuffix : h.lines ++ [record] <:+ pushed ++ [record] := by
        obtain ⟨front, hfront⟩ := hr.lines
        exact ⟨front, by rw [← hfront, List.append_assoc]⟩
      exact (CappedQueue.rtake_suffix _ _).trans hsuffix
  | setMaxLines maxLines =>
    constructor
    · simpa [HistoryOp.record?, nextIndex, History.apply, setMaxLines] using hr.next
    · simp only [HistoryOp.record?, Option.toList_none, List.append_nil]
      exact (CappedQueue.rtake_suffix _ _).trans hr.lines

/-- A run of operations retains the last lines of what was pushed before it and by it. -/
theorem Retains.applyAll {h : History} {pushed : List HistoryRecord} (hr : h.Retains pushed)
    (ops : List HistoryOp) :
    (h.applyAll ops).Retains (pushed ++ ops.filterMap HistoryOp.record?) := by
  induction ops generalizing h pushed with
  | nil => simpa [History.applyAll] using hr
  | cons op ops ih =>
    have htail := ih (hr.apply op)
    rw [List.append_assoc] at htail
    cases hop : op.record? with
    | none => simpa [History.applyAll, hop] using htail
    | some record => simpa [History.applyAll, hop] using htail

/-- The cap of an archive is the limit in force. -/
theorem applyAll_maxLines (h : History) (ops : List HistoryOp) :
    (h.applyAll ops).maxLines = limitAfter h.maxLines ops := by
  induction ops generalizing h with
  | nil => rfl
  | cons op ops ih =>
    change ((h.apply op).applyAll ops).maxLines = _
    rw [ih]
    cases op with
    | push record => rfl
    | setMaxLines maxLines =>
      simp only [limitAfter, List.filterMap_cons, HistoryOp.limit?, List.getLast?_cons,
        Option.getD_some, History.apply, setMaxLines]

namespace Retains

variable {h : History} {pushed : List HistoryRecord}

/-- The retained lines are the pushed ones from the oldest index on. -/
theorem lines_eq_drop (hr : h.Retains pushed) : h.lines = pushed.drop h.oldest := by
  have hdrop := List.suffix_iff_eq_drop.mp hr.lines
  rwa [← hr.next] at hdrop

/-- The line under an index is the one that was pushed under it. -/
theorem getElem?_eq (hr : h.Retains pushed) {i : ℕ} (hi : h.oldest ≤ i) :
    h.lines[i - h.oldest]? = pushed[i]? := by
  rw [hr.lines_eq_drop, List.getElem?_drop, Nat.add_sub_cancel' hi]

end Retains

section Loop

variable {lines : List HistoryRecord} {limit : ℕ}

/-- One round of the loop that collects a record. -/
theorem fetchLoop_succ {n : ℕ} (hn : n < lines.length) (budget : ℕ)
    (collected : List HistoryRecord) :
    fetchLoop lines limit (n + 1) budget collected =
      if collected.length < limit then
        if collected ≠ [] ∧ budget < lines[n].bytes.length then (n + 1, collected)
        else fetchLoop lines limit n (budget - lines[n].bytes.length) (collected ++ [lines[n]])
      else (n + 1, collected) := by
  rw [fetchLoop, List.getElem?_eq_getElem hn]

/-- The loop collects a contiguous range of the lines, newest first. -/
theorem fetchLoop_range {n : ℕ} (hn : n ≤ lines.length) (budget : ℕ)
    (collected : List HistoryRecord) :
    (fetchLoop lines limit n budget collected).1 ≤ n ∧
      (fetchLoop lines limit n budget collected).2 =
        collected ++
          ((lines.take n).drop (fetchLoop lines limit n budget collected).1).reverse := by
  induction n generalizing budget collected with
  | zero => simp [fetchLoop]
  | succ n ih =>
    have hstay : ((lines.take (n + 1)).drop (n + 1)).reverse = [] := by simp
    rw [fetchLoop_succ hn]
    split_ifs with hlimit hbudget
    · exact ⟨le_rfl, by rw [hstay, List.append_nil]⟩
    · obtain ⟨hle, hrange⟩ := ih (by omega) (budget - lines[n].bytes.length)
        (collected ++ [lines[n]])
      refine ⟨by omega, ?_⟩
      have htake : lines.take (n + 1) = lines.take n ++ [lines[n]] :=
        List.take_succ_eq_append_getElem hn
      have hlength : (lines.take n).length = n := List.length_take_of_le (by omega)
      rw [hrange, htake, List.drop_append_of_le_length (by omega)]
      simp
    · exact ⟨le_rfl, by rw [hstay, List.append_nil]⟩

/-- The loop collects no more lines than the limit. -/
theorem length_fetchLoop_le {n : ℕ} (hn : n ≤ lines.length) (budget : ℕ)
    {collected : List HistoryRecord} (hcollected : collected.length ≤ limit) :
    (fetchLoop lines limit n budget collected).2.length ≤ limit := by
  induction n generalizing budget collected with
  | zero => exact hcollected
  | succ n ih =>
    rw [fetchLoop_succ hn]
    split_ifs with hlimit hbudget
    · exact hcollected
    · apply ih (by omega)
      rw [List.length_append, List.length_singleton]
      omega
    · exact hcollected

/-- The bytes of the newest collected line, the first one. -/
def newestBytes (collected : List HistoryRecord) : ℕ :=
  (collected.head?.map (·.bytes.length)).getD 0

/-- The collected lines are within the budget, or they are one long line and empty ones. -/
def WithinBudget (collected : List HistoryRecord) : Prop :=
  totalBytes collected ≤ max replyByteBudget (newestBytes collected)

/-- The first line may be of any size, a further one has to fit into what the budget leaves. -/
theorem WithinBudget.collect {collected : List HistoryRecord} (hw : WithinBudget collected)
    {record : HistoryRecord}
    (hfits : collected ≠ [] → record.bytes.length ≤ replyByteBudget - totalBytes collected) :
    WithinBudget (collected ++ [record]) := by
  cases collected with
  | nil =>
    unfold WithinBudget newestBytes
    simp only [List.nil_append, totalBytes_singleton, List.head?_cons, Option.map_some,
      Option.getD_some]
    exact Nat.le_max_right _ _
  | cons newest older =>
    have hfits := hfits (List.cons_ne_nil _ _)
    unfold WithinBudget at hw ⊢
    rw [totalBytes_append, totalBytes_singleton]
    change totalBytes (newest :: older) + _ ≤ max replyByteBudget newest.bytes.length
    change totalBytes (newest :: older) ≤ max replyByteBudget newest.bytes.length at hw
    omega

/-- The loop keeps to the budget. -/
theorem withinBudget_fetchLoop {n : ℕ} (hn : n ≤ lines.length) {collected : List HistoryRecord}
    (hw : WithinBudget collected) :
    WithinBudget
      (fetchLoop lines limit n (replyByteBudget - totalBytes collected) collected).2 := by
  induction n generalizing collected with
  | zero => exact hw
  | succ n ih =>
    rw [fetchLoop_succ hn]
    split_ifs with hlimit hbudget
    · exact hw
    · have hfits : WithinBudget (collected ++ [lines[n]]) := hw.collect fun hne => by
        by_contra hlt
        exact hbudget ⟨hne, by omega⟩
      have hnext := ih (by omega) hfits
      rwa [totalBytes_append, totalBytes_singleton, ← Nat.sub_sub] at hnext
    · exact hw

/-- What was collected stays collected. -/
theorem fetchLoop_ne_nil {n : ℕ} (hn : n ≤ lines.length) (budget : ℕ)
    {collected : List HistoryRecord} (hne : collected ≠ []) :
    (fetchLoop lines limit n budget collected).2 ≠ [] := by
  rw [(fetchLoop_range hn budget collected).2]
  simp [hne]

/-- The loop stops below the limit only at the oldest line or before a line that does not fit. -/
theorem fetchLoop_stops {n : ℕ} (hn : n ≤ lines.length) {collected : List HistoryRecord}
    (hbelow : (fetchLoop lines limit n (replyByteBudget - totalBytes collected)
      collected).2.length < limit) :
    (fetchLoop lines limit n (replyByteBudget - totalBytes collected) collected).1 = 0 ∨
      ∃ record,
        lines[(fetchLoop lines limit n (replyByteBudget - totalBytes collected)
          collected).1 - 1]? = some record ∧
        replyByteBudget - totalBytes (fetchLoop lines limit n
          (replyByteBudget - totalBytes collected) collected).2 < record.bytes.length := by
  induction n generalizing collected with
  | zero => exact .inl rfl
  | succ n ih =>
    rw [fetchLoop_succ hn] at hbelow ⊢
    split_ifs at hbelow ⊢ with hlimit hbudget
    · exact .inr ⟨lines[n], List.getElem?_eq_getElem hn, hbudget.2⟩
    · have hnext := @ih (by omega) (collected ++ [lines[n]])
      rw [totalBytes_append, totalBytes_singleton, ← Nat.sub_sub] at hnext
      exact hnext hbelow
    · exact absurd hbelow hlimit

/-- Counted in absolute indices and with checks, the loop answers the same. -/
theorem strictFetchLoop_eq {n : ℕ} (hn : n ≤ lines.length) (oldest budget : ℕ)
    (collected : List HistoryRecord) :
    strictFetchLoop lines oldest limit (oldest + n) budget collected =
      some (oldest + (fetchLoop lines limit n budget collected).1,
        (fetchLoop lines limit n budget collected).2) := by
  induction n generalizing budget collected with
  | zero => cases oldest <;> simp [strictFetchLoop, fetchLoop]
  | succ n ih =>
    have hplace : (oldest + n).psub oldest = some n :=
      Nat.psub_eq_some.mpr (Nat.add_comm _ _)
    have hreached : oldest < oldest + n + 1 := by omega
    rw [fetchLoop_succ hn, ← Nat.add_assoc, strictFetchLoop, hplace]
    simp only [hreached, true_and, Option.bind_some, List.getElem?_eq_getElem hn]
    split_ifs with hlimit hbudget
    · rfl
    · exact ih (by omega) _ _
    · rfl

end Loop

/-- A fetch ends at a place within the retained lines and runs the loop from there. -/
theorem fetch_eq_loop (h : History) (before limit : ℕ) :
    ∃ n ≤ h.lines.length, max (min before h.nextIndex) h.oldest = h.oldest + n ∧
      h.fetch before limit =
        (h.oldest + (fetchLoop h.lines limit n replyByteBudget []).1,
          (fetchLoop h.lines limit n replyByteBudget []).2.reverse) := by
  have holdest : h.oldest + h.lines.length = h.nextIndex := Nat.sub_add_cancel h.counted
  obtain ⟨n, hn⟩ : ∃ n, max (min before h.nextIndex) h.oldest = h.oldest + n :=
    Nat.exists_eq_add_of_le (Nat.le_max_right _ _)
  have hcount : max (min before h.nextIndex) h.oldest - h.oldest = n := by omega
  refine ⟨n, by omega, hn, ?_⟩
  rw [← hcount]
  rfl

/-- No index of a fetch goes below zero or out of the retained lines. -/
theorem strictFetch_eq (h : History) (before limit : ℕ) :
    h.strictFetch before limit = some (h.fetch before limit) := by
  have hstrict : h.strictOldest = some h.oldest :=
    Nat.psub_eq_some.mpr (Nat.sub_add_cancel h.counted)
  obtain ⟨n, hle, hn, hfetch⟩ := h.fetch_eq_loop before limit
  rw [nextIndex] at hn
  rw [hfetch, strictFetch, hstrict, Option.bind_some, hn, strictFetchLoop_eq hle]
  rfl

/-- A reply to a fetch of at most `limit` lines that ends before `stop`. -/
structure Exact (h : History) (pushed : List HistoryRecord) (stop limit : ℕ)
    (reply : ℕ × List HistoryRecord) : Prop where
  /-- The reply starts within the retained indices and not after its end. -/
  start : h.oldest ≤ reply.1 ∧ reply.1 ≤ stop
  /-- The lines are exactly those from the first index to the end. -/
  lines : reply.2 = (pushed.take stop).drop reply.1
  /-- There are no more of them than asked for. -/
  count : reply.2.length ≤ limit
  /-- They fit the budget, except that the newest may be longer. -/
  size : totalBytes reply.2 ≤
    max replyByteBudget ((reply.2.getLast?.map (·.bytes.length)).getD 0)
  /-- If there is a line to return, one is returned. -/
  some_line : 1 ≤ limit → h.oldest < stop → reply.2 ≠ []
  /-- Fewer lines than asked for are returned only at the oldest line or for the budget. -/
  stops : reply.2.length < limit → reply.1 = h.oldest ∨
    ∃ record, pushed[reply.1 - 1]? = some record ∧
      replyByteBudget - totalBytes reply.2 < record.bytes.length

/-- Every fetch from an archive that retains the last of the pushed lines is exact. -/
theorem Retains.exact {h : History} {pushed : List HistoryRecord} (hr : h.Retains pushed)
    (before limit : ℕ) :
    h.Exact pushed (max (min before h.nextIndex) h.oldest) limit (h.fetch before limit) := by
  obtain ⟨n, hle, hn, hfetch⟩ := h.fetch_eq_loop before limit
  obtain ⟨hleft, hrange⟩ := @fetchLoop_range h.lines limit n hle replyByteBudget []
  rw [List.nil_append] at hrange
  rw [hfetch, hn]
  constructor
  · exact ⟨Nat.le_add_right _ _, Nat.add_le_add_left hleft _⟩
  · change (fetchLoop h.lines limit n replyByteBudget []).2.reverse = _
    rw [hrange, List.reverse_reverse, hr.lines_eq_drop, List.take_drop, List.drop_drop]
  · rw [List.length_reverse]
    exact length_fetchLoop_le hle _ (Nat.zero_le _)
  · have hsize := @withinBudget_fetchLoop h.lines limit n hle [] (Nat.zero_le _)
    rw [List.getLast?_reverse, totalBytes_reverse]
    exact hsize
  · intro hlimit hlt
    rw [ne_eq, List.reverse_eq_nil_iff]
    obtain ⟨k, rfl⟩ : ∃ k, n = k + 1 := Nat.exists_eq_succ_of_ne_zero (by omega)
    have hroom : ([] : List HistoryRecord).length < limit := hlimit
    rw [fetchLoop_succ hle, if_pos hroom, if_neg (by simp)]
    exact fetchLoop_ne_nil (by omega) _ (by simp)
  · rw [List.length_reverse, totalBytes_reverse]
    intro hbelow
    rcases @fetchLoop_stops h.lines limit n hle [] hbelow with hzero | ⟨record, hrecord, hover⟩
    · left
      exact congrArg (h.oldest + ·) hzero
    · by_cases hzero : (fetchLoop h.lines limit n replyByteBudget []).1 = 0
      · left
        exact congrArg (h.oldest + ·) hzero
      · right
        refine ⟨record, ?_, hover⟩
        rw [← hrecord, ← hr.getElem?_eq (by omega)]
        congr 1
        change h.oldest + (fetchLoop h.lines limit n replyByteBudget []).1 - 1 - h.oldest =
          (fetchLoop h.lines limit n replyByteBudget []).1 - 1
        omega

/-- Lines keep their indices through every run of operations, no more of them are retained
than the limit in force allows, and every fetch answers exactly the lines it should, without
an index out of range. -/
theorem stable_indices_exact_fetch (maxLines : ℕ) (ops : List HistoryOp) (before limit : ℕ) :
    let h := (new maxLines).applyAll ops
    let pushed := ops.filterMap HistoryOp.record?
    h.nextIndex = pushed.length ∧ h.lines <:+ pushed ∧
      h.lines.length ≤ limitAfter maxLines ops ∧
      (∀ i, h.oldest ≤ i → i < h.nextIndex → h.lines[i - h.oldest]? = pushed[i]?) ∧
      h.strictFetch before limit = some (h.fetch before limit) ∧
      h.Exact pushed (max (min before h.nextIndex) h.oldest) limit (h.fetch before limit) := by
  intro h pushed
  have hr : h.Retains pushed := by
    have hnew : (new maxLines).Retains [] := ⟨rfl, List.suffix_rfl⟩
    exact hnew.applyAll ops
  have hlimit : h.lines.length ≤ limitAfter maxLines ops := by
    have hcap : h.maxLines = limitAfter maxLines ops := applyAll_maxLines (new maxLines) ops
    rw [← hcap]
    exact h.retained
  refine ⟨hr.next, hr.lines, hlimit, fun i hi _ => hr.getElem?_eq hi,
    h.strictFetch_eq before limit, hr.exact before limit⟩

end History

end G2mirror
