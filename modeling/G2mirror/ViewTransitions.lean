import G2mirror.AsciiLaws
import G2mirror.Watching
import G2mirror.Library.Machine

/-!
# The archive across view transitions

A view transition replaces the parser, and with it the staging scrollback. Runs
of the mirror are watched for what this does to the archive: a transition on the
alternate screen drops the pending rows, and one that comes while the app is on
its primary screen never lets an alternate-screen row through.
-/

namespace G2mirror

open scoped List

variable {vt : Vt100}

/-- The calls that change a mirror. -/
inductive Call
  | process (bytes : Bytes)
  | startView (view : View)
  | endView
  | hostResized (rows cols : ℕ)

/-- Sizes reach the mirror only with at least one row. -/
def Call.Sized : Call → Prop
  | .startView view => 0 < view.rows
  | .hostResized rows _ => 0 < rows
  | _ => True

instance : DecidablePred Call.Sized
  | .process _ => isTrue trivial
  | .startView view => inferInstanceAs (Decidable (0 < view.rows))
  | .endView => isTrue trivial
  | .hostResized rows _ => inferInstanceAs (Decidable (0 < rows))

/-- Where a line of the archive came from: a row that scrolled off, with the
width it was laid out at, or the flush when a view starts. -/
inductive Entry
  | scrolled (row : Row) (width : ℕ)
  | flushed (record : HistoryRecord)

/-- The record that was archived. -/
def Entry.record : Entry → HistoryRecord
  | .scrolled row width => row.record width
  | .flushed record => record

/-- The row that scrolled off, if that is where the record came from. -/
def Entry.row? : Entry → Option Row
  | .scrolled row _ => some row
  | .flushed _ => none

namespace Mirror

/-- What a harvest archives. -/
def harvestEntries (m : Mirror vt) : List Entry :=
  if m.parser.alternate then [] else m.unarchived.map (Entry.scrolled · m.parser.cols)

/-- What a view start archives besides: the non-blank rows its crop drops. -/
def flushEntries (m : Mirror vt) (keepRows : ℕ) : List Entry :=
  if m.harvest.parser.alternate then []
  else (upToLastNonblank (m.harvest.droppedRecords keepRows)).map Entry.flushed

/-- The entries of a harvest are its records. -/
theorem harvestEntries_records (m : Mirror vt) :
    m.harvestEntries.map Entry.record = m.harvestRecords := by
  rw [harvestEntries, harvestRecords]
  split
  · rfl
  · rw [List.map_map]
    rfl

/-- A view start appends the records of what it harvests and flushes. -/
theorem flush_history {m : Mirror vt} (hrows : 0 < m.parser.rows) (keepRows : ℕ) :
    (m.flushHistoryForRebuild keepRows).history =
      m.history.pushAll ((m.harvestEntries ++ m.flushEntries keepRows).map Entry.record) := by
  have hflush : (m.flushHistoryForRebuild keepRows).history =
      m.harvest.history.pushAll ((m.flushEntries keepRows).map Entry.record) := by
    cases halt : m.harvest.parser.alternate with
    | true => simp only [flushHistoryForRebuild, flushEntries, halt, if_true]; rfl
    | false =>
      have hrecords (records : List HistoryRecord) :
          (records.map Entry.flushed).map Entry.record = records := by
        rw [List.map_map]
        exact List.map_id records
      simp only [flushHistoryForRebuild, flushEntries, halt, Bool.false_eq_true, if_false,
        hrecords]
  rw [hflush, harvest_history hrows, ← History.pushAll_append, List.map_append,
    harvestEntries_records]

end Mirror

/-- A mirror in a run, with what the run determines beside it. -/
structure Watched (vt : Vt100) where
  mirror : Mirror vt
  app : App vt
  /-- The rows that scrolled off since the parser was last replaced and were never archived,
  whether they are still staged or not. -/
  pending : List Row
  /-- Every row that scrolled off, with whether the app was on the alternate screen. -/
  scrolled : List (Bool × Row)
  /-- Everything archived. -/
  entries : List Entry

namespace Watched

/-- A new mirror, with its archive's limit set and no output so far. -/
def start (vt : Vt100) (hostRows hostCols limit : ℕ) : Watched vt :=
  ⟨(Mirror.new vt hostRows hostCols).setHistoryLimit limit, App.start vt, [], [], []⟩

/-- One slice of the app's output. What the harvest archives are the newest of the rows
that wait. -/
def slice (w : Watched vt) (bytes : Bytes) : Watched vt :=
  let parsed := w.mirror.parsed bytes
  { mirror := w.mirror.processSlice bytes
    app := w.app.feed bytes
    pending := (w.pending ++ w.mirror.parser.rowsOff bytes).rdrop parsed.harvestEntries.length
    scrolled := w.scrolled ++ w.mirror.parser.scrolledBeside w.app bytes
    entries := w.entries ++ parsed.harvestEntries }

/-- One call. The rows that a snapshot scrolls off while it primes a parser count with the
screen the app is on. -/
def call (w : Watched vt) : Call → Watched vt
  | .process bytes =>
    { (chunks processSliceSize bytes).foldl slice w with mirror := (w.mirror.process bytes).2 }
  | .startView view =>
    let primed := Mirror.blankParser vt view
    let snapshot := w.mirror.snapshot view
    { mirror := (w.mirror.startView view).2
      app := w.app
      pending := primed.rowsOff snapshot
      scrolled := w.scrolled ++
        (primed.scrolledActions (vt.scan primed.vte snapshot).2).map (w.app.alternate, ·)
      entries := w.entries ++ (w.mirror.harvestEntries ++ w.mirror.flushEntries view.rows) }
  | .endView =>
    { w with
      mirror := w.mirror.endView.2
      pending := []
      entries := w.entries ++ w.mirror.harvestEntries }
  | .hostResized rows cols =>
    let harvests := w.mirror.view.isNone && !w.mirror.parser.alternate
    { w with
      mirror := (w.mirror.hostResized rows cols).2
      pending := if harvests then w.pending.rdrop w.mirror.harvestEntries.length else w.pending
      entries := w.entries ++ if harvests then w.mirror.harvestEntries else [] }

/-- Runs make calls with sizes of at least one row. -/
def step (w : Watched vt) (c : Call) : Option (Watched vt) :=
  if c.Sized then some (w.call c) else none

/-- What holds in every run: the rows that the scroll counter covers are the last ones that
wait, and the history is what the entries say. -/
structure Accounted (base : History) (w : Watched vt) : Prop where
  hostRows : 0 < w.mirror.hostRows
  rows : 0 < w.mirror.parser.rows
  counted : w.mirror.unarchived <:+ w.pending
  history : w.mirror.history = base.pushAll (w.entries.map Entry.record)

/-- The rows of what a harvest archives are those that the counter covers. -/
theorem filterMap_harvestEntries {m : Mirror vt} (halt : m.parser.alternate = false) :
    m.harvestEntries.filterMap Entry.row? = m.unarchived := by
  rw [Mirror.harvestEntries, if_neg (by rw [halt]; exact Bool.false_ne_true), List.filterMap_map]
  exact List.filterMap_some

/-- A harvest archives the last of the rows that wait. -/
theorem rdrop_harvestEntries {m : Mirror vt} {pending : List Row} (h : m.unarchived <:+ pending) :
    pending.rdrop m.harvestEntries.length ++ m.harvestEntries.filterMap Entry.row? = pending := by
  cases halt : m.parser.alternate with
  | true =>
    rw [Mirror.harvestEntries, if_pos halt, List.length_nil, List.rdrop_zero]
    exact List.append_nil _
  | false =>
    have hlength : m.harvestEntries.length = m.unarchived.length := by
      rw [Mirror.harvestEntries, if_neg (by rw [halt]; exact Bool.false_ne_true), List.length_map]
    rw [filterMap_harvestEntries halt, hlength]
    exact CappedQueue.rdrop_append_of_suffix h

/-- A slice archives the last of the rows that wait and those that it scrolls off. The others
go on waiting. -/
theorem Accounted.slice_pending {base : History} {w : Watched vt} (h : w.Accounted base)
    (bytes : Bytes) :
    (w.slice bytes).pending ++ (w.mirror.parsed bytes).harvestEntries.filterMap Entry.row? =
      w.pending ++ w.mirror.parser.rowsOff bytes :=
  rdrop_harvestEntries (Mirror.parsed_unarchived h.counted bytes)

/-- A slice keeps the account. -/
theorem Accounted.slice {base : History} {w : Watched vt} (h : w.Accounted base) (bytes : Bytes) :
    (w.slice bytes).Accounted base := by
  let parsed := w.mirror.parsed bytes
  have hsame : parsed.parser.Same (w.mirror.parser.process bytes) :=
    w.mirror.park_rebooked.same.process bytes
  have hpark := w.mirror.park_rebooked.sameView
  have hrows : 0 < parsed.parser.rows := by
    rw [hsame.rows, Parser.process_rows]
    exact h.rows
  have hcounted := Mirror.parsed_unarchived h.counted bytes
  have hdone := parsed.harvest_rebooked.sameView
  refine ⟨?_, ?_, ?_, ?_⟩
  · change 0 < parsed.harvest.hostRows
    rw [hdone.hostRows]
    change 0 < w.mirror.park.hostRows
    rw [hpark.hostRows]
    exact h.hostRows
  · change 0 < parsed.harvest.parser.rows
    rwa [hdone.rows]
  · change parsed.harvest.unarchived <:+ (w.slice bytes).pending
    cases halt : parsed.parser.alternate with
    | true =>
      have hwaiting := h.slice_pending bytes
      rw [Mirror.harvestEntries, if_pos halt, List.filterMap_nil, List.append_nil] at hwaiting
      rwa [Mirror.harvest_of_alternate halt, hwaiting]
    | false => rw [Mirror.harvest_unarchived halt hrows]; exact List.nil_suffix
  · change parsed.harvest.history = _
    rw [Mirror.harvest_history hrows, ← Mirror.harvestEntries_records]
    change w.mirror.park.history.pushAll _ = _
    rw [w.mirror.park_history, h.history, ← History.pushAll_append, ← List.map_append]
    rfl

/-- Several slices keep the account. -/
theorem Accounted.foldl_slice {base : History} {w : Watched vt} (h : w.Accounted base)
    (slices : List Bytes) : (slices.foldl Watched.slice w).Accounted base := by
  induction slices generalizing w with
  | nil => exact h
  | cons bytes slices ih => exact ih (h.slice bytes)

/-- The slices of a watched run are those of the mirror. -/
theorem foldl_slice_mirror (w : Watched vt) (slices : List Bytes) :
    (slices.foldl slice w).mirror = slices.foldl Mirror.processSlice w.mirror := by
  induction slices generalizing w with
  | nil => rfl
  | cons bytes slices ih => exact ih (w.slice bytes)

/-- What a chunk does past its slices touches nothing that is watched. -/
theorem call_process (w : Watched vt) (bytes : Bytes) :
    ∃ title shadow zoneDirty, w.call (.process bytes) =
      { (chunks processSliceSize bytes).foldl slice w with
        mirror := ((chunks processSliceSize bytes).foldl slice w).mirror.chunkDone title shadow
          zoneDirty } := by
  obtain ⟨title, shadow, zoneDirty, hdone⟩ := w.mirror.process_eq bytes
  refine ⟨title, shadow, zoneDirty, ?_⟩
  rw [call, hdone, foldl_slice_mirror]
  rfl

/-- A harvest before the parser is replaced or resized keeps the account of the history. -/
theorem Accounted.harvest_history {base : History} {w : Watched vt} (h : w.Accounted base) :
    w.mirror.harvest.history =
      base.pushAll ((w.entries ++ w.mirror.harvestEntries).map Entry.record) := by
  rw [Mirror.harvest_history h.rows, h.history, ← History.pushAll_append, List.map_append,
    Mirror.harvestEntries_records]

/-- After a view start the counter covers rows that the snapshot scrolled off, if any. -/
theorem startView_unarchived (m : Mirror vt) (view : View) :
    (m.startView view).2.unarchived <:+ (Mirror.blankParser vt view).rowsOff (m.snapshot view) := by
  have hnone : (Mirror.blankParser vt view).countedRows false 0 <:+ [] := List.nil_suffix
  exact Parser.countedRows_process hnone _

/-- Every call keeps the account. -/
theorem Accounted.call {base : History} {w : Watched vt} (h : w.Accounted base) {c : Call}
    (hc : c.Sized) : (w.call c).Accounted base := by
  have hview := w.mirror.harvest_rebooked.sameView
  cases c with
  | process bytes =>
    obtain ⟨title, shadow, zoneDirty, hdone⟩ := w.call_process bytes
    have hslices := h.foldl_slice (chunks processSliceSize bytes)
    rw [hdone]
    exact ⟨hslices.hostRows, hslices.rows, hslices.counted, hslices.history⟩
  | startView view =>
    refine ⟨?_, ?_, ?_, ?_⟩
    · change 0 < (w.mirror.flushHistoryForRebuild view.rows).hostRows
      rw [(w.mirror.flushHistoryForRebuild_rebooked view.rows).sameView.hostRows]
      exact h.hostRows
    · change 0 < ((Mirror.blankParser vt view).process _).rows
      rw [Parser.process_rows]
      exact hc
    · exact startView_unarchived w.mirror view
    · change (w.mirror.flushHistoryForRebuild view.rows).history = _
      rw [Mirror.flush_history h.rows, h.history, ← History.pushAll_append, ← List.map_append]
      rfl
  | endView =>
    refine ⟨?_, ?_, List.nil_suffix, ?_⟩
    · change 0 < w.mirror.harvest.hostRows
      rw [hview.hostRows]
      exact h.hostRows
    · change 0 < w.mirror.harvest.hostRows
      rw [hview.hostRows]
      exact h.hostRows
    · exact h.harvest_history
  | hostResized rows cols =>
    cases hnone : w.mirror.view with
    | some v =>
      have hstay : w.call (.hostResized rows cols) =
          { w with mirror := { w.mirror.withHost rows cols with zoneDirty := false } } := by
        simp only [Watched.call, Mirror.hostResized_of_some hnone, hnone, Option.isNone_some,
          Bool.false_and, Bool.false_eq_true, if_false, List.append_nil]
      rw [hstay]
      exact ⟨hc, h.rows, h.counted, h.history⟩
    | none =>
      let resized := w.mirror.withHost rows cols
      have hsize := resized.harvest_rebooked.sameView
      cases halt : w.mirror.parser.alternate with
      | true =>
        have hstay : w.call (.hostResized rows cols) =
            { w with mirror := { resized with parser := w.mirror.parser.setSize rows cols } } := by
          simp only [Watched.call, Mirror.hostResized_of_none hnone, hnone, halt, Bool.not_true,
            Bool.and_false, Bool.false_eq_true, if_false, List.append_nil]
          rw [Mirror.harvest_of_alternate (m := w.mirror.withHost rows cols) halt]
          rfl
        rw [hstay]
        exact ⟨hc, hc, h.counted, h.history⟩
      | false =>
        have hharvest : w.call (.hostResized rows cols) =
            { w with
              mirror := { resized.harvest with
                parser := resized.harvest.parser.setSize rows cols }
              pending := w.pending.rdrop w.mirror.harvestEntries.length
              entries := w.entries ++ w.mirror.harvestEntries } := by
          simp only [Watched.call, Mirror.hostResized_of_none hnone, hnone, halt,
            Option.isNone_none, Bool.not_false, Bool.and_true, if_true]
          rfl
        rw [hharvest]
        refine ⟨hsize.hostRows ▸ hc, hc, ?_, ?_⟩
        · change resized.harvest.unarchived <:+ w.pending.rdrop _
          rw [Mirror.harvest_unarchived (m := resized) halt h.rows]
          exact List.nil_suffix
        · change resized.harvest.history = _
          rw [Mirror.harvest_history (m := resized) h.rows, ← Mirror.harvestEntries_records]
          change w.mirror.history.pushAll _ = _
          rw [h.history, ← History.pushAll_append, ← List.map_append]
          rfl

/-- A new mirror has archived nothing. -/
theorem start_accounted (vt : Vt100) {hostRows : ℕ} (hostCols limit : ℕ) (hrows : 0 < hostRows) :
    (start vt hostRows hostCols limit).Accounted
      (start vt hostRows hostCols limit).mirror.history :=
  ⟨hrows, hrows, List.nil_suffix, rfl⟩

/-- Every run keeps the account. -/
theorem accounted_of_run {hostRows hostCols limit : ℕ} (hrows : 0 < hostRows) {calls : List Call}
    {w : Watched vt} (hrun : Machine.run step (start vt hostRows hostCols limit) calls = some w) :
    w.Accounted (start vt hostRows hostCols limit).mirror.history := by
  refine Machine.run_invariant (fun w c w' hw hstep => ?_)
    (start_accounted vt hostCols limit hrows) hrun
  rw [step, Option.ite_none_right_eq_some] at hstep
  rw [← Option.some.inj hstep.2]
  exact hw.call hstep.1

/-- On the alternate screen neither transition archives anything, so in every
reachable state the rows that scrolled off and were not archived yet reach the history,
each once and in order, exactly if there are none. The rows the scroll counter covers are
among them. -/
theorem transition_archives_pending_iff {hostRows hostCols limit : ℕ} (hrows : 0 < hostRows)
    {calls : List Call} {w : Watched vt}
    (hrun : Machine.run step (start vt hostRows hostCols limit) calls = some w)
    (halt : w.mirror.parser.alternate = true) :
    w.mirror.unarchived <:+ w.pending ∧
      (∀ view, (w.mirror.startView view).2.history =
        w.mirror.history.pushAll (w.mirror.recordsOf w.pending) ↔ w.pending = []) ∧
      (w.mirror.endView.2.history =
        w.mirror.history.pushAll (w.mirror.recordsOf w.pending) ↔ w.pending = []) := by
  have hdeferred := Mirror.harvest_of_alternate halt
  have hnothing : w.mirror.history = w.mirror.history.pushAll (w.mirror.recordsOf w.pending) ↔
      w.pending = [] := by
    rw [History.pushAll_eq_self_iff, Mirror.recordsOf, List.map_eq_nil_iff]
  refine ⟨(accounted_of_run hrows hrun).counted, fun view => ?_, ?_⟩
  · have hflush : (w.mirror.flushHistoryForRebuild view.rows).history = w.mirror.history := by
      rw [Mirror.flushHistoryForRebuild, hdeferred, if_pos halt]
    rw [Mirror.startView_history, hflush]
    exact hnothing
  · rw [Mirror.endView_history, hdeferred]
    exact hnothing

/-- A slice scrolls a row off the primary screen and then enters the alternate
screen: no transition archives the row. -/
theorem pending_row_dropped_by_transition :
    ∃ w, Machine.run step (start asciiVt100 2 4 10)
        [.process (ascii "a\r\nb\r\nc\x1b[?1049h")] = some w ∧
      w.mirror.parser.alternate = true ∧
      (w.mirror.recordsOf w.pending).map HistoryRecord.bytes = [ascii "a"] ∧
      (w.mirror.startView ⟨2, 4, false⟩).2.history.lines = [] ∧
      w.mirror.endView.2.history.lines = [] :=
  ⟨_, rfl, by decide, by decide, by decide, by decide⟩

/-- A row that a full reset keeps from being counted is not archived, and waits. -/
example :
    ∃ w, Machine.run step (start asciiVt100 2 4 10) [.process (ascii "a\r\nb\r\nc"),
        .process (ascii "\x1bcx\r\ny\r\nz"), .process (ascii "\x1b[?1049h")] = some w ∧
      (w.mirror.recordsOf w.pending).map HistoryRecord.bytes = [ascii "x"] :=
  ⟨_, rfl, by decide⟩

/-- With the row harvested before the app enters the alternate screen, nothing is pending. -/
theorem transition_keeps_harvested_row :
    ∃ w, Machine.run step (start asciiVt100 2 4 10)
        [.process (ascii "a\r\nb\r\nc"), .process (ascii "\x1b[?1049h")] = some w ∧
      w.mirror.endView.2.history =
        w.mirror.history.pushAll (w.mirror.recordsOf w.pending) :=
  ⟨_, rfl, (transition_archives_pending_iff (by decide : 0 < 2)
    (rfl : Machine.run step (start asciiVt100 2 4 10)
      [.process (ascii "a\r\nb\r\nc"), .process (ascii "\x1b[?1049h")] = some _)
    (by decide)).2.2.mpr (by decide)⟩

/-- The app rests on its primary screen when a call replaces the parser. -/
def RebuiltAtRest (w : Watched vt) : Call → Prop
  | .startView _ => w.app.AtRest
  | .endView => w.app.AtRest
  | _ => True

instance [DecidableEq vt.Vte] (w : Watched vt) : DecidablePred w.RebuiltAtRest
  | .startView _ => inferInstanceAs (Decidable (_ = _ ∧ _ = _))
  | .endView => inferInstanceAs (Decidable (_ = _ ∧ _ = _))
  | .process _ => isTrue trivial
  | .hostResized _ _ => isTrue trivial

/-- What holds in runs that replace the parser only while the app rests on its
primary screen: the emulator knows the app's screen, and every row that is archived, or
that the counter covers, scrolled off while the app was on its primary screen. -/
structure Kept (w : Watched vt) : Prop where
  inStep : w.mirror.parser.InStep w.app
  primary : w.entries.filterMap Entry.row? ++ w.mirror.unarchived <+ onPrimary w.scrolled

/-- A harvest archives the rows that the counter covers, or leaves them covered. -/
theorem harvest_covered {m : Mirror vt} (hrows : 0 < m.parser.rows) :
    m.harvestEntries.filterMap Entry.row? ++ m.harvest.unarchived = m.unarchived := by
  cases halt : m.parser.alternate with
  | true =>
    rw [Mirror.harvestEntries, if_pos halt, Mirror.harvest_of_alternate halt]
    rfl
  | false =>
    rw [filterMap_harvestEntries halt, Mirror.harvest_unarchived halt hrows, List.append_nil]

/-- A slice keeps alternate-screen rows out. -/
theorem Kept.slice {base : History} {w : Watched vt} (h : w.Kept) (ha : w.Accounted base)
    (bytes : Bytes) : (w.slice bytes).Kept := by
  let parsed := w.mirror.parsed bytes
  have hsame : parsed.parser.Same (w.mirror.parser.process bytes) :=
    w.mirror.park_rebooked.same.process bytes
  have hparsed : parsed.parser.InStep (w.app.feed bytes) := (h.inStep.feed bytes).of_same hsame
  have hrows : 0 < parsed.parser.rows := by
    rw [hsame.rows, Parser.process_rows]
    exact ha.rows
  refine ⟨hparsed.of_same parsed.harvest_rebooked.same, ?_⟩
  change (w.entries ++ parsed.harvestEntries).filterMap Entry.row? ++ parsed.harvest.unarchived <+
    onPrimary (w.scrolled ++ w.mirror.parser.scrolledBeside w.app bytes)
  rw [List.filterMap_append, List.append_assoc, harvest_covered hrows, onPrimary_append]
  calc w.entries.filterMap Entry.row? ++ parsed.unarchived
      <+ w.entries.filterMap Entry.row? ++ (w.mirror.unarchived ++ w.mirror.parser.rowsOff bytes) :=
        (List.Sublist.refl _).append
          (Mirror.parsed_unarchived (List.suffix_refl w.mirror.unarchived) bytes).sublist
    _ = (w.entries.filterMap Entry.row? ++ w.mirror.unarchived) ++
          w.mirror.parser.rowsOff bytes := (List.append_assoc _ _ _).symm
    _ <+ _ := h.primary.append (h.inStep.rowsOff_sublist bytes)

/-- Several slices keep alternate-screen rows out. -/
theorem Kept.foldl_slice {base : History} {w : Watched vt} (h : w.Kept) (ha : w.Accounted base)
    (slices : List Bytes) : (slices.foldl Watched.slice w).Kept := by
  induction slices generalizing w with
  | nil => exact h
  | cons bytes slices ih => exact ih (h.slice ha bytes) (ha.slice bytes)

/-- Every call that replaces the parser only while the app rests keeps
alternate-screen rows out. -/
theorem Kept.call (laws : vt.SnapshotsPlain) {base : History} {w : Watched vt} (h : w.Kept)
    (ha : w.Accounted base) {c : Call} (hc : w.RebuiltAtRest c) : (w.call c).Kept := by
  have hharvested : (w.entries ++ w.mirror.harvestEntries).filterMap Entry.row? <+
      onPrimary w.scrolled := by
    rw [List.filterMap_append]
    refine ((List.Sublist.refl _).append ?_).trans h.primary
    rw [← harvest_covered ha.rows]
    exact List.sublist_append_left _ _
  cases c with
  | process bytes =>
    obtain ⟨title, shadow, zoneDirty, hdone⟩ := w.call_process bytes
    have hslices := h.foldl_slice ha (chunks processSliceSize bytes)
    rw [hdone]
    exact ⟨⟨hslices.inStep.vte, hslices.inStep.alternate⟩, hslices.primary⟩
  | startView view =>
    obtain ⟨hground, halternate⟩ := hc
    let primed := Mirror.blankParser vt view
    obtain ⟨hend, hplain⟩ := laws.snapshot
      (w.mirror.flushHistoryForRebuild view.rows).parser.screen view.rows view.cols
    refine ⟨⟨hend.trans hground.symm, ?_⟩, ?_⟩
    · change (primed.process (w.mirror.snapshot view)).alternate = w.app.alternate
      rw [Parser.process_alternate, halternate]
      exact Vt100.foldl_screenAfter_of_plain hplain
    · have hflushed : (w.mirror.flushEntries view.rows).filterMap Entry.row? = [] := by
        rw [Mirror.flushEntries]
        split
        · rfl
        · rw [List.filterMap_map]
          exact List.filterMap_eq_nil_iff.mpr fun _ _ => rfl
      have hcovered : (w.mirror.startView view).2.unarchived <:+
          primed.rowsOff (w.mirror.snapshot view) :=
        startView_unarchived w.mirror view
      change (w.entries ++ (w.mirror.harvestEntries ++ w.mirror.flushEntries view.rows)).filterMap
        Entry.row? ++ (w.mirror.startView view).2.unarchived <+ onPrimary (w.scrolled ++
          (primed.scrolledActions (vt.scan primed.vte (w.mirror.snapshot view)).2).map
            (w.app.alternate, ·))
      rw [halternate, onPrimary_append, onPrimary_map_false, ← List.append_assoc,
        List.filterMap_append, hflushed, List.append_nil]
      exact hharvested.append (hcovered.sublist.trans (primed.rowsOffActions_sublist _))
  | endView =>
    obtain ⟨hground, halternate⟩ := hc
    refine ⟨⟨hground.symm, halternate.symm⟩, ?_⟩
    change (w.entries ++ w.mirror.harvestEntries).filterMap Entry.row? ++ [] <+ _
    rwa [List.append_nil]
  | hostResized rows cols =>
    refine ⟨?_, ?_⟩
    · change (w.mirror.hostResized rows cols).2.parser.InStep w.app
      cases hview : w.mirror.view with
      | none =>
        have hsame := (w.mirror.withHost rows cols).harvest_rebooked.same
        rw [Mirror.hostResized_of_none hview]
        exact ⟨hsame.vte.trans h.inStep.vte, hsame.alternate.trans h.inStep.alternate⟩
      | some v =>
        rw [Mirror.hostResized_of_some hview]
        exact h.inStep
    · change (w.entries ++ if (w.mirror.view.isNone && !w.mirror.parser.alternate) = true
          then w.mirror.harvestEntries else []).filterMap Entry.row? ++
        (w.mirror.hostResized rows cols).2.unarchived <+ _
      cases hview : w.mirror.view with
      | some v =>
        rw [Mirror.hostResized_of_some hview]
        simp only [Option.isNone_some, Bool.false_and, Bool.false_eq_true, if_false,
          List.append_nil]
        exact h.primary
      | none =>
        let resized := w.mirror.withHost rows cols
        have hcovered : w.mirror.harvestEntries.filterMap Entry.row? ++
            resized.harvest.unarchived = w.mirror.unarchived :=
          harvest_covered (m := resized) ha.rows
        have hentries :
            (if (Option.isNone (none : Option View) && !w.mirror.parser.alternate) = true then
              w.mirror.harvestEntries else []) = w.mirror.harvestEntries := by
          cases halt : w.mirror.parser.alternate with
          | true => rw [Mirror.harvestEntries, if_pos halt, ite_self]
          | false => rfl
        rw [hentries, Mirror.hostResized_of_none hview, List.filterMap_append, List.append_assoc]
        change _ ++ (_ ++ resized.harvest.unarchived) <+ _
        rw [hcovered]
        exact h.primary

/-- In a run that replaces the parser only while the app rests on its primary
screen, the history holds the flushed lines and, each for its own row and in
order, the records of rows that scrolled off while the app was on its primary
screen: a row that scrolls off on the alternate screen adds no record. -/
theorem alternate_rows_add_no_record (laws : vt.SnapshotsPlain) {hostRows hostCols limit : ℕ}
    (hrows : 0 < hostRows) {calls : List Call} {w : Watched vt}
    (hrest : Machine.Along step RebuiltAtRest (start vt hostRows hostCols limit) calls)
    (hrun : Machine.run step (start vt hostRows hostCols limit) calls = some w) :
    w.mirror.history = (start vt hostRows hostCols limit).mirror.history.pushAll
        (w.entries.map Entry.record) ∧
      w.entries.filterMap Entry.row? <+ onPrimary w.scrolled := by
  let base := (start vt hostRows hostCols limit).mirror.history
  have hstart : (start vt hostRows hostCols limit).Accounted base ∧
      (start vt hostRows hostCols limit).Kept :=
    ⟨start_accounted vt hostCols limit hrows, ⟨rfl, rfl⟩, List.nil_sublist _⟩
  have hend : w.Accounted base ∧ w.Kept := by
    refine Machine.run_invariant_along (I := fun w => w.Accounted base ∧ w.Kept)
      (fun w c w' hw hc hstep => ?_) hstart hrest hrun
    rw [step, Option.ite_none_right_eq_some] at hstep
    rw [← Option.some.inj hstep.2]
    exact ⟨hw.1.call hstep.1, hw.2.call laws hw.1 hc⟩
  exact ⟨hend.1.history, (List.sublist_append_left _ _).trans hend.2.primary⟩

/-- A view starts while the app is on the alternate screen: the new emulator is on
its primary screen, and a row that the app scrolls off is archived. -/
theorem alternate_row_archived_after_restart :
    ∃ w, Machine.run step (start asciiVt100 2 4 10) [.process (ascii "\x1b[?1049h"),
        .startView ⟨2, 4, false⟩, .process (ascii "x\r\ny\r\nz")] = some w ∧
      w.scrolled.map (fun s => (s.1, (s.2.record 4).bytes)) = [(true, ascii "x")] ∧
      w.mirror.history.lines.map HistoryRecord.bytes = [ascii "x"] ∧
      ¬w.entries.filterMap Entry.row? <+ onPrimary w.scrolled :=
  ⟨_, rfl, by decide, by decide, by decide⟩

/-- A view that starts and ends while the app is on its primary screen: the
full-screen app in between leaves no record. -/
theorem full_screen_app_within_view :
    let calls := [Call.process (ascii "a\r\nb\r\nc"), .startView ⟨2, 4, false⟩,
      .process (ascii "\x1b[?1049hx\r\ny\r\nz\x1b[?1049l"), .endView]
    ∃ w, Machine.run step (start asciiVt100 2 4 10) calls = some w ∧
      w.entries.filterMap Entry.row? <+ onPrimary w.scrolled :=
  ⟨_, rfl, (alternate_rows_add_no_record asciiVt100_snapshotsPlain (by decide : 0 < 2)
    (by decide) (rfl : Machine.run step (start asciiVt100 2 4 10) [Call.process
      (ascii "a\r\nb\r\nc"), .startView ⟨2, 4, false⟩,
      .process (ascii "\x1b[?1049hx\r\ny\r\nz\x1b[?1049l"), .endView] = some _)).2⟩

end Watched

end G2mirror
