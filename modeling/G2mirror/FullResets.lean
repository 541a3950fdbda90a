import G2mirror.ViewTransitions

/-!
# Full resets

A full reset empties the staging scrollback. What scrolls off afterwards is due: it has to
reach the archive with the next harvest that runs. It does, unless the counter was parked
before the reset, another reset comes before the harvest, or a later slice takes the counter
out of step.
-/

namespace G2mirror

variable {vt : Vt100}

namespace Parser

/-- The rows that are due after one recognised function: none before the first full reset,
and from there on every row that scrolls off. -/
def dueBy (p : Parser vt) (due : Option (List Row)) : Action vt.Draw → Option (List Row)
  | .fullReset => some (due.getD [])
  | a => due.map (· ++ p.rowsOffBy a)

/-- The rows that are due after several recognised functions. -/
def dueActions (p : Parser vt) (due : Option (List Row)) :
    List (Action vt.Draw) → Option (List Row)
  | [] => due
  | a :: as => (p.perform a).dueActions (p.dueBy due a) as

/-- The rows that are due after these bytes were parsed. -/
def dueAfter (p : Parser vt) (due : Option (List Row)) (bytes : Bytes) : Option (List Row) :=
  p.dueActions due (vt.scan p.vte bytes).2

/-- The pending rows after one recognised function: a full reset empties the staging scrollback. -/
def pendingBy (p : Parser vt) (pending : List Row) : Action vt.Draw → List Row
  | .fullReset => []
  | a => pending ++ p.rowsOffBy a

/-- The pending rows after several recognised functions. -/
def pendingActions (p : Parser vt) (pending : List Row) : List (Action vt.Draw) → List Row
  | [] => pending
  | a :: as => (p.perform a).pendingActions (p.pendingBy pending a) as

/-- The rows that scrolled into the staging scrollback and were not archived, after
these bytes were parsed, less those that a full reset wiped. -/
def pendingAfter (p : Parser vt) (pending : List Row) (bytes : Bytes) : List Row :=
  p.pendingActions pending (vt.scan p.vte bytes).2

/-- Parsers that agree leave the same rows pending. -/
theorem Same.pendingAfter {p q : Parser vt} (h : p.Same q) (pending : List Row) (bs : Bytes) :
    p.pendingAfter pending bs = q.pendingAfter pending bs := by
  have hactions {p q : Parser vt} (h : p.Same q) (pending : List Row) (as : List (Action vt.Draw)) :
      p.pendingActions pending as = q.pendingActions pending as := by
    induction as generalizing p q pending with
    | nil => rfl
    | cons a as ih =>
      have hfirst : p.pendingBy pending a = q.pendingBy pending a := by
        have hrows := h.rowsOffActions [a]
        rw [Parser.rowsOffActions, Parser.rowsOffActions, Parser.rowsOffActions,
          Parser.rowsOffActions, List.append_nil, List.append_nil] at hrows
        cases a with
        | fullReset => rfl
        | _ => exact congrArg (pending ++ ·) hrows
      rw [pendingActions, pendingActions, hfirst]
      exact ih (h.perform a) _
  rw [Parser.pendingAfter, Parser.pendingAfter, ← h.vte]
  exact hactions h pending _

/-- Without a full reset nothing becomes due. -/
theorem dueAfter_none {p : Parser vt} {bytes : Bytes} (h : p.NoReset bytes) :
    p.dueAfter none bytes = none := by
  have hactions (p : Parser vt) {as : List (Action vt.Draw)}
      (has : ∀ a ∈ as, a ≠ Action.fullReset) : p.dueActions none as = none := by
    induction as generalizing p with
    | nil => rfl
    | cons a as ih =>
      have hone : p.dueBy none a = none := by
        cases a with
        | fullReset => exact absurd rfl (has _ List.mem_cons_self)
        | _ => rfl
      rw [dueActions, hone]
      exact ih (p.perform a) fun b hb => has b (List.mem_cons_of_mem a hb)
  exact hactions p h

/-- Without a full reset the rows that scroll off join the pending ones. -/
theorem pendingAfter_of_noReset {p : Parser vt} {bytes : Bytes} (h : p.NoReset bytes)
    (pending : List Row) : p.pendingAfter pending bytes = pending ++ p.rowsOff bytes := by
  have hactions (p : Parser vt) (pending : List Row) {as : List (Action vt.Draw)}
      (has : ∀ a ∈ as, a ≠ Action.fullReset) :
      p.pendingActions pending as = pending ++ p.rowsOffActions as := by
    induction as generalizing p pending with
    | nil => exact (List.append_nil _).symm
    | cons a as ih =>
      have hone : p.pendingBy pending a = pending ++ p.rowsOffBy a := by
        cases a with
        | fullReset => exact absurd rfl (has _ List.mem_cons_self)
        | _ => rfl
      rw [pendingActions, hone, ih _ _ fun b hb => has b (List.mem_cons_of_mem a hb),
        rowsOffActions, List.append_assoc]
  exact hactions p pending h

/-- Nothing was evicted and nothing is scrolled back: the staging scrollback holds the last
of the pending rows. -/
structure Restaged (p : Parser vt) (pending : List Row) : Prop where
  staged : p.staged = CappedQueue.pushAll p.scrollbackLen [] pending
  offset : p.offset = 0

theorem Restaged.perform {p : Parser vt} {pending : List Row} (h : p.Restaged pending)
    (a : Action vt.Draw) : (p.perform a).Restaged (p.pendingBy pending a) := by
  refine ⟨?_, perform_offset h.offset a⟩
  have hpushed (hother : a ≠ .fullReset) : (p.perform a).staged =
      CappedQueue.pushAll (p.perform a).scrollbackLen [] (pending ++ p.rowsOffBy a) := by
    rw [perform_staged p a hother, (p.perform_size a).2.2, h.staged, CappedQueue.pushAll_append]
  cases a with
  | fullReset => rfl
  | _ => exact hpushed fun h => by cases h

/-- Several recognised functions stage what becomes pending. -/
theorem Restaged.foldl {p : Parser vt} {pending : List Row} (h : p.Restaged pending)
    (as : List (Action vt.Draw)) :
    (as.foldl Parser.perform p).Restaged (p.pendingActions pending as) := by
  induction as generalizing p pending with
  | nil => exact h
  | cons a as ih => exact ih (h.perform a)

/-- Whatever was staged or parked before: after a full reset the staging scrollback holds the
rows that scrolled off since the last one. -/
theorem restaged_of_reset {p : Parser vt} {bytes : Bytes} (h : ¬p.NoReset bytes)
    (pending : List Row) : (p.process bytes).Restaged (p.pendingAfter pending bytes) := by
  have hactions {p : Parser vt} {as : List (Action vt.Draw)}
      (has : ¬∀ a ∈ as, a ≠ Action.fullReset) (pending : List Row) :
      (as.foldl Parser.perform p).Restaged (p.pendingActions pending as) := by
    induction as generalizing p pending with
    | nil => exact absurd (fun _ h => absurd h List.not_mem_nil) has
    | cons a as ih =>
      by_cases hreset : a = .fullReset
      · subst hreset
        have hempty : (p.perform .fullReset).Restaged [] := ⟨rfl, rfl⟩
        exact hempty.foldl as
      · refine ih (p := p.perform a) (fun hrest => has fun b hb => ?_) _
        rcases List.mem_cons.mp hb with rfl | hb
        · exact hreset
        · exact hrest b hb
  have hend := hactions (p := p) h pending
  exact ⟨hend.staged, hend.offset⟩

end Parser

namespace Mirror

variable {m : Mirror vt}

/-- A view start leaves a mirror steady, also if its snapshot scrolls rows off. -/
theorem startView_steady (m : Mirror vt) {view : View} (hrows : 0 < view.rows) :
    (m.startView view).2.Steady := by
  have hoffset : ((blankParser vt view).process (m.snapshot view)).offset = 0 :=
    Parser.process_offset rfl _
  refine ⟨?_, ?_, fun _ => ⟨rfl, Nat.zero_le _⟩, fun _ => ⟨hoffset, fun _ => rfl⟩⟩
  · exact (Parser.process_rows _ _).symm ▸ hrows
  · exact Parser.process_scrollbackLen _ _

theorem endView_steady (m : Mirror vt) (hrows : 0 < m.hostRows) : m.endView.2.Steady := by
  have hheight : 0 < m.harvest.hostRows := by
    rw [m.harvest_rebooked.sameView.hostRows]
    exact hrows
  exact ⟨hheight, rfl, fun _ => ⟨rfl, Nat.zero_le _⟩, fun _ => ⟨rfl, fun _ => rfl⟩⟩

/-- A resize of the host leaves a mirror steady. -/
theorem Steady.hostResized (h : m.Steady) {rows : ℕ} (hrows : 0 < rows) (cols : ℕ) :
    (m.hostResized rows cols).2.Steady := by
  cases hview : m.view with
  | some v =>
    rw [hostResized_of_some hview]
    exact ⟨h.rows, h.capacity, h.ofPrimary, h.ofUnparked⟩
  | none =>
    rw [hostResized_of_none hview]
    cases halt : m.parser.alternate with
    | true =>
      rw [harvest_of_alternate (m := m.withHost rows cols) halt]
      exact ⟨hrows, h.capacity, h.ofPrimary, h.ofUnparked⟩
    | false =>
      rw [harvest_eq (m := m.withHost rows cols) halt h.rows]
      refine ⟨hrows, h.capacity, fun _ => ⟨rfl, le_rfl⟩, fun _ => ⟨rfl, fun htrue => ?_⟩⟩
      exact absurd (halt.symm.trans htrue) Bool.false_eq_true.mp

/-- After a full reset the rows that scrolled off since are due, if the counter was not parked
before it or none did. -/
theorem Steady.ready_of_reset (hm : m.Steady) {slice : Bytes} (hreset : ¬m.parser.NoReset slice)
    {pending due : List Row} (hdue : m.parser.pendingAfter pending slice = due)
    (hroom : due.length ≤ stageScrollback - 1) (hstep : m.OutOfStep slice → due = []) :
    (m.parsed slice).Ready due := by
  have hsame := m.park_rebooked.same
  have hreset' : ¬m.park.parser.NoReset slice := by
    rw [Parser.NoReset, hsame.vte]
    exact hreset
  have hrestaged := Parser.restaged_of_reset hreset' pending
  rw [hsame.pendingAfter, hdue] at hrestaged
  cases hparked : m.park.parked with
  | true =>
    rw [hstep ⟨hparked, .inr (Parser.rewinds_of_reset hreset)⟩]
    exact .stuck hparked hrestaged.offset
  | false =>
    have hstaged : (m.parsed slice).parser.staged = due := by
      have hall := hrestaged.staged
      rw [Parser.process_scrollbackLen, hm.park_capacity,
        CappedQueue.pushAll_eq_rtake due (Nat.zero_le _), List.nil_append,
        CappedQueue.rtake_of_length_le (hroom.trans (Nat.sub_le _ 1))] at hall
      exact hall
    refine .counting ⟨?_, fun htrue => ?_, fun _ => ⟨hrestaged.offset, hstaged⟩⟩
      fun _ => (hm.park_unparked hparked).2
    · exact ⟨[], hstaged.symm⟩
    · exact absurd (hparked.symm.trans htrue) Bool.false_eq_true.mp

/-- Between slices on the primary screen nothing is due. -/
theorem Counts.eq_nil {due : List Row} (h : m.Counts due) (halt : m.parser.alternate = false) :
    due = [] := by
  cases h with
  | afresh => rfl
  | deferred htrue _ => exact absurd (halt.symm.trans htrue) Bool.false_eq_true.mp
  | stuck => rfl

/-- Between slices a harvest archives nothing. -/
theorem Counts.harvestEntries {due : List Row} (h : m.Counts due) (hm : m.Steady) :
    m.harvestEntries = [] := by
  cases halt : m.parser.alternate with
  | true => rw [Mirror.harvestEntries, if_pos halt]
  | false =>
    have hnone : m.uncounted = 0 := by
      cases h with
      | afresh _ hseen =>
        rw [uncounted, (hm.ofPrimary halt).1, if_neg Bool.false_ne_true, hseen, Nat.sub_self]
      | deferred htrue _ => exact absurd (halt.symm.trans htrue) Bool.false_eq_true.mp
      | stuck htrue _ _ => exact absurd (halt.symm.trans htrue) Bool.false_eq_true.mp
    rw [Mirror.harvestEntries, if_neg (by rw [halt]; exact Bool.false_ne_true), unarchived, hnone,
      List.rtake_zero]
    rfl

end Mirror

/-- A watched run, and the rows that are due since the first slice with a full reset. -/
structure Audit (vt : Vt100) where
  watched : Watched vt
  /-- What was archived before that slice. -/
  earlier : List Entry
  due : Option Ledger

namespace Audit

/-- A new mirror. -/
def start (vt : Vt100) (hostRows hostCols limit : ℕ) : Audit vt :=
  ⟨Watched.start vt hostRows hostCols limit, [], none⟩

/-- The rows that are due after a slice of the app's output. -/
def dueAfter (a : Audit vt) (bytes : Bytes) : Option (List Row) :=
  a.watched.mirror.parser.dueAfter (a.due.map Ledger.pending) bytes

/-- One slice of the app's output. A slice that ends on the primary screen ends with a
harvest, which has to archive what is due. -/
def slice (a : Audit vt) (bytes : Bytes) : Audit vt where
  watched := a.watched.slice bytes
  earlier := if a.due.isSome then a.earlier else a.watched.entries
  due := (a.dueAfter bytes).map fun rows => Ledger.scroll ⟨(a.due.getD Ledger.empty).archived, []⟩
    rows (a.watched.mirror.parser.process bytes).alternate

/-- One call. -/
def call (a : Audit vt) : Call → Audit vt
  | .process bytes =>
    { (chunks processSliceSize bytes).foldl slice a with
      watched := a.watched.call (.process bytes) }
  | .startView view => { a with watched := a.watched.call (.startView view) }
  | .endView => { a with watched := a.watched.call .endView }
  | .hostResized rows cols => { a with watched := a.watched.call (.hostResized rows cols) }

/-- Runs make calls with sizes of at least one row. -/
def step (a : Audit vt) (c : Call) : Option (Audit vt) :=
  if c.Sized then some (a.call c) else none

/-- The slices that lose nothing: no full reset wipes rows that are due, they fit into the
staging scrollback, and none is due if the slice takes a parked counter out of step. -/
def SliceKeeps (a : Audit vt) (bytes : Bytes) : Prop :=
  ∀ rows ∈ a.dueAfter bytes,
    a.watched.mirror.parser.pendingAfter ((a.due.map Ledger.pending).getD []) bytes = rows ∧
      rows.length ≤ stageScrollback - 1 ∧ (a.watched.mirror.OutOfStep bytes → rows = [])

instance (a : Audit vt) (bytes : Bytes) : Decidable (a.SliceKeeps bytes) :=
  inferInstanceAs (Decidable (∀ rows ∈ a.dueAfter bytes, _))

/-- See `SliceKeeps`. -/
def SlicesKeep (a : Audit vt) : List Bytes → Prop
  | [] => True
  | bytes :: slices => a.SliceKeeps bytes ∧ (a.slice bytes).SlicesKeep slices

instance decidableSlicesKeep : (a : Audit vt) → (slices : List Bytes) →
    Decidable (a.SlicesKeep slices)
  | _, [] => isTrue trivial
  | a, bytes :: slices =>
    haveI := decidableSlicesKeep (a.slice bytes) slices
    inferInstanceAs (Decidable (_ ∧ _))

/-- The calls that lose nothing: a view starts or ends when no row is due, and it starts
with a snapshot that scrolls nothing off. -/
def Keeps (a : Audit vt) : Call → Prop
  | .process bytes => a.SlicesKeep (chunks processSliceSize bytes)
  | .startView view => ∀ l ∈ a.due, l.pending = [] ∧
      ((Mirror.blankParser vt view).process (a.watched.mirror.snapshot view)).staged = []
  | .endView => ∀ l ∈ a.due, l.pending = []
  | .hostResized _ _ => True

instance (a : Audit vt) : DecidablePred a.Keeps
  | .process bytes => inferInstanceAs (Decidable (a.SlicesKeep (chunks processSliceSize bytes)))
  | .startView view => inferInstanceAs (Decidable (∀ l ∈ a.due, l.pending = [] ∧
      ((Mirror.blankParser vt view).process (a.watched.mirror.snapshot view)).staged = []))
  | .endView => inferInstanceAs (Decidable (∀ l ∈ a.due, l.pending = []))
  | .hostResized _ _ => isTrue trivial

/-- What holds in runs that lose nothing: since the first slice with a full reset, the rows
that were archived are those that were due, and the counter covers the rest. -/
structure Settled (a : Audit vt) : Prop where
  steady : a.watched.mirror.Steady
  counts : ∀ l ∈ a.due, a.watched.mirror.Counts l.pending
  archived : ∀ l ∈ a.due, a.watched.entries.filterMap Entry.row? =
    a.earlier.filterMap Entry.row? ++ l.archived

/-- Once a slice that loses nothing is parsed, what is due can be archived. -/
theorem Settled.ready {a : Audit vt} (h : a.Settled) {bytes : Bytes} (hkeep : a.SliceKeeps bytes)
    {rows : List Row} (hdue : a.dueAfter bytes = some rows) :
    (a.watched.mirror.parsed bytes).Ready rows := by
  obtain ⟨hpending, hroom, hstep⟩ := hkeep rows hdue
  by_cases hreset : a.watched.mirror.parser.NoReset bytes
  · cases hl : a.due with
    | none =>
      rw [dueAfter, hl, Option.map_none, Parser.dueAfter_none hreset] at hdue
      cases hdue
    | some l =>
      rw [hl, Option.map_some, Option.getD_some, Parser.pendingAfter_of_noReset hreset] at hpending
      subst hpending
      have hbooked : a.watched.mirror.Booked l.pending := ⟨h.steady, h.counts l hl⟩
      exact hbooked.ready hreset hroom hstep
  · exact h.steady.ready_of_reset hreset hpending hroom hstep

/-- A slice that loses nothing archives what is due, if it ends with a harvest. -/
theorem Settled.slice {a : Audit vt} (h : a.Settled) {bytes : Bytes} (hkeep : a.SliceKeeps bytes) :
    (a.slice bytes).Settled := by
  let parsed := a.watched.mirror.parsed bytes
  have hsame : parsed.parser.Same (a.watched.mirror.parser.process bytes) :=
    a.watched.mirror.parsed_same bytes
  have hrows : 0 < parsed.parser.rows := by
    rw [hsame.rows, Parser.process_rows]
    exact h.steady.rows
  have hbase : a.watched.entries.filterMap Entry.row? =
      (a.slice bytes).earlier.filterMap Entry.row? ++ (a.due.getD Ledger.empty).archived := by
    rw [Audit.slice]
    cases hl : a.due with
    | none => exact (List.append_nil _).symm
    | some l => exact h.archived l hl
  refine ⟨h.steady.processSlice bytes, fun l hl => ?_, fun l hl => ?_⟩
  · obtain ⟨rows, hdue, rfl⟩ := Option.map_eq_some_iff.mp hl
    have hcounts : parsed.harvest.Counts (if parsed.parser.alternate then rows else []) :=
      (h.ready hkeep hdue).harvest hrows
    rw [hsame.alternate] at hcounts
    change parsed.harvest.Counts (Ledger.scroll _ _ _).pending
    cases halt : (a.watched.mirror.parser.process bytes).alternate with
    | true => rw [halt] at hcounts; exact hcounts
    | false => rw [halt] at hcounts; exact hcounts
  · obtain ⟨rows, hdue, rfl⟩ := Option.map_eq_some_iff.mp hl
    have hunarchived : parsed.unarchived = rows := (h.ready hkeep hdue).unarchived
    change (a.watched.entries ++ parsed.harvestEntries).filterMap Entry.row? = _
    rw [List.filterMap_append, hbase, List.append_assoc]
    congr 1
    cases halt : (a.watched.mirror.parser.process bytes).alternate with
    | true =>
      rw [Mirror.harvestEntries, if_pos (hsame.alternate.trans halt)]
      exact List.append_nil _
    | false =>
      rw [Watched.filterMap_harvestEntries (hsame.alternate.trans halt), hunarchived]
      rfl

/-- Several slices that lose nothing archive what is due. -/
theorem Settled.foldl_slice {a : Audit vt} (h : a.Settled) {slices : List Bytes}
    (hkeep : a.SlicesKeep slices) : (slices.foldl Audit.slice a).Settled := by
  induction slices generalizing a with
  | nil => exact h
  | cons bytes slices ih => exact ih (h.slice hkeep.1) hkeep.2

theorem foldl_slice_watched (a : Audit vt) (slices : List Bytes) :
    (slices.foldl slice a).watched = slices.foldl Watched.slice a.watched := by
  induction slices generalizing a with
  | nil => rfl
  | cons bytes slices ih => exact ih (a.slice bytes)

/-- A view transition while nothing is due archives no row that scrolled off. -/
theorem Settled.archived_harvest {a : Audit vt} (h : a.Settled) (flushed : List Entry)
    (hflushed : flushed.filterMap Entry.row? = []) {l : Ledger} (hl : l ∈ a.due) :
    (a.watched.entries ++ (a.watched.mirror.harvestEntries ++ flushed)).filterMap Entry.row? =
      a.earlier.filterMap Entry.row? ++ l.archived := by
  rw [(h.counts l hl).harvestEntries h.steady, List.nil_append, List.filterMap_append, hflushed,
    List.append_nil]
  exact h.archived l hl

/-- A call that loses nothing archives what is due. -/
theorem Settled.call {base : History} {a : Audit vt} (h : a.Settled)
    (hbase : a.watched.Accounted base) {c : Call} (hc : c.Sized) (hkeep : a.Keeps c) :
    (a.call c).Settled := by
  cases c with
  | process bytes =>
    obtain ⟨title, shadow, zoneDirty, hdone⟩ := a.watched.call_process bytes
    have hslices := h.foldl_slice hkeep
    have hwatched := a.foldl_slice_watched (chunks processSliceSize bytes)
    rw [Audit.call, hdone, ← hwatched]
    exact ⟨hslices.steady.chunkDone title shadow zoneDirty,
      fun l hl => (hslices.counts l hl).of_same rfl rfl rfl rfl rfl, hslices.archived⟩
  | startView view =>
    refine ⟨a.watched.mirror.startView_steady hc, fun l hl => ?_, fun l hl => ?_⟩
    · obtain ⟨hnone, hstaged⟩ := hkeep l hl
      let primed := (Mirror.blankParser vt view).process (a.watched.mirror.snapshot view)
      have hoffset : primed.offset = 0 := Parser.process_offset rfl _
      change (a.watched.mirror.startView view).2.Counts l.pending
      rw [hnone]
      cases halt : primed.alternate with
      | true =>
        refine .deferred halt ⟨List.nil_suffix, fun htrue => ?_, fun _ => ⟨hoffset, hstaged⟩⟩
        cases htrue
      | false =>
        refine .afresh halt ?_
        change 0 = primed.staged.length
        rw [hstaged]
        rfl
    · refine h.archived_harvest _ ?_ hl
      rw [Mirror.flushEntries]
      split
      · rfl
      · rw [List.filterMap_map]
        exact List.filterMap_eq_nil_iff.mpr fun _ _ => rfl
  | endView =>
    refine ⟨a.watched.mirror.endView_steady hbase.hostRows, fun l hl => ?_, fun l hl => ?_⟩
    · change a.watched.mirror.endView.2.Counts l.pending
      rw [hkeep l hl]
      exact .afresh rfl rfl
    · have hentries := h.archived_harvest [] rfl hl
      rwa [List.append_nil] at hentries
  | hostResized rows cols =>
    refine ⟨h.steady.hostResized hc cols, fun l hl => ?_, fun l hl => ?_⟩
    · change (a.watched.mirror.hostResized rows cols).2.Counts l.pending
      have hcounts := h.counts l hl
      cases hview : a.watched.mirror.view with
      | some v =>
        rw [Mirror.hostResized_of_some hview]
        exact hcounts.of_same rfl rfl rfl rfl rfl
      | none =>
        rw [Mirror.hostResized_of_none hview]
        cases halt : a.watched.mirror.parser.alternate with
        | true =>
          rw [Mirror.harvest_of_alternate (m := a.watched.mirror.withHost rows cols) halt]
          exact hcounts.of_same rfl rfl rfl rfl rfl
        | false =>
          rw [hcounts.eq_nil halt]
          have hharvest := Mirror.harvest_counts (m := a.watched.mirror.withHost rows cols) halt
            h.steady.rows
          exact hharvest.of_same rfl rfl rfl rfl rfl
    · change (a.watched.entries ++ if (a.watched.mirror.view.isNone &&
        !a.watched.mirror.parser.alternate) = true then a.watched.mirror.harvestEntries
        else []).filterMap Entry.row? = _
      rw [(h.counts l hl).harvestEntries h.steady, ite_self, List.append_nil]
      exact h.archived l hl

/-- A new mirror owes nothing. -/
theorem start_settled (vt : Vt100) {hostRows : ℕ} (hostCols limit : ℕ) (hrows : 0 < hostRows) :
    (start vt hostRows hostCols limit).Settled :=
  ⟨⟨hrows, rfl, fun _ => ⟨rfl, le_rfl⟩, fun _ => ⟨rfl, fun _ => rfl⟩⟩, fun _ h => (by cases h),
    fun _ h => (by cases h)⟩

/-- In every run that loses nothing, from the first slice with a full reset on the rows
archived are those that scrolled off after the reset, each once and in order, up to the last
harvest that ran. Between slices on the primary screen none is left. -/
theorem resets_lose_no_line {hostRows hostCols limit : ℕ} (hrows : 0 < hostRows)
    {calls : List Call} {a : Audit vt}
    (hkeeps : Machine.Along step Keeps (start vt hostRows hostCols limit) calls)
    (hrun : Machine.run step (start vt hostRows hostCols limit) calls = some a) :
    a.watched.mirror.history = (start vt hostRows hostCols limit).watched.mirror.history.pushAll
        (a.watched.entries.map Entry.record) ∧
      ∀ l ∈ a.due,
        a.watched.entries.filterMap Entry.row? =
            a.earlier.filterMap Entry.row? ++ l.archived ∧
          (a.watched.mirror.parser.alternate = false → l.pending = []) := by
  let base := (start vt hostRows hostCols limit).watched.mirror.history
  have hstart : (start vt hostRows hostCols limit).watched.Accounted base ∧
      (start vt hostRows hostCols limit).Settled :=
    ⟨Watched.start_accounted vt hostCols limit hrows, start_settled vt hostCols limit hrows⟩
  have hwatched (a : Audit vt) (c : Call) : (a.call c).watched = a.watched.call c := by
    cases c <;> rfl
  have hend : a.watched.Accounted base ∧ a.Settled := by
    refine Machine.run_invariant_along (I := fun a => a.watched.Accounted base ∧ a.Settled)
      (fun a c a' ha hc hstep => ?_) hstart hkeeps hrun
    rw [step, Option.ite_none_right_eq_some] at hstep
    rw [← Option.some.inj hstep.2, hwatched]
    exact ⟨ha.1.call hstep.1, ha.2.call ha.1 hstep.1 hc⟩
  exact ⟨hend.1.history, fun l hl =>
    ⟨hend.2.archived l hl, fun halt => (hend.2.counts l hl).eq_nil halt⟩⟩

/-- Nothing was staged before the reset, so the rows after it are archived. -/
theorem rows_after_reset_archived :
    let calls := [Call.process (ascii "a\r\nb\x1bcc\r\nd\r\ne"), .process (ascii "\r\nf")]
    ∃ a, Machine.run step (start asciiVt100 2 4 10) calls = some a ∧
      (a.due.map fun l => l.archived.map fun row => (row.record 4).bytes) =
        some [ascii "c", ascii "d"] ∧
      a.watched.mirror.history.lines.map HistoryRecord.bytes = [ascii "c", ascii "d"] :=
  ⟨_, rfl, by decide, by
    rw [(resets_lose_no_line (by decide : 0 < 2) (by decide)
      (rfl : Machine.run step (start asciiVt100 2 4 10) [Call.process
        (ascii "a\r\nb\x1bcc\r\nd\r\ne"), .process (ascii "\r\nf")] = some _)).1]
    decide⟩

/-- With a row staged before, the counter is parked when the reset comes: the row that
scrolls off after it is lost, and no later harvest makes up for it. -/
theorem row_after_reset_lost :
    ∃ a, Machine.run step (start asciiVt100 2 4 10) [.process (ascii "a\r\nb\r\nc"),
        .process (ascii "\x1bcx\r\ny\r\nz"), .process (ascii "\r\nw")] = some a ∧
      (a.due.map fun l => l.archived.map fun row => (row.record 4).bytes) =
        some [ascii "x", ascii "y"] ∧
      a.watched.mirror.parser.alternate = false ∧
      a.watched.mirror.history.lines.map HistoryRecord.bytes = [ascii "a", ascii "y"] :=
  ⟨_, rfl, by decide, by decide, by decide⟩

end Audit

end G2mirror
