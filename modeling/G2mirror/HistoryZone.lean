import G2mirror.NativeScrollback
import G2mirror.Watching

/-!
# The history zone of the host

While a view is shorter than the host, the rows above its live region are the
history zone. One scroll step moves lines through it; which lines these are
depends on what the archive still retains; and the rows that the zone holds when
the view starts are rescued only by what scrolls later.
-/

namespace G2mirror

open scoped List

variable {vt : Vt100} {Line : Type}

namespace Mirror

/-- One scroll step on the host. When `records` were just archived, and the
archive retains all of them, the scroll branch of `process` moves as many rows
into the scrollback: the first ones of the old zone followed by the new lines.
The last ones stay in the zone, and the region below it is blank. -/
theorem scroll_step (text : HostText Line) {m : Mirror vt} {view : View}
    (hview : m.view = some view) (hhost : 1 ≤ m.hostRows) (hrows : 1 ≤ view.rows)
    {old : History} {records : List HistoryRecord} (hsome : 1 ≤ records.length)
    (harchived : m.history = old.pushAll records) (hretained : records.length ≤ old.maxLines)
    (hfits : ∀ r ∈ records, text.Fits r) {h : HostTerminal Line}
    (hheight : h.term.screen.length = m.hostRows) :
    let region := min view.rows m.hostRows
    let flowing := h.term.screen.take (m.hostRows - region) ++ records.map text.line
    let h' := h.execAll text (m.scrollHost records.length)
    h'.term.scrollback = h.term.scrollback ++ flowing.take records.length ∧
      h'.term.scrollback.length = h.term.scrollback.length + records.length ∧
      h'.term.screen = flowing.drop records.length ++ List.replicate region text.blank ∧
      (flowing.drop records.length).length = m.hostRows - region := by
  intro region flowing h'
  have hregionRows : m.regionRows = region := by rw [Mirror.regionRows, hview]
  have hregionOffset : m.regionOffset = m.hostRows - region := by
    rw [Mirror.regionOffset, hregionRows]
  have hregion : 0 < m.regionRows := hregionRows ▸ lt_min hrows hhost
  have htail : m.history.tail records.length = records := by
    rw [harchived]
    exact History.tail_pushAll hretained
  obtain ⟨-, hscrollback, hscreen⟩ :=
    execAll_scrollHost hheight hregion (List.length_pos_iff.mp hsome) htail hfits
  rw [hregionOffset, List.length_map] at hscrollback hscreen
  rw [hregionRows] at hscreen
  have hflowing : flowing.length = m.hostRows - region + records.length := by
    rw [List.length_append, List.length_take, List.length_map, hheight]
    omega
  refine ⟨hscrollback, ?_, hscreen, ?_⟩
  · rw [hscrollback, List.length_append, List.length_take, hflowing]
    omega
  · rw [List.length_drop, hflowing]
    omega

/-- Two lines flow through a zone of one row: the row and the first line are pushed. -/
theorem scroll_step_of_two :
    let record (b : UInt8) : HistoryRecord := ⟨[b], 4, false⟩
    let old := History.new 10
    let m : Mirror asciiVt100 := { Mirror.new asciiVt100 3 4 with
      view := some ⟨2, 4, false⟩
      history := old.pushAll [record 97, record 98] }
    let h : HostTerminal Bytes := ⟨⟨[], [ascii "zone", ascii "x", ascii "y"], 0⟩, true⟩
    (h.execAll (HostRun.plainText 4) (m.scrollHost 2)).term.scrollback =
      [ascii "zone", ascii "a"] := by
  intro record old m h
  have hpushed (m : Mirror asciiVt100) (hview : m.view = some ⟨2, 4, false⟩)
      (hhost : m.hostRows = 3) (harchived : m.history = old.pushAll [record 97, record 98]) :
      (h.execAll (HostRun.plainText 4) (m.scrollHost 2)).term.scrollback =
        [ascii "zone", ascii "a"] := by
    obtain ⟨hscrollback, -⟩ := scroll_step (HostRun.plainText 4) hview (by omega) (by decide)
      (by decide) harchived (by decide) (by decide) (h := h) hhost.symm
    rw [hhost] at hscrollback
    exact hscrollback.trans (by decide)
  exact hpushed m rfl rfl rfl

end Mirror

/-- The archived lines in terminal output, in order. -/
def lineTexts (ops : List TermOp) : List Bytes :=
  ops.filterMap fun
    | .lineText bytes => some bytes
    | _ => none

@[simp] theorem lineTexts_append (ops ops' : List TermOp) :
    lineTexts (ops ++ ops') = lineTexts ops ++ lineTexts ops' := List.filterMap_append

/-- Output without archived lines. -/
theorem lineTexts_eq_nil {ops : List TermOp} (hops : ∀ op ∈ ops, ∀ bytes, op ≠ .lineText bytes) :
    lineTexts ops = [] := by
  rw [lineTexts, List.filterMap_eq_nil_iff]
  intro op hop
  cases op with
  | lineText bytes => exact absurd rfl (hops _ hop bytes)
  | _ => rfl

/-- Rendering rows writes no archived line. -/
theorem lineTexts_renderRows (vt : Vt100) (screen prev : Screen) (hostRows hostCols : ℕ)
    (full : Bool) (rowOffset srcOff : ℕ) :
    lineTexts (renderRows vt screen prev hostRows hostCols full rowOffset srcOff) = [] := by
  refine lineTexts_eq_nil fun op hop bytes => ?_
  simp only [renderRows, List.mem_append, List.mem_flatMap] at hop
  rintro rfl
  rcases hop with (((hop | ⟨row, -, hop⟩) | hop) | hop) | hop
  · simp at hop
  · split at hop
    · simp at hop
    · split at hop <;> simp at hop
  · simp at hop
  · exact placeCursor_silent _ _ _ _ _ _ hop
  · simp at hop

namespace Mirror

/-- The scroll branch writes the newest lines that the archive retains. -/
theorem lineTexts_hostScroll (m : Mirror vt) (scrolled : ℕ) :
    lineTexts (m.hostScroll scrolled) = (m.history.tail scrolled).map HistoryRecord.bytes := by
  have hlines (records : List HistoryRecord) (n : ℕ) :
      lineTexts ((records.zipIdx n).flatMap scrolledLine) = records.map HistoryRecord.bytes := by
    induction records generalizing n with
    | nil => rfl
    | cons r records ih =>
      have hline : lineTexts (scrolledLine (r, n)) = [r.bytes] := by
        rw [scrolledLine]
        split <;> rfl
      rw [List.zipIdx_cons, List.flatMap_cons, lineTexts_append, ih, hline]
      rfl
  rw [hostScroll]
  split
  · rw [scrollHost, lineTexts_append, lineTexts_append, hlines]
    exact List.append_nil _
  · rename_i hnone
    have hzero : scrolled = 0 := Nat.eq_zero_of_not_pos hnone
    rw [hzero, History.tail, Nat.sub_zero, List.drop_length]
    rfl

/-- Slices archive no more rows than the counter covers and they scroll off. -/
theorem length_slicesRecords_le {m : Mirror vt} (hrows : 0 < m.parser.rows)
    (slices : List Bytes) : (m.slicesRecords slices).length ≤
      m.unarchived.length + (m.parser.rowsOff slices.flatten).length := by
  induction slices generalizing m with
  | nil => exact Nat.zero_le _
  | cons slice slices ih =>
    have hparsed := m.parsed_same slice
    have hsame := m.processSlice_same slice
    have hnext : 0 < (m.processSlice slice).parser.rows := by
      rw [hsame.rows, Parser.process_rows]
      exact hrows
    have hcovered := (parsed_unarchived (List.suffix_refl m.unarchived) slice).length_le
    have hslice : (m.sliceRecords slice).length + (m.processSlice slice).unarchived.length =
        (m.parsed slice).unarchived.length := by
      rw [sliceRecords, processSlice_eq]
      cases halt : (m.parsed slice).parser.alternate with
      | true =>
        rw [harvestRecords, if_pos halt, harvest_of_alternate halt, List.length_nil, Nat.zero_add]
      | false =>
        rw [harvestRecords, if_neg (by rw [halt]; exact Bool.false_ne_true),
          harvest_unarchived halt (by rw [hparsed.rows, Parser.process_rows]; exact hrows),
          recordsOf, List.length_map, List.length_nil, Nat.add_zero]
    have hrest := ih hnext
    rw [hsame.rowsOff] at hrest
    rw [slicesRecords, List.length_append, List.flatten_cons, Parser.rowsOff_append,
      List.length_append]
    rw [List.length_append] at hcovered
    omega

/-- A slice that takes the counter out of step archives nothing and leaves nothing covered. -/
theorem sliceRecords_of_outOfStep {m : Mirror vt} (hrows : 0 < m.parser.rows) {slice : Bytes}
    (hout : m.OutOfStep slice) :
    m.sliceRecords slice = [] ∧ (m.processSlice slice).unarchived = [] := by
  have hparked : (m.parsed slice).parked = true := hout.1
  have hnone : (m.parsed slice).unarchived = [] := by
    rw [unarchived, uncounted_of_stuck hparked (parsed_offset_of_outOfStep hout), List.rtake_zero]
  rw [sliceRecords, harvestRecords, processSlice_eq, hnone]
  cases halt : (m.parsed slice).parser.alternate with
  | true => exact ⟨rfl, (congrArg unarchived (harvest_of_alternate halt)).trans hnone⟩
  | false =>
    refine ⟨rfl, harvest_unarchived halt ?_⟩
    rw [(m.parsed_same slice).rows, Parser.process_rows]
    exact hrows

/-- A slice that takes the counter out of step loses rows for good. -/
theorem length_slicesRecords_lt {m : Mirror vt} {l : Ledger} {p : Parser vt}
    (h : m.Booked l.pending) (hp : m.parser.Same p) {slices : List Bytes}
    (hreset : p.NoReset slices.flatten) (hroom : l.Room p slices)
    (hout : ¬m.InStep l.pending slices) :
    (m.slicesRecords slices).length < l.pending.length + (p.rowsOff slices.flatten).length := by
  induction slices generalizing m l p with
  | nil => exact absurd trivial hout
  | cons slice slices ih =>
    rw [List.flatten_cons, Parser.noReset_append] at hreset
    have hnext := (m.processSlice_same slice).trans (hp.process slice)
    rw [slicesRecords, List.length_append, List.flatten_cons, Parser.rowsOff_append,
      List.length_append]
    by_cases hstep : m.OutOfStep slice → l.pending ++ m.parser.rowsOff slice = []
    · have hfirst : m.parser.NoReset slice := by
        intro a ha
        exact hreset.1 a (by rwa [← hp.vte])
      have hfits : (l.pending ++ m.parser.rowsOff slice).length ≤ stageScrollback - 1 := by
        rw [hp.rowsOff slice]
        exact hroom.1
      have hbooked := h.processSlice slice hfirst hfits hstep
      have hrecords := h.sliceRecords slice hfirst hfits hstep
      have hrest : ¬(m.processSlice slice).InStep _ slices := fun hrest => hout ⟨hstep, hrest⟩
      rw [hp.rowsOff slice, (hp.process slice).alternate] at hbooked hrecords hrest
      let done := Ledger.scroll ⟨[], l.pending⟩ (p.rowsOff slice) (p.process slice).alternate
      have hledger : l.scroll (p.rowsOff slice) (p.process slice).alternate =
          ⟨l.archived ++ done.archived, done.pending⟩ := l.scroll_eq _ _
      rw [Ledger.Room, hledger] at hroom
      have hfewer : ((m.processSlice slice).slicesRecords slices).length <
          done.pending.length + ((p.process slice).rowsOff slices.flatten).length :=
        ih (l := ⟨l.archived ++ done.archived, done.pending⟩) hbooked hnext hreset.2 hroom.2 hrest
      have hall : done.archived ++ done.pending = [] ++ l.pending ++ p.rowsOff slice :=
        Ledger.scroll_rows ⟨[], l.pending⟩ (p.rowsOff slice) (p.process slice).alternate
      have htotal := congrArg List.length hall
      rw [List.nil_append, List.length_append, List.length_append] at htotal
      rw [hrecords, recordsOf, List.length_map]
      change done.archived.length + _ < _
      omega
    · rw [Classical.not_imp] at hstep
      obtain ⟨hnone, hcovered⟩ := sliceRecords_of_outOfStep h.steady.rows hstep.1
      have hlost := List.length_pos_iff.mpr hstep.2
      have hrest := length_slicesRecords_le (m := m.processSlice slice)
        (h.steady.processSlice slice).rows slices
      rw [hcovered, hnext.rowsOff, List.length_nil] at hrest
      rw [hp.rowsOff slice, List.length_append] at hlost
      rw [hnone, List.length_nil]
      omega

/-- Without anything pending, a chunk that ends on the primary screen archives exactly
the rows that it scrolls off, as long as the staging scrollback has room for them, if and only
if it leaves the counter in step. -/
theorem processRecords_eq_rowsOff_iff {m : Mirror vt} (hbooked : m.Booked []) {bytes : Bytes}
    (hreset : m.parser.NoReset bytes)
    (hroom : Ledger.empty.Room m.parser (chunks processSliceSize bytes))
    (hprimary : (m.parser.process bytes).alternate = false) :
    m.processRecords bytes = m.recordsOf (m.parser.rowsOff bytes) ↔
      m.InStep [] (chunks processSliceSize bytes) := by
  have hchunks : (chunks processSliceSize bytes).flatten = bytes :=
    flatten_chunks (by decide) bytes
  rw [← hchunks] at hreset hprimary
  constructor
  · intro hall
    by_contra hout
    have hfewer := length_slicesRecords_lt (l := Ledger.empty) hbooked (.refl m.parser) hreset
      hroom hout
    have hlength := congrArg List.length hall
    rw [processRecords, recordsOf, List.length_map] at hlength
    rw [hchunks, hlength] at hfewer
    exact absurd hfewer (by simp [Ledger.empty])
  · intro hin
    obtain ⟨-, -, rows, hrows, hrecords⟩ := foldl_processSlice_booked (l := Ledger.empty) hbooked
      (.refl m.parser) (chunks processSliceSize bytes) hreset hroom hin
    have hledger := Ledger.empty.parse_rows m.parser (chunks processSliceSize bytes)
    rw [Ledger.parse_pending (l := Ledger.empty) (fun _ => rfl) hprimary, hrows, hchunks] at hledger
    have heq : rows = m.parser.rowsOff bytes := by simpa [Ledger.empty] using hledger
    exact hrecords.trans (congrArg m.recordsOf heq)

/-- When a chunk's lines all reach the host. While a view is active, the lines that
`process` writes to the host are those that the chunk archives, one for each counted,
exactly if there are no more of them than the archive retains. Unless a full reset, a full
staging scrollback or the alternate screen at the end comes between, they are the rows that
the chunk scrolls off exactly if no slice takes the counter out of step. -/
theorem scrolled_lines_written_iff {m : Mirror vt} {view : View} {shadow : Parser vt}
    (hview : m.view = some view) (hshadow : m.shadow = some shadow) (hrows : 0 < m.parser.rows)
    (bytes : Bytes) :
    let lines := m.processRecords bytes
    let written := lineTexts (m.process bytes).1.host
    let scrolled := (m.process bytes).2.history.nextIndex - m.history.nextIndex
    (written = lines.map HistoryRecord.bytes ∧ written.length = scrolled ↔
        lines.length ≤ m.history.maxLines) ∧
      (m.Booked [] → m.parser.NoReset bytes →
        Ledger.empty.Room m.parser (chunks processSliceSize bytes) →
        (m.parser.process bytes).alternate = false →
        (lines = m.recordsOf (m.parser.rowsOff bytes) ↔
          m.InStep [] (chunks processSliceSize bytes))) := by
  intro lines written scrolled
  have hpushed := foldl_processSlice_history hrows (chunks processSliceSize bytes)
  have hcount {h : History} (hh : h = m.history.pushAll lines) :
      h.nextIndex - m.history.nextIndex = lines.length := by
    rw [hh, History.nextIndex, History.nextIndex, History.pushAll_next, Nat.add_sub_cancel_left]
  have hscrolled : scrolled = lines.length := hcount (process_spec hrows bytes).2.2.2.2
  obtain ⟨title, htaken⟩ := m.taken_eq bytes
  have hhistory : (m.taken bytes).history = m.history.pushAll lines :=
    (congrArg Mirror.history htaken).trans hpushed
  have hwritten : written =
      ((m.history.pushAll lines).tail lines.length).map HistoryRecord.bytes := by
    obtain ⟨bells, newTitle, hprocess⟩ := process_of_view hview hshadow bytes
    have htitle : lineTexts (hostTitle newTitle) = [] := by cases newTitle <;> rfl
    have hrepaint : lineTexts ((m.taken bytes).hostRepaint lines.length shadow) = [] := by
      rw [hostRepaint]
      split <;> exact lineTexts_renderRows _ _ _ _ _ _ _ _
    rw [show (m.processSlices bytes).history.nextIndex - m.history.nextIndex = lines.length from
      hcount hpushed] at hprocess
    simp only [written, hprocess, lineTexts_append, htitle, hrepaint, List.append_nil,
      lineTexts_hostScroll, hhistory]
  refine ⟨⟨fun hall => ?_, fun hretained => ?_⟩, fun hbooked hreset hroom hprimary =>
    processRecords_eq_rowsOff_iff hbooked hreset hroom hprimary⟩
  · have hlength : written.length = lines.length := hall.2.trans hscrolled
    rw [hwritten, List.length_map] at hlength
    have hcap := (m.history.pushAll lines).retained
    rw [History.pushAll_maxLines] at hcap
    rw [History.tail, List.length_drop] at hlength
    omega
  · rw [hwritten, History.tail_pushAll hretained]
    exact ⟨rfl, by rw [List.length_map, hscrolled]⟩

/-- With a row staged, a slice that scrolls one off and visits the alternate screen takes the
counter out of step: the row is neither archived nor written. -/
example :
    let start := ((Mirror.new asciiVt100 3 4).startView ⟨1, 4, false⟩).2
    let m := (start.process (ascii "a\r\nb")).2
    let bytes := ascii "\r\nc\x1b[?1049h\x1b[?1049l"
    m.processRecords bytes = [] ∧ lineTexts (m.process bytes).1.host = [] ∧
      m.parser.rowsOff bytes = [⟨[Ascii.printed 98, .empty, .empty, .empty], false⟩] ∧
      ¬m.InStep [] (chunks processSliceSize bytes) := by
  decide

/-- Two lines scroll off and the archive retains one: the other one is not written. -/
theorem scrolled_line_dropped :
    let m := ((Mirror.new asciiVt100 3 4).setHistoryLimit 1).startView ⟨1, 4, false⟩ |>.2
    let bytes := ascii "a\r\nb\r\nc"
    lineTexts (m.process bytes).1.host = [ascii "b"] ∧
      (m.processRecords bytes).map HistoryRecord.bytes = [ascii "a", ascii "b"] ∧
      m.parser.rowsOff bytes = [⟨[Ascii.printed 97, .empty, .empty, .empty], false⟩,
        ⟨[Ascii.printed 98, .empty, .empty, .empty], false⟩] :=
  ⟨by decide, by decide, by decide⟩

/-- With room for both, both are written. -/
theorem scrolled_lines_written :
    let m := ((Mirror.new asciiVt100 3 4).setHistoryLimit 2).startView ⟨1, 4, false⟩ |>.2
    lineTexts (m.process (ascii "a\r\nb\r\nc")).1.host =
      (m.processRecords (ascii "a\r\nb\r\nc")).map HistoryRecord.bytes := by
  intro m
  have hlines := (scrolled_lines_written_iff (m := m) rfl rfl (by decide)
    (ascii "a\r\nb\r\nc")).1.mpr (by decide)
  exact hlines.1

end Mirror

variable {text : HostText Line}

/-- Every row of `zone` that is not blank is in the host's scrollback or on its screen. -/
def HostTerminal.Holds (text : HostText Line) (h : HostTerminal Line) (zone : List Line) : Prop :=
  ∀ line ∈ zone, line ≠ text.blank → line ∈ h.term.scrollback ∨ line ∈ h.term.screen

namespace HostRun

/-- The host gets the output of several chunks. -/
def processAll (text : HostText Line) (s : HostRun vt Line) (inputs : List Bytes) :
    HostRun vt Line :=
  inputs.foldl (process text) s

/-- While nothing scrolls, a view leaves the scrollback and the rows above its region alone. -/
structure Quiet (h : HostTerminal Line) (view : View) (s : HostRun vt Line) : Prop where
  viewing : s.mirror.view = some view
  rows : 0 < s.mirror.parser.rows
  shadowed : ∃ shadow, s.mirror.shadow = some shadow
  clean : s.mirror.zoneDirty = false
  hostRows : s.mirror.hostRows = h.term.screen.length
  height : s.host.term.screen.length = h.term.screen.length
  scrollback : s.host.term.scrollback = h.term.scrollback
  zone : s.host.term.screen.take (h.term.screen.length - view.rows) =
    h.term.screen.take (h.term.screen.length - view.rows)

/-- The region of a quiet view that is shorter than the host lies below its zone. -/
theorem Quiet.regionOffset {h : HostTerminal Line} {view : View} {s : HostRun vt Line}
    (hs : s.Quiet h view) (hshort : view.rows < h.term.screen.length) :
    s.mirror.regionOffset = h.term.screen.length - view.rows := by
  rw [Mirror.regionOffset, Mirror.regionRows, hs.viewing, hs.hostRows]
  change _ - min view.rows h.term.screen.length = _
  rw [Nat.min_eq_left (Nat.le_of_lt hshort)]

/-- A view that is shorter than the host starts without touching the rows above its region. -/
theorem startView_quiet (text : HostText Line) {m : Mirror vt} {h : HostTerminal Line}
    (hheight : h.term.screen.length = m.hostRows) {view : View} (hview : 0 < view.rows)
    (hshort : view.rows < m.hostRows) : (startView text ⟨m, h, []⟩ view).Quiet h view := by
  let started := (m.startView view).2
  have hhost : started.hostRows = m.hostRows :=
    (m.flushHistoryForRebuild_rebooked view.rows).sameView.hostRows
  have hoffset : started.regionOffset = h.term.screen.length - view.rows := by
    rw [Mirror.regionOffset, Mirror.regionRows, hhost, hheight]
    change _ - min view.rows m.hostRows = _
    rw [Nat.min_eq_left (Nat.le_of_lt hshort)]
  have hcrop : started.pushCropToHostScrollback = [] := by
    have hzero : started.cropTop = 0 := by
      change view.rows - started.hostRows = 0
      omega
    rw [Mirror.pushCropToHostScrollback, if_pos hzero]
  have hops : (m.startView view).1.hostOutput =
      [.viewHostPrelude] ++ started.pushCropToHostScrollback ++ started.renderHostFull := rfl
  let opened := h.execAll text [.viewHostPrelude]
  have hend : (startView text ⟨m, h, []⟩ view).host =
      opened.execAll text started.renderHostFull := by
    change h.execAll text (m.startView view).1.hostOutput = _
    rw [hops, hcrop, List.append_nil, HostTerminal.execAll_append]
  have hkept := renderRows_keepsZone vt text started.parser.screen
    (blankScreen started.parser.screen.rows started.parser.screen.cols) started.hostRows
    started.hostCols true started.regionOffset started.cropTop opened (by
      rw [hoffset]
      change h.term.screen.length - view.rows < h.term.screen.length
      omega)
  refine ⟨rfl, ?_, ⟨_, rfl⟩, rfl, hhost.trans hheight.symm, ?_, ?_, ?_⟩
  · change 0 < ((Parser.new vt view.rows view.cols stageScrollback).process _).rows
    rw [Parser.process_rows]
    exact hview
  · rw [hend]
    exact hkept.length
  · rw [hend]
    exact hkept.scrollback
  · rw [hend, ← hoffset]
    exact hkept.above

/-- A chunk that scrolls nothing keeps the view quiet. -/
theorem Quiet.process {h : HostTerminal Line} {view : View} {s : HostRun vt Line}
    (hs : s.Quiet h view) (hview : 0 < view.rows) (hshort : view.rows < h.term.screen.length)
    {bytes : Bytes} (hnone : s.mirror.processRecords bytes = []) :
    (s.process text bytes).Quiet h view := by
  obtain ⟨shadow, hshadow⟩ := hs.shadowed
  have hchunk := chunk_of_view text hs.viewing hshadow hs.rows bytes
  obtain ⟨rest, hrest, hhost⟩ := hchunk.host
  rw [hnone] at hhost
  change _ = s.host.execAll text rest at hhost
  rw [hs.regionOffset hshort] at hrest
  have hkept := hrest s.host (by
    rw [hs.height]
    omega)
  rw [← hhost] at hkept
  refine ⟨hchunk.sameView.trans hs.viewing, ?_, hchunk.shadowed, ?_,
    hchunk.sameHost.trans hs.hostRows,
    hkept.length.trans hs.height, hkept.scrollback.trans hs.scrollback, hkept.above.trans hs.zone⟩
  · rw [hchunk.sameRows]
    exact hs.rows
  · rw [hchunk.zoneDirty, hnone, hs.clean]
    rfl

/-- Chunks that scroll nothing keep the view quiet. -/
theorem Quiet.processAll {h : HostTerminal Line} {view : View} {s : HostRun vt Line}
    (hs : s.Quiet h view) (hview : 0 < view.rows) (hshort : view.rows < h.term.screen.length)
    {inputs : List Bytes} (hnone : (s.processAll text inputs).archived = s.archived) :
    (s.processAll text inputs).Quiet h view := by
  induction inputs generalizing s with
  | nil => exact hs
  | cons bytes inputs ih =>
    have hgrows (inputs : List Bytes) (s : HostRun vt Line) :
        s.archived <+: (s.processAll text inputs).archived := by
      induction inputs generalizing s with
      | nil => exact List.prefix_rfl
      | cons bytes inputs ih => exact (List.prefix_append _ _).trans (ih (s.process text bytes))
    have hlater := hgrows inputs (s.process text bytes)
    change (s.archived ++ s.mirror.processRecords bytes) <+: _ at hlater
    have hfirst : s.mirror.processRecords bytes = [] := by
      have hlength := hlater.length_le
      change ((s.process text bytes).processAll text inputs).archived = s.archived at hnone
      rw [hnone, List.length_append] at hlength
      exact List.length_eq_zero_iff.mp (by omega)
    refine ih (hs.process hview hshort hfirst) ?_
    change ((s.process text bytes).processAll text inputs).archived = s.archived ++ _
    rw [hfirst, List.append_nil]
    exact hnone

/-- In a quiet view nothing is pushed out of the zone. -/
theorem Quiet.pushZone {h : HostTerminal Line} {view : View} {s : HostRun vt Line}
    (hs : s.Quiet h view) : s.mirror.pushZoneToHostScrollback = [] := by
  rw [Mirror.pushZoneToHostScrollback, hs.clean]
  rfl

/-- The end of a quiet view blanks the host and pushes nothing. -/
theorem Quiet.endView {h : HostTerminal Line} {view : View} {s : HostRun vt Line}
    (hs : s.Quiet h view) :
    (s.host.execAll text s.mirror.endView.1.hostOutput).term =
      ⟨h.term.scrollback, List.replicate h.term.screen.length text.blank, 0⟩ := by
  have hops : s.mirror.endView.1.hostOutput = [.clear, .resetInputModes] := by
    change s.mirror.harvest.pushZoneToHostScrollback ++ [.clear, .resetInputModes] = _
    rw [Mirror.pushZone_sameView s.mirror.harvest_rebooked.sameView, hs.pushZone]
    rfl
  rw [hops, ← hs.scrollback, ← hs.height]
  rfl

/-- Cleaning up after a quiet view scrolls by one row at most, which loses none. -/
theorem Quiet.cleanup {h : HostTerminal Line} {view : View} {s : HostRun vt Line}
    (hs : s.Quiet h view) {line : Line} (hline : line ∈ s.host.term.screen) :
    line ∈ (s.host.execAll text s.mirror.cleanup).term.scrollback ∨
      line ∈ (s.host.execAll text s.mirror.cleanup).term.screen := by
  have hops : s.mirror.cleanup = [.sgrReset, .showCursor, .resetInputModes,
      .cup (s.mirror.hostRows - 1) 0, .crlf 1] := by
    rw [Mirror.cleanup, hs.viewing]
    change s.mirror.pushZoneToHostScrollback ++ _ = _
    rw [hs.pushZone]
    rfl
  rw [hops]
  exact ScrollTerminal.mem_newline (t := s.host.term.moveTo (s.mirror.hostRows - 1)) hline

/-- What becomes of the rows above the region. For every content of the host and a view
shorter than it, with no output or output that scrolls nothing: the rows that stood
above the region are still there after `cleanup`. After `end_view` the host still holds
them exactly if those that are not blank were in its scrollback already. -/
theorem initial_zone_held_iff {m : Mirror vt} {h : HostTerminal Line}
    (hheight : h.term.screen.length = m.hostRows) {view : View} (hview : 0 < view.rows)
    (hshort : view.rows < m.hostRows) {inputs : List Bytes}
    (hnone : ((startView text ⟨m, h, []⟩ view).processAll text inputs).archived = []) :
    let s := (startView text ⟨m, h, []⟩ view).processAll text inputs
    let zone := h.term.screen.take (m.hostRows - view.rows)
    (s.host.execAll text s.mirror.cleanup).Holds text zone ∧
      ((s.host.execAll text s.mirror.endView.1.hostOutput).Holds text zone ↔
        ∀ line ∈ zone, line ≠ text.blank → line ∈ h.term.scrollback) := by
  intro s zone
  have hs : s.Quiet h view :=
    (startView_quiet text hheight hview hshort).processAll hview (hheight ▸ hshort) hnone
  have hzone : s.host.term.screen.take (m.hostRows - view.rows) = zone := by
    simp only [zone, ← hheight]
    exact hs.zone
  refine ⟨fun line hline _ => ?_, ?_⟩
  · rw [← hzone] at hline
    exact hs.cleanup (List.mem_of_mem_take hline)
  · rw [HostTerminal.Holds, hs.endView]
    refine forall₃_congr fun line _ hblank => or_iff_left fun hcleared => ?_
    exact hblank (List.eq_of_mem_replicate hcleared)

/-- A host of three rows that shows something in its first one. -/
abbrev promptHost : HostTerminal Bytes := ⟨⟨[], [ascii "$ ls", [], []], 1⟩, true⟩

/-- A view of one row starts and ends: the prompt above it is gone. -/
theorem prompt_wiped :
    let s := startView (plainText 4) ⟨Mirror.new asciiVt100 3 4, promptHost, []⟩ ⟨1, 4, false⟩
    ¬ (s.host.execAll (plainText 4) s.mirror.endView.1.hostOutput).Holds (plainText 4)
        (promptHost.term.screen.take 2) := by
  intro s hholds
  have hheld := hholds (ascii "$ ls") (by decide) (by decide)
  exact absurd hheld (by decide)

/-- When the process is cleaned up instead, the prompt stays. -/
theorem prompt_kept_by_cleanup :
    let s := (startView (plainText 4) ⟨Mirror.new asciiVt100 3 4, promptHost, []⟩
      ⟨1, 4, false⟩).processAll (plainText 4) [ascii "ab"]
    (s.host.execAll (plainText 4) s.mirror.cleanup).Holds (plainText 4)
        (promptHost.term.screen.take 2) :=
  (initial_zone_held_iff (m := Mirror.new asciiVt100 3 4) (h := promptHost) rfl (by decide)
    (by decide) (by decide)).1

end HostRun

end G2mirror
