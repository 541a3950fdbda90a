import G2mirror.NativeScrollback
import G2mirror.SnapshotCrop
import G2mirror.SoftWrap

/-!
# Refreshing the whole screen

Ctrl+L on a host that is shorter than the view: the hidden rows are painted over the top of the
screen, as many at a time as it has, and scrolled off. Then the rows that fit are painted.
-/

namespace G2mirror

open scoped List

variable {vt : Vt100} {Line : Type} {text : HostText Line}

/-! ### The text of cells -/

/-- What prints a cell: its style, if that changes, and its text or a space. -/
def Cell.emits (c : Cell) (current : CellStyle) : Bytes :=
  (if c.style ≠ current then emitSgr c.style else []) ++
    (if c.hasContents then c.contents else ascii " ")

/-- What prints cells, however long it gets. -/
def cellsText (current : CellStyle) : List Cell → Bytes
  | [] => []
  | cell :: rest =>
    if cell.wideContinuation then cellsText current rest
    else cell.emits current ++ cellsText cell.style rest

/-- The cells that the loop of `serialize_row` gets to after `len` bytes: those up to the one
with which the cap is reached. -/
def reachedCells (len : ℕ) (current : CellStyle) : List Cell → List Cell
  | [] => []
  | cell :: rest =>
    if cell.wideContinuation then cell :: reachedCells len current rest
    else
      let len := len + (cell.emits current).length
      cell :: if maxLineBytes ≤ len then [] else reachedCells len cell.style rest

/-- The loop emits the text of the cells that it gets to. -/
theorem emitCells_text (bytes : Bytes) (current : CellStyle) (cells : List Cell) :
    emitCells bytes current cells =
      bytes ++ cellsText current (reachedCells bytes.length current cells) := by
  induction cells generalizing bytes current with
  | nil => exact (List.append_nil bytes).symm
  | cons cell rest ih =>
    by_cases hsecond : cell.wideContinuation = true
    · rw [emitCells, if_pos hsecond, reachedCells, if_pos hsecond, cellsText, if_pos hsecond, ih]
    · have hbytes : (if cell.style ≠ current then bytes ++ emitSgr cell.style else bytes) ++
          (if cell.hasContents then cell.contents else ascii " ") =
            bytes ++ cell.emits current := by
        rw [Cell.emits]
        split_ifs <;> simp
      rw [emitCells, if_neg hsecond, reachedCells, if_neg hsecond, cellsText, if_neg hsecond]
      simp only [hbytes, List.length_append]
      split_ifs
      · rw [cellsText, List.append_nil]
      · rw [ih, List.length_append, List.append_assoc]

theorem prefix_of_reachedCells (len : ℕ) (current : CellStyle) (cells : List Cell) :
    reachedCells len current cells <+: cells := by
  induction cells generalizing len current with
  | nil => exact List.prefix_rfl
  | cons cell rest ih =>
    rw [reachedCells]
    split
    · exact List.prefix_cons_inj cell |>.mpr (ih _ _)
    · refine List.prefix_cons_inj cell |>.mpr ?_
      split
      · exact List.nil_prefix
      · exact ih _ _

/-- Below the cap the loop gets to every cell. -/
theorem reachedCells_of_short {len : ℕ} {current : CellStyle} {cells : List Cell}
    (h : len + (cellsText current (reachedCells len current cells)).length < maxLineBytes) :
    reachedCells len current cells = cells := by
  induction cells generalizing len current with
  | nil => rfl
  | cons cell rest ih =>
    by_cases hsecond : cell.wideContinuation = true
    · rw [reachedCells, if_pos hsecond, cellsText, if_pos hsecond] at h
      rw [reachedCells, if_pos hsecond, ih h]
    · rw [reachedCells, if_neg hsecond, cellsText, if_neg hsecond, List.length_append] at h
      have hroom : ¬maxLineBytes ≤ len + (cell.emits current).length := by omega
      rw [if_neg hroom, ← Nat.add_assoc] at h
      rw [reachedCells, if_neg hsecond]
      simp only [if_neg hroom, ih h]

/-- The last visible cell: after it there is none. -/
theorem lastVisible_spec (cells : List Cell) :
    (lastVisible 0 none cells = none ∧ ∀ c ∈ cells, c.isVisible = false) ∨
      ∃ stop < cells.length, lastVisible 0 none cells = some stop ∧
        ∀ c ∈ cells.drop (stop + 1), c.isVisible = false := by
  induction cells using List.reverseRecOn with
  | nil => exact .inl ⟨rfl, fun _ h => absurd h List.not_mem_nil⟩
  | append_singleton cells c ih =>
    have hlast : lastVisible 0 none (cells ++ [c]) =
        if c.isVisible then some cells.length else lastVisible 0 none cells := by
      rw [lastVisible_append, Nat.zero_add]
      rfl
    have hlength : (cells ++ [c]).length = cells.length + 1 := List.length_append
    rw [hlast, hlength]
    by_cases hc : c.isVisible = true
    · refine .inr ⟨cells.length, Nat.lt_succ_self _, if_pos hc, ?_⟩
      rw [List.drop_of_length_le hlength.le]
      exact fun _ h => absurd h List.not_mem_nil
    · have hhidden : c.isVisible = false := by simpa using hc
      rw [if_neg hc]
      rcases ih with ⟨hnone, hall⟩ | ⟨stop, hstop, hsome, hrest⟩
      · refine .inl ⟨hnone, List.forall_mem_append.mpr ⟨hall, ?_⟩⟩
        simpa using hhidden
      · refine .inr ⟨stop, by omega, hsome, ?_⟩
        rw [List.drop_append_of_le_length hstop]
        exact List.forall_mem_append.mpr ⟨hrest, by simpa using hhidden⟩

namespace Row

/-- The cells of a row that its record shows: up to the last visible one, or up to the one with
which the cap is reached. -/
def recorded (row : Row) (width : ℕ) : List Cell :=
  match lastVisible 0 none (row.cells.take width) with
  | none => []
  | some stop => reachedCells 0 defaultStyle (row.cells.take (min width (stop + 1)))

/-- A record is the text of these cells. -/
theorem record_text (row : Row) (width : ℕ) :
    (row.record width).bytes = cellsText defaultStyle (row.recorded width) := by
  simp only [record, recorded]
  cases lastVisible 0 none (row.cells.take width) with
  | none => rfl
  | some stop => exact emitCells_text [] defaultStyle _

theorem prefix_of_recorded (row : Row) (width : ℕ) : row.recorded width <+: row.cells := by
  rw [recorded]
  split
  · exact List.nil_prefix
  · exact (prefix_of_reachedCells _ _ _).trans (List.take_prefix _ _)

/-- Of a record below the cap, the cells that are left out are not visible. -/
theorem hidden_of_short {row : Row} {width : ℕ} (hwidth : row.cells.length ≤ width)
    (hshort : (row.record width).bytes.length < maxLineBytes) :
    ∀ c ∈ row.cells.drop (row.recorded width).length, c.isVisible = false := by
  rw [record_text] at hshort
  rcases lastVisible_spec row.cells with ⟨hnone, hall⟩ | ⟨stop, hstop, hsome, hrest⟩
  · exact fun c hc => hall c (List.mem_of_mem_drop hc)
  · have hcut : min width (stop + 1) = stop + 1 := Nat.min_eq_right (by omega)
    have hreached : row.recorded width =
        reachedCells 0 defaultStyle (row.cells.take (stop + 1)) := by
      rw [recorded, List.take_of_length_le hwidth]
      simp only [hsome, hcut]
    rw [hreached] at hshort ⊢
    rw [reachedCells_of_short (by omega), List.length_take, Nat.min_eq_left hstop]
    exact hrest

end Row

/-! ### Painting rows one below the other -/

namespace HostTerminal

/-- Pieces that each write one line over an addressed row write these lines. -/
theorem execAll_paintRows {α : Type} {paint : α × ℕ → List TermOp} {line : α → Line}
    {h : HostTerminal Line} {height : ℕ}
    (hpaint : ∀ (t : ScrollTerminal Line) (x : α) (r : ℕ), t.screen.length = height →
      r < height → (h.withTerm t).execAll text (paint (x, r)) =
        h.withTerm ((t.moveTo r).write (line x)))
    (xs : List α) {first : ℕ} {t : ScrollTerminal Line} (ht : t.screen.length = height)
    (hfits : first + xs.length ≤ height) :
    (h.withTerm t).execAll text ((xs.zipIdx first).flatMap paint) =
      h.withTerm (t.writeRows first (xs.map line)) := by
  induction xs generalizing first t with
  | nil => rfl
  | cons x xs ih =>
    rw [List.length_cons] at hfits
    have hone : ((t.moveTo first).write (line x)).screen.length = height :=
      (ScrollTerminal.length_write _ _).trans ht
    rw [List.zipIdx_cons, List.flatMap_cons, execAll_append, hpaint t x first ht (by omega),
      ih hone (by omega)]
    rfl

/-- A row that is cleared and written holds what was written. -/
theorem write_write (t : ScrollTerminal Line) (old new : Line) :
    (t.write old).write new = t.write new := by
  simp only [ScrollTerminal.write, List.set_set]

/-- The line in the row that was just cleared. -/
theorem current_cleared {t : ScrollTerminal Line} {r : ℕ} (hr : r < t.screen.length) :
    text.current ((t.moveTo r).write text.blank) = text.blank := by
  have hrow : min r (t.screen.length - 1) < t.screen.length := by omega
  simp only [HostText.current, ScrollTerminal.write, ScrollTerminal.moveTo,
    List.getElem?_set_self hrow, Option.getD_some]

end HostTerminal

/-- Painting an archived line over a row. -/
def recordRow (row : HistoryRecord × ℕ) : List TermOp :=
  [.sgrReset, .cup row.2 0, .clearToEol, .lineText row.1.bytes]

/-- Painting a row of `rows_diff` over a row that is cleared first. -/
def diffRow (row : Bytes × ℕ) : List TermOp :=
  [.sgrReset, .cup row.2 0, .clearToEol, .rowDiff row.1]

theorem execAll_recordRow {h : HostTerminal Line} (hwrap : h.autowrap = false)
    (t : ScrollTerminal Line) (record : HistoryRecord) (r : ℕ) :
    (h.withTerm t).execAll text (recordRow (record, r)) =
      h.withTerm ((t.moveTo r).write (text.line record)) := by
  have hcut : (h.withTerm t).execAll text (recordRow (record, r)) =
      (h.withTerm ((t.moveTo r).write text.blank)).exec text (.lineText record.bytes) := rfl
  have hwrap' : ¬(h.withTerm ((t.moveTo r).write text.blank)).autowrap = true := by
    change ¬h.autowrap = true
    rw [hwrap]
    exact Bool.false_ne_true
  rw [hcut, HostTerminal.exec, if_neg hwrap']
  change h.withTerm (((t.moveTo r).write text.blank).write (text.cut record.bytes)) = _
  rw [HostTerminal.write_write]
  rfl

theorem execAll_diffRow {h : HostTerminal Line} {t : ScrollTerminal Line} (bytes : Bytes) {r : ℕ}
    (hr : r < t.screen.length) :
    (h.withTerm t).execAll text (diffRow (bytes, r)) =
      h.withTerm ((t.moveTo r).write (text.paint text.blank bytes)) := by
  change h.withTerm (((t.moveTo r).write text.blank).write
    (text.paint (text.current ((t.moveTo r).write text.blank)) bytes)) = _
  rw [HostTerminal.current_cleared hr, HostTerminal.write_write]

/-- Rows that are numbered from another one on. -/
theorem flatMap_zipIdx_shift {α β : Type} (l : List α) {n k : ℕ} {f g : α × ℕ → List β}
    (h : ∀ x i, f (x, n + i) = g (x, k + i)) :
    (l.zipIdx n).flatMap f = (l.zipIdx k).flatMap g := by
  induction l generalizing n k with
  | nil => rfl
  | cons x l ih =>
    have hrest : (l.zipIdx (n + 1)).flatMap f = (l.zipIdx (k + 1)).flatMap g :=
      ih fun y i => by
        have hnext := h y (i + 1)
        rwa [← Nat.add_assoc, ← Nat.add_assoc, Nat.add_right_comm n, Nat.add_right_comm k] at hnext
    rw [List.zipIdx_cons, List.zipIdx_cons, List.flatMap_cons, List.flatMap_cons, hrest]
    exact congrArg (· ++ _) (h x 0)

namespace Mirror

/-- One batch: hidden rows are painted over the top rows, and as many line feeds scroll them off. -/
def cropBatch (m : Mirror vt) (crop pushed : ℕ) : List TermOp :=
  let batch := min (crop - pushed) m.hostRows
  (List.range batch).flatMap (m.cropRow pushed) ++
    [.sgrReset, .cup (m.hostRows - 1) 0, .crlf batch]

/-- The loop of `push_crop_to_host_scrollback` as it runs, for however many batches it takes. -/
inductive CropLoop (m : Mirror vt) (crop : ℕ) : ℕ → List TermOp → Prop
  | done {pushed : ℕ} (h : ¬pushed < crop) : CropLoop m crop pushed []
  | batch {pushed : ℕ} {ops : List TermOp} (h : pushed < crop)
    (rest : CropLoop m crop (pushed + min (crop - pushed) m.hostRows) ops) :
    CropLoop m crop pushed (m.cropBatch crop pushed ++ ops)

/-- On a host with rows the loop ends: every batch pushes one row at least. -/
theorem cropLoop_ends {m : Mirror vt} (hhost : 0 < m.hostRows) (crop : ℕ) {fuel pushed : ℕ}
    (hfuel : crop - pushed ≤ fuel) : m.CropLoop crop pushed (m.cropBatches crop fuel pushed) := by
  induction fuel generalizing pushed with
  | zero => exact .done (by omega)
  | succ fuel ih =>
    by_cases hmore : pushed < crop
    · let next := pushed + min (crop - pushed) m.hostRows
      have hrest : m.CropLoop crop next (m.cropBatches crop fuel next) := ih (by omega)
      rw [cropBatches, if_pos hmore]
      exact .batch hmore hrest
    · rw [cropBatches, if_neg hmore]
      exact .done hmore

/-- The record of a row of the model. -/
def modelRecord (m : Mirror vt) (row : ℕ) : HistoryRecord :=
  serializeRow m.parser.screen row m.parser.cols

theorem modelRecord_eq {m : Mirror vt} {i : ℕ} {row : Row}
    (hrow : m.parser.screen.visible[i]? = some row) :
    m.modelRecord i = row.record m.parser.cols := by
  rw [modelRecord, serializeRow, hrow]
  rfl

/-- One batch pushes exactly its rows. -/
theorem execAll_cropBatch (text : HostText Line) {m : Mirror vt} (hhost : 0 < m.hostRows)
    {h : HostTerminal Line} (hheight : h.term.screen.length = m.hostRows)
    (hwrap : h.autowrap = false) (crop pushed : ℕ) :
    let batch := min (crop - pushed) m.hostRows
    let h' := h.execAll text (m.cropBatch crop pushed)
    h'.term.scrollback = h.term.scrollback ++
        (List.range batch).map (fun i => text.line (m.modelRecord (pushed + i))) ∧
      h'.term.screen.length = m.hostRows ∧ h'.autowrap = false := by
  intro batch h'
  let records := (List.range batch).map fun i => m.modelRecord (pushed + i)
  have hlength : records.length = batch := by rw [List.length_map, List.length_range]
  have hrows : (List.range batch).flatMap (m.cropRow pushed) =
      (records.zipIdx 0).flatMap recordRow := by
    have hindexed : (List.range batch).zipIdx 0 = (List.range batch).map fun i => (i, i) := by
      refine List.ext_getElem (by rw [List.length_zipIdx, List.length_map]) fun i hi hi' => ?_
      rw [List.getElem_zipIdx, List.getElem_map, List.getElem_range, Nat.zero_add]
    rw [List.zipIdx_map, hindexed, List.map_map, List.flatMap_map]
    rfl
  have hpainted : h.execAll text ((List.range batch).flatMap (m.cropRow pushed)) =
      h.withTerm (h.term.writeRows 0 (records.map text.line)) := by
    rw [hrows]
    exact HostTerminal.execAll_paintRows (h := h) (t := h.term)
      (fun t record r _ _ => execAll_recordRow hwrap t record r) records hheight
      (by rw [hlength]; omega)
  have hlines : (records.map text.line).length = batch := by rw [List.length_map, hlength]
  have hpushed : ScrollTerminal.newlines text.blank (records.map text.line).length
      ((h.term.writeRows 0 (records.map text.line)).moveTo (h.term.screen.length - 1)) = _ :=
    ScrollTerminal.newlines_writeRows (by omega) (by omega)
  have hend : h' = h.withTerm ⟨h.term.scrollback ++ records.map text.line,
      h.term.screen.drop batch ++ List.replicate batch text.blank, m.hostRows - 1⟩ := by
    rw [hlines, hheight] at hpushed
    change h.execAll text (_ ++ _) = _
    rw [HostTerminal.execAll_append, hpainted, ← hpushed]
    rfl
  rw [hend]
  refine ⟨congrArg (h.term.scrollback ++ ·) (List.map_map ..), ?_, hwrap⟩
  change (h.term.screen.drop batch ++ List.replicate batch text.blank).length = _
  rw [List.length_append, List.length_drop, List.length_replicate, hheight]
  omega

/-- All batches push the hidden rows that are left, each once and in order. -/
theorem execAll_cropLoop (text : HostText Line) {m : Mirror vt} (hhost : 0 < m.hostRows)
    {crop pushed : ℕ} {ops : List TermOp} (hloop : m.CropLoop crop pushed ops)
    {h : HostTerminal Line} (hheight : h.term.screen.length = m.hostRows)
    (hwrap : h.autowrap = false) :
    (h.execAll text ops).term.scrollback = h.term.scrollback ++
        (List.range (crop - pushed)).map (fun i => text.line (m.modelRecord (pushed + i))) ∧
      (h.execAll text ops).term.screen.length = m.hostRows := by
  induction hloop generalizing h with
  | done hall =>
    refine ⟨?_, hheight⟩
    rw [Nat.sub_eq_zero_of_le (by omega), List.range_zero, List.map_nil, List.append_nil]
    rfl
  | @batch pushed ops hmore _ ih =>
    let size := min (crop - pushed) m.hostRows
    obtain ⟨hscrollback, hheight', hwrap'⟩ :=
      execAll_cropBatch text hhost hheight hwrap crop pushed
    obtain ⟨hrest, hend⟩ := ih hheight' hwrap'
    rw [HostTerminal.execAll_append]
    refine ⟨?_, hend⟩
    let line (i : ℕ) : Line := text.line (m.modelRecord (pushed + i))
    have hsplit : (List.range (crop - pushed)).map line = (List.range size).map line ++
        (List.range (crop - (pushed + size))).map (line ∘ (size + ·)) := by
      have hcount : crop - pushed = size + (crop - (pushed + size)) := by omega
      rw [hcount, List.range_add, List.map_append, List.map_map]
    have hlater : (List.range (crop - (pushed + size))).map
          (fun i => text.line (m.modelRecord (pushed + size + i))) =
        (List.range (crop - (pushed + size))).map (line ∘ (size + ·)) := by
      refine List.map_congr_left fun i _ => ?_
      rw [Nat.add_assoc]
      rfl
    rw [hrest, hscrollback, hlater, hsplit, List.append_assoc]

/-- The hidden rows are pushed, each once and in order, and nothing else. -/
theorem execAll_pushCrop (text : HostText Line) {m : Mirror vt} (hhost : 0 < m.hostRows)
    {h : HostTerminal Line} (hheight : h.term.screen.length = m.hostRows) :
    let h' := h.execAll text m.pushCropToHostScrollback
    h'.term.scrollback = h.term.scrollback ++
        (List.range m.cropTop).map (fun i => text.line (m.modelRecord i)) ∧
      h'.term.screen.length = m.hostRows ∧ (m.cropTop = 0 → h' = h) := by
  intro h'
  by_cases hnone : m.cropTop = 0
  · have hsame : h' = h := by
      change h.execAll text m.pushCropToHostScrollback = h
      rw [pushCropToHostScrollback, if_pos hnone]
      rfl
    rw [hsame, hnone, List.range_zero, List.map_nil, List.append_nil]
    exact ⟨rfl, hheight, fun _ => rfl⟩
  · let opened := h.execAll text [.syncBegin, .hideCursor, .autowrapOff]
    obtain ⟨hscrollback, hlength⟩ := execAll_cropLoop text hhost
      (cropLoop_ends hhost m.cropTop le_rfl) (h := opened) hheight rfl
    have hend : h' = (opened.execAll text (m.cropBatches m.cropTop m.cropTop 0)).execAll text
        [.autowrapOn, .syncEnd] := by
      change h.execAll text m.pushCropToHostScrollback = _
      rw [pushCropToHostScrollback, if_neg hnone, HostTerminal.execAll_append,
        HostTerminal.execAll_append]
    have hpushed : (fun i => text.line (m.modelRecord (0 + i))) =
        fun i => text.line (m.modelRecord i) := by
      simp only [Nat.zero_add]
    rw [Nat.sub_zero, hpushed] at hscrollback
    rw [hend]
    exact ⟨hscrollback, hlength, fun h => absurd h hnone⟩

/-- A full repaint writes the region's rows and nothing else. -/
theorem execAll_renderHostFull (text : HostText Line) {m : Mirror vt} {view : View}
    (hview : m.view = some view) (hsize : m.parser.rows = view.rows) {diffs : List Bytes}
    (hdiffs : vt.rowsDiff m.parser.screen (blankScreen m.parser.rows m.parser.cols) 0
      (min m.hostCols m.parser.cols) = diffs) (hlength : diffs.length = view.rows)
    {h : HostTerminal Line} (hheight : h.term.screen.length = m.hostRows) :
    let h' := h.execAll text m.renderHostFull
    h'.term.scrollback = h.term.scrollback ∧
      h'.term.screen = h.term.screen.take (m.hostRows - min view.rows m.hostRows) ++
        (diffs.drop (view.rows - m.hostRows)).map (text.paint text.blank) := by
  intro h'
  let zone := m.hostRows - min view.rows m.hostRows
  let hidden := view.rows - m.hostRows
  have hregion : m.regionOffset = zone := by
    rw [regionOffset, regionRows, hview]
  have hcrop : m.cropTop = hidden := by rw [cropTop, hview]
  let body := ((diffs.drop hidden).zipIdx zone).flatMap diffRow
  have hbody : (((diffs.zipIdx.drop hidden).take (min m.hostRows (m.parser.rows - hidden))).flatMap
      fun row => [TermOp.sgrReset, .cup (zone + row.2 - hidden) 0, .clearToEol, .rowDiff row.1]) =
        body := by
    rw [drop_zipIdx, List.take_of_length_le]
    · refine flatMap_zipIdx_shift _ fun bytes i => ?_
      have hrow : zone + (hidden + i) - hidden = zone + i := by omega
      change [TermOp.sgrReset, .cup (zone + (hidden + i) - hidden) 0, _, _] = _
      rw [hrow]
      rfl
    · rw [List.length_zipIdx, List.length_drop, hlength, hsize]
      omega
  let after := [.inputMode (vt.inputModeFormatted m.parser.screen.inputModes)] ++
    placeCursor m.parser.screen hidden (min m.hostRows (m.parser.rows - hidden))
      (min m.hostCols m.parser.cols) zone ++ [TermOp.syncEnd]
  have hops : m.renderHostFull = [.syncBegin, .hideCursor] ++ body ++ after := by
    rw [← hbody, ← hdiffs]
    simp only [renderHostFull, renderRows, hregion, hcrop, if_true, List.append_assoc, after]
    rfl
  have hafter : ∀ op ∈ after, HostTerminal.Silent op := by
    intro op hop
    simp only [after, List.mem_append, List.mem_singleton] at hop
    rcases hop with (rfl | hop) | rfl
    · exact trivial
    · exact placeCursor_silent _ _ _ _ _ op hop
    · exact trivial
  let lines := (diffs.drop hidden).map (text.paint text.blank)
  have hlines : zone + lines.length = m.hostRows := by
    rw [List.length_map, List.length_drop, hlength]
    omega
  have hpainted : h.execAll text body = h.withTerm (h.term.writeRows zone lines) := by
    refine HostTerminal.execAll_paintRows (h := h) (t := h.term)
      (fun t bytes r ht hr => execAll_diffRow bytes (hr.trans_eq ht.symm)) (diffs.drop hidden)
      hheight ?_
    rw [← List.length_map (text.paint text.blank)]
    exact hlines.le
  have hfits : zone + lines.length ≤ h.term.screen.length := by omega
  obtain ⟨hscrollback, hscreen⟩ := ScrollTerminal.writeRows_spec hfits
  let painted := h.withTerm (h.term.writeRows zone lines)
  have hend : h' = painted.execAll text after := by
    change h.execAll text m.renderHostFull = _
    rw [hops, HostTerminal.execAll_append text h _ after, HostTerminal.execAll_append text h _ body]
    exact congrArg (fun t => HostTerminal.execAll text t after) hpainted
  have hkept : HostTerminal.KeepsAbove painted.term.screen.length painted
      (painted.execAll text after) := HostTerminal.execAll_silent _ painted hafter
  rw [hend]
  refine ⟨hkept.scrollback.trans hscrollback, hkept.screen.trans (hscreen.trans ?_)⟩
  rw [List.drop_of_length_le (by omega), List.append_nil]

/-- A refresh pushes the hidden rows, then it writes the region's. The rows above the region
stay: if rows are hidden, the region is the whole screen. -/
theorem execAll_refresh (text : HostText Line) {m : Mirror vt} {view : View}
    (hview : m.view = some view) (hsize : m.parser.rows = view.rows) (hhost : 0 < m.hostRows)
    {diffs : List Bytes}
    (hdiffs : vt.rowsDiff m.parser.screen (blankScreen m.parser.rows m.parser.cols) 0
      (min m.hostCols m.parser.cols) = diffs) (hlength : diffs.length = view.rows)
    {h : HostTerminal Line} (hheight : h.term.screen.length = m.hostRows) :
    let h' := h.execAll text m.refreshScrollback
    h'.term.scrollback = h.term.scrollback ++
        (List.range (view.rows - m.hostRows)).map (fun i => text.line (m.modelRecord i)) ∧
      h'.term.screen = h.term.screen.take (m.hostRows - min view.rows m.hostRows) ++
        (diffs.drop (view.rows - m.hostRows)).map (text.paint text.blank) := by
  intro h'
  let pushed := h.execAll text m.pushCropToHostScrollback
  let above := m.hostRows - min view.rows m.hostRows
  have hcrop : m.cropTop = view.rows - m.hostRows := by rw [cropTop, hview]
  obtain ⟨hscrollback, hfull, hsame⟩ := execAll_pushCrop text hhost hheight
  obtain ⟨hkept, hscreen⟩ := execAll_renderHostFull text hview hsize hdiffs hlength hfull
  have hend : h' = pushed.execAll text m.renderHostFull := by
    change h.execAll text m.refreshScrollback = _
    rw [refreshScrollback, if_neg (by rw [hview]; exact Bool.false_ne_true),
      HostTerminal.execAll_append]
  have habove : pushed.term.screen.take above = h.term.screen.take above := by
    by_cases hnone : m.cropTop = 0
    · exact congrArg (fun t : HostTerminal Line => t.term.screen.take above) (hsame hnone)
    · have hwhole : above = 0 := by omega
      rw [hwhole, List.take_zero, List.take_zero]
  rw [hend, ← hcrop]
  refine ⟨hkept.trans hscrollback, hscreen.trans ?_⟩
  rw [hcrop]
  exact congrArg (· ++ _) habove

/-- While a view is active the model has its size. -/
theorem parser_rows_of_view {hostRows : ℕ} (hostCols : ℕ) (hrows : 0 < hostRows)
    {calls : List Call} (hcalls : ∀ c ∈ calls, c.Sized) {view : View}
    (hview : (calls.foldl call (Mirror.new vt hostRows hostCols)).view = some view) :
    (calls.foldl call (Mirror.new vt hostRows hostCols)).parser.rows = view.rows := by
  have hfold {m : Mirror vt} (hm : m.Sound) (hrows : ∀ v, m.view = some v → m.parser.rows = v.rows)
      {calls : List Call} (hcalls : ∀ c ∈ calls, c.Sized) {v : View}
      (hview : (calls.foldl call m).view = some v) : (calls.foldl call m).parser.rows = v.rows := by
    induction calls generalizing m with
    | nil => exact hrows v hview
    | cons c calls ih =>
      obtain ⟨hc, hrest⟩ := List.forall_mem_cons.mp hcalls
      refine ih (hm.call hc) (fun v hv => ?_) hrest hview
      cases c with
      | process bytes =>
        obtain ⟨-, -, hsame, hparser, -⟩ := process_spec hm.rows bytes
        change (m.process bytes).2.parser.rows = v.rows
        rw [hparser.rows, Parser.process_rows]
        exact hrows v (hsame ▸ hv)
      | startView view =>
        cases hv
        exact Parser.process_rows _ _
      | endView => cases hv
      | hostResized rows cols =>
        have hsome : m.view = some v := (m.view_hostResized rows cols).symm.trans hv
        rw [Mirror.call, hostResized_of_some hsome]
        exact hrows v hsome
  exact hfold (new_sound vt hostCols hrows) (fun v hv => by cases hv) hcalls hview

end Mirror

/-- What the host makes of a screen. `look` is the line that shows these cells, as far as the
host has columns. -/
structure HostText.Shows (text : HostText Line) (vt : Vt100) (wide : Bytes → Bool)
    (look : List Cell → Line) (hostCols : ℕ) (screen : Screen) : Prop where
  rows : screen.visible.length = screen.rows
  cols : ∀ row ∈ screen.visible, row.cells.length = screen.cols
  /-- Text and SGR sequences, printed without autowrap, show the cells that they are the text
  of. -/
  cut : ∀ row ∈ screen.visible, ∀ n ≤ screen.cols,
    text.cut (cellsText defaultStyle (row.cells.take n)) = look (row.cells.take n)
  /-- At the end of a row, cells that are not visible may be missing. -/
  unseen : ∀ row ∈ screen.visible, ∀ n ≤ screen.cols,
    (∀ c ∈ row.cells.drop n, c.isVisible = false) → look (row.cells.take n) = look row.cells
  diffsLength : (vt.rowsDiff screen (blankScreen screen.rows screen.cols) 0
    (min hostCols screen.cols)).length = screen.rows
  /-- `rows_diff` against a blank screen paints a row that it does not cut within a
  double-width character. -/
  diffs : ∀ {k : ℕ} {bytes : Bytes} {row : Row},
    (vt.rowsDiff screen (blankScreen screen.rows screen.cols) 0
      (min hostCols screen.cols))[k]? = some bytes → screen.visible[k]? = some row →
    WholeCells wide (row.cells.take hostCols) → text.paint text.blank bytes = look row.cells

namespace HostText.Shows

variable {wide : Bytes → Bool} {look : List Cell → Line} {hostCols : ℕ} {screen : Screen}

/-- A record makes the line of the cells that it shows. -/
theorem line_of_record (shows : text.Shows vt wide look hostCols screen) {row : Row}
    (hrow : row ∈ screen.visible) :
    text.line (row.record screen.cols) = look (row.recorded screen.cols) ∧
      ((row.record screen.cols).bytes.length < maxLineBytes →
        look (row.recorded screen.cols) = look row.cells) := by
  have hpart := row.prefix_of_recorded screen.cols
  have htake := List.prefix_iff_eq_take.mp hpart
  have hle := hpart.length_le.trans (shows.cols row hrow).le
  constructor
  · change text.cut (row.record screen.cols).bytes = _
    rw [Row.record_text, htake]
    exact shows.cut row hrow _ hle
  · intro hshort
    rw [htake]
    exact shows.unseen row hrow _ hle (Row.hidden_of_short (shows.cols row hrow).le hshort)

/-- The painted rows are the lines of the screen's rows. -/
theorem lines_of_diffs (shows : text.Shows vt wide look hostCols screen) {hidden : ℕ}
    (hwhole : ∀ row ∈ screen.visible.drop hidden, WholeCells wide (row.cells.take hostCols)) :
    ((vt.rowsDiff screen (blankScreen screen.rows screen.cols) 0
        (min hostCols screen.cols)).drop hidden).map (text.paint text.blank) =
      (screen.visible.drop hidden).map fun row => look row.cells := by
  refine List.ext_getElem ?_ fun i hi hi' => ?_
  · have hdiffs := shows.diffsLength.trans shows.rows.symm
    rw [List.length_map, List.length_map, List.length_drop, List.length_drop]
    exact congrArg (· - hidden) hdiffs
  · rw [List.length_map] at hi'
    have hrow : hidden + i < screen.visible.length := by
      rw [List.length_drop] at hi'
      omega
    have hmem : screen.visible[hidden + i] ∈ screen.visible.drop hidden := by
      rw [← List.getElem_drop (h := hi')]
      exact List.getElem_mem hi'
    rw [List.getElem_map, List.getElem_map, List.getElem_drop, List.getElem_drop]
    exact shows.diffs (List.getElem?_eq_getElem _) (List.getElem?_eq_getElem hrow) (hwhole _ hmem)

end HostText.Shows

/-- Ctrl+L shows the whole screen once. The loop ends, the hidden rows reach the scrollback as
far as their records show them, each once and in order, and nothing else does; then the region
shows the other rows, and the rows above it stay. -/
theorem refresh_shows_screen {m : Mirror vt} {view : View} (hview : m.view = some view)
    (hsize : m.parser.rows = view.rows) (hhost : 0 < m.hostRows) {h : HostTerminal Line}
    (hheight : h.term.screen.length = m.hostRows) {wide : Bytes → Bool} {look : List Cell → Line}
    (shows : text.Shows vt wide look m.hostCols m.parser.screen)
    (hwhole : ∀ row ∈ m.parser.screen.visible.drop (view.rows - m.hostRows),
      WholeCells wide (row.cells.take m.hostCols)) :
    let hidden := view.rows - m.hostRows
    let rows := m.parser.screen.visible
    let h' := h.execAll text m.refreshScrollback
    m.CropLoop hidden 0 (m.cropBatches hidden hidden 0) ∧
      h'.term.scrollback = h.term.scrollback ++
        (rows.take hidden).map (fun row => look (row.recorded m.parser.cols)) ∧
      (∀ row ∈ rows.take hidden, (row.record m.parser.cols).bytes.length < maxLineBytes →
        look (row.recorded m.parser.cols) = look row.cells) ∧
      h'.term.screen = h.term.screen.take (m.hostRows - min view.rows m.hostRows) ++
        (rows.drop hidden).map (fun row => look row.cells) := by
  intro hidden rows h'
  have hrows : rows.length = view.rows := shows.rows.trans hsize
  obtain ⟨hscrollback, hscreen⟩ := Mirror.execAll_refresh text hview hsize hhost rfl
    (shows.diffsLength.trans hsize) hheight
  refine ⟨Mirror.cropLoop_ends hhost hidden le_rfl, ?_, fun row hrow hshort => ?_, ?_⟩
  · have hpushed : (List.range hidden).map (fun i => text.line (m.modelRecord i)) =
        (rows.take hidden).map fun row => look (row.recorded m.parser.cols) := by
      refine List.ext_getElem (by simp; omega) fun i hi hi' => ?_
      have hrow : i < rows.length := by
        rw [List.length_map, List.length_take] at hi'
        omega
      have hmodel : m.modelRecord i = rows[i].record m.parser.cols :=
        Mirror.modelRecord_eq (List.getElem?_eq_getElem hrow)
      rw [List.getElem_map, List.getElem_map, List.getElem_range, List.getElem_take, hmodel]
      exact (shows.line_of_record (List.getElem_mem hrow)).1
    exact hscrollback.trans (congrArg (h.term.scrollback ++ ·) hpushed)
  · exact (shows.line_of_record (List.mem_of_mem_take hrow)).2 hshort
  · exact hscreen.trans (congrArg (h.term.screen.take _ ++ ·) (shows.lines_of_diffs hwhole))

/-- A host whose lines are the text in them, without trailing spaces. -/
abbrev trimmedText (cols : ℕ) : HostText Bytes :=
  { HostRun.plainText cols with cut := fun bytes => (bytes.take cols).rdropWhile (· = 32) }

/-- A screen of five rows that shows `ab`, `cdef`, nothing, `g h` and `i`. -/
abbrev fiveRows : Screen where
  rows := 5
  cols := 4
  visible := [[Ascii.printed 97, Ascii.printed 98, .empty, .empty],
    [Ascii.printed 99, Ascii.printed 100, Ascii.printed 101, Ascii.printed 102],
    [.empty, .empty, .empty, .empty],
    [Ascii.printed 103, Ascii.printed 32, Ascii.printed 104, .empty],
    [Ascii.printed 105, .empty, .empty, .empty]].map (Row.mk · false)
  cursor := (4, 1)
  hideCursor := false
  pen := defaultStyle
  inputModes := .default

/-- The text that a host of three columns shows of cells. -/
abbrev threeColumns (cells : List Cell) : Bytes :=
  ((cellsText defaultStyle cells).take 3).rdropWhile (· = 32)

theorem fiveRows_painted : ∀ x ∈ (asciiVt100.rowsDiff fiveRows (blankScreen 5 4) 0 3).zip
    fiveRows.visible, (trimmedText 3).paint [] x.1 = threeColumns x.2.cells := by
  decide

theorem fiveRows_unseen : ∀ row ∈ fiveRows.visible, ∀ n ≤ 4,
    (∀ c ∈ row.cells.drop n, c.isVisible = false) →
      threeColumns (row.cells.take n) = threeColumns row.cells := by
  decide

theorem fiveRows_shown :
    (trimmedText 3).Shows asciiVt100 (fun _ => false) threeColumns 3 fiveRows where
  rows := rfl
  cols := by decide
  cut := fun _ _ _ _ => rfl
  unseen := fiveRows_unseen
  diffsLength := rfl
  diffs := by
    intro k bytes row hbytes hrow _
    have hpair : ((asciiVt100.rowsDiff fiveRows (blankScreen 5 4) 0 3).zip fiveRows.visible)[k]? =
        some (bytes, row) := List.getElem?_zip_eq_some.mpr ⟨hbytes, hrow⟩
    exact fiveRows_painted (bytes, row) (List.mem_of_getElem? hpair)

/-- Five rows on a host of two rows and one column less: three are pushed, in two batches. -/
theorem refresh_shows_five_rows :
    let m := (((Mirror.new asciiVt100 2 3).startView ⟨5, 4, false⟩).2.process
      (ascii "ab\r\ncdef\r\n\r\ng h\r\ni")).2
    let h : HostTerminal Bytes := ⟨⟨[], [ascii "x", ascii "y"], 0⟩, true⟩
    (h.execAll (trimmedText 3) m.refreshScrollback).term.scrollback =
        [ascii "ab", ascii "cde", []] ∧
      (h.execAll (trimmedText 3) m.refreshScrollback).term.screen = [ascii "g h", ascii "i"] := by
  intro m h
  have hpushed (m : Mirror asciiVt100) (hview : m.view = some ⟨5, 4, false⟩)
      (hscreen : m.parser.screen = fiveRows) (hhost : m.hostRows = 2) (hcols : m.hostCols = 3) :
      (h.execAll (trimmedText 3) m.refreshScrollback).term.scrollback =
          [ascii "ab", ascii "cde", []] ∧
        (h.execAll (trimmedText 3) m.refreshScrollback).term.screen =
          [ascii "g h", ascii "i"] := by
    have shows : (trimmedText 3).Shows asciiVt100 (fun _ => false) threeColumns m.hostCols
        m.parser.screen := by
      rw [hscreen, hcols]
      exact fiveRows_shown
    have hrows : m.parser.rows = 5 := congrArg Screen.rows hscreen
    have hwidth : m.parser.cols = 4 := congrArg Screen.cols hscreen
    obtain ⟨-, hscrollback, -, hend⟩ := refresh_shows_screen hview hrows (by omega) (h := h)
      hhost.symm shows fun _ _ _ _ _ hwide => absurd hwide Bool.false_ne_true
    rw [hscreen, hwidth, hhost] at hscrollback
    rw [hscreen, hhost] at hend
    exact ⟨hscrollback.trans (by decide), hend.trans (by decide)⟩
  exact hpushed m (by decide) (by decide) (by decide) (by decide)

/-! ### A row longer than the cap -/

/-- The loop stops with the cell that reaches the cap. -/
theorem length_reachedCells_lt {cells : List Cell} (hplain : ∀ c ∈ cells, c.style = defaultStyle)
    (hsmall : ∀ c ∈ cells, c.contents.length ≤ 3) {len : ℕ} (hlen : len < maxLineBytes) :
    len + (cellsText defaultStyle (reachedCells len defaultStyle cells)).length <
      maxLineBytes + 3 := by
  induction cells generalizing len with
  | nil =>
    change len + 0 < _
    omega
  | cons cell rest ih =>
    obtain ⟨hstyle, hstyles⟩ := List.forall_mem_cons.mp hplain
    obtain ⟨hcontents, hrest⟩ := List.forall_mem_cons.mp hsmall
    by_cases hsecond : cell.wideContinuation = true
    · rw [reachedCells, if_pos hsecond, cellsText, if_pos hsecond]
      exact ih hstyles hrest hlen
    · have hemits : (cell.emits defaultStyle).length ≤ 3 := by
        rw [Cell.emits, if_neg (not_not_intro hstyle), List.nil_append]
        split
        · exact hcontents
        · exact Nat.le_of_ble_eq_true rfl
      rw [reachedCells, if_neg hsecond, cellsText, if_neg hsecond, hstyle, List.length_append]
      split_ifs with hfull
      · change len + (_ + 0) < _
        omega
      · have hmore := ih hstyles hrest (Nat.lt_of_not_le hfull)
        omega

/-- A record of such cells ends at the cap. -/
theorem length_record_lt {row : Row} (hplain : ∀ c ∈ row.cells, c.style = defaultStyle)
    (hsmall : ∀ c ∈ row.cells, c.contents.length ≤ 3) (width : ℕ) :
    (row.record width).bytes.length < maxLineBytes + 3 := by
  rw [Row.record_text, Row.recorded]
  cases lastVisible 0 none (row.cells.take width) with
  | none => exact Nat.zero_lt_succ _
  | some stop =>
    let cells := row.cells.take (min width (stop + 1))
    have hstyles : ∀ c ∈ cells, c.style = defaultStyle :=
      fun c hc => hplain c (List.mem_of_mem_take hc)
    have hcontents : ∀ c ∈ cells, c.contents.length ≤ 3 :=
      fun c hc => hsmall c (List.mem_of_mem_take hc)
    have hbound := length_reachedCells_lt hstyles hcontents (Nat.zero_lt_succ _)
    rwa [Nat.zero_add] at hbound

namespace Wide

/-- A double-width character: three bytes, two cells. -/
abbrev character : Bytes := [230, 188, 162]

abbrev characterCells : List Cell :=
  [⟨character, false, defaultStyle⟩, ⟨[], true, defaultStyle⟩]

/-- A screen of two rows with this many characters in the first one. -/
def filled (cols n : ℕ) : Core AsciiRest :=
  { Ascii.blank 2 cols with
    grid := [⟨(List.replicate n characterCells).flatten ++ List.replicate (cols - 2 * n) .empty,
      false⟩, Row.blank cols]
    cursor := (0, 2 * n) }

theorem length_characters (n : ℕ) : (List.replicate n characterCells).flatten.length = 2 * n := by
  rw [List.length_flatten, List.map_replicate, List.sum_replicate_nat]
  exact Nat.mul_comm n 2

/-- A character goes into the next two cells. -/
theorem draw_character {cols n : ℕ} (hfits : 2 * n + 2 < cols) :
    draw (filled cols n) (.wide character) = (filled cols (n + 1), []) := by
  let before := (List.replicate n characterCells).flatten
  let wide : Cell := ⟨character, false, defaultStyle⟩
  let second : Cell := ⟨[], true, defaultStyle⟩
  have hcells : ((before ++ List.replicate (cols - 2 * n) Cell.empty).set (2 * n) wide).set
      (2 * n + 1) second = (List.replicate (n + 1) characterCells).flatten ++
        List.replicate (cols - 2 * (n + 1)) Cell.empty := by
    have hroom : cols - 2 * n = cols - 2 * (n + 1) + 1 + 1 := by omega
    have hlast : 2 * n + 1 = before.length + 1 := by rw [length_characters]
    have hfirst : 2 * n = before.length := (length_characters n).symm
    rw [hlast, hroom, List.replicate_succ, List.replicate_succ]
    nth_rewrite 1 [hfirst]
    rw [List.set_append_right _ _ le_rfl, Nat.sub_self, List.set_cons_zero,
      List.set_append_right _ _ (Nat.le_add_right _ 1), Nat.add_sub_cancel_left, List.set_cons_succ,
      List.set_cons_zero, List.replicate_succ', List.flatten_append, List.append_assoc]
    rfl
  have hone : min (2 * n + 1) (cols - 1) = 2 * n + 1 := by omega
  have htwo : min (2 * n + 1 + 1) (cols - 1) = 2 * (n + 1) := by omega
  have hplaced : (filled cols n).cursor.2 + 2 ≤ (filled cols n).rest.cols := hfits.le
  rw [draw]
  simp only [if_pos hplaced]
  change ({ filled cols n with
    grid := [⟨((before ++ List.replicate (cols - 2 * n) Cell.empty).set (2 * n) wide).set
      (min (2 * n + 1) (cols - 1)) second, false⟩, Row.blank cols]
    cursor := (0, min (min (2 * n + 1) (cols - 1) + 1) (cols - 1)) }, []) = _
  rw [hone, htwo, hcells]
  rfl

/-- Characters fill the first row from the left. -/
theorem process_characters {p : Parser wideVt100} (hvte : p.vte = (.ground, []))
    (halt : p.alternate = false) {cols k : ℕ} (hcore : p.core = filled cols k) {n : ℕ}
    (hfits : 2 * (k + n) < cols) :
    (p.process (List.replicate n character).flatten).core = filled cols (k + n) ∧
      (p.process (List.replicate n character).flatten).alternate = false := by
  induction n generalizing p k with
  | zero => exact ⟨hcore, halt⟩
  | succ n ih =>
    have hone : p.process character = (p.withCore (filled cols (k + 1))).withVte (.ground, []) := by
      have hscan : wideVt100.scan (.ground, []) character =
          ((.ground, []), [.draw (.wide character)]) := rfl
      have hdraw : wideVt100.draw p.core (.wide character) = (filled cols (k + 1), []) := by
        rw [hcore]
        exact draw_character (by omega)
      rw [Parser.process_eq, hvte, hscan, List.foldl_cons, List.foldl_nil,
        Parser.perform_draw_of_primary halt, hdraw]
      rfl
    have hlater : k + (n + 1) = k + 1 + n := by omega
    let next := (p.withCore (filled cols (k + 1))).withVte (.ground, [])
    rw [List.replicate_succ, List.flatten_cons, Parser.process_append, hone, hlater]
    exact ih (p := next) rfl halt rfl (by omega)

/-- The text in the first row has three bytes for each character. -/
theorem le_length_contents (n : ℕ) (rest : List Cell) :
    3 * n ≤ (((List.replicate n characterCells).flatten ++ rest).flatMap Cell.contents).length := by
  induction n with
  | zero => exact Nat.zero_le _
  | succ n ih =>
    have hone : ((List.replicate (n + 1) characterCells).flatten ++ rest).flatMap Cell.contents =
        character ++ ((List.replicate n characterCells).flatten ++ rest).flatMap Cell.contents :=
      rfl
    have hlength : character.length = 3 := rfl
    rw [hone, List.length_append]
    omega

/-- Its cells are small and in the default style. -/
theorem filled_cells (n k : ℕ) :
    ∀ c ∈ (List.replicate n characterCells).flatten ++ List.replicate k Cell.empty,
      c.style = defaultStyle ∧ c.contents.length ≤ 3 := by
  intro c hc
  rcases List.mem_append.mp hc with hc | hc
  · obtain ⟨cells, hcells, hc⟩ := List.mem_flatten.mp hc
    rw [List.eq_of_mem_replicate hcells] at hc
    rcases List.mem_pair.mp hc with rfl | rfl
    · exact ⟨rfl, le_rfl⟩
    · exact ⟨rfl, Nat.zero_le 3⟩
  · rw [List.eq_of_mem_replicate hc]
    exact ⟨rfl, Nat.zero_le 3⟩

end Wide

/-- A host with columns for any line. -/
abbrev unboundedText : HostText Bytes := { HostRun.plainText 0 with cut := id }

/-- The only hidden row is pushed no further than the cap. -/
theorem pushed_short {m : Mirror vt} {cols : ℕ} (hview : m.view = some ⟨2, cols, false⟩)
    (hsize : m.parser.rows = 2) (hhost : m.hostRows = 1) {row : Row} {rows : List Row}
    (hvisible : m.parser.screen.visible = row :: rows)
    (hcells : ∀ c ∈ row.cells, c.style = defaultStyle ∧ c.contents.length ≤ 3)
    (hdiffs : (vt.rowsDiff m.parser.screen (blankScreen m.parser.rows m.parser.cols) 0
      (min m.hostCols m.parser.cols)).length = 2)
    {h : HostTerminal Bytes} (hheight : h.term.screen.length = 1) :
    ∃ line, (h.execAll unboundedText m.refreshScrollback).term.scrollback =
      h.term.scrollback ++ [line] ∧ line.length < maxLineBytes + 3 := by
  obtain ⟨hscrollback, -⟩ := Mirror.execAll_refresh unboundedText hview hsize
    (hhost ▸ Nat.one_pos) rfl hdiffs (hheight.trans hhost.symm)
  have hrecord : m.modelRecord 0 = row.record m.parser.cols := by
    refine Mirror.modelRecord_eq ?_
    rw [hvisible]
    rfl
  refine ⟨(row.record m.parser.cols).bytes, ?_, length_record_lt (fun c hc => (hcells c hc).1)
    (fun c hc => (hcells c hc).2) _⟩
  rw [hscrollback, hhost, ← hrecord]
  rfl

/-- A row of characters with more text than the cap: only a part of it is pushed. -/
theorem pushed_characters_short {m : Mirror wideVt100} {cols n : ℕ}
    (hview : m.view = some ⟨2, cols, false⟩) (hrows : m.parser.rows = 2) (hhost : m.hostRows = 1)
    (hvte : m.parser.vte = (.ground, [])) (hprimary : m.parser.alternate = false)
    (hcore : m.parser.core = Wide.filled cols 0) (hoffset : m.parser.offset = 0)
    (hfits : 2 * n < cols) (hlong : maxLineBytes + 3 ≤ 3 * n)
    {h : HostTerminal Bytes} (hheight : h.term.screen.length = 1) :
    let m' := (m.process (List.replicate n Wide.character).flatten).2
    (h.execAll unboundedText m'.refreshScrollback).term.scrollback ≠
      h.term.scrollback ++
        (m'.parser.screen.visible.take 1).map fun row => row.cells.flatMap Cell.contents := by
  intro m' hall
  let bytes := (List.replicate n Wide.character).flatten
  have hpos : 0 < m.parser.rows := by omega
  obtain ⟨hhost', -, hview', hsame, -⟩ := Mirror.process_spec hpos bytes
  have hbottom : m'.parser.AtBottom :=
    Mirror.process_atBottom hpos (Parser.atBottom_of_offset hoffset) bytes
  have hstill := Parser.process_offset hoffset bytes
  obtain ⟨hend, hprimary'⟩ := Wide.process_characters hvte hprimary hcore (n := n) (by omega)
  rw [Nat.zero_add] at hend
  let row : Row := ⟨(List.replicate n Wide.characterCells).flatten ++
    List.replicate (cols - 2 * n) Cell.empty, false⟩
  have hvisible : m'.parser.screen.visible = [row, Row.blank cols] := by
    rw [hsame.screen hbottom (Parser.atBottom_of_offset hstill),
      visible_of_primary hprimary' hstill, hend, Parser.process_rows, hrows]
    rfl
  have hdiffs : (wideVt100.rowsDiff m'.parser.screen
      (blankScreen m'.parser.rows m'.parser.cols) 0 (min m'.hostCols m'.parser.cols)).length = 2 :=
    (List.length_map _).trans (congrArg List.length hvisible)
  obtain ⟨line, hpushed, hshort⟩ := pushed_short (hview'.trans hview)
    (hsame.rows.trans ((Parser.process_rows _ _).trans hrows)) (hhost'.trans hhost) hvisible
    (Wide.filled_cells n _) hdiffs hheight
  rw [hpushed, hvisible] at hall
  have hline : line.length = (row.cells.flatMap Cell.contents).length :=
    congrArg List.length (List.singleton_inj.mp (List.append_cancel_left hall))
  have htext : 3 * n ≤ (row.cells.flatMap Cell.contents).length := Wide.le_length_contents n _
  omega

/-- 30000 double-width characters in one row: the host has room for all of them, but gets only
a part. -/
theorem refresh_cuts_long_row :
    let started := ((Mirror.new wideVt100 1 3).startView ⟨2, 65535, false⟩).2
    let resized := (started.hostResized 1 65535).2
    let m := (resized.process (List.replicate 30000 Wide.character).flatten).2
    let h : HostTerminal Bytes := ⟨⟨[], [[]], 0⟩, true⟩
    (h.execAll unboundedText m.refreshScrollback).term.scrollback ≠
      h.term.scrollback ++
        (m.parser.screen.visible.take 1).map fun row => row.cells.flatMap Cell.contents :=
  pushed_characters_short rfl rfl rfl rfl rfl rfl rfl (by decide) (by decide) rfl

end G2mirror
