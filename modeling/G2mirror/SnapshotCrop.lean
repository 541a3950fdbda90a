import G2mirror.AsciiLaws
import G2mirror.DiffStream

/-!
# The crop that a snapshot shows

A view of another size than the screen gets the last rows of it, cut at the view's width.
The rows are painted one after the other on a terminal with autowrap on, so a double-width
character that the cut splits moves to the next row, and on the last row it scrolls the screen.
-/

namespace G2mirror

variable {vt : Vt100}

/-- No double-width character among these cells is cut: its first half is followed by its
second one. -/
def WholeCells (wide : Bytes → Bool) (cells : List Cell) : Prop :=
  ∀ (i : ℕ) (cell : Cell), cells[i]? = some cell → wide cell.contents = true →
    ∃ next, cells[i + 1]? = some next ∧ next.wideContinuation = true

/-- Blank cells after the last one make no character whole. -/
theorem WholeCells.of_append_blanks {wide : Bytes → Bool} {cells : List Cell} {blanks : ℕ}
    (h : WholeCells wide (cells ++ List.replicate blanks Cell.empty)) : WholeCells wide cells := by
  intro i cell hcell hwide
  obtain ⟨hi, -⟩ := List.getElem?_eq_some_iff.mp hcell
  obtain ⟨next, hnext, hsecond⟩ := h i cell (by rwa [List.getElem?_append_left hi]) hwide
  by_cases hlast : i + 1 < cells.length
  · exact ⟨next, by rwa [List.getElem?_append_left hlast] at hnext, hsecond⟩
  · rw [List.getElem?_append_right (by omega), List.getElem?_replicate] at hnext
    split at hnext
    · rw [← Option.some.inj hnext] at hsecond
      exact absurd hsecond Bool.false_ne_true
    · exact absurd hnext (Option.some_ne_none next).symm

/-- A row cut at `width` columns and filled up to `cols`. -/
def Row.cropped (width cols : ℕ) (row : Row) : Row :=
  ⟨row.cells.take width ++ List.replicate (cols - width) Cell.empty, false⟩

namespace Screen

/-- The bottom-left crop: the last `rows` rows and first `cols` columns, blank where the
screen has none. -/
def crop (src : Screen) (rows cols : ℕ) : List (List Cell) :=
  (src.visible.drop (src.rows - rows)).map (fun row => (row.cropped (min cols src.cols) cols).cells)
    ++ List.replicate (rows - src.rows) (List.replicate cols Cell.empty)

/-- The cursor is shown, and in the last `rows` rows and first `cols` columns. A cursor that
waits to wrap is in the column after the last one. -/
def CursorInside (src : Screen) (rows cols : ℕ) : Prop :=
  src.hideCursor = false ∧ src.rows - rows ≤ src.cursor.1 ∧
    src.cursor.1 - (src.rows - rows) < rows ∧ src.cursor.2 < cols

/-- The cursor of a snapshot is placed exactly if it is inside. -/
theorem placeCursor_crop (src : Screen) (rows cols : ℕ) :
    (src.CursorInside rows cols → placeCursor src (src.rows - rows) rows cols 0 =
        [.cup (src.cursor.1 - (src.rows - rows)) src.cursor.2, .showCursor]) ∧
      (¬src.CursorInside rows cols → placeCursor src (src.rows - rows) rows cols 0 = []) := by
  have hplace : (!src.hideCursor && decide (src.rows - rows ≤ src.cursor.1) &&
      decide (src.cursor.1 - (src.rows - rows) < rows) && decide (src.cursor.2 < cols)) = true ↔
        src.CursorInside rows cols := by
    simp only [CursorInside, Bool.and_eq_true, Bool.not_eq_true', decide_eq_true_eq, and_assoc]
  constructor
  · intro hinside
    have hshift : 0 + src.cursor.1 - (src.rows - rows) = src.cursor.1 - (src.rows - rows) := by
      rw [Nat.zero_add]
    rw [placeCursor, ← hshift]
    exact if_pos (hplace.mpr hinside)
  · intro houtside
    rw [placeCursor]
    exact if_neg fun h => houtside (hplace.mp h)

/-- A screen shows the crop of another one, and the cursor if it is inside. -/
structure ShowsCrop (target src : Screen) (rows cols : ℕ) : Prop where
  cells : target.visible.map Row.cells = src.crop rows cols
  shown : target.hideCursor = false ↔ src.CursorInside rows cols
  cursor : src.CursorInside rows cols →
    target.cursor = (src.cursor.1 - (src.rows - rows), src.cursor.2)

end Screen

/-- What a snapshot relies on for a target of another size. `wide` tells the characters that
are two columns wide. -/
structure Vt100.PaintsCrops (vt : Vt100) (wide : Bytes → Bool) : Prop where
  constants : ∀ op ∈ [TermOp.clear, .syncBegin, .syncEnd, .hideCursor, .showCursor, .sgrReset],
    ∀ p : Parser vt, p.Ready → p.rowsOff op.bytes = []
  cup : ∀ p : Parser vt, p.Ready → ∀ row < p.rows, ∀ col < p.cols,
    p.rowsOff (cupBytes row col) = []
  inputMode : ∀ {q : Parser vt}, vt.Reached q → ∀ p : Parser vt, p.Ready →
    p.rowsOff (vt.inputModeFormatted q.core.inputModes) = []
  /-- A double-width character that does not fit into the last column wraps to the next row,
  so an emulator that keeps its size holds whole ones. -/
  whole : ∀ rows cols len bytes, ∀ row ∈ ((Parser.new vt rows cols len).process bytes).core.grid,
    WholeCells wide row.cells
  rowsLength : ∀ {q : Parser vt}, vt.Reached q → q.AtBottom → ∀ width ≤ q.cols,
    q.screen.visible.length = q.rows ∧
      (vt.rowsDiff q.screen (blankScreen q.rows q.cols) 0 width).length = q.rows
  /-- Of the first `width` columns, `rows_diff` against a blank screen prints the cells that
  are not blank... -/
  rowsBlank : ∀ {q : Parser vt}, vt.Reached q → q.AtBottom → ∀ width ≤ q.cols,
    ∀ {k : ℕ} {bytes : Bytes} {row : Row},
    (vt.rowsDiff q.screen (blankScreen q.rows q.cols) 0 width)[k]? = some bytes →
    q.screen.visible[k]? = some row →
    (bytes = [] ↔ row.cells.take width = List.replicate width Cell.empty)
  /-- ...and each character whole, on a row of any terminal that is wide enough. -/
  rowsPaint : ∀ {q : Parser vt}, vt.Reached q → q.AtBottom → ∀ width ≤ q.cols,
    ∀ {k : ℕ} {bytes : Bytes} {row : Row},
    (vt.rowsDiff q.screen (blankScreen q.rows q.cols) 0 width)[k]? = some bytes →
    q.screen.visible[k]? = some row → bytes ≠ [] → WholeCells wide (row.cells.take width) →
    ∀ p : Parser vt, p.Ready → width ≤ p.cols → ∀ r, p.core.cursor = (r, 0) →
      p.core.pen = defaultStyle → p.core.grid[r]? = some (Row.blank p.cols) →
      p.rowsOff bytes = [] ∧ ∃ col pen, (p.process bytes).Same (p.withCore
        { p.core with
          grid := p.core.grid.set r (row.cropped width p.cols)
          cursor := (r, col)
          pen := pen })

/-- These bytes lead a reachable emulator from one state of its grid to another and scroll
nothing off. -/
def LeadsStill (p : Parser vt) (c : Core vt.Rest) (bytes : Bytes) (c' : Core vt.Rest) : Prop :=
  Leads p c bytes c' ∧ (vt.Reached (p.withCore c) → (p.withCore c).rowsOff bytes = [])

theorem LeadsStill.refl (p : Parser vt) (c : Core vt.Rest) : LeadsStill p c [] c :=
  ⟨.refl p c, fun _ => rfl⟩

theorem LeadsStill.trans {p : Parser vt} {c c' c'' : Core vt.Rest} {bs cs : Bytes}
    (h : LeadsStill p c bs c') (h' : LeadsStill p c' cs c'') : LeadsStill p c (bs ++ cs) c'' := by
  refine ⟨h.1.trans h'.1, fun hreached => ?_⟩
  have hfirst := h.1 hreached
  rw [Parser.rowsOff_append, h.2 hreached, hfirst.rowsOff cs, List.nil_append]
  exact h'.2 (.same (.process bs hreached) hfirst.symm)

section Crop

variable {rowPen : Row → CellStyle} {wide : Bytes → Bool} {rows cols : ℕ}

/-- A constant of a snapshot leads on and scrolls nothing. -/
theorem Vt100.PaintsCrops.constant (crops : vt.PaintsCrops wide) {op : TermOp}
    (hop : op ∈ [TermOp.clear, .syncBegin, .syncEnd, .hideCursor, .showCursor, .sgrReset])
    {f : Core vt.Rest → Core vt.Rest} (h : vt.Sets op.bytes f) {len : ℕ} {c : Core vt.Rest}
    (hmargins : c.margins = (0, rows - 1)) :
    LeadsStill (Parser.new vt rows cols len) c op.bytes (f c) :=
  ⟨h.leads hmargins, fun hreached => crops.constants op hop _ (ready_new hmargins hreached)⟩

/-- Addressing a cell of the target. -/
theorem Vt100.PaintsCrops.placed (crops : vt.PaintsCrops wide) (laws : vt.Paints rowPen)
    {len : ℕ} {c : Core vt.Rest} (hmargins : c.margins = (0, rows - 1)) {row col : ℕ}
    (hrow : row < rows) (hcol : col < cols) :
    LeadsStill (Parser.new vt rows cols len) c (cupBytes row col) { c with cursor := (row, col) } :=
  ⟨fun hreached => laws.cup _ (ready_new hmargins hreached) row hrow col hcol,
    fun hreached => crops.cup _ (ready_new hmargins hreached) row hrow col hcol⟩

/-- Painting one row that is not blank below those that are painted. -/
theorem leads_croppedRow (laws : vt.Paints rowPen) (crops : vt.PaintsCrops wide) {q : Parser vt}
    (hq : vt.Reached q) (hbottom : q.AtBottom) (len : ℕ) {width : ℕ} (hwidth : width ≤ q.cols)
    (hfits : width ≤ cols) {k r : ℕ} {bytes : Bytes} {row : Row}
    (hbytes : (vt.rowsDiff q.screen (blankScreen q.rows q.cols) 0 width)[k]? = some bytes)
    (hrow : q.screen.visible[k]? = some row) (hsaid : bytes ≠ [])
    (hwhole : WholeCells wide (row.cells.take width)) {c : Core vt.Rest}
    (hmargins : c.margins = (0, rows - 1)) (hr : r < rows)
    (hblank : c.grid[r]? = some (Row.blank cols)) :
    ∃ cursor pen, LeadsStill (Parser.new vt rows cols len) c
      (TermOp.sgrReset.bytes ++ (cupBytes r 0 ++ bytes))
      { c with grid := c.grid.set r (row.cropped width cols), cursor := cursor, pen := pen } := by
  have hcols : 0 < cols := by
    by_contra hnone
    have hzero : width = 0 := by omega
    subst hzero
    exact hsaid ((crops.rowsBlank hq hbottom 0 hwidth hbytes hrow).mpr rfl)
  let e := Parser.new vt rows cols len
  let reset : Core vt.Rest := { c with pen := defaultStyle }
  let placed : Core vt.Rest := { reset with cursor := (r, 0) }
  have hreset : LeadsStill e c TermOp.sgrReset.bytes reset :=
    crops.constant (by simp) laws.sgrReset hmargins
  have hplaced : LeadsStill e reset (cupBytes r 0) placed :=
    crops.placed (c := reset) laws hmargins hr hcols
  obtain ⟨col, pen, hpaint⟩ : ∃ col pen, LeadsStill e placed bytes
      { placed with
        grid := c.grid.set r (row.cropped width cols), cursor := (r, col), pen := pen } := by
    by_cases hreached : vt.Reached (e.withCore placed)
    · obtain ⟨hstill, col, pen, hsame⟩ := crops.rowsPaint hq hbottom width hwidth hbytes hrow hsaid
        hwhole (e.withCore placed) (ready_new hmargins hreached) hfits r rfl rfl hblank
      exact ⟨col, pen, fun _ => hsame, fun _ => hstill⟩
    · exact ⟨0, defaultStyle, fun h => absurd h hreached, fun h => absurd h hreached⟩
  exact ⟨(r, col), pen, hreset.trans (hplaced.trans hpaint)⟩

/-- Painting the rest of the rows, of which none cuts a character. -/
theorem leads_croppedRows (laws : vt.Paints rowPen) (crops : vt.PaintsCrops wide) {q : Parser vt}
    (hq : vt.Reached q) (hbottom : q.AtBottom) (len : ℕ) {width : ℕ} (hwidth : width ≤ q.cols)
    (hfits : width ≤ cols) {painted rest : List Row} {diffs : List Bytes}
    (hrest : q.screen.visible.drop (q.rows - rows + painted.length) = rest)
    (hdiffs : (vt.rowsDiff q.screen (blankScreen q.rows q.cols) 0 width).drop
      (q.rows - rows + painted.length) = diffs)
    (hwhole : ∀ row ∈ rest, WholeCells wide (row.cells.take width)) {c : Core vt.Rest}
    (hmargins : c.margins = (0, rows - 1)) (hgrid : c.grid = fillUp rows cols painted) :
    ∃ cursor pen, LeadsStill (Parser.new vt rows cols len) c
      (render ((diffs.zipIdx (q.rows - rows + painted.length)).flatMap
        (snapshotRow (q.rows - rows))))
      { c with
        grid := fillUp rows cols (painted ++ rest.map (Row.cropped width cols))
        cursor := cursor
        pen := pen } := by
  obtain ⟨hvisible, hsaid⟩ := crops.rowsLength hq hbottom width hwidth
  induction rest generalizing painted diffs c with
  | nil =>
    have hall : q.rows ≤ q.rows - rows + painted.length :=
      hvisible.ge.trans (List.drop_eq_nil_iff.mp hrest)
    have hnone : diffs = [] := by
      rw [← hdiffs]
      exact List.drop_eq_nil_iff.mpr (hsaid.trans_le hall)
    refine ⟨c.cursor, c.pen, ?_⟩
    rw [hnone, List.map_nil, List.append_nil, ← hgrid]
    exact .refl _ c
  | cons row rest ih =>
    let k := q.rows - rows + painted.length
    have hrow : q.screen.visible[k]? = some row := by
      rw [← List.head?_drop, hrest]
      rfl
    have hk : k < q.rows := hvisible ▸ (List.getElem?_eq_some_iff.mp hrow).1
    have hroom : painted.length < rows := by omega
    obtain ⟨bytes, later, rfl⟩ : ∃ bytes later, diffs = bytes :: later := by
      refine List.exists_cons_of_ne_nil ?_
      rw [← hdiffs, Ne, List.drop_eq_nil_iff, hsaid]
      exact Nat.not_le.mpr hk
    have hbytes : (vt.rowsDiff q.screen (blankScreen q.rows q.cols) 0 width)[k]? = some bytes := by
      rw [← List.head?_drop, hdiffs]
      rfl
    have hblank := crops.rowsBlank hq hbottom width hwidth hbytes hrow
    obtain ⟨hunpainted, hset⟩ := fillUp_succ cols hroom (row.cropped width cols)
    obtain ⟨cursor, pen, hone⟩ : ∃ cursor pen, LeadsStill (Parser.new vt rows cols len) c
        (render (snapshotRow (q.rows - rows) (bytes, k)))
        { c with
          grid := fillUp rows cols (painted ++ [row.cropped width cols])
          cursor := cursor
          pen := pen } := by
      by_cases hempty : bytes = []
      · have hnothing : render (snapshotRow (q.rows - rows) (bytes, k)) = [] := by
          rw [snapshotRow, if_neg (not_not.mpr hempty)]
          rfl
        have hsame : row.cropped width cols = Row.blank cols := by
          rw [Row.cropped, hblank.mp hempty, List.replicate_append_replicate,
            Nat.add_sub_cancel' hfits]
          rfl
        refine ⟨c.cursor, c.pen, ?_⟩
        rw [hnothing, hsame, ← fillUp_blank hroom, ← hgrid]
        exact .refl _ c
      · have hops : render (snapshotRow (q.rows - rows) (bytes, k)) =
            TermOp.sgrReset.bytes ++ (cupBytes painted.length 0 ++ bytes) := by
          have hplace : k - (q.rows - rows) = painted.length := Nat.add_sub_cancel_left _ _
          rw [snapshotRow, if_pos hempty, hplace]
          simp only [render_cons, render_nil, List.append_nil]
          rfl
        rw [hops, ← hset, ← hgrid]
        exact leads_croppedRow laws crops hq hbottom len hwidth hfits hbytes hrow hempty
          (hwhole row List.mem_cons_self) hmargins hroom (hgrid ▸ hunpainted)
    have hlength : q.rows - rows + (painted ++ [row.cropped width cols]).length = k + 1 := by
      rw [List.length_append, List.length_singleton]
      rfl
    have hrest' : q.screen.visible.drop
        (q.rows - rows + (painted ++ [row.cropped width cols]).length) = rest := by
      rw [hlength, ← List.tail_drop, hrest]
      rfl
    have hdiffs' : (vt.rowsDiff q.screen (blankScreen q.rows q.cols) 0 width).drop
        (q.rows - rows + (painted ++ [row.cropped width cols]).length) = later := by
      rw [hlength, ← List.tail_drop, hdiffs]
      rfl
    obtain ⟨cursor', pen', hrows⟩ := ih hrest' hdiffs'
      (c := { c with
        grid := fillUp rows cols (painted ++ [row.cropped width cols])
        cursor := cursor
        pen := pen })
      (fun r hr => hwhole r (List.mem_cons_of_mem row hr)) hmargins rfl
    refine ⟨cursor', pen', ?_⟩
    rw [List.zipIdx_cons, List.flatMap_cons, render_append, List.map_cons, ← List.singleton_append,
      ← List.append_assoc painted]
    rw [hlength] at hrows
    exact hone.trans hrows

/-- The rows of a snapshot are numbered as on the screen. -/
theorem drop_zipIdx {α : Type} (l : List α) (n : ℕ) : l.zipIdx.drop n = (l.drop n).zipIdx n := by
  refine List.ext_getElem? fun i => ?_
  rw [List.getElem?_drop, List.getElem?_zipIdx, List.getElem?_zipIdx, List.getElem?_drop,
    Nat.zero_add]

/-- The pieces of a snapshot. -/
theorem render_snapshot_pieces (src : Screen) (rows cols : ℕ) {diffs : List Bytes}
    (hdiffs : (vt.rowsDiff src (blankScreen src.rows src.cols) 0 (min cols src.cols)).drop
      (src.rows - rows) = diffs) (hfits : diffs.length ≤ rows) :
    render (renderSnapshot vt src rows cols) =
      TermOp.clear.bytes ++ (TermOp.syncBegin.bytes ++ (TermOp.hideCursor.bytes ++
        (render ((diffs.zipIdx (src.rows - rows)).flatMap (snapshotRow (src.rows - rows))) ++
        (vt.inputModeFormatted src.inputModes ++
          (render (placeCursor src (src.rows - rows) rows cols 0) ++
            TermOp.syncEnd.bytes))))) := by
  have hbody : ((vt.rowsDiff src (blankScreen src.rows src.cols) 0
      (min cols src.cols)).zipIdx.drop (src.rows - rows)).take rows =
        diffs.zipIdx (src.rows - rows) := by
    rw [drop_zipIdx, hdiffs]
    exact List.take_of_length_le (List.length_zipIdx.trans_le hfits)
  rw [← hbody]
  simp only [renderSnapshot, render_append, render_cons, render_nil, List.append_nil,
    List.append_assoc]
  rfl

/-- What a snapshot leads a new emulator to. -/
theorem leads_snapshot (laws : vt.Paints rowPen) (crops : vt.PaintsCrops wide) {q : Parser vt}
    (hq : vt.Reached q) (hbottom : q.AtBottom) (len : ℕ)
    (hwhole : ∀ row ∈ q.screen.visible.drop (q.rows - rows),
      WholeCells wide (row.cells.take (min cols q.cols))) :
    ∃ c : Core vt.Rest, LeadsStill (Parser.new vt rows cols len) (vt.blank rows cols)
        (render (renderSnapshot vt q.screen rows cols)) c ∧
      c.grid = fillUp rows cols ((q.screen.visible.drop (q.rows - rows)).map
        (Row.cropped (min cols q.cols) cols)) ∧
      (c.hideCursor = false ↔ q.screen.CursorInside rows cols) ∧
      (q.screen.CursorInside rows cols →
        c.cursor = (q.core.cursor.1 - (q.rows - rows), q.core.cursor.2)) := by
  let e := Parser.new vt rows cols len
  let blank := vt.blank rows cols
  let width := min cols q.cols
  have hblank : blank = ⟨List.replicate rows (Row.blank cols), (0, 0), false, defaultStyle,
      (0, rows - 1), .default, blank.rest⟩ := laws.blank rows cols
  have hmargins : blank.margins = (0, rows - 1) := by rw [hblank]
  let cleared : Core vt.Rest := { blank with
    grid := List.replicate rows (Row.blank cols), cursor := (0, 0), pen := defaultStyle }
  let hidden : Core vt.Rest := { cleared with hideCursor := true }
  have hclear : LeadsStill e blank TermOp.clear.bytes cleared :=
    ⟨fun hreached => laws.clear _ (ready_new hmargins hreached),
      fun hreached => crops.constants _ (by simp) _ (ready_new hmargins hreached)⟩
  have hsync : LeadsStill e cleared TermOp.syncBegin.bytes cleared :=
    crops.constant (by simp) laws.syncBegin hmargins
  have hhide : LeadsStill e cleared TermOp.hideCursor.bytes hidden :=
    crops.constant (by simp) laws.hideCursor hmargins
  let diffs := vt.rowsDiff q.screen (blankScreen q.rows q.cols) 0 width
  obtain ⟨hvisible, hsaid⟩ := crops.rowsLength hq hbottom width (Nat.min_le_right _ _)
  have hfirst : q.screen.visible.drop (q.rows - rows + ([] : List Row).length) =
      q.screen.visible.drop (q.rows - rows) := rfl
  obtain ⟨cursor, pen, hrows⟩ := leads_croppedRows laws crops hq hbottom len
    (Nat.min_le_right _ _) (Nat.min_le_left cols q.cols) hfirst rfl hwhole
    (c := hidden) hmargins rfl
  let painted : Core vt.Rest := { hidden with
    grid := fillUp rows cols ((q.screen.visible.drop (q.rows - rows)).map (Row.cropped width cols))
    cursor := cursor
    pen := pen }
  let moded : Core vt.Rest := { painted with inputModes := q.core.inputModes }
  have hmodes : LeadsStill e painted (vt.inputModeFormatted q.core.inputModes) moded := by
    have hdefault : blank.inputModes = .default := by rw [hblank]
    exact ⟨fun hreached => laws.inputMode hq _ (ready_new hmargins hreached) hdefault,
      fun hreached => crops.inputMode hq _ (ready_new hmargins hreached)⟩
  have hfits : (diffs.drop (q.rows - rows)).length ≤ rows := by
    rw [List.length_drop, hsaid]
    omega
  have hpainted : LeadsStill e hidden (render (((diffs.drop (q.rows - rows)).zipIdx
      (q.rows - rows)).flatMap (snapshotRow (q.rows - rows)))) painted := hrows
  have hend {c : Core vt.Rest} (hkept : c.margins = (0, rows - 1)) :
      LeadsStill e c TermOp.syncEnd.bytes c :=
    crops.constant (by simp) laws.syncEnd hkept
  have hopened {bytes : Bytes} {c : Core vt.Rest}
      (hplace : render (placeCursor q.screen (q.rows - rows) rows cols 0) = bytes)
      (hrest : LeadsStill e moded (bytes ++ TermOp.syncEnd.bytes) c) :
      LeadsStill e blank (render (renderSnapshot vt q.screen rows cols)) c := by
    rw [render_snapshot_pieces q.screen rows cols rfl hfits]
    change LeadsStill e blank (_ ++ (_ ++ (_ ++ (_ ++ (_ ++
      (render (placeCursor q.screen (q.rows - rows) rows cols 0) ++ _)))))) c
    rw [hplace]
    exact hclear.trans (hsync.trans (hhide.trans (hpainted.trans (hmodes.trans hrest))))
  by_cases hinside : q.screen.CursorInside rows cols
  · obtain ⟨-, -, hrow, hcol⟩ := id hinside
    let placed : Core vt.Rest := { moded with
      cursor := (q.core.cursor.1 - (q.rows - rows), q.core.cursor.2) }
    let closed : Core vt.Rest := { placed with hideCursor := false }
    have hplaced : LeadsStill e moded
        (cupBytes (q.core.cursor.1 - (q.rows - rows)) q.core.cursor.2) placed :=
      crops.placed (c := moded) laws hmargins hrow hcol
    have hshow : LeadsStill e placed TermOp.showCursor.bytes closed :=
      crops.constant (by simp) laws.showCursor hmargins
    have hplace : render (placeCursor q.screen (q.rows - rows) rows cols 0) =
        cupBytes (q.core.cursor.1 - (q.rows - rows)) q.core.cursor.2 ++
          TermOp.showCursor.bytes := by
      have hops := (q.screen.placeCursor_crop rows cols).1 hinside
      exact (congrArg render hops).trans (by rw [render_cons, render_cons, render_nil]; rfl)
    exact ⟨closed, hopened hplace ((hplaced.trans hshow).trans (hend (c := closed) hmargins)), rfl,
      iff_of_true rfl hinside, fun _ => rfl⟩
  · have hplace : render (placeCursor q.screen (q.rows - rows) rows cols 0) = [] :=
      congrArg render ((q.screen.placeCursor_crop rows cols).2 hinside)
    exact ⟨moded, hopened hplace (hend (c := moded) hmargins), rfl,
      iff_of_false Bool.false_ne_true.symm hinside, fun h => absurd h hinside⟩

/-- On the primary screen an emulator that is not scrolled back shows its grid. -/
theorem visible_of_primary {p : Parser vt} (halt : p.alternate = false) (h : p.offset = 0) :
    p.screen.visible = p.core.grid.take p.rows := by
  rw [(Parser.atBottom_of_offset h).visible, if_neg (by rw [halt]; exact Bool.false_ne_true)]

/-- An emulator that is not scrolled back shows rows of its active grid. -/
theorem mem_grid_of_visible {p : Parser vt} (h : p.offset = 0) {row : Row}
    (hrow : row ∈ p.screen.visible) : row ∈ p.core.grid := by
  rw [(Parser.atBottom_of_offset h).visible] at hrow
  split at hrow
  · exact hrow
  · exact List.mem_of_mem_take hrow

/-- What a screen shows whose first rows are painted. -/
theorem map_cells_fillUp (painted : List Row) :
    (fillUp rows cols painted).map Row.cells =
      painted.map Row.cells ++
        List.replicate (rows - painted.length) (List.replicate cols Cell.empty) := by
  rw [fillUp, List.map_append, List.map_replicate]
  rfl

/-- A snapshot that cuts no character shows its crop. -/
theorem snapshot_shows_crop (laws : vt.Paints rowPen) (crops : vt.PaintsCrops wide) {q : Parser vt}
    (hq : vt.Reached q) (hbottom : q.AtBottom) (len : ℕ)
    (hwhole : ∀ row ∈ q.screen.visible.drop (q.rows - rows),
      WholeCells wide (row.cells.take (min cols q.cols))) :
    (Parser.new vt rows cols len).rowsOff (render (renderSnapshot vt q.screen rows cols)) = [] ∧
      ((Parser.new vt rows cols len).process
        (render (renderSnapshot vt q.screen rows cols))).screen.ShowsCrop q.screen rows cols := by
  obtain ⟨hvisible, -⟩ := crops.rowsLength hq hbottom (min cols q.cols) (Nat.min_le_right _ _)
  obtain ⟨c, ⟨hleads, hstill⟩, hgrid, hshown, hcursor⟩ :=
    leads_snapshot laws crops hq hbottom len hwhole
  have hnew : vt.Reached (Parser.new vt rows cols len) := .new rows cols len
  refine ⟨hstill hnew, ?_⟩
  have hsame : ((Parser.new vt rows cols len).process
      (render (renderSnapshot vt q.screen rows cols))).Same
        ((Parser.new vt rows cols len).withCore c) := hleads hnew
  have hscreen := hsame.screen
    (Parser.atBottom_of_offset (Parser.process_offset rfl _)) (Parser.atBottom_of_offset rfl)
  let kept := (q.screen.visible.drop (q.rows - rows)).map (Row.cropped (min cols q.cols) cols)
  have hkept : kept.length = q.rows - (q.rows - rows) := by
    rw [List.length_map, List.length_drop, hvisible]
  have hroom : kept.length ≤ rows := by omega
  have hfull : ((Parser.new vt rows cols len).withCore c).screen.visible =
      fillUp rows cols kept := by
    have hshown := visible_of_primary (p := (Parser.new vt rows cols len).withCore c) rfl rfl
    rw [hshown]
    change c.grid.take rows = _
    rw [hgrid, List.take_of_length_le]
    exact (length_fillUp hroom).le
  rw [hscreen]
  refine ⟨?_, hshown, hcursor⟩
  have hblank : rows - kept.length = rows - q.screen.rows := by
    change _ = rows - q.rows
    omega
  rw [hfull, map_cells_fillUp, hblank, List.map_map]
  rfl

/-- After any run, a view whose crop cuts no character starts with that crop of the model. -/
theorem Mirror.view_starts_with_crop (laws : vt.Paints rowPen) (crops : vt.PaintsCrops wide)
    {hostRows : ℕ} (hostCols : ℕ) (hrows : 0 < hostRows) {calls : List Call}
    (hcalls : ∀ c ∈ calls, c.Sized) (view : View) (len : ℕ) :
    let m := calls.foldl Mirror.call (Mirror.new vt hostRows hostCols)
    (∀ row ∈ m.parser.screen.visible.drop (m.parser.rows - view.rows),
      WholeCells wide (row.cells.take (min view.cols m.parser.cols))) →
      ∃ snapshot, (m.startView view).1.remoteOutput = some snapshot ∧
        (Parser.new vt view.rows view.cols len).rowsOff snapshot = [] ∧
        ((Parser.new vt view.rows view.cols len).process snapshot).screen.ShowsCrop
          m.parser.screen view.rows view.cols := by
  intro m hwhole
  have hsound : m.Sound := sound_of_calls hostCols hrows hcalls
  have hremote : (m.startView view).1.remoteOutput =
      some (render (renderSnapshot vt m.parser.screen view.rows view.cols)) := by
    rw [← flush_screen hsound.rows hsound.bottom view.rows]
    rfl
  exact ⟨_, hremote, snapshot_shows_crop laws crops hsound.reached hsound.bottom len hwhole⟩

end Crop

/-- The small emulator has no double-width characters and paints crops as it should. -/
theorem asciiVt100_paintsCrops : asciiVt100.PaintsCrops fun _ => false where
  constants := by
    intro op hop p hp
    simp only [List.mem_cons, List.not_mem_nil, or_false] at hop
    rcases hop with rfl | rfl | rfl | rfl | rfl | rfl
    · exact Ascii.draws_clear.rowsOff hp.ground (by simp)
    · exact Ascii.draws_syncBegin.rowsOff hp.ground (by simp)
    · exact Ascii.draws_syncEnd.rowsOff hp.ground (by simp)
    · exact Ascii.draws_hideCursor.rowsOff hp.ground (by simp)
    · exact Ascii.draws_showCursor.rowsOff hp.ground (by simp)
    · exact Ascii.draws_sgrReset.rowsOff hp.ground (by simp)
  cup := fun p hp row _ col _ => (Ascii.draws_cup row col).rowsOff hp.ground (by simp)
  inputMode := fun _ p hp => Ascii.draws_nil.rowsOff hp.ground List.not_mem_nil
  whole := fun rows cols len bytes row _ i cell _ hwide => absurd hwide Bool.false_ne_true
  rowsLength := by
    intro q hq hbottom width hwidth
    have hlength := (Ascii.reached_shaped hq).grid.length
    refine ⟨by rw [Ascii.visible_of_reached hq hbottom, hlength], ?_⟩
    exact (congrArg List.length (Ascii.rowsDiff_crop hq hbottom hwidth)).trans
      ((List.length_map _).trans hlength)
  rowsBlank := by
    intro q hq hbottom width hwidth k bytes row hbytes hrow
    obtain ⟨hmem, rfl⟩ := Ascii.getElem?_rowsDiff hq hbottom hwidth hbytes hrow
    refine Ascii.rowDiff_eq_nil_iff ?_
    rw [List.length_take, (Ascii.reached_shaped hq).grid.width row hmem, List.length_replicate,
      Nat.min_eq_left hwidth]
  rowsPaint := by
    intro q hq hbottom width hwidth k bytes row hbytes hrow _ _ p hp hfits r hcursor hpen hblank
    have hshaped := Ascii.reached_shaped hq
    obtain ⟨hmem, rfl⟩ := Ascii.getElem?_rowsDiff hq hbottom hwidth hbytes hrow
    obtain ⟨es, hsaid, hstill⟩ :=
      Ascii.draws_rowDiff (row.cells.take width) (List.replicate width Cell.empty)
    refine ⟨hsaid.rowsOff hp.ground hstill, ?_⟩
    have hcut : (row.cells.take width).length = width := by
      rw [List.length_take, hshaped.grid.width row hmem, Nat.min_eq_left hwidth]
    have hsplit : p.cols = width + (p.cols - width) := (Nat.add_sub_cancel' hfits).symm
    have hpart : Row.blank p.cols =
        Ascii.partRow [] ((row.cells.take width).length + (p.cols - width)) := by
      rw [hcut, ← hsplit]
      rfl
    obtain ⟨ds, col, hdraws, hend⟩ := Ascii.drawAll_row [] (p.cols - width)
      (fun cell hcell => hshaped.grid.known row hmem cell (List.mem_of_mem_take hcell))
      (hpart ▸ hblank) hcursor (by
        rw [(Ascii.reached_shaped hp.reached).size.2, hcut, List.length_nil, Nat.zero_add]
        exact hsplit)
    rw [hcut] at hdraws
    refine ⟨col, defaultStyle, (hdraws.process hp.ground).trans ?_⟩
    rw [hend, ← hpen]
    exact .refl _

/-- A snapshot scrolls nothing and shows the bottom-left crop exactly if the crop cuts no
double-width character. -/
theorem snapshot_crop_iff {rowPen : Row → CellStyle} {wide : Bytes → Bool}
    (laws : vt.Paints rowPen) (crops : vt.PaintsCrops wide) {q : Parser vt} (hq : vt.Reached q)
    (hbottom : q.AtBottom) (rows cols len : ℕ) :
    ((Parser.new vt rows cols len).rowsOff (render (renderSnapshot vt q.screen rows cols)) = [] ∧
        ((Parser.new vt rows cols len).process
          (render (renderSnapshot vt q.screen rows cols))).screen.ShowsCrop q.screen rows cols) ↔
      ∀ row ∈ q.screen.visible.drop (q.rows - rows),
        WholeCells wide (row.cells.take (min cols q.cols)) := by
  constructor
  · intro ⟨_, hshows⟩ row hrow
    let target := (Parser.new vt rows cols len).process
      (render (renderSnapshot vt q.screen rows cols))
    have hmem : (row.cropped (min cols q.cols) cols).cells ∈
        target.screen.visible.map Row.cells := by
      rw [hshows.cells]
      exact List.mem_append_left _ (List.mem_map_of_mem hrow)
    obtain ⟨shown, hshown, hcells⟩ := List.mem_map.mp hmem
    have hwhole := crops.whole rows cols len _ shown
      (mem_grid_of_visible (Parser.process_offset rfl _) hshown)
    rw [hcells] at hwhole
    exact hwhole.of_append_blanks
  · exact snapshot_shows_crop laws crops hq hbottom len

/-- The middle of a text, with its cursor out of view, on a terminal that is wider than it. -/
theorem snapshot_crop_of_text :
    (Parser.new asciiVt100 2 7 0).rowsOff (render (renderSnapshot asciiVt100
        ((Parser.new asciiVt100 3 5 0).process (ascii "ab\r\nc e\r\nf\x1b[1;2H")).screen 2 7)) =
      [] ∧
      ((Parser.new asciiVt100 2 7 0).process (render (renderSnapshot asciiVt100
        ((Parser.new asciiVt100 3 5 0).process (ascii "ab\r\nc e\r\nf\x1b[1;2H")).screen
          2 7))).screen.ShowsCrop
        ((Parser.new asciiVt100 3 5 0).process (ascii "ab\r\nc e\r\nf\x1b[1;2H")).screen 2 7 :=
  (snapshot_crop_iff asciiVt100_paints asciiVt100_paintsCrops
    (.process (ascii "ab\r\nc e\r\nf\x1b[1;2H") (.new 3 5 0))
    (Parser.atBottom_of_offset (Parser.process_offset rfl _)) 2 7 0).mpr
      fun _ _ _ _ _ hwide => absurd hwide Bool.false_ne_true

/-! ### An emulator with double-width characters -/

namespace Wide

/-- What the emulator draws: what the small one does, and characters two columns wide. -/
inductive Draw
  | narrow (d : AsciiDraw)
  | wide (character : Bytes)

/-- What the small emulator recognises. -/
def lift : Action AsciiDraw → Action Draw
  | .draw d => .draw (.narrow d)
  | .enterAlternate => .enterAlternate
  | .leaveAlternate => .leaveAlternate
  | .fullReset => .fullReset
  | .bell => .bell
  | .windowTitle title => .windowTitle title

/-- One byte. Three bytes from 224 on encode a double-width character; `pending` are those of
them that were read. -/
def advance : AsciiVte × Bytes → UInt8 → (AsciiVte × Bytes) × List (Action Draw)
  | (v, pending), b =>
    if v = .ground ∧ (pending ≠ [] ∨ 224 ≤ b) then
      if pending.length = 2 then ((.ground, []), [.draw (.wide (pending ++ [b]))])
      else ((.ground, pending ++ [b]), [])
    else (((Ascii.advance v b).1, []), (Ascii.advance v b).2.map lift)

/-- Draw, and answer the rows that scroll off. A character that does not fit into its row
wraps to the next one. -/
def draw (c : Core AsciiRest) : Draw → Core AsciiRest × List Row
  | .narrow d => Ascii.draw c d
  | .wide character =>
    let (placed, off) :=
      if c.cursor.2 + 2 ≤ c.rest.cols then (c, [])
      else Ascii.draw { c with cursor := (c.cursor.1, 0) } .lineFeed
    let first := Ascii.setCell placed ⟨character, false, defaultStyle⟩
    let second := Ascii.setCell (Ascii.moveForward first 1) ⟨[], true, defaultStyle⟩
    (Ascii.moveForward second 1, off)

/-- What prints the cells of a row that are not blank, each character whole. -/
def rowDiff : List Cell → Bytes
  | [] => []
  | cell :: cells =>
    if cell.contents = [] ∧ rowDiff cells = [] then []
    else
      (if cell.wideContinuation then []
        else if cell.contents = [] then ascii "\x1b[C" else cell.contents) ++ rowDiff cells

end Wide

/-- An emulator with double-width characters, as far as snapshots of new screens use it. -/
abbrev wideVt100 : Vt100 where
  Vte := AsciiVte × Bytes
  Draw := Wide.Draw
  Rest := AsciiRest
  ground := (.ground, [])
  advance := Wide.advance
  blank := Ascii.blank
  draw := Wide.draw
  enterAlternate := Ascii.enterAlternate
  enterRewinds := true
  leaveAlternate := Ascii.leaveAlternate
  setSize := Ascii.setSize
  rowsDiff := fun screen _ start width =>
    screen.visible.map fun row => Wide.rowDiff ((row.cells.drop start).take width)
  inputModeFormatted := fun _ => []
  inputModeDiff := fun _ _ => []
  stateDiff := fun _ _ => []

/-- A character across the cut: the snapshot, for a view of two rows and columns, of a screen
that shows `a漢b`. Above a row that shows `y`, the character goes to that row and is missing
from its own. In the last row, it scrolls `y` off and appears in a row of its own. -/
theorem snapshot_scrolls_cut_character :
    let cut : Bytes := [97, 230, 188, 162, 98]
    let above := (Parser.new wideVt100 2 4 0).process (cut ++ ascii "\r\ny")
    let below := (Parser.new wideVt100 2 4 0).process (ascii "y\r\n" ++ cut)
    let target := Parser.new wideVt100 2 2 0
    let snapshot (q : Parser wideVt100) := render (renderSnapshot wideVt100 q.screen 2 2)
    let y : List Cell := [Ascii.printed 121, Cell.empty]
    above.scrollback = 0 ∧
      ((target.process (snapshot above)).screen.visible.map Row.cells).head? =
        some [Ascii.printed 97, Cell.empty] ∧
      above.screen.crop 2 2 =
        [[Ascii.printed 97, ⟨[230, 188, 162], false, defaultStyle⟩], y] ∧
      below.scrollback = 0 ∧ target.rowsOff (snapshot below) = [⟨y, false⟩] ∧
      (target.process (snapshot below)).screen.visible.map Row.cells =
        [[Ascii.printed 97, Cell.empty],
          [⟨[230, 188, 162], false, defaultStyle⟩, ⟨[], true, defaultStyle⟩]] := by
  decide

end G2mirror
