import G2mirror.EmulatorLaws

/-!
# Painting a screen

The rows of a snapshot are painted one after the other. From the assumptions
about single rows this works out what all of them leave on the screen.
-/

namespace G2mirror

variable {vt : Vt100}

/-- Soft-wrap flags do not survive repainting. -/
def Row.unwrapped (row : Row) : Row := ⟨row.cells, false⟩

/-- The attributes in which painting these rows on a cleared screen ends: those
of the last row that is not blank. -/
def snapshotPen (rowPen : Row → CellStyle) (cols : ℕ) (rows : List Row) : CellStyle :=
  rows.foldl (fun pen row => if row.cells = (Row.blank cols).cells then pen else rowPen row)
    defaultStyle

/-- These bytes lead a reachable emulator from one state of its grid to another. -/
def Leads (p : Parser vt) (c : Core vt.Rest) (bytes : Bytes) (c' : Core vt.Rest) : Prop :=
  vt.Reached (p.withCore c) → ((p.withCore c).process bytes).Same (p.withCore c')

theorem Leads.refl (p : Parser vt) (c : Core vt.Rest) : Leads p c [] c :=
  fun _ => ⟨rfl, rfl, rfl, rfl, rfl⟩

theorem Leads.trans {p : Parser vt} {c c' c'' : Core vt.Rest} {bs cs : Bytes}
    (h : Leads p c bs c') (h' : Leads p c' cs c'') : Leads p c (bs ++ cs) c'' := by
  intro hreached
  have hfirst := h hreached
  rw [Parser.process_append]
  exact (hfirst.process cs).trans (h' (.same (.process bs hreached) hfirst.symm))

/-- A new emulator whose grid has full margins is ready. -/
theorem ready_new {rows cols len : ℕ} {c : Core vt.Rest} (hmargins : c.margins = (0, rows - 1))
    (hreached : vt.Reached ((Parser.new vt rows cols len).withCore c)) :
    ((Parser.new vt rows cols len).withCore c).Ready := ⟨hreached, rfl, rfl, hmargins⟩

theorem Vt100.Sets.leads {bytes : Bytes} {f : Core vt.Rest → Core vt.Rest}
    (h : vt.Sets bytes f) {rows cols len : ℕ} {c : Core vt.Rest}
    (hmargins : c.margins = (0, rows - 1)) : Leads (Parser.new vt rows cols len) c bytes (f c) :=
  fun hreached => h _ (ready_new hmargins hreached)

/-- A grid of which the first rows are painted. -/
def fillUp (rows cols : ℕ) (painted : List Row) : List Row :=
  painted ++ List.replicate (rows - painted.length) (Row.blank cols)

section FillUp

variable {rows cols : ℕ} {painted : List Row}

theorem length_fillUp (h : painted.length ≤ rows) : (fillUp rows cols painted).length = rows := by
  rw [fillUp, List.length_append, List.length_replicate]
  omega

/-- The first row that is not painted yet. -/
theorem fillUp_succ (cols : ℕ) (h : painted.length < rows) (row : Row) :
    (fillUp rows cols painted)[painted.length]? = some (Row.blank cols) ∧
      (fillUp rows cols painted).set painted.length row = fillUp rows cols (painted ++ [row]) := by
  obtain ⟨gap, hgap⟩ : ∃ gap, rows - painted.length = gap + 1 :=
    ⟨rows - painted.length - 1, by omega⟩
  have hnext : rows - (painted ++ [row]).length = gap := by
    rw [List.length_append, List.length_singleton]
    omega
  rw [fillUp, fillUp, hgap, hnext, List.replicate_succ]
  constructor
  · rw [List.getElem?_append_right le_rfl, Nat.sub_self, List.getElem?_cons_zero]
  · rw [List.set_append_right _ _ le_rfl, Nat.sub_self, List.set_cons_zero, List.append_assoc,
      List.singleton_append]

/-- A blank row is painted already. -/
theorem fillUp_blank (h : painted.length < rows) :
    fillUp rows cols painted = fillUp rows cols (painted ++ [Row.blank cols]) := by
  obtain ⟨hget, hset⟩ := fillUp_succ cols h (Row.blank cols)
  obtain ⟨hlt, hblank⟩ := List.getElem?_eq_some_iff.mp hget
  rw [← hset]
  conv_lhs => rw [← List.set_getElem_self hlt]
  rw [hblank]

end FillUp

section Snapshot

variable {rowPen : Row → CellStyle} {q : Parser vt}

/-- The grid after the first `n` rows were painted. -/
def paintedGrid (q : Parser vt) (n : ℕ) : List Row :=
  (q.screen.visible.map Row.unwrapped).take n ++ List.replicate (q.rows - n) (Row.blank q.cols)

theorem length_take_visible {n : ℕ} (hn : n ≤ q.screen.visible.length) :
    ((q.screen.visible.map Row.unwrapped).take n).length = n := by
  rw [List.length_take, List.length_map, Nat.min_eq_left hn]

theorem paintedGrid_eq {n : ℕ} (hn : n ≤ q.screen.visible.length) :
    paintedGrid q n = fillUp q.rows q.cols ((q.screen.visible.map Row.unwrapped).take n) := by
  rw [paintedGrid, fillUp, length_take_visible hn]

theorem paintedGrid_succ {n : ℕ} {row : Row} (hrow : q.screen.visible[n]? = some row) :
    paintedGrid q (n + 1) = fillUp q.rows q.cols
      ((q.screen.visible.map Row.unwrapped).take n ++ [row.unwrapped]) := by
  obtain ⟨hn, -⟩ := List.getElem?_eq_some_iff.mp hrow
  have hnext : (q.screen.visible.map Row.unwrapped)[n]? = some row.unwrapped := by
    rw [List.getElem?_map, hrow]
    rfl
  rw [paintedGrid_eq hn, List.take_add_one, hnext, Option.toList_some]

theorem getElem?_paintedGrid {n : ℕ} (hn : n < q.rows)
    (hlength : q.screen.visible.length = q.rows) :
    (paintedGrid q n)[n]? = some (Row.blank q.cols) := by
  have hvisible : n ≤ q.screen.visible.length := hlength ▸ hn.le
  have htake := length_take_visible hvisible
  obtain ⟨hblank, -⟩ := fillUp_succ q.cols (htake.trans_lt hn) (Row.blank q.cols)
  rw [htake] at hblank
  rwa [paintedGrid_eq hvisible]

theorem set_paintedGrid {n : ℕ} {row : Row} (hrow : q.screen.visible[n]? = some row)
    (hlength : q.screen.visible.length = q.rows) :
    (paintedGrid q n).set n row.unwrapped = paintedGrid q (n + 1) := by
  obtain ⟨hn, -⟩ := List.getElem?_eq_some_iff.mp hrow
  have htake := length_take_visible hn.le
  obtain ⟨-, hset⟩ := fillUp_succ q.cols (htake.trans_lt (hlength ▸ hn)) row.unwrapped
  rw [htake] at hset
  rw [paintedGrid_eq hn.le, paintedGrid_succ hrow, hset]

/-- A blank row is painted already. -/
theorem paintedGrid_of_blank {n : ℕ} {row : Row} (hrow : q.screen.visible[n]? = some row)
    (hlength : q.screen.visible.length = q.rows) (hblank : row.cells = (Row.blank q.cols).cells) :
    paintedGrid q n = paintedGrid q (n + 1) := by
  obtain ⟨hn, -⟩ := List.getElem?_eq_some_iff.mp hrow
  have hsame : row.unwrapped = Row.blank q.cols := by
    rw [Row.unwrapped, hblank]
    rfl
  rw [paintedGrid_eq hn.le, paintedGrid_succ hrow, hsame]
  exact fillUp_blank ((length_take_visible hn.le).trans_lt (hlength ▸ hn))

/-- Painting the rows of a snapshot from the `n`-th on. -/
theorem leads_body (laws : vt.Paints rowPen) (hq : vt.Reached q) (hbottom : q.AtBottom)
    (hlength : q.screen.visible.length = q.rows) (hcols : 0 < q.cols) (len : ℕ)
    {rows : List Bytes} {n : ℕ}
    (hrows : (vt.rowsDiff q.screen (blankScreen q.rows q.cols) 0 q.cols).drop n = rows)
    {c : Core vt.Rest} (hmargins : c.margins = (0, q.rows - 1)) (hgrid : c.grid = paintedGrid q n)
    (hpen : c.pen = snapshotPen rowPen q.cols (q.screen.visible.take n)) :
    ∃ cursor, Leads (Parser.new vt q.rows q.cols len) c
      (render ((rows.zipIdx n).flatMap (snapshotRow 0)))
      { c with
        grid := paintedGrid q q.rows
        cursor := cursor
        pen := snapshotPen rowPen q.cols q.screen.visible } := by
  induction rows generalizing n c with
  | nil =>
    have hall : q.rows ≤ n := by
      rw [← laws.rowsLength hq hbottom]
      exact List.drop_eq_nil_iff.mp hrows
    have hpainted : paintedGrid q n = paintedGrid q q.rows := by
      rw [paintedGrid, paintedGrid, Nat.sub_eq_zero_of_le hall, Nat.sub_self,
        List.take_of_length_le (by rw [List.length_map, hlength]; exact hall),
        List.take_of_length_le (by rw [List.length_map, hlength])]
    refine ⟨c.cursor, ?_⟩
    rw [← hpainted, ← hgrid, ← List.take_of_length_le (hlength.trans_le hall), ← hpen]
    exact .refl _ c
  | cons bytes rows ih =>
    have hbytes : (vt.rowsDiff q.screen (blankScreen q.rows q.cols) 0 q.cols)[n]? =
        some bytes := by
      rw [← List.head?_drop, hrows]
      rfl
    have hrest : (vt.rowsDiff q.screen (blankScreen q.rows q.cols) 0 q.cols).drop (n + 1) =
        rows := by
      rw [← List.tail_drop, hrows]
      rfl
    have hn : n < q.rows := by
      rw [← laws.rowsLength hq hbottom]
      exact (List.getElem?_eq_some_iff.mp hbytes).1
    obtain ⟨row, hrow⟩ : ∃ row, q.screen.visible[n]? = some row :=
      ⟨_, List.getElem?_eq_getElem (hlength ▸ hn)⟩
    have hpenNext : snapshotPen rowPen q.cols (q.screen.visible.take (n + 1)) =
        if row.cells = (Row.blank q.cols).cells
          then snapshotPen rowPen q.cols (q.screen.visible.take n) else rowPen row := by
      rw [List.take_add_one, hrow, Option.toList_some, snapshotPen, List.foldl_append]
      rfl
    have hblank := laws.rowsBlank hq hbottom hbytes hrow
    rw [List.zipIdx_cons, List.flatMap_cons, render_append]
    by_cases hempty : bytes = []
    · have hnothing : render (snapshotRow 0 (bytes, n)) = [] := by
        rw [snapshotRow, if_neg (not_not.mpr hempty)]
        rfl
      rw [hnothing, List.nil_append]
      refine ih hrest hmargins ?_ ?_
      · rw [hgrid, paintedGrid_of_blank hrow hlength (hblank.mp hempty)]
      · rw [hpen, hpenNext, if_pos (hblank.mp hempty)]
    · have hops : render (snapshotRow 0 (bytes, n)) =
          TermOp.sgrReset.bytes ++ (cupBytes n 0 ++ (bytes ++ [])) := by
        rw [snapshotRow, if_pos hempty]
        rfl
      let placed : Core vt.Rest := { c with pen := defaultStyle, cursor := (n, 0) }
      have hplaced : Leads (Parser.new vt q.rows q.cols len) c
          (TermOp.sgrReset.bytes ++ cupBytes n 0) placed :=
        (laws.sgrReset.leads hmargins).trans fun hreached =>
          laws.cup ((Parser.new vt q.rows q.cols len).withCore { c with pen := defaultStyle })
            (ready_new hmargins hreached) n hn 0 hcols
      have hunpainted : c.grid[n]? = some (Row.blank q.cols) := by
        rw [hgrid]
        exact getElem?_paintedGrid hn hlength
      obtain ⟨col, hpaint⟩ : ∃ col, Leads (Parser.new vt q.rows q.cols len) placed bytes
          { placed with
            grid := placed.grid.set n row.unwrapped, cursor := (n, col), pen := rowPen row } := by
        by_cases hreached : vt.Reached ((Parser.new vt q.rows q.cols len).withCore placed)
        · obtain ⟨col, hsame⟩ := laws.rowsPaint hq hbottom hbytes hrow hempty
            ((Parser.new vt q.rows q.cols len).withCore placed) (ready_new hmargins hreached)
            rfl rfl rfl rfl hunpainted
          exact ⟨col, fun _ => hsame⟩
        · exact ⟨0, fun h => absurd h hreached⟩
      obtain ⟨cursor, hleads⟩ := ih (c := { placed with
          grid := placed.grid.set n row.unwrapped, cursor := (n, col), pen := rowPen row })
        hrest hmargins
        (by
          change c.grid.set n row.unwrapped = _
          rw [hgrid, set_paintedGrid hrow hlength])
        (by rw [hpenNext, if_neg fun h => hempty (hblank.mpr h)])
      refine ⟨cursor, ?_⟩
      rw [hops, List.append_nil, ← List.append_assoc]
      exact (hplaced.trans hpaint).trans hleads

end Snapshot

end G2mirror
