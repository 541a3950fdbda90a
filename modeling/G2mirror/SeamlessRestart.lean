import G2mirror.DiffStream

/-!
# Restarting a view at unchanged dimensions

A view start replaces the model by a new emulator that was fed a snapshot of it.
What the snapshot carries over is worked out here piece by piece: the cells, a
visible cursor and the input modes. What else later output depends on must
already be as a new terminal has it, and then the restart is seamless.
-/

namespace G2mirror

variable {vt : Vt100}

/-- What one sees of an emulator: the cells, the cursor's position and whether it is shown. -/
def Parser.shown (p : Parser vt) : List (List Cell) × (ℕ × ℕ) × Bool :=
  (p.screen.visible.map Row.cells, p.screen.cursor, p.screen.hideCursor)

/-- Two emulators that go on alike. -/
structure Parser.Alike (R : Core vt.Rest → Core vt.Rest → Prop) (p q : Parser vt) : Prop where
  rows : p.rows = q.rows
  cols : p.cols = q.cols
  vte : p.vte = q.vte
  alternate : p.alternate = q.alternate
  core : R p.core q.core

namespace Parser

variable {R : Core vt.Rest → Core vt.Rest → Prop}

theorem Alike.of_same {p p' q q' : Parser vt} (h : p.Alike R q) (hp : p'.Same p) (hq : q'.Same q) :
    p'.Alike R q' :=
  ⟨hp.rows.trans (h.rows.trans hq.rows.symm), hp.cols.trans (h.cols.trans hq.cols.symm),
    hp.vte.trans (h.vte.trans hq.vte.symm),
    hp.alternate.trans (h.alternate.trans hq.alternate.symm),
    by rw [hp.core, hq.core]; exact h.core⟩

/-- A recognised function keeps emulators alike. -/
theorem Alike.perform (laws : vt.WrapBlind R) {p q : Parser vt} (h : p.Alike R q)
    (a : Action vt.Draw) : (p.perform a).Alike R (q.perform a) := by
  cases a with
  | draw d =>
    have hdrawn : (p.withCore (vt.draw p.core d).1).Alike R (q.withCore (vt.draw q.core d).1) :=
      ⟨h.rows, h.cols, h.vte, h.alternate, laws.draw _ _ d h.core⟩
    cases halt : p.alternate with
    | true =>
      rw [perform_draw_of_alternate halt, perform_draw_of_alternate (h.alternate ▸ halt)]
      exact hdrawn
    | false =>
      rw [perform_draw_of_primary halt, perform_draw_of_primary (h.alternate ▸ halt)]
      exact hdrawn.of_same (foldl_stage_same _ _) (foldl_stage_same _ _)
  | enterAlternate =>
    refine ⟨h.rows, h.cols, h.vte, rfl, ?_⟩
    simp only [Parser.perform, h.alternate]
    exact laws.enterAlternate _ _ _ h.core
  | leaveAlternate =>
    refine ⟨h.rows, h.cols, h.vte, rfl, ?_⟩
    simp only [Parser.perform, h.alternate]
    exact laws.leaveAlternate _ _ _ h.core
  | fullReset =>
    refine ⟨h.rows, h.cols, h.vte, rfl, ?_⟩
    simp only [Parser.perform, h.rows, h.cols]
    exact laws.ofFlags _ _ rfl
  | bell => exact ⟨h.rows, h.cols, h.vte, h.alternate, h.core⟩
  | windowTitle title => exact ⟨h.rows, h.cols, h.vte, h.alternate, h.core⟩

/-- The same bytes keep emulators alike. -/
theorem Alike.process (laws : vt.WrapBlind R) {p q : Parser vt} (h : p.Alike R q) (bytes : Bytes) :
    (p.process bytes).Alike R (q.process bytes) := by
  have hfold {p q : Parser vt} (h : p.Alike R q) (as : List (Action vt.Draw)) :
      (as.foldl Parser.perform p).Alike R (as.foldl Parser.perform q) := by
    induction as generalizing p q with
    | nil => exact h
    | cons a as ih => exact ih (h.perform laws a)
  have hend := hfold h (vt.scan p.vte bytes).2
  rw [process_eq, process_eq, ← h.vte]
  exact ⟨hend.rows, hend.cols, rfl, hend.alternate, hend.core⟩

/-- Emulators that are alike show the same at their bottom. -/
theorem Alike.shown (laws : vt.WrapBlind R) {p q : Parser vt} (h : p.Alike R q)
    (hp : p.AtBottom) (hq : q.AtBottom) : p.shown = q.shown := by
  obtain ⟨hcells, hcursor, hhide⟩ := laws.shows _ _ h.core
  have hvisible : p.visibleRows.map Row.cells = q.visibleRows.map Row.cells := by
    change p.screen.visible.map Row.cells = q.screen.visible.map Row.cells
    rw [hp.visible, hq.visible, h.alternate, h.rows]
    split
    · exact hcells
    · rw [List.map_take, List.map_take, hcells]
  exact Prod.ext hvisible (Prod.ext hcursor hhide)

end Parser

/-- What later output depends on is what a snapshot carries over, or as a new
terminal has it: the app is on its primary screen and between two control
functions, the margins span the screen, the cursor is shown inside the columns,
the attributes are those in which the last non-blank row ends, and everything
else (saved cursors, tab stops, the other screen) is as on a new terminal. -/
structure Parser.Reproducible (rowPen : Row → CellStyle) (p : Parser vt) : Prop where
  ready : p.Ready
  cursorShown : p.core.hideCursor = false
  cursorInside : p.core.cursor.2 < p.cols
  pen : p.core.pen = snapshotPen rowPen p.cols p.core.grid
  rest : p.core.rest = (vt.blank p.rows p.cols).rest

/-- A shown cursor inside the screen is placed where it is. -/
theorem placeCursor_of_shown {screen : Screen} {rows cols : ℕ} (hshown : screen.hideCursor = false)
    (hrow : screen.cursor.1 < rows) (hcol : screen.cursor.2 < cols) :
    placeCursor screen 0 rows cols 0 =
      [.cup screen.cursor.1 screen.cursor.2, .showCursor] := by
  rw [placeCursor]
  split
  rename_i row col hcursor
  rw [hcursor] at hrow hcol
  rw [if_pos (by simp [hshown, hrow, hcol]), Nat.zero_add, Nat.sub_zero, hcursor]

/-- At unchanged dimensions nothing is cropped. -/
theorem renderSnapshot_uncropped {q : Parser vt} {rows : List Bytes}
    (hrows : vt.rowsDiff q.screen (blankScreen q.rows q.cols) 0 q.cols = rows)
    (hlength : rows.length = q.rows) :
    renderSnapshot vt q.screen q.rows q.cols =
      [.clear, .syncBegin, .hideCursor] ++ rows.zipIdx.flatMap (snapshotRow 0) ++
        [.inputMode (vt.inputModeFormatted q.core.inputModes)] ++
        placeCursor q.screen 0 q.rows q.cols 0 ++ [.syncEnd] := by
  have hall : (rows.zipIdx.drop 0).take q.rows = rows.zipIdx := by
    rw [List.drop_zero, List.take_of_length_le (by rw [List.length_zipIdx, hlength])]
  have hcrop : q.screen.rows - q.rows = 0 := Nat.sub_self _
  have hwidth : min q.cols q.screen.cols = q.cols := Nat.min_self _
  have hdiffs : vt.rowsDiff q.screen (blankScreen q.screen.rows q.screen.cols) 0 q.cols = rows :=
    hrows
  simp only [renderSnapshot, hcrop, hwidth, hdiffs, hall]
  rfl

/-- A new emulator fed the snapshot of a reproducible one is alike to it. -/
theorem Parser.Reproducible.alike {rowPen : Row → CellStyle}
    {R : Core vt.Rest → Core vt.Rest → Prop} (laws : vt.Paints rowPen) (blind : vt.WrapBlind R)
    {q : Parser vt} (h : q.Reproducible rowPen) (hq : vt.Reached q) (hbottom : q.AtBottom)
    (hrows : 0 < q.rows) (len : ℕ) :
    q.Alike R ((Parser.new vt q.rows q.cols len).process
      (render (renderSnapshot vt q.screen q.rows q.cols))) := by
  obtain ⟨hgridLength, hcursorRow⟩ := laws.shape hq hrows
  have hvisible : q.screen.visible = q.core.grid := by
    rw [hbottom.visible, if_neg (by rw [h.ready.primary]; exact Bool.false_ne_true),
      List.take_of_length_le hgridLength.le]
  have hlength : q.screen.visible.length = q.rows := by rw [hvisible, hgridLength]
  let e := Parser.new vt q.rows q.cols len
  let blank := vt.blank q.rows q.cols
  have hblank : blank = ⟨List.replicate q.rows (Row.blank q.cols), (0, 0), false, defaultStyle,
      (0, q.rows - 1), .default, blank.rest⟩ := laws.blank q.rows q.cols
  let cleared : Core vt.Rest := { blank with
    grid := List.replicate q.rows (Row.blank q.cols), cursor := (0, 0), pen := defaultStyle }
  let hidden : Core vt.Rest := { cleared with hideCursor := true }
  have hmargins : blank.margins = (0, q.rows - 1) := by rw [hblank]
  have hopened : Leads e blank (TermOp.clear.bytes ++ (TermOp.syncBegin.bytes ++
      TermOp.hideCursor.bytes)) hidden := by
    have hclear : Leads e blank TermOp.clear.bytes cleared :=
      fun hreached => laws.clear (e.withCore blank) (ready_new hmargins hreached)
    have hsync : Leads e cleared TermOp.syncBegin.bytes cleared := laws.syncBegin.leads hmargins
    have hhide : Leads e cleared TermOp.hideCursor.bytes hidden := laws.hideCursor.leads hmargins
    exact hclear.trans (hsync.trans hhide)
  obtain ⟨cursor, hbody⟩ := leads_body (n := 0) (c := hidden) laws hq hbottom hlength
    (by have := h.cursorInside; omega) len rfl hmargins
    (by rw [paintedGrid, List.take_zero, List.nil_append, Nat.sub_zero])
    (by rw [List.take_zero]; rfl)
  let painted : Core vt.Rest := { hidden with
    grid := paintedGrid q q.rows
    cursor := cursor
    pen := snapshotPen rowPen q.cols q.screen.visible }
  let moded : Core vt.Rest := { painted with inputModes := q.core.inputModes }
  have hmodes : Leads e painted (vt.inputModeFormatted q.core.inputModes) moded := by
    intro hreached
    refine laws.inputMode hq (e.withCore painted) (ready_new hmargins hreached) ?_
    change blank.inputModes = .default
    rw [hblank]
  let placed : Core vt.Rest := { moded with cursor := q.core.cursor }
  have hplaced : Leads e moded (cupBytes q.core.cursor.1 q.core.cursor.2) placed :=
    fun hreached =>
      laws.cup (e.withCore moded) (ready_new hmargins hreached) _ hcursorRow _ h.cursorInside
  let closed : Core vt.Rest := { placed with hideCursor := false }
  have hshow : Leads e placed TermOp.showCursor.bytes closed := laws.showCursor.leads hmargins
  have hend : Leads e closed TermOp.syncEnd.bytes closed := laws.syncEnd.leads hmargins
  have hall := hopened.trans (hbody.trans (hmodes.trans (hplaced.trans (hshow.trans hend))))
  have hsnapshot : render (renderSnapshot vt q.screen q.rows q.cols) =
      TermOp.clear.bytes ++ (TermOp.syncBegin.bytes ++ TermOp.hideCursor.bytes) ++
        (render (((vt.rowsDiff q.screen (blankScreen q.rows q.cols) 0 q.cols).drop 0).zipIdx.flatMap
            (snapshotRow 0)) ++
          (vt.inputModeFormatted q.core.inputModes ++
            (cupBytes q.core.cursor.1 q.core.cursor.2 ++
              (TermOp.showCursor.bytes ++ TermOp.syncEnd.bytes)))) := by
    rw [renderSnapshot_uncropped rfl (laws.rowsLength hq hbottom),
      placeCursor_of_shown h.cursorShown hcursorRow h.cursorInside]
    simp only [render_append, render_cons, render_nil, List.append_nil, List.append_assoc,
      List.drop_zero]
    rfl
  have hgrid : paintedGrid q q.rows = q.core.grid.map Row.unwrapped := by
    rw [paintedGrid, Nat.sub_self, List.replicate_zero, List.append_nil,
      List.take_of_length_le (by rw [List.length_map, hlength]), hvisible]
  have hend : closed = { q.core with grid := q.core.grid.map Row.unwrapped } := by
    simp only [closed, placed, moded, painted, hidden, cleared, hgrid, hvisible, ← h.pen,
      ← h.cursorShown, hmargins, ← h.ready.margins, blank, ← h.rest]
  refine Parser.Alike.of_same (p := q) (q := e.withCore closed) ?_ (.refl q) ?_
  · refine ⟨rfl, rfl, h.ready.ground, h.ready.primary, ?_⟩
    change R q.core closed
    rw [hend]
    refine blind.ofFlags q.core _ ?_
    rw [List.map_map]
    rfl
  · rw [hsnapshot]
    exact hall (.new q.rows q.cols len)

namespace Mirror

/-- Any number of chunks shows the emulator their bytes and leaves it at its bottom. -/
theorem feed_same {m : Mirror vt} (hrows : 0 < m.parser.rows) (hbottom : m.parser.AtBottom)
    (inputs : List Bytes) :
    (m.feed inputs).parser.Same (m.parser.process inputs.flatten) ∧
      (m.feed inputs).parser.AtBottom := by
  induction inputs generalizing m with
  | nil => exact ⟨.refl m.parser, hbottom⟩
  | cons bytes inputs ih =>
    obtain ⟨-, -, -, hsame, -⟩ := process_spec hrows bytes
    have hnext : 0 < (m.process bytes).2.parser.rows := by
      rw [hsame.rows, Parser.process_rows]
      exact hrows
    obtain ⟨hrest, hend⟩ := ih hnext (process_atBottom hrows hbottom bytes)
    refine ⟨hrest.trans ?_, hend⟩
    rw [List.flatten_cons, Parser.process_append]
    exact hsame.process _

/-- Restarting a view at unchanged dimensions is seamless when the model is
reproducible: whatever output follows, the model shows the same cells and the
same cursor as without the restart. -/
theorem restart_seamless {rowPen : Row → CellStyle} {R : Core vt.Rest → Core vt.Rest → Prop}
    (laws : vt.Paints rowPen) (blind : vt.WrapBlind R) {hostRows : ℕ} (hostCols : ℕ)
    (hrows : 0 < hostRows) {calls : List Call} (hcalls : ∀ c ∈ calls, c.Sized) (simulated : Bool) :
    let m := calls.foldl Mirror.call (Mirror.new vt hostRows hostCols)
    let restarted := (m.startView ⟨m.parser.rows, m.parser.cols, simulated⟩).2
    m.view.isSome → m.parser.Reproducible rowPen →
      ∀ inputs, (restarted.feed inputs).parser.shown = (m.feed inputs).parser.shown := by
  intro m restarted _ hm inputs
  have hsound : m.Sound := sound_of_calls hostCols hrows hcalls
  let view : View := ⟨m.parser.rows, m.parser.cols, simulated⟩
  have hscreen : (m.flushHistoryForRebuild view.rows).parser.screen = m.parser.screen :=
    flush_screen hsound.rows hsound.bottom view.rows
  have hparser : restarted.parser = (Parser.new vt m.parser.rows m.parser.cols
      stageScrollback).process (render (renderSnapshot vt m.parser.screen m.parser.rows
        m.parser.cols)) := by
    rw [← hscreen]
    rfl
  have halike : m.parser.Alike R restarted.parser := by
    rw [hparser]
    exact hm.alike laws blind hsound.reached hsound.bottom hsound.rows stageScrollback
  have hbottom : restarted.parser.AtBottom := by
    rw [hparser]
    exact Parser.atBottom_of_offset (Parser.process_offset rfl _)
  have hpositive : 0 < restarted.parser.rows := halike.rows ▸ hsound.rows
  obtain ⟨hfed, hend⟩ := feed_same hsound.rows hsound.bottom inputs
  obtain ⟨hfed', hend'⟩ := feed_same hpositive hbottom inputs
  exact (((halike.process blind inputs.flatten).of_same hfed hfed').shown blind hend hend').symm

/-- A hidden cursor is not carried over: after the restart the next character
lands in the first free place of the painted row instead of its first column. -/
theorem restart_moves_hidden_cursor :
    let calls := [.startView ⟨2, 4, false⟩, .process (ascii "\x1b[?25labc\r")]
    let m := calls.foldl Mirror.call (Mirror.new asciiVt100 2 4)
    let restarted := (m.startView ⟨m.parser.rows, m.parser.cols, false⟩).2
    (∀ c ∈ calls, c.Sized) ∧ m.view.isSome ∧
      (restarted.feed [ascii "x"]).parser.shown ≠ (m.feed [ascii "x"]).parser.shown := by
  decide

/-- With the cursor shown the restart is seamless. -/
theorem restart_seamless_with_shown_cursor :
    let calls := [.startView ⟨2, 4, false⟩, .process (ascii "abc\r")]
    let m := calls.foldl Mirror.call (Mirror.new asciiVt100 2 4)
    let restarted := (m.startView ⟨m.parser.rows, m.parser.cols, false⟩).2
    (restarted.feed [ascii "x"]).parser.shown = (m.feed [ascii "x"]).parser.shown := by
  intro calls m restarted
  have hsized : ∀ c ∈ calls, c.Sized := by decide
  have hview : m.view.isSome := by decide
  have hready : m.parser.Ready :=
    ⟨(sound_of_calls 4 (by decide : 0 < 2) hsized).reached, by decide, by decide, by decide⟩
  have hm : m.parser.Reproducible fun _ => defaultStyle :=
    ⟨hready, by decide, by decide, by decide, by decide⟩
  exact restart_seamless asciiVt100_paints asciiVt100_wrapBlind 4 (by decide : 0 < 2) hsized false
    hview hm [ascii "x"]

end Mirror

end G2mirror
