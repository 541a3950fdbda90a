import G2mirror.AsciiTerminal
import Mathlib.Data.List.TakeDrop

/-!
# The small emulator meets the assumptions

Everything the mirror's results assume of the emulator holds of the small one:
its snapshots are complete control functions, their pieces do to a screen what
they should, `state_diff` is faithful, and soft-wrap flags influence nothing.
-/

namespace G2mirror

namespace Ascii

/-! ### Recognising control functions -/

/-- Between two control functions, these bytes are recognised as these functions. -/
def Draws (bytes : Bytes) (ds : List AsciiDraw) : Prop :=
  asciiVt100.scan AsciiVte.ground bytes = (AsciiVte.ground, ds.map Action.draw)

theorem Draws.append {bs cs : Bytes} {ds es : List AsciiDraw} (h : Draws bs ds)
    (h' : Draws cs es) : Draws (bs ++ cs) (ds ++ es) := by
  rw [Draws, Vt100.scan_append, h, h', List.map_append]

/-- What is drawn is plain. -/
theorem Draws.plain {bytes : Bytes} {ds : List AsciiDraw} (h : Draws bytes ds) :
    asciiVt100.Plain bytes := by
  refine ⟨congrArg Prod.fst h, fun a ha => ?_⟩
  have hdrawn : (asciiVt100.scan asciiVt100.ground bytes).2 = ds.map Action.draw :=
    congrArg Prod.snd h
  rw [hdrawn] at ha
  obtain ⟨d, -, rfl⟩ := List.mem_map.mp ha
  exact fun h => nomatch h

theorem toNat_of_isDigit {c : Char} (hc : c.isDigit = true) : c.toNat.toUInt8.toNat = c.toNat := by
  have hsmall : c.toNat ≤ 57 := (Char.isDigit_iff_toNat.mp hc).2
  rw [Nat.toUInt8_eq, UInt8.toNat_ofNat']
  exact Nat.mod_eq_of_lt (by omega)

/-- The bytes of a decimal number are digits. -/
theorem digit_of_mem_decimal {n : ℕ} {b : UInt8} (hb : b ∈ decimal n) : 48 ≤ b ∧ b < 58 := by
  obtain ⟨c, hc, rfl⟩ := List.mem_map.mp hb
  have hdigit := Nat.isDigit_of_mem_toDigits (by decide) (by decide) hc
  have hbyte := toNat_of_isDigit hdigit
  rw [Char.isDigit_iff_toNat] at hdigit
  rw [UInt8.le_iff_toNat_le, UInt8.lt_iff_toNat_lt, hbyte]
  exact ⟨hdigit.1, Nat.lt_succ_of_le hdigit.2⟩

/-- Reading a decimal number back. -/
theorem number_decimal (n : ℕ) : number (decimal n) = n := by
  rw [number, decimal, List.foldl_map]
  refine Eq.trans (List.foldl_ext _ _ 0 fun k c hc => ?_) Nat.ofDigitChars_ten_toDigits
  rw [toNat_of_isDigit (Nat.isDigit_of_mem_toDigits (by decide) (by decide) hc)]
  rfl

/-- Parameters that the automaton only takes in. -/
theorem scan_params {vt : Vt100} {taking : Bytes → vt.Vte}
    (htaking : ∀ seen b, b < 64 → vt.advance (taking seen) b = (taking (seen ++ [b]), []))
    (seen : Bytes) {params : Bytes} (hparams : ∀ b ∈ params, b < 64) :
    vt.scan (taking seen) params = (taking (seen ++ params), []) := by
  induction params generalizing seen with
  | nil => rw [Vt100.scan_nil, List.append_nil]
  | cons b params ih =>
    have hrest := ih (seen ++ [b]) fun c hc => hparams c (List.mem_cons_of_mem b hc)
    rw [Vt100.scan_cons (htaking seen b (hparams b List.mem_cons_self)), hrest, List.nil_append,
      List.append_assoc, List.singleton_append]

/-- A control sequence takes in its parameters and is dispatched by its final byte. -/
theorem scan_csi (seen : Bytes) {params : Bytes} {final : UInt8} (hparams : ∀ b ∈ params, b < 64)
    (hfinal : 64 ≤ final) : asciiVt100.scan (AsciiVte.csi seen) (params ++ [final]) =
      (AsciiVte.ground, dispatch (seen ++ params) final) := by
  have htaking (seen : Bytes) (b : UInt8) (hb : b < 64) :
      asciiVt100.advance (AsciiVte.csi seen) b = (AsciiVte.csi (seen ++ [b]), []) :=
    if_neg (UInt8.not_le.mpr hb)
  have hstep : asciiVt100.advance (AsciiVte.csi (seen ++ params)) final =
      (AsciiVte.ground, dispatch (seen ++ params) final) := if_pos hfinal
  rw [Vt100.scan_append, scan_params htaking seen hparams, Vt100.scan_cons hstep,
    Vt100.scan_nil, List.append_nil, List.nil_append]

/-- `cup` addresses a cell. -/
theorem draws_cup (row col : ℕ) : Draws (cupBytes row col) [.cup row col] := by
  let params := decimal (row + 1) ++ 59 :: decimal (col + 1)
  have hbytes : cupBytes row col = 27 :: 91 :: (params ++ [72]) := by
    have hopen : ascii "\x1b[" = [27, 91] := by decide
    have hsep : ascii ";" = [59] := by decide
    have hclose : ascii "H" = [72] := by decide
    rw [cupBytes, hopen, hsep, hclose]
    simp only [params, List.append_assoc, List.cons_append, List.nil_append]
  have hparams : ∀ b ∈ params, b < 64 := by
    intro b hb
    rcases List.mem_append.mp hb with hb | hb
    · exact UInt8.lt_trans (digit_of_mem_decimal hb).2 (by decide)
    · rcases List.mem_cons.mp hb with rfl | hb
      · decide
      · exact UInt8.lt_trans (digit_of_mem_decimal hb).2 (by decide)
  have hrow : params.takeWhile (fun b => decide (b ≠ 59)) = decimal (row + 1) := by
    rw [List.takeWhile_append_of_pos]
    · simp
    · intro b hb
      have hdigit := (digit_of_mem_decimal hb).2
      exact decide_eq_true (by rintro rfl; exact absurd hdigit (by decide))
  have hcol : params.dropWhile (fun b => decide (b ≠ 59)) = 59 :: decimal (col + 1) := by
    rw [List.dropWhile_append_of_pos]
    · simp
    · intro b hb
      have hdigit := (digit_of_mem_decimal hb).2
      exact decide_eq_true (by rintro rfl; exact absurd hdigit (by decide))
  have hdispatch : dispatch params 72 = [.draw (.cup row col)] := by
    rw [dispatch, if_pos rfl, List.span_eq_takeWhile_dropWhile, hrow, hcol]
    simp only [List.tail_cons, number_decimal, Nat.add_sub_cancel]
  have hscan := scan_csi [] hparams (by decide : (64 : UInt8) ≤ 72)
  rw [List.nil_append, hdispatch] at hscan
  have hescape : asciiVt100.advance AsciiVte.ground 27 = (AsciiVte.escape, []) := rfl
  have hopened : asciiVt100.advance AsciiVte.escape 91 = (AsciiVte.csi [], []) := rfl
  rw [Draws, hbytes, Vt100.scan_cons hescape, Vt100.scan_cons hopened, hscan]
  rfl

theorem draws_nil : Draws [] [] := rfl

theorem draws_sgrReset : Draws TermOp.sgrReset.bytes [.sgrReset] := rfl

theorem draws_hideCursor : Draws TermOp.hideCursor.bytes [.hideCursor] := rfl

theorem draws_showCursor : Draws TermOp.showCursor.bytes [.showCursor] := rfl

theorem draws_clear : Draws TermOp.clear.bytes [.sgrReset, .cup 0 0, .erase] := rfl

theorem draws_syncBegin : Draws TermOp.syncBegin.bytes [] := rfl

theorem draws_syncEnd : Draws TermOp.syncEnd.bytes [] := rfl

theorem draws_forward : Draws (ascii "\x1b[C") [.forward 1] := rfl

/-- A printable byte prints. -/
theorem draws_print {b : UInt8} (h : printable b = true) : Draws [b] [.print ⟨b, h⟩] := by
  have hcontrol {c : UInt8} (hc : printable c = false) : b ≠ c := by
    rintro rfl
    exact absurd h (by rw [hc]; exact Bool.false_ne_true)
  have hstep : asciiVt100.advance AsciiVte.ground b =
      (AsciiVte.ground, [Action.draw (.print ⟨b, h⟩)]) := by
    change advance .ground b = _
    rw [advance, if_neg (hcontrol rfl), if_neg (hcontrol rfl), if_neg (hcontrol rfl),
      if_neg (hcontrol rfl), dif_pos h]
  rw [Draws, Vt100.scan_cons hstep, Vt100.scan_nil]
  rfl

/-- Any two cells: something is drawn, and nothing else. -/
theorem draws_cellDiff (cell prev : Cell) :
    ∃ ds, Draws (cellDiff cell prev) ds ∧ AsciiDraw.lineFeed ∉ ds := by
  rw [cellDiff]
  split
  · exact ⟨_, draws_forward, by simp⟩
  · split
    · split
      · exact ⟨_, draws_print ‹_›, by simp⟩
      · exact ⟨_, draws_forward, by simp⟩
    · exact ⟨[.eraseCell, .forward 1], rfl, by simp⟩

theorem draws_rowDiff (cells prev : List Cell) :
    ∃ ds, Draws (rowDiff cells prev) ds ∧ AsciiDraw.lineFeed ∉ ds := by
  induction cells generalizing prev with
  | nil => exact ⟨[], rfl, List.not_mem_nil⟩
  | cons cell cells ih =>
    rw [rowDiff]
    split
    · exact ⟨[], rfl, List.not_mem_nil⟩
    · obtain ⟨ds, hcell, hds⟩ := draws_cellDiff cell ((prev.head?).getD Cell.empty)
      obtain ⟨es, hrest, hes⟩ := ih prev.tail
      exact ⟨ds ++ es, hcell.append hrest, fun h => (List.mem_append.mp h).elim hds hes⟩

end Ascii

/-- Snapshots of the small emulator are complete control functions. -/
theorem asciiVt100_snapshotsPlain : asciiVt100.SnapshotsPlain where
  constants := by
    intro op hop
    simp only [List.mem_cons, List.not_mem_nil, or_false] at hop
    rcases hop with rfl | rfl | rfl | rfl | rfl | rfl
    · exact Ascii.draws_clear.plain
    · exact Ascii.draws_syncBegin.plain
    · exact Ascii.draws_syncEnd.plain
    · exact Ascii.draws_hideCursor.plain
    · exact Ascii.draws_showCursor.plain
    · exact Ascii.draws_sgrReset.plain
  cup := fun row col => (Ascii.draws_cup row col).plain
  rowsDiff := by
    intro screen prev start width bytes hbytes
    obtain ⟨⟨row, i⟩, -, rfl⟩ := List.mem_map.mp hbytes
    obtain ⟨ds, hdraws, -⟩ := Ascii.draws_rowDiff _ _
    exact hdraws.plain
  inputModeFormatted := fun _ => Ascii.draws_nil.plain

namespace Ascii

/-! ### The shape of reachable emulators -/

/-- A cell that was printed, or in which nothing was. -/
def Known (cell : Cell) : Prop := cell = Cell.empty ∨ ∃ b, printable b = true ∧ cell = printed b

/-- A grid of this size that holds nothing but printed and empty cells. -/
structure ShapedGrid (rows cols : ℕ) (grid : List Row) : Prop where
  length : grid.length = rows
  width : ∀ row ∈ grid, row.cells.length = cols
  unwrapped : ∀ row ∈ grid, row.wrapped = false
  known : ∀ row ∈ grid, ∀ cell ∈ row.cells, Known cell

/-- A state that new emulators are in and that drawing preserves. -/
structure Shaped (rows cols : ℕ) (c : Core AsciiRest) : Prop where
  grid : ShapedGrid rows cols c.grid
  cursor : clamp c.cursor rows cols = c.cursor
  pen : c.pen = defaultStyle
  margins : c.margins = (0, rows - 1)
  inputModes : c.inputModes = .default
  size : c.rest.rows = rows ∧ c.rest.cols = cols
  other : ShapedGrid rows cols c.rest.other.1
  otherCursor : clamp c.rest.other.2 rows cols = c.rest.other.2

theorem clamp_clamp (cursor : ℕ × ℕ) (rows cols : ℕ) :
    clamp (clamp cursor rows cols) rows cols = clamp cursor rows cols := by
  simp only [clamp, Nat.min_assoc, Nat.min_self]

/-- Grids are shaped row by row. -/
theorem shapedGrid_of_rows {rows cols : ℕ} {grid : List Row} (hlength : grid.length = rows)
    (hrows : ∀ row ∈ grid, row.cells.length = cols ∧ row.wrapped = false ∧
      ∀ cell ∈ row.cells, Known cell) : ShapedGrid rows cols grid :=
  ⟨hlength, fun row h => (hrows row h).1, fun row h => (hrows row h).2.1,
    fun row h => (hrows row h).2.2⟩

theorem shaped_blankRow (cols : ℕ) : (Row.blank cols).cells.length = cols ∧
    (Row.blank cols).wrapped = false ∧ ∀ cell ∈ (Row.blank cols).cells, Known cell :=
  ⟨List.length_replicate, rfl, fun _ h => .inl (List.eq_of_mem_replicate h)⟩

theorem shapedGrid_blank (rows cols : ℕ) :
    ShapedGrid rows cols (List.replicate rows (Row.blank cols)) := by
  refine shapedGrid_of_rows List.length_replicate fun row hrow => ?_
  rw [List.eq_of_mem_replicate hrow]
  exact shaped_blankRow cols

theorem shaped_blank (rows cols : ℕ) : Shaped rows cols (blank rows cols) :=
  ⟨shapedGrid_blank rows cols, by simp [clamp, blank], rfl, rfl, rfl, ⟨rfl, rfl⟩,
    shapedGrid_blank rows cols, by simp [clamp, blank]⟩

/-- Writing a known cell keeps the shape. -/
theorem Shaped.setCell {rows cols : ℕ} {c : Core AsciiRest} (h : Shaped rows cols c) {cell : Cell}
    (hcell : Known cell) : Shaped rows cols (setCell c cell) := by
  refine ⟨shapedGrid_of_rows ?_ fun row hrow => ?_, h.cursor, h.pen, h.margins, h.inputModes,
    h.size, h.other, h.otherCursor⟩
  · exact (List.length_modify _ _ _).trans h.grid.length
  · obtain ⟨i, hi⟩ := List.getElem?_of_mem hrow
    change (c.grid.modify _ _)[i]? = some row at hi
    rw [List.getElem?_modify, Option.map_eq_map, Option.map_eq_some_iff] at hi
    obtain ⟨old, hold, hnew⟩ := hi
    have hmem := List.mem_of_getElem? hold
    split at hnew
    · subst hnew
      refine ⟨List.length_set.trans (h.grid.width old hmem), h.grid.unwrapped old hmem,
        fun x hx => ?_⟩
      rcases List.mem_or_eq_of_mem_set hx with hx | rfl
      · exact h.grid.known old hmem x hx
      · exact hcell
    · subst hnew
      exact ⟨h.grid.width _ hmem, h.grid.unwrapped _ hmem, h.grid.known _ hmem⟩

theorem Shaped.moveForward {rows cols : ℕ} {c : Core AsciiRest} (h : Shaped rows cols c)
    (count : ℕ) : Shaped rows cols (moveForward c count) := by
  refine ⟨h.grid, ?_, h.pen, h.margins, h.inputModes, h.size, h.other, h.otherCursor⟩
  have hrow : min c.cursor.1 (rows - 1) = c.cursor.1 := congrArg Prod.fst h.cursor
  simp only [Ascii.moveForward, clamp, h.size.2, hrow, Nat.min_assoc, Nat.min_self]

/-- Drawing keeps the shape. -/
theorem Shaped.draw {rows cols : ℕ} {c : Core AsciiRest} (h : Shaped rows cols c) (d : AsciiDraw) :
    Shaped rows cols (draw c d).1 := by
  obtain ⟨hrows, hcols⟩ := h.size
  have hrow : min c.cursor.1 (rows - 1) = c.cursor.1 := congrArg Prod.fst h.cursor
  have hcol : min c.cursor.2 (cols - 1) = c.cursor.2 := congrArg Prod.snd h.cursor
  cases d with
  | print b => exact (h.setCell (.inr ⟨b.val, b.property, rfl⟩)).moveForward 1
  | forward count => exact h.moveForward count
  | eraseCell => exact h.setCell (.inl rfl)
  | lineFeed =>
    simp only [Ascii.draw]
    split
    · refine ⟨h.grid, ?_, h.pen, h.margins, h.inputModes, h.size, h.other, h.otherCursor⟩
      simp only [clamp, hcol]
      rw [Nat.min_eq_left (by omega)]
    · refine ⟨shapedGrid_of_rows ?_ fun row hmem => ?_, h.cursor, h.pen, h.margins, h.inputModes,
        h.size, h.other, h.otherCursor⟩
      · rw [List.length_drop, List.length_append, List.length_singleton, h.grid.length]
        omega
      · rcases List.mem_append.mp (List.mem_of_mem_drop hmem) with hmem | hmem
        · exact ⟨h.grid.width row hmem, h.grid.unwrapped row hmem, h.grid.known row hmem⟩
        · rw [List.mem_singleton.mp hmem, hcols]
          exact shaped_blankRow cols
  | carriageReturn =>
    exact ⟨h.grid, by simp only [Ascii.draw, clamp, hrow, Nat.zero_min], h.pen, h.margins,
      h.inputModes, h.size, h.other, h.otherCursor⟩
  | cup row col =>
    refine ⟨h.grid, ?_, h.pen, h.margins, h.inputModes, h.size, h.other, h.otherCursor⟩
    simp only [Ascii.draw, hrows, hcols, clamp_clamp]
  | erase =>
    refine ⟨?_, h.cursor, h.pen, h.margins, h.inputModes, h.size, h.other, h.otherCursor⟩
    simp only [Ascii.draw, hrows, hcols]
    exact shapedGrid_blank rows cols
  | sgrReset =>
    exact ⟨h.grid, h.cursor, rfl, h.margins, h.inputModes, h.size, h.other, h.otherCursor⟩
  | showCursor =>
    exact ⟨h.grid, h.cursor, h.pen, h.margins, h.inputModes, h.size, h.other, h.otherCursor⟩
  | hideCursor =>
    exact ⟨h.grid, h.cursor, h.pen, h.margins, h.inputModes, h.size, h.other, h.otherCursor⟩

theorem shapedGrid_resize {rows cols : ℕ} {grid : List Row} (h : ShapedGrid rows cols grid)
    (rows' cols' : ℕ) : ShapedGrid rows' cols' (resizeGrid grid rows' cols') := by
  refine shapedGrid_of_rows ?_ fun row hrow => ?_
  · rw [resizeGrid, List.length_map, List.length_append, List.length_take, List.length_replicate]
    omega
  · obtain ⟨old, hold, rfl⟩ := List.mem_map.mp hrow
    obtain ⟨hunwrapped, hknown⟩ : old.wrapped = false ∧ ∀ cell ∈ old.cells, Known cell := by
      rcases List.mem_append.mp hold with hmem | hmem
      · exact ⟨h.unwrapped old (List.mem_of_mem_take hmem), h.known old (List.mem_of_mem_take hmem)⟩
      · rw [List.eq_of_mem_replicate hmem]
        exact (shaped_blankRow cols').2
    refine ⟨?_, hunwrapped, fun cell hcell => ?_⟩
    · rw [List.length_append, List.length_take, List.length_replicate]
      omega
    · rcases List.mem_append.mp hcell with hcell | hcell
      · exact hknown cell (List.mem_of_mem_take hcell)
      · exact .inl (List.eq_of_mem_replicate hcell)

/-- A recognised function keeps the shape. -/
theorem shaped_perform {p : Parser asciiVt100} (h : Shaped p.rows p.cols p.core)
    (a : Action AsciiDraw) : Shaped (p.perform a).rows (p.perform a).cols (p.perform a).core := by
  cases a with
  | draw d =>
    have hdrawn : Shaped p.rows p.cols (draw p.core d).1 := h.draw d
    cases halt : p.alternate with
    | true =>
      rw [Parser.perform_draw_of_alternate halt]
      exact hdrawn
    | false =>
      rw [Parser.perform_draw_of_primary halt]
      have hsame := (p.withCore (draw p.core d).1).foldl_stage_same (draw p.core d).2
      rw [hsame.rows, hsame.cols, hsame.core]
      exact hdrawn
  | enterAlternate =>
    simp only [Parser.perform, Ascii.enterAlternate]
    split
    · exact h
    · refine ⟨?_, by simp [clamp], h.pen, h.margins, h.inputModes, h.size, h.grid, h.cursor⟩
      simp only [h.size.1, h.size.2]
      exact shapedGrid_blank _ _
  | leaveAlternate =>
    simp only [Parser.perform, Ascii.leaveAlternate]
    split
    · exact ⟨h.other, h.otherCursor, h.pen, h.margins, h.inputModes, h.size, h.other, h.otherCursor⟩
    · exact h
  | fullReset => exact shaped_blank _ _
  | bell => exact h
  | windowTitle title => exact h

/-- Every emulator that can be reached is shaped. -/
theorem reached_shaped {p : Parser asciiVt100} (h : asciiVt100.Reached p) :
    Shaped p.rows p.cols p.core := by
  have hfold {p : Parser asciiVt100} (h : Shaped p.rows p.cols p.core)
      (as : List (Action AsciiDraw)) : Shaped (as.foldl Parser.perform p).rows
        (as.foldl Parser.perform p).cols (as.foldl Parser.perform p).core := by
    induction as generalizing p with
    | nil => exact h
    | cons a as ih => exact ih (shaped_perform h a)
  induction h with
  | new rows cols scrollbackLen => exact shaped_blank rows cols
  | process bytes _ ih => exact hfold ih _
  | setSize rows cols _ ih =>
    exact ⟨shapedGrid_resize ih.grid rows cols, clamp_clamp _ _ _, ih.pen, rfl, ih.inputModes,
      ⟨rfl, rfl⟩, shapedGrid_resize ih.other rows cols, clamp_clamp _ _ _⟩
  | same _ hsame ih =>
    rw [hsame.rows, hsame.cols, hsame.core]
    exact ih

/-! ### Painting -/

/-- Several drawing functions. -/
def drawAll (c : Core AsciiRest) (ds : List AsciiDraw) : Core AsciiRest :=
  ds.foldl (fun c d => (draw c d).1) c

theorem drawAll_append (c : Core AsciiRest) (ds es : List AsciiDraw) :
    drawAll c (ds ++ es) = drawAll (drawAll c ds) es := List.foldl_append

/-- Whichever screen is active, its grid is drawn on. -/
theorem Draws.process {p : Parser asciiVt100} {bytes : Bytes} {ds : List AsciiDraw}
    (h : Draws bytes ds) (hground : p.vte = AsciiVte.ground) :
    (p.process bytes).Same (p.withCore (drawAll p.core ds)) := by
  have hfold (p : Parser asciiVt100) (ds : List AsciiDraw) :
      ((ds.map Action.draw).foldl Parser.perform p).Same (p.withCore (drawAll p.core ds)) := by
    induction ds generalizing p with
    | nil => exact .refl p
    | cons d ds ih =>
      have hone : (p.perform (.draw d)).Same (p.withCore (draw p.core d).1) := by
        cases halt : p.alternate with
        | true =>
          rw [Parser.perform_draw_of_alternate halt]
          exact .refl _
        | false =>
          rw [Parser.perform_draw_of_primary halt]
          exact Parser.foldl_stage_same _ _
      have hnext := ih (p.perform (.draw d))
      exact hnext.trans ⟨hone.rows, hone.cols, hone.vte, by rw [hone.core]; rfl, hone.alternate⟩
  have hall := hfold p ds
  have hactions : (asciiVt100.scan p.vte bytes).2 = ds.map Action.draw := by
    rw [hground]
    exact congrArg Prod.snd h
  have hend : (asciiVt100.scan p.vte bytes).1 = p.vte := by
    rw [hground]
    exact congrArg Prod.fst h
  rw [Parser.process_eq, hactions, hend]
  exact ⟨hall.rows, hall.cols, rfl, hall.core, hall.alternate⟩

/-- Drawing changes the active grid's state in one way. -/
theorem Draws.sets {bytes : Bytes} {ds : List AsciiDraw} (h : Draws bytes ds)
    {f : Core AsciiRest → Core AsciiRest} (hf : ∀ c, drawAll c ds = f c) :
    asciiVt100.Sets bytes f := by
  intro p hp
  rw [← hf]
  exact h.process hp.ground

/-- Only line feeds scroll. -/
theorem Draws.rowsOff {p : Parser asciiVt100} {bytes : Bytes} {ds : List AsciiDraw}
    (h : Draws bytes ds) (hground : p.vte = AsciiVte.ground) (hstill : AsciiDraw.lineFeed ∉ ds) :
    p.rowsOff bytes = [] := by
  have hfold (p : Parser asciiVt100) {ds : List AsciiDraw} (hstill : AsciiDraw.lineFeed ∉ ds) :
      p.rowsOffActions (ds.map Action.draw) = [] := by
    induction ds generalizing p with
    | nil => rfl
    | cons d ds ih =>
      have hone : p.rowsOffBy (.draw d) = [] := by
        rw [Parser.rowsOffBy]
        split
        · rfl
        · cases d with
          | lineFeed => exact absurd List.mem_cons_self hstill
          | _ => rfl
      rw [List.map_cons, Parser.rowsOffActions, hone, List.nil_append]
      exact ih _ fun hmem => hstill (List.mem_cons_of_mem d hmem)
  have hactions : (asciiVt100.scan p.vte bytes).2 = ds.map Action.draw := by
    rw [hground]
    exact congrArg Prod.snd h
  rw [Parser.rowsOff, hactions]
  exact hfold p hstill

/-- A modified row is a replaced row. -/
theorem modify_of_getElem? {α : Type} {l : List α} {k : ℕ} {a : α} (h : l[k]? = some a)
    (f : α → α) : l.modify k f = l.set k (f a) := by
  obtain ⟨hk, rfl⟩ := List.getElem?_eq_some_iff.mp h
  refine List.ext_getElem? fun i => ?_
  rw [List.getElem?_modify, List.getElem?_set, Option.map_eq_map]
  by_cases heq : k = i
  · subst heq
    simp only [if_true, hk, List.getElem?_eq_getElem hk, Option.map_some]
  · simp only [heq, if_false, Option.map_id']

/-- Replacing a row by itself. -/
theorem set_of_getElem? {α : Type} {l : List α} {k : ℕ} {a : α} (h : l[k]? = some a) :
    l.set k a = l := by
  obtain ⟨hk, rfl⟩ := List.getElem?_eq_some_iff.mp h
  exact List.set_getElem_self hk

/-- A row whose first cells are painted and whose other cells are blank. -/
def partRow (done : List Cell) (blanks : ℕ) : Row :=
  ⟨done ++ List.replicate blanks Cell.empty, false⟩

theorem cellDiff_ne_nil (cell prev : Cell) : cellDiff cell prev ≠ [] := by
  rw [cellDiff]
  split
  · decide
  · split
    · split
      · exact List.cons_ne_nil _ _
      · decide
    · decide

/-- Nothing is said of a row exactly if it is as before. -/
theorem rowDiff_eq_nil_iff {cells prev : List Cell} (hlength : cells.length = prev.length) :
    rowDiff cells prev = [] ↔ cells = prev := by
  induction cells generalizing prev with
  | nil => exact ⟨fun _ => (List.length_eq_zero_iff.mp hlength.symm).symm, fun _ => rfl⟩
  | cons cell cells ih =>
    obtain ⟨before, rest, rfl⟩ := List.exists_cons_of_length_eq_add_one hlength.symm
    have hrest := ih (Nat.succ.inj hlength)
    rw [rowDiff, List.head?_cons, Option.getD_some, List.tail_cons, List.cons.injEq, ← hrest]
    split
    · exact ⟨fun _ => ‹_›, fun _ => rfl⟩
    · rename_i hdiffer
      refine ⟨fun h => absurd (List.append_eq_nil_iff.mp h).1 (cellDiff_ne_nil _ _), fun h => ?_⟩
      exact absurd h hdiffer

/-- Drawing one known cell over a blank one and moving on. -/
theorem drawAll_cell {c : Core AsciiRest} {cell : Cell} (hknown : Known cell) {k : ℕ}
    {done : List Cell} {blanks : ℕ} (hrow : c.grid[k]? = some (partRow done (blanks + 1)))
    (hcursor : c.cursor = (k, done.length)) :
    ∃ ds, Draws (cellDiff cell Cell.empty) ds ∧ drawAll c ds =
      moveForward { c with grid := c.grid.set k (partRow (done ++ [cell]) blanks) } 1 := by
  have hsplit : partRow done (blanks + 1) = ⟨done ++ Cell.empty :: List.replicate blanks Cell.empty,
      false⟩ := rfl
  rcases hknown with rfl | ⟨b, hb, rfl⟩
  · refine ⟨_, draws_forward, ?_⟩
    have hsame : partRow (done ++ [Cell.empty]) blanks = partRow done (blanks + 1) := by
      rw [hsplit, partRow, List.append_assoc, List.singleton_append]
    rw [hsame, set_of_getElem? hrow]
    rfl
  · have hprinted : cellDiff (printed b) Cell.empty = [b] := by
      have hne : printed b ≠ Cell.empty := fun h => nomatch congrArg Cell.contents h
      rw [cellDiff, if_neg hne]
      exact if_pos hb
    refine ⟨_, hprinted ▸ draws_print hb, ?_⟩
    have hset : (setCell c (printed b)).grid =
        c.grid.set k (partRow (done ++ [printed b]) blanks) := by
      rw [setCell, hcursor, modify_of_getElem? hrow, hsplit, partRow, List.append_assoc,
        List.singleton_append, List.set_append_right _ _ le_rfl, Nat.sub_self, List.set_cons_zero]
    change moveForward (setCell c (printed b)) 1 = _
    rw [← hset]
    rfl

/-- Drawing what a blank row lacks. The row may be longer than what is drawn. -/
theorem drawAll_row (done : List Cell) (blanks : ℕ) {cells : List Cell}
    (hknown : ∀ cell ∈ cells, Known cell) {c : Core AsciiRest} {k : ℕ}
    (hrow : c.grid[k]? = some (partRow done (cells.length + blanks)))
    (hcursor : c.cursor = (k, done.length))
    (hcols : c.rest.cols = done.length + cells.length + blanks) :
    ∃ ds col, Draws (rowDiff cells (List.replicate cells.length Cell.empty)) ds ∧
      drawAll c ds =
        { c with grid := c.grid.set k (partRow (done ++ cells) blanks), cursor := (k, col) } := by
  induction cells generalizing c done with
  | nil =>
    have hsame : c.grid.set k (partRow (done ++ []) blanks) = c.grid := by
      rw [List.length_nil, Nat.zero_add] at hrow
      rw [List.append_nil, set_of_getElem? hrow]
    refine ⟨[], done.length, rfl, ?_⟩
    rw [hsame, ← hcursor]
    rfl
  | cons cell cells ih =>
    rw [List.length_cons, Nat.add_right_comm] at hrow
    rw [List.length_cons] at hcols
    obtain ⟨ds, hdraws, hcell⟩ := drawAll_cell (hknown cell List.mem_cons_self) hrow hcursor
    let next : Core AsciiRest :=
      moveForward
        { c with grid := c.grid.set k (partRow (done ++ [cell]) (cells.length + blanks)) } 1
    have hk : k < c.grid.length := (List.getElem?_eq_some_iff.mp hrow).1
    have hnextRow : next.grid[k]? = some (partRow (done ++ [cell]) (cells.length + blanks)) :=
      List.getElem?_set_self hk
    rw [rowDiff, List.length_cons, List.replicate_succ, List.head?_cons, Option.getD_some,
      List.tail_cons]
    by_cases hrest : rowDiff cells (List.replicate cells.length Cell.empty) = []
    · -- The rest of the row is blank: the cursor stays behind this cell.
      have hblank := (rowDiff_eq_nil_iff (by rw [List.length_replicate])).mp hrest
      have hdone : partRow (done ++ [cell]) (cells.length + blanks) =
          partRow (done ++ cell :: cells) blanks := by
        rw [partRow, partRow, List.replicate_add, ← hblank]
        simp only [List.append_assoc, List.cons_append, List.nil_append]
      split
      · rename_i hsame
        refine ⟨[], done.length, rfl, ?_⟩
        have hkeep : partRow done (cells.length + blanks + 1) =
            partRow (done ++ cell :: cells) blanks := by
          rw [← hdone, hsame.1, partRow, partRow, List.replicate_succ, List.append_assoc,
            List.singleton_append]
        rw [← hkeep, set_of_getElem? hrow, ← hcursor]
        rfl
      · refine ⟨ds, next.cursor.2, by rw [hrest, List.append_nil]; exact hdraws, ?_⟩
        have hfirst : next.cursor.1 = k := congrArg Prod.fst hcursor
        have hstay : (k, next.cursor.2) = next.cursor := by rw [← hfirst]
        rw [hcell, hstay, ← hdone]
        rfl
    · -- More cells follow, so the cursor moves on.
      have hmore : cells ≠ [] := by
        rintro rfl
        exact hrest rfl
      have hpositive : 0 < cells.length := List.length_pos_iff.mpr hmore
      have hnextCursor : next.cursor = (k, (done ++ [cell]).length) := by
        change (c.cursor.1, min (c.cursor.2 + 1) (c.rest.cols - 1)) = _
        rw [hcursor, hcols, List.length_append, List.length_singleton]
        exact congrArg (Prod.mk k) (by omega)
      obtain ⟨es, col, hes, hend⟩ := ih _ (fun x hx => hknown x (List.mem_cons_of_mem cell hx))
        hnextRow hnextCursor (by
          change c.rest.cols = _
          rw [hcols, List.length_append, List.length_singleton]
          omega)
      rw [if_neg fun h => hrest h.2]
      refine ⟨ds ++ es, col, hdraws.append hes, ?_⟩
      have hgrid : next.grid.set k (partRow (done ++ [cell] ++ cells) blanks) =
          c.grid.set k (partRow (done ++ cell :: cells) blanks) := by
        rw [List.append_assoc, List.singleton_append]
        exact List.set_set _
      rw [drawAll_append, hcell, hend, hgrid]
      rfl

/-- At its bottom an emulator shows its active grid. -/
theorem visible_of_reached {p : Parser asciiVt100} (h : asciiVt100.Reached p)
    (hbottom : p.AtBottom) : p.screen.visible = p.core.grid := by
  have hlength := (reached_shaped h).grid.length
  rw [hbottom.visible]
  split
  · rfl
  · exact List.take_of_length_le hlength.le

/-- What an emulator at its bottom shows. -/
theorem screen_of_reached {p : Parser asciiVt100} (h : asciiVt100.Reached p)
    (hbottom : p.AtBottom) : p.screen = ⟨p.rows, p.cols, p.core.grid, p.core.cursor,
      p.core.hideCursor, defaultStyle, .default⟩ := by
  rw [← visible_of_reached h hbottom, ← (reached_shaped h).pen, ← (reached_shaped h).inputModes]
  rfl

/-- The rows of a snapshot, cut at a width, against a blank screen. -/
theorem rowsDiff_crop {q : Parser asciiVt100} (h : asciiVt100.Reached q) (hbottom : q.AtBottom)
    {width : ℕ} (hwidth : width ≤ q.cols) :
    rowsDiff q.screen (blankScreen q.rows q.cols) 0 width = q.core.grid.map fun row =>
      rowDiff (row.cells.take width) (List.replicate width Cell.empty) := by
  have hshaped := reached_shaped h
  have hvisible := visible_of_reached h hbottom
  rw [rowsDiff, hvisible]
  refine List.ext_getElem (by rw [List.length_map, List.length_map, List.length_zipIdx])
    fun i hi hi' => ?_
  rw [List.length_map] at hi'
  have hrows : i < q.rows := hshaped.grid.length ▸ hi'
  have hblank : (blankScreen q.rows q.cols).visible[i]? = some (Row.blank q.cols) := by
    rw [blankScreen, List.getElem?_replicate, if_pos hrows]
  simp only [List.getElem_map, List.getElem_zipIdx, Nat.zero_add, hblank, Option.map_some,
    Option.getD_some, List.drop_zero, Row.blank]
  rw [List.take_replicate, Nat.min_eq_left hwidth]

/-- The rows of a snapshot at full width, against a blank screen. -/
theorem rowsDiff_blank {q : Parser asciiVt100} (h : asciiVt100.Reached q) (hbottom : q.AtBottom) :
    rowsDiff q.screen (blankScreen q.rows q.cols) 0 q.cols =
      q.core.grid.map fun row => rowDiff row.cells (List.replicate q.cols Cell.empty) := by
  rw [rowsDiff_crop h hbottom le_rfl]
  refine List.map_congr_left fun row hrow => ?_
  rw [List.take_of_length_le ((reached_shaped h).grid.width row hrow).le]

/-- The row of a snapshot that belongs to a visible row. -/
theorem getElem?_rowsDiff {q : Parser asciiVt100} (h : asciiVt100.Reached q) (hbottom : q.AtBottom)
    {width : ℕ} (hwidth : width ≤ q.cols) {k : ℕ} {bytes : Bytes} {row : Row}
    (hbytes : (rowsDiff q.screen (blankScreen q.rows q.cols) 0 width)[k]? = some bytes)
    (hrow : q.screen.visible[k]? = some row) :
    row ∈ q.core.grid ∧
      bytes = rowDiff (row.cells.take width) (List.replicate width Cell.empty) := by
  rw [visible_of_reached h hbottom] at hrow
  rw [rowsDiff_crop h hbottom hwidth, List.getElem?_map, hrow, Option.map_some,
    Option.some.injEq] at hbytes
  exact ⟨List.mem_of_getElem? hrow, hbytes.symm⟩

end Ascii

/-- The pieces of a snapshot do to the small emulator's screen what they should.
Every row ends in default attributes. -/
theorem asciiVt100_paints : asciiVt100.Paints fun _ => defaultStyle where
  blank := fun _ _ => rfl
  shape := by
    intro p hp hrows
    have hshaped := Ascii.reached_shaped hp
    have hcursor : min p.core.cursor.1 (p.rows - 1) = p.core.cursor.1 :=
      congrArg Prod.fst hshaped.cursor
    exact ⟨hshaped.grid.length, by omega⟩
  clear := by
    intro p hp
    have hsize := (Ascii.reached_shaped hp.reached).size
    have hdrawn : Ascii.drawAll p.core [.sgrReset, .cup 0 0, .erase] =
        { p.core with
          grid := List.replicate p.rows (Row.blank p.cols), cursor := (0, 0),
          pen := defaultStyle } := by
      simp [Ascii.drawAll, Ascii.draw, Ascii.clamp, hsize]
    rw [← hdrawn]
    exact Ascii.draws_clear.process hp.ground
  syncBegin := Ascii.draws_syncBegin.sets fun _ => rfl
  syncEnd := Ascii.draws_syncEnd.sets fun _ => rfl
  hideCursor := Ascii.draws_hideCursor.sets fun _ => rfl
  showCursor := Ascii.draws_showCursor.sets fun _ => rfl
  sgrReset := Ascii.draws_sgrReset.sets fun _ => rfl
  cup := by
    intro p hp row hrow col hcol
    have hsize := (Ascii.reached_shaped hp.reached).size
    have hdrawn : Ascii.drawAll p.core [.cup row col] = { p.core with cursor := (row, col) } := by
      simp only [Ascii.drawAll, List.foldl_cons, List.foldl_nil, Ascii.draw, Ascii.clamp, hsize]
      rw [Nat.min_eq_left (by omega), Nat.min_eq_left (by omega)]
    rw [← hdrawn]
    exact (Ascii.draws_cup row col).process hp.ground
  inputMode := by
    intro q hq p hp hmodes
    have hkept : p.withCore { p.core with inputModes := q.core.inputModes } = p := by
      rw [(Ascii.reached_shaped hq).inputModes, ← hmodes]
      rfl
    rw [hkept]
    exact .refl p
  rowsLength := by
    intro q hq hbottom
    change (Ascii.rowsDiff _ _ _ _).length = q.rows
    rw [Ascii.rowsDiff_blank hq hbottom, List.length_map, (Ascii.reached_shaped hq).grid.length]
  rowsBlank := by
    intro q hq hbottom k bytes row hbytes hrow
    obtain ⟨hmem, rfl⟩ := Ascii.getElem?_rowsDiff hq hbottom le_rfl hbytes hrow
    have hwidth := (Ascii.reached_shaped hq).grid.width row hmem
    rw [List.take_of_length_le hwidth.le]
    exact Ascii.rowDiff_eq_nil_iff (by rw [hwidth, List.length_replicate])
  rowsPaint := by
    intro q hq hbottom k bytes row hbytes hrow _ p hp _ hcols hcursor hpen hblank
    have hshaped := Ascii.reached_shaped hq
    obtain ⟨hmem, rfl⟩ := Ascii.getElem?_rowsDiff hq hbottom le_rfl hbytes hrow
    have hwidth := hshaped.grid.width row hmem
    rw [List.take_of_length_le hwidth.le]
    rw [← hwidth] at hblank ⊢
    obtain ⟨ds, col, hdraws, hend⟩ := Ascii.drawAll_row [] 0
      (hshaped.grid.known row hmem) hblank hcursor (by
        rw [(Ascii.reached_shaped hp.reached).size.2, hcols, hwidth, List.length_nil, Nat.zero_add,
          Nat.add_zero])
    have hfull : Ascii.partRow ([] ++ row.cells) 0 = ⟨row.cells, false⟩ := by
      rw [Ascii.partRow, List.nil_append, List.replicate_zero, List.append_nil]
    refine ⟨col, (hdraws.process hp.ground).trans ?_⟩
    rw [hend, hfull, ← hpen]
    exact .refl _

namespace Ascii

/-- The attributes never change, so a painted screen ends in default ones. -/
theorem snapshotPen_default (cols : ℕ) (rows : List Row) :
    snapshotPen (fun _ => defaultStyle) cols rows = defaultStyle := by
  rw [snapshotPen]
  induction rows with
  | nil => rfl
  | cons row rows ih =>
    rw [List.foldl_cons, ite_self]
    exact ih

/-- Rows of no columns need no painting. -/
theorem snapshotRows_of_noColumns {q : Parser asciiVt100} (h : asciiVt100.Reached q)
    (hbottom : q.AtBottom) (hcols : q.cols = 0) :
    (rowsDiff q.screen (blankScreen q.rows q.cols) 0 q.cols).zipIdx.flatMap (snapshotRow 0) =
      [] := by
  refine List.flatMap_eq_nil_iff.mpr fun row hrow => ?_
  have hmem := List.fst_mem_of_mem_zipIdx hrow
  rw [rowsDiff_blank h hbottom] at hmem
  obtain ⟨shown, hshown, hbytes⟩ := List.mem_map.mp hmem
  have hwidth := (reached_shaped h).grid.width shown hshown
  have hnothing : row.1 = [] := by
    rw [← hbytes, rowDiff_eq_nil_iff (hwidth.trans List.length_replicate.symm)]
    rw [hcols] at hwidth ⊢
    exact List.length_eq_zero_iff.mp hwidth
  rw [snapshotRow, if_neg (not_not.mpr hnothing)]

/-- A device's emulator is reachable, ready and at its bottom. -/
theorem device_ready {rows cols : ℕ} {e : Parser asciiVt100}
    (h : asciiVt100.Device rows cols e) :
    asciiVt100.Reached e ∧ e.rows = rows ∧ e.cols = cols ∧ e.vte = AsciiVte.ground ∧
      e.alternate = false ∧ e.offset = 0 := by
  have hfeed {e : Parser asciiVt100} {bytes : Bytes} (hplain : asciiVt100.Plain bytes)
      (hground : e.vte = AsciiVte.ground) (halt : e.alternate = false) :
      (e.process bytes).vte = AsciiVte.ground ∧ (e.process bytes).alternate = false := by
    rw [Parser.process_vte, Parser.process_alternate, hground, halt]
    exact ⟨hplain.1, Vt100.foldl_screenAfter_of_plain hplain.2⟩
  induction h with
  | @snapshot p scrollbackLen hp hbottom =>
    obtain ⟨hground, halt⟩ := hfeed (e := Parser.new asciiVt100 rows cols scrollbackLen)
      (asciiVt100_snapshotsPlain.snapshot p.screen rows cols) rfl rfl
    exact ⟨.process _ (.new rows cols scrollbackLen), Parser.process_rows _ _,
      Parser.process_cols _ _, hground, halt, Parser.process_offset rfl _⟩
  | @diff e p he hp hbottom hrows hcols ih =>
    obtain ⟨hreached, herows, hecols, hground, halt, hoffset⟩ := ih
    have hplain : asciiVt100.Plain (stateDiff p.screen e.screen) := by
      rw [stateDiff]
      split
      · exact Vt100.plain_nil _
      · refine Vt100.plain_render fun op hop => ?_
        simp only [List.mem_append, List.mem_cons, List.not_mem_nil, or_false] at hop
        rcases hop with (((rfl | rfl) | hrow) | rfl) | hshow
        · exact draws_clear.plain
        · exact draws_hideCursor.plain
        · refine asciiVt100_snapshotsPlain.body p.screen (blankScreen p.screen.rows p.screen.cols)
            0 0 p.screen.cols (fun r hr => ?_) op hrow
          exact List.fst_mem_of_mem_zipIdx hr
        · exact (draws_cup _ _).plain
        · split at hshow
          · exact absurd hshow List.not_mem_nil
          · rw [List.mem_singleton.mp hshow]
            exact draws_showCursor.plain
    obtain ⟨hground', halt'⟩ := hfeed hplain hground halt
    exact ⟨.process _ hreached, (Parser.process_rows _ _).trans herows,
      (Parser.process_cols _ _).trans hecols, hground', halt', Parser.process_offset hoffset _⟩

/-- Repainting leads any emulator of the right size to a screen. -/
theorem leads_repaint {p : Parser asciiVt100} (hp : asciiVt100.Reached p) (hbottom : p.AtBottom)
    {prev : Screen} (hdiffer : p.screen ≠ prev) {c : Core AsciiRest}
    (hmargins : c.margins = (0, p.rows - 1)) (hsize : c.rest.rows = p.rows ∧ c.rest.cols = p.cols) :
    ∃ c' : Core AsciiRest,
      Leads (Parser.new asciiVt100 p.rows p.cols 0) c (stateDiff p.screen prev) c' ∧
        c'.grid = p.core.grid ∧ c'.cursor = p.core.cursor ∧ c'.hideCursor = p.core.hideCursor := by
  have hshaped := reached_shaped hp
  have hvisible := visible_of_reached hp hbottom
  let e := Parser.new asciiVt100 p.rows p.cols 0
  have hdraws {bytes : Bytes} {ds : List AsciiDraw} (h : Draws bytes ds) (c : Core AsciiRest) :
      Leads e c bytes (drawAll c ds) :=
    fun _ => h.process rfl
  let cleared := drawAll (drawAll c [.sgrReset, .cup 0 0, .erase]) [.hideCursor]
  have hcleared : cleared.grid = List.replicate p.rows (Row.blank p.cols) ∧
      cleared.pen = defaultStyle := by
    simp only [cleared, drawAll, List.foldl_cons, List.foldl_nil, draw, hsize, and_self]
  let diffs := rowsDiff p.screen (blankScreen p.rows p.cols) 0 p.cols
  let body := diffs.zipIdx.flatMap (snapshotRow 0)
  obtain ⟨painted, hpainted, hgrid, hrest, hhidden⟩ : ∃ painted : Core AsciiRest,
      Leads e cleared (render body) painted ∧ painted.grid = p.core.grid ∧
        painted.rest = cleared.rest ∧ painted.hideCursor = true := by
    by_cases hcols : 0 < p.cols
    · obtain ⟨cursor, hleads⟩ := leads_body (n := 0) asciiVt100_paints hp hbottom
        (hvisible ▸ hshaped.grid.length) hcols 0 rfl (c := cleared) hmargins
        (by rw [hcleared.1, paintedGrid, List.take_zero, List.nil_append, Nat.sub_zero])
        (by rw [hcleared.2, snapshotPen_default])
      refine ⟨_, hleads, ?_, rfl, rfl⟩
      have hunwrapped : p.core.grid.map Row.unwrapped = p.core.grid.map id :=
        List.map_congr_left fun row hrow => by
          rw [Row.unwrapped, ← hshaped.grid.unwrapped row hrow]
          rfl
      change paintedGrid p p.rows = p.core.grid
      rw [paintedGrid, Nat.sub_self, List.replicate_zero, List.append_nil, hvisible, hunwrapped,
        List.map_id, List.take_of_length_le hshaped.grid.length.le]
    · have hnone : p.cols = 0 := by omega
      have hnothing : body = [] := snapshotRows_of_noColumns hp hbottom hnone
      have hblank : List.replicate p.rows (Row.blank p.cols) = p.core.grid := by
        refine (List.eq_replicate_iff.mpr ⟨hshaped.grid.length, fun row hrow => ?_⟩).symm
        have hcells : row.cells = [] :=
          List.length_eq_zero_iff.mp ((hshaped.grid.width row hrow).trans hnone)
        have hwrapped := hshaped.grid.unwrapped row hrow
        cases row
        simp_all [Row.blank]
      refine ⟨cleared, ?_, hcleared.1.trans hblank, rfl, rfl⟩
      rw [hnothing]
      exact .refl e cleared
  let placed := drawAll painted [.cup p.core.cursor.1 p.core.cursor.2]
  have hcursor : placed.cursor = p.core.cursor := by
    have hkept : painted.rest.rows = p.rows ∧ painted.rest.cols = p.cols := by
      rw [hrest]
      exact hsize
    simp only [placed, drawAll, List.foldl_cons, List.foldl_nil, draw, hkept]
    exact hshaped.cursor
  have hopened := (hdraws draws_clear c).trans (hdraws draws_hideCursor _)
  have hplaced := (hopened.trans hpainted).trans
    (hdraws (draws_cup p.core.cursor.1 p.core.cursor.2) painted)
  have hbytes : stateDiff p.screen prev = TermOp.clear.bytes ++ TermOp.hideCursor.bytes ++
      render body ++ cupBytes p.core.cursor.1 p.core.cursor.2 ++
        (if p.core.hideCursor then [] else TermOp.showCursor.bytes) := by
    rw [stateDiff, if_neg hdiffer]
    simp only [render_append, render_cons, render_nil, List.append_nil]
    change _ ++ render (if p.core.hideCursor = true then [] else [.showCursor]) = _
    cases p.core.hideCursor <;> rfl
  rw [hbytes]
  cases hhide : p.core.hideCursor with
  | true =>
    refine ⟨placed, ?_, hgrid, hcursor, hhidden⟩
    rw [if_pos rfl, List.append_nil]
    exact hplaced
  | false =>
    exact ⟨_, hplaced.trans (hdraws draws_showCursor placed), hgrid, hcursor, rfl⟩

end Ascii

/-- `state_diff` of the small emulator is faithful. -/
theorem asciiVt100_diffsFaithful : asciiVt100.DiffsFaithful := by
  intro rows cols e p he hp hbottom hrows hcols
  obtain ⟨hreached, herows, hecols, hground, halt, hoffset⟩ := Ascii.device_ready he
  by_cases hsame : p.screen = e.screen
  · have hnothing : asciiVt100.stateDiff p.screen e.screen = [] := if_pos hsame
    rw [hnothing, hsame]
    rfl
  · have hshaped := Ascii.reached_shaped hreached
    have hdone : asciiVt100.Reached (e.process (Ascii.stateDiff p.screen e.screen)) :=
      .process _ hreached
    have hend : (e.process (Ascii.stateDiff p.screen e.screen)).AtBottom :=
      Parser.atBottom_of_offset (Parser.process_offset hoffset _)
    have hlike : e.Same ((Parser.new asciiVt100 p.rows p.cols 0).withCore e.core) :=
      ⟨herows.trans hrows.symm, hecols.trans hcols.symm, hground, rfl, halt⟩
    obtain ⟨c, hleads, hgrid, hcursor, hhide⟩ := Ascii.leads_repaint hp hbottom hsame
      (c := e.core) (by rw [hshaped.margins, herows, hrows])
      ⟨hshaped.size.1.trans hlike.rows, hshaped.size.2.trans hlike.cols⟩
    have hall := (hlike.process (Ascii.stateDiff p.screen e.screen)).trans
      (hleads (.same hreached hlike.symm))
    change (e.process (Ascii.stateDiff p.screen e.screen)).screen = p.screen
    generalize e.process (Ascii.stateDiff p.screen e.screen) = done at hdone hend hall ⊢
    rw [Ascii.screen_of_reached hdone hend, Ascii.screen_of_reached hp hbottom, hall.rows,
      hall.cols, hall.core]
    change Screen.mk p.rows p.cols c.grid c.cursor c.hideCursor _ _ = _
    rw [hgrid, hcursor, hhide]

namespace Ascii

/-! ### Soft-wrap flags -/

/-- A state without soft-wrap flags. -/
def unwrapAll (c : Core AsciiRest) : Core AsciiRest :=
  { c with
    grid := c.grid.map Row.unwrapped
    rest := { c.rest with other := (c.rest.other.1.map Row.unwrapped, c.rest.other.2) } }

theorem map_unwrapped_eq {grid grid' : List Row} :
    grid.map Row.unwrapped = grid'.map Row.unwrapped ↔
      grid.map Row.cells = grid'.map Row.cells := by
  constructor
  · intro h
    have hcells := congrArg (List.map Row.cells) h
    rwa [List.map_map, List.map_map] at hcells
  · intro h
    have hrows := congrArg (List.map fun cells => Row.mk cells false) h
    rwa [List.map_map, List.map_map] at hrows

theorem map_unwrapped_modify (grid : List Row) (k col : ℕ) (cell : Cell) :
    (grid.modify k fun row => ⟨row.cells.set col cell, row.wrapped⟩).map Row.unwrapped =
      (grid.map Row.unwrapped).modify k fun row => ⟨row.cells.set col cell, row.wrapped⟩ := by
  refine List.ext_getElem? fun i => ?_
  rw [List.getElem?_map, List.getElem?_modify, List.getElem?_modify, List.getElem?_map]
  cases grid[i]? with
  | none => rfl
  | some row =>
    by_cases hk : k = i
    · simp only [hk, if_true]
      rfl
    · simp only [hk, if_false]
      rfl

/-- Soft-wrap flags influence no drawing function. -/
theorem unwrapAll_draw (c : Core AsciiRest) (d : AsciiDraw) :
    unwrapAll (draw c d).1 = (draw (unwrapAll c) d).1 := by
  have hset (cell : Cell) : unwrapAll (setCell c cell) = setCell (unwrapAll c) cell := by
    simp only [unwrapAll, setCell, map_unwrapped_modify]
  cases d with
  | print b =>
    change moveForward (unwrapAll (setCell c (printed b.val))) 1 = _
    rw [hset]
    rfl
  | eraseCell => exact hset Cell.empty
  | lineFeed =>
    by_cases hroom : c.cursor.1 + 1 < c.rest.rows
    · simp only [draw, unwrapAll, hroom, if_true]
    · simp only [draw, unwrapAll, hroom, if_false, List.map_drop, List.map_append]
      rfl
  | erase =>
    simp only [draw, unwrapAll, List.map_replicate]
    rfl
  | _ => rfl

theorem unwrapAll_enterAlternate (alternate : Bool) (c : Core AsciiRest) :
    unwrapAll (enterAlternate alternate c) = enterAlternate alternate (unwrapAll c) := by
  cases alternate with
  | true => rfl
  | false =>
    have hblank : (List.replicate c.rest.rows (Row.blank c.rest.cols)).map Row.unwrapped =
        List.replicate c.rest.rows (Row.blank c.rest.cols) := List.map_replicate
    simp only [enterAlternate, unwrapAll, Bool.false_eq_true, if_false, hblank]

theorem unwrapAll_leaveAlternate (alternate : Bool) (c : Core AsciiRest) :
    unwrapAll (leaveAlternate alternate c) = leaveAlternate alternate (unwrapAll c) := by
  cases alternate <;> rfl

end Ascii

/-- What later output depends on does not include soft-wrap flags. -/
theorem asciiVt100_wrapBlind :
    asciiVt100.WrapBlind fun c c' => Ascii.unwrapAll c = Ascii.unwrapAll c' where
  ofFlags := by
    intro c grid hcells
    simp only [Ascii.unwrapAll, Ascii.map_unwrapped_eq.mpr hcells]
  shows := by
    intro c c' h
    have hgrid : (Ascii.unwrapAll c).grid = (Ascii.unwrapAll c').grid := by rw [h]
    have hcursor : (Ascii.unwrapAll c).cursor = (Ascii.unwrapAll c').cursor := by rw [h]
    have hhide : (Ascii.unwrapAll c).hideCursor = (Ascii.unwrapAll c').hideCursor := by rw [h]
    exact ⟨Ascii.map_unwrapped_eq.mp hgrid, hcursor, hhide⟩
  draw := by
    intro c c' d h
    change Ascii.unwrapAll (Ascii.draw c d).1 = Ascii.unwrapAll (Ascii.draw c' d).1
    rw [Ascii.unwrapAll_draw, Ascii.unwrapAll_draw, h]
  enterAlternate := by
    intro c c' alternate h
    change Ascii.unwrapAll (Ascii.enterAlternate alternate c) = _
    rw [Ascii.unwrapAll_enterAlternate, h, ← Ascii.unwrapAll_enterAlternate]
  leaveAlternate := by
    intro c c' alternate h
    change Ascii.unwrapAll (Ascii.leaveAlternate alternate c) = _
    rw [Ascii.unwrapAll_leaveAlternate, h, ← Ascii.unwrapAll_leaveAlternate]

end G2mirror
