import G2mirror.SnapshotPainting

/-!
# A small emulator

An emulator of plain text: printable ASCII without autowrap, the cursor
movements and modes that snapshots use, and the alternate screen. It is enough
of `vt100` to run the mirror on concrete bytes, and it meets every assumption
made about the emulator.
-/

namespace G2mirror

/-- The byte automaton: between control functions, after ESC, or within a
control sequence, with the bytes of it so far. -/
inductive AsciiVte
  | ground
  | escape
  | csi (seen : Bytes)
  deriving DecidableEq

/-- The bytes that print. -/
def printable (b : UInt8) : Bool := 32 ≤ b && b < 127

/-- What the small emulator draws. -/
inductive AsciiDraw
  | print (b : {b : UInt8 // printable b})
  | lineFeed
  | carriageReturn
  | cup (row col : ℕ)
  | forward (count : ℕ)
  | erase
  | eraseCell
  | sgrReset
  | showCursor
  | hideCursor
  deriving DecidableEq

/-- What the mirror does not look at: the size, and the grid that is not active. -/
structure AsciiRest where
  rows : ℕ
  cols : ℕ
  other : List Row × (ℕ × ℕ)
  deriving DecidableEq

namespace Ascii

/-- The cell in which a byte was printed. -/
def printed (b : UInt8) : Cell := ⟨[b], false, defaultStyle⟩

/-- A decimal number. -/
def number (digits : Bytes) : ℕ := digits.foldl (fun n b => 10 * n + (b.toNat - 48)) 0

/-- A recognised control sequence, by its parameters and its final byte. -/
def dispatch (seen : Bytes) (final : UInt8) : List (Action AsciiDraw) :=
  if final = 72 then
    let (row, rest) := seen.span (· ≠ 59)
    [.draw (.cup (number row - 1) (number rest.tail - 1))]
  else if final = 67 then [.draw (.forward (max 1 (number seen)))]
  else if final = 74 && seen = ascii "2" then [.draw .erase]
  else if final = 88 && seen = [] then [.draw .eraseCell]
  else if final = 109 && seen = ascii "0" then [.draw .sgrReset]
  else if final = 104 && seen = ascii "?25" then [.draw .showCursor]
  else if final = 108 && seen = ascii "?25" then [.draw .hideCursor]
  else if final = 104 && seen = ascii "?1049" then [.enterAlternate]
  else if final = 108 && seen = ascii "?1049" then [.leaveAlternate]
  else []

/-- One byte. -/
def advance : AsciiVte → UInt8 → AsciiVte × List (Action AsciiDraw)
  | .ground, b =>
    if b = 27 then (.escape, [])
    else if b = 10 then (.ground, [.draw .lineFeed])
    else if b = 13 then (.ground, [.draw .carriageReturn])
    else if b = 7 then (.ground, [.bell])
    else if h : printable b then (.ground, [.draw (.print ⟨b, h⟩)])
    else (.ground, [])
  | .escape, b =>
    if b = 91 then (.csi [], [])
    else if b = 99 then (.ground, [.fullReset])
    else (.ground, [])
  | .csi seen, b => if 64 ≤ b then (.ground, dispatch seen b) else (.csi (seen ++ [b]), [])

/-- A new screen. -/
def blank (rows cols : ℕ) : Core AsciiRest where
  grid := List.replicate rows (Row.blank cols)
  cursor := (0, 0)
  hideCursor := false
  pen := defaultStyle
  margins := (0, rows - 1)
  inputModes := .default
  rest := ⟨rows, cols, List.replicate rows (Row.blank cols), (0, 0)⟩

/-- Write a cell at the cursor. -/
def setCell (c : Core AsciiRest) (cell : Cell) : Core AsciiRest :=
  { c with
    grid := c.grid.modify c.cursor.1 fun row => ⟨row.cells.set c.cursor.2 cell, row.wrapped⟩ }

/-- Move forward, at most to the last column. -/
def moveForward (c : Core AsciiRest) (count : ℕ) : Core AsciiRest :=
  { c with cursor := (c.cursor.1, min (c.cursor.2 + count) (c.rest.cols - 1)) }

/-- Move a cursor into a screen of this size. -/
def clamp (cursor : ℕ × ℕ) (rows cols : ℕ) : ℕ × ℕ :=
  (min cursor.1 (rows - 1), min cursor.2 (cols - 1))

/-- Draw, and answer the rows that scroll off. -/
def draw (c : Core AsciiRest) : AsciiDraw → Core AsciiRest × List Row
  | .print b => (moveForward (setCell c (printed b.val)) 1, [])
  | .lineFeed =>
    if c.cursor.1 + 1 < c.rest.rows then ({ c with cursor := (c.cursor.1 + 1, c.cursor.2) }, [])
    else ({ c with grid := (c.grid ++ [Row.blank c.rest.cols]).drop 1 }, c.grid.take 1)
  | .carriageReturn => ({ c with cursor := (c.cursor.1, 0) }, [])
  | .cup row col => ({ c with cursor := clamp (row, col) c.rest.rows c.rest.cols }, [])
  | .forward count => (moveForward c count, [])
  | .erase => ({ c with grid := List.replicate c.rest.rows (Row.blank c.rest.cols) }, [])
  | .eraseCell => (setCell c Cell.empty, [])
  | .sgrReset => ({ c with pen := defaultStyle }, [])
  | .showCursor => ({ c with hideCursor := false }, [])
  | .hideCursor => ({ c with hideCursor := true }, [])

/-- The alternate screen is blank when it is entered. -/
def enterAlternate (alternate : Bool) (c : Core AsciiRest) : Core AsciiRest :=
  if alternate then c
  else
    { c with
      grid := List.replicate c.rest.rows (Row.blank c.rest.cols)
      cursor := (0, 0)
      rest := { c.rest with other := (c.grid, c.cursor) } }

/-- Leaving the alternate screen restores the primary one. -/
def leaveAlternate (alternate : Bool) (c : Core AsciiRest) : Core AsciiRest :=
  if alternate then { c with grid := c.rest.other.1, cursor := c.rest.other.2 } else c

/-- Cut or fill up a grid to another size. -/
def resizeGrid (grid : List Row) (rows cols : ℕ) : List Row :=
  (grid.take rows ++ List.replicate (rows - grid.length) (Row.blank cols)).map fun row =>
    ⟨row.cells.take cols ++ List.replicate (cols - row.cells.length) Cell.empty, row.wrapped⟩

/-- Resize both screens. -/
def setSize (c : Core AsciiRest) (rows cols : ℕ) : Core AsciiRest :=
  { c with
    grid := resizeGrid c.grid rows cols
    cursor := clamp c.cursor rows cols
    margins := (0, rows - 1)
    rest := ⟨rows, cols, resizeGrid c.rest.other.1 rows cols, clamp c.rest.other.2 rows cols⟩ }

/-- What turns one cell into another one and moves on. -/
def cellDiff (cell prev : Cell) : Bytes :=
  if cell = prev then ascii "\x1b[C"
  else match cell.contents with
    | [b] => if printable b then [b] else ascii "\x1b[C"
    | _ => ascii "\x1b[X\x1b[C"

/-- What turns the cells of a row into others: nothing past the last difference. -/
def rowDiff : List Cell → List Cell → Bytes
  | [], _ => []
  | cell :: cells, prev =>
    let before := (prev.head?).getD Cell.empty
    let rest := rowDiff cells prev.tail
    if cell = before ∧ rest = [] then [] else cellDiff cell before ++ rest

/-- `rows_diff`: what turns each row into the other screen's. -/
def rowsDiff (screen prev : Screen) (start width : ℕ) : List Bytes :=
  screen.visible.zipIdx.map fun (row, i) =>
    rowDiff ((row.cells.drop start).take width)
      (((((prev.visible[i]?).map Row.cells).getD []).drop start).take width)

/-- `state_diff`: nothing between equal screens, and a repaint between others. -/
def stateDiff (cur prev : Screen) : Bytes :=
  if cur = prev then []
  else
    render ([.clear, .hideCursor] ++
      (rowsDiff cur (blankScreen cur.rows cur.cols) 0 cur.cols).zipIdx.flatMap (snapshotRow 0) ++
      [.cup cur.cursor.1 cur.cursor.2] ++ (if cur.hideCursor then [] else [.showCursor]))

end Ascii

/-- The small emulator. -/
abbrev asciiVt100 : Vt100 where
  Vte := AsciiVte
  Draw := AsciiDraw
  Rest := AsciiRest
  ground := .ground
  advance := Ascii.advance
  blank := Ascii.blank
  draw := Ascii.draw
  enterAlternate := Ascii.enterAlternate
  enterRewinds := true
  leaveAlternate := Ascii.leaveAlternate
  setSize := Ascii.setSize
  rowsDiff := Ascii.rowsDiff
  inputModeFormatted := fun _ => []
  inputModeDiff := fun _ _ => []
  stateDiff := Ascii.stateDiff

/-- The small emulator with an alternate screen that leaves the primary grid alone. -/
abbrev keepingVt100 : Vt100 := { asciiVt100 with enterRewinds := false }

theorem keepingVt100_keepsOffset : keepingVt100.KeepsOffset := rfl

example : ((Parser.new asciiVt100 2 4 10).process (ascii "ab\r\ncd\r\ne\x1b[Cf")).screen.visible =
    [⟨[Ascii.printed 99, Ascii.printed 100, Cell.empty, Cell.empty], false⟩,
      ⟨[Ascii.printed 101, Cell.empty, Ascii.printed 102, Cell.empty], false⟩] := by decide

end G2mirror
