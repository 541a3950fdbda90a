import G2mirror.History

/-!
# The terminal emulator the mirror is built on

`vt100` is a third-party crate. What it does with bytes is a parameter
(`Vt100`): a byte automaton that recognises control functions, and what each
of them does to the screen. What the mirror's own bookkeeping rests on is
modelled here: the staging scrollback of the primary grid with its offset, the
alternate-screen flag, and the callbacks for bells and titles.
-/

namespace G2mirror

/-- Bytes of an ASCII string. -/
def ascii (s : String) : Bytes := s.toList.map fun c => c.toNat.toUInt8

/-- `vt100::Color`. -/
inductive Color
  | default
  | idx (i : UInt8)
  | rgb (r g b : UInt8)
  deriving DecidableEq

/-- `CellStyle`: the attributes of a cell that the mirror reads. -/
structure CellStyle where
  fg : Color
  bg : Color
  bold : Bool
  dim : Bool
  italic : Bool
  underline : Bool
  inverse : Bool
  deriving DecidableEq

/-- `DEFAULT_STYLE`. -/
def defaultStyle : CellStyle := ⟨.default, .default, false, false, false, false, false⟩

/-- `vt100::Cell`: the text of a cell (empty where nothing was printed), whether
it continues a double-width character, and its style. -/
structure Cell where
  contents : Bytes
  wideContinuation : Bool
  style : CellStyle
  deriving DecidableEq

/-- A cell in which nothing was ever printed. -/
def Cell.empty : Cell := ⟨[], false, defaultStyle⟩

/-- A row of the grid and whether it soft-wraps onto the next one. -/
structure Row where
  cells : List Cell
  wrapped : Bool
  deriving DecidableEq

/-- A row in which nothing was ever printed. -/
def Row.blank (cols : ℕ) : Row := ⟨List.replicate cols Cell.empty, false⟩

/-- `vt100::MouseProtocolMode`. -/
inductive MouseMode
  | none | press | pressRelease | buttonMotion | anyMotion
  deriving DecidableEq

/-- `vt100::MouseProtocolEncoding`. -/
inductive MouseEncoding
  | default | utf8 | sgr
  deriving DecidableEq

/-- The input modes that `input_mode_formatted` and `input_mode_diff` carry. -/
structure InputModes where
  applicationKeypad : Bool
  applicationCursor : Bool
  bracketedPaste : Bool
  mouseMode : MouseMode
  mouseEncoding : MouseEncoding
  deriving DecidableEq

/-- The input modes of a new terminal. -/
def InputModes.default : InputModes := ⟨false, false, false, .none, .default⟩

/-- What rendering reads of a screen: the visible rows (at the scrollback
offset of the active grid), the cursor, the current attributes and the input modes. -/
structure Screen where
  rows : ℕ
  cols : ℕ
  visible : List Row
  cursor : ℕ × ℕ
  hideCursor : Bool
  pen : CellStyle
  inputModes : InputModes
  deriving DecidableEq

/-- `Screen::cell`: the cell at a visible position, if there is one. -/
def Screen.cell (s : Screen) (row col : ℕ) : Option Cell :=
  (s.visible[row]?).bind fun r => r.cells[col]?

/-- `blank_screen`: the screen of a new terminal of this size. -/
def blankScreen (rows cols : ℕ) : Screen :=
  ⟨rows, cols, List.replicate rows (Row.blank cols), (0, 0), false, defaultStyle, .default⟩

/-- The state of the active grid and everything else that later output depends
on. `rest` is what the mirror never looks at: the grid that is not active,
saved cursors, tab stops and the like. -/
structure Core (Rest : Type) where
  grid : List Row
  cursor : ℕ × ℕ
  hideCursor : Bool
  pen : CellStyle
  margins : ℕ × ℕ
  inputModes : InputModes
  rest : Rest

/-- What the byte automaton recognises. `draw` covers printing, cursor
movement, erasing, attributes and modes. -/
inductive Action (Draw : Type)
  | enterAlternate
  | leaveAlternate
  | fullReset
  | bell
  | windowTitle (title : String)
  | draw (d : Draw)

instance {Draw : Type} (a : Action Draw) : Decidable (a = .fullReset) :=
  match a with
  | .fullReset => isTrue rfl
  | .enterAlternate | .leaveAlternate | .bell | .windowTitle _ | .draw _ => isFalse nofun

/-- The third-party emulator: its byte automaton, what each recognised
function does, and the escape sequences it renders screens with. `draw` also
answers the rows it hands to the scrollback of the active grid, oldest first.
`enterRewinds` says whether entering the alternate screen scrolls the primary grid
to its bottom; `enter_alternate_grid` of the crate calls `set_scrollback(0)`. -/
structure Vt100 where
  Vte : Type
  Draw : Type
  Rest : Type
  ground : Vte
  advance : Vte → UInt8 → Vte × List (Action Draw)
  blank : ℕ → ℕ → Core Rest
  draw : Core Rest → Draw → Core Rest × List Row
  enterAlternate : Bool → Core Rest → Core Rest
  enterRewinds : Bool
  leaveAlternate : Bool → Core Rest → Core Rest
  setSize : Core Rest → ℕ → ℕ → Core Rest
  rowsDiff : Screen → Screen → ℕ → ℕ → List Bytes
  inputModeFormatted : InputModes → Bytes
  inputModeDiff : InputModes → InputModes → Bytes
  stateDiff : Screen → Screen → Bytes

variable {vt : Vt100}

/-- The automaton over several bytes: where it ends and what it recognised. -/
def Vt100.scan (vt : Vt100) (v : vt.Vte) : Bytes → vt.Vte × List (Action vt.Draw)
  | [] => (v, [])
  | b :: bs =>
    let (v', now) := vt.advance v b
    let (v'', later) := vt.scan v' bs
    (v'', now ++ later)

@[simp] theorem Vt100.scan_nil (v : vt.Vte) : vt.scan v [] = (v, []) := rfl

theorem Vt100.scan_cons {v v' : vt.Vte} {b : UInt8} {now : List (Action vt.Draw)}
    (h : vt.advance v b = (v', now)) (bs : Bytes) :
    vt.scan v (b :: bs) = ((vt.scan v' bs).1, now ++ (vt.scan v' bs).2) := by
  simp only [Vt100.scan, h]

/-- What is recognised does not depend on how the bytes are split into calls. -/
theorem Vt100.scan_append (v : vt.Vte) (bs cs : Bytes) :
    vt.scan v (bs ++ cs) =
      ((vt.scan (vt.scan v bs).1 cs).1, (vt.scan v bs).2 ++ (vt.scan (vt.scan v bs).1 cs).2) := by
  induction bs generalizing v with
  | nil => rfl
  | cons b bs ih => simp only [List.cons_append, Vt100.scan, ih, List.append_assoc]

/-- `vt100::Parser`, with the `Events` callbacks folded in. `staged` is the
scrollback of the primary grid, oldest row first, and `offset` how far the
primary grid is scrolled back into it; the alternate grid has no scrollback. -/
structure Parser (vt : Vt100) where
  rows : ℕ
  cols : ℕ
  scrollbackLen : ℕ
  vte : vt.Vte
  core : Core vt.Rest
  alternate : Bool
  staged : List Row
  offset : ℕ
  bells : ℕ
  title : Option String

namespace Parser

/-- `Parser::new` and `Parser::new_with_callbacks`. -/
def new (vt : Vt100) (rows cols scrollbackLen : ℕ) : Parser vt :=
  ⟨rows, cols, scrollbackLen, vt.ground, vt.blank rows cols, false, [], 0, 0, none⟩

/-- A row leaves the top of the primary grid: it is pushed to the staging
scrollback, and a scrolled-back view keeps showing the same rows. -/
def stage (p : Parser vt) (row : Row) : Parser vt :=
  let staged := CappedQueue.push p.scrollbackLen p.staged row
  { p with
    staged := staged
    offset := if 0 < p.offset then min staged.length (p.offset + 1) else p.offset }

/-- The effect of one recognised function. -/
def perform (p : Parser vt) : Action vt.Draw → Parser vt
  | .enterAlternate =>
    { p with
      alternate := true
      core := vt.enterAlternate p.alternate p.core
      offset := if vt.enterRewinds && !p.alternate then 0 else p.offset }
  | .leaveAlternate =>
    { p with alternate := false, core := vt.leaveAlternate p.alternate p.core }
  | .fullReset =>
    { p with alternate := false, core := vt.blank p.rows p.cols, staged := [], offset := 0 }
  | .bell => { p with bells := p.bells + 1 }
  | .windowTitle title => { p with title := some title }
  | .draw d =>
    let (core, off) := vt.draw p.core d
    if p.alternate then { p with core := core }
    else off.foldl stage { p with core := core }

/-- `Parser::process`. -/
def process (p : Parser vt) (bytes : Bytes) : Parser vt :=
  let (vte, actions) := vt.scan p.vte bytes
  { actions.foldl perform p with vte := vte }

/-- The rows visible at the scrollback offset of the active grid. -/
def visibleRows (p : Parser vt) : List Row :=
  if p.alternate then p.core.grid
  else (p.staged.rtake p.offset).take p.rows ++ p.core.grid.take (p.rows - p.offset)

/-- `Parser::screen`, as far as rendering reads it. -/
def screen (p : Parser vt) : Screen :=
  ⟨p.rows, p.cols, p.visibleRows, p.core.cursor, p.core.hideCursor, p.core.pen, p.core.inputModes⟩

/-- The parser with its primary grid scrolled back by `offset` rows. -/
def withOffset (p : Parser vt) (offset : ℕ) : Parser vt := { p with offset := offset }

/-- `Screen::set_scrollback`, on the active grid. -/
def setScrollback (p : Parser vt) (n : ℕ) : Parser vt :=
  if p.alternate then p else p.withOffset (min n p.staged.length)

/-- `Screen::scrollback`, of the active grid. -/
def scrollback (p : Parser vt) : ℕ := if p.alternate then 0 else p.offset

/-- `Screen::set_size`: staged rows survive it. -/
def setSize (p : Parser vt) (rows cols : ℕ) : Parser vt :=
  { p with rows := rows, cols := cols, core := vt.setSize p.core rows cols }

/-- `set_scrollback(usize::MAX)` shows the oldest staged row. -/
def scrollToTop (p : Parser vt) : Parser vt :=
  if p.alternate then p else p.withOffset p.staged.length

@[simp] theorem withOffset_alternate (p : Parser vt) (n : ℕ) :
    (p.withOffset n).alternate = p.alternate := rfl

@[simp] theorem withOffset_rows (p : Parser vt) (n : ℕ) : (p.withOffset n).rows = p.rows := rfl

@[simp] theorem withOffset_cols (p : Parser vt) (n : ℕ) : (p.withOffset n).cols = p.cols := rfl

@[simp] theorem withOffset_staged (p : Parser vt) (n : ℕ) :
    (p.withOffset n).staged = p.staged := rfl

@[simp] theorem withOffset_withOffset (p : Parser vt) (n k : ℕ) :
    (p.withOffset n).withOffset k = p.withOffset k := rfl

/-- On the primary screen the offset moves, as far as rows are staged. -/
theorem setScrollback_of_primary {p : Parser vt} (halt : p.alternate = false) (n : ℕ) :
    p.setScrollback n = p.withOffset (min n p.staged.length) := by
  simp only [setScrollback, halt, Bool.false_eq_true, if_false]

/-- Scrolling to the bottom always works on the primary screen. -/
theorem setScrollback_zero {p : Parser vt} (halt : p.alternate = false) :
    p.setScrollback 0 = p.withOffset 0 := by
  rw [setScrollback_of_primary halt, Nat.zero_min]

end Parser

end G2mirror
