import G2mirror.TermOp

/-!
# Serializing a row into an archive record

`serialize_row` turns one visible row into printable text plus SGR sequences.
The loops over columns walk the row's first `width` cells and stop where the
row has no cell. The record depends on the row and the width alone, so rows can
be compared with the records made of them.
-/

namespace G2mirror

/-- `Cell::has_contents`. -/
def Cell.hasContents (c : Cell) : Bool := !c.contents.isEmpty

/-- `CellStyle::blank_is_invisible`: a blank in this style shows nothing. -/
def CellStyle.blankIsInvisible (s : CellStyle) : Bool := s.bg = .default && !s.inverse

/-- The test in the first loop of `serialize_row`: contents other than an
unstyled space, or a blank whose style shows. -/
def Cell.isVisible (c : Cell) : Bool :=
  (c.hasContents && !(c.contents = ascii " " && c.style = defaultStyle)) ||
    (!c.hasContents && !c.style.blankIsInvisible)

/-- `emit_color`: the parameters selecting a foreground or background colour. -/
def emitColor (color : Color) (background : Bool) : Bytes :=
  let base := if background then 10 else 0
  match color with
  | .default => []
  | .idx i =>
    if i < 8 then ascii ";" ++ decimal (30 + base + i.toNat)
    else if i < 16 then ascii ";" ++ decimal (82 + base + i.toNat)
    else ascii ";" ++ decimal (38 + base) ++ ascii ";5;" ++ decimal i.toNat
  | .rgb r g b =>
    ascii ";" ++ decimal (38 + base) ++ ascii ";2;" ++ decimal r.toNat ++ ascii ";" ++
      decimal g.toNat ++ ascii ";" ++ decimal b.toNat

/-- `emit_sgr`: one SGR sequence that switches from any style to this one. -/
def emitSgr (style : CellStyle) : Bytes :=
  ascii "\x1b[0" ++
    (if style.bold then ascii ";1" else []) ++
    (if style.dim then ascii ";2" else []) ++
    (if style.italic then ascii ";3" else []) ++
    (if style.underline then ascii ";4" else []) ++
    (if style.inverse then ascii ";7" else []) ++
    emitColor style.fg false ++ emitColor style.bg true ++ ascii "m"

/-- The first loop of `serialize_row`: the column of the last visible cell. -/
def lastVisible (col : ℕ) (found : Option ℕ) : List Cell → Option ℕ
  | [] => found
  | c :: cs => lastVisible (col + 1) (if c.isVisible then some col else found) cs

/-- The second loop of `serialize_row`: styles are emitted where they change,
continuation cells are skipped, and the loop ends once the cap is reached. -/
def emitCells (bytes : Bytes) (current : CellStyle) : List Cell → Bytes
  | [] => bytes
  | cell :: rest =>
    if cell.wideContinuation then emitCells bytes current rest
    else
      let styled := if cell.style ≠ current then bytes ++ emitSgr cell.style else bytes
      let bytes := styled ++ (if cell.hasContents then cell.contents else ascii " ")
      if maxLineBytes ≤ bytes.length then bytes
      else emitCells bytes cell.style rest

/-- The record of a row's first `width` cells. -/
def Row.record (row : Row) (width : ℕ) : HistoryRecord where
  bytes :=
    match lastVisible 0 none (row.cells.take width) with
    | none => []
    | some stop => emitCells [] defaultStyle (row.cells.take (min width (stop + 1)))
  width := width
  wrapped := row.wrapped

/-- `serialize_row`: a row that is not on the screen has no cells and is not wrapped. -/
def serializeRow (screen : Screen) (row width : ℕ) : HistoryRecord :=
  ((screen.visible[row]?).getD ⟨[], false⟩).record width

end G2mirror
