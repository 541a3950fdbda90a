import G2mirror.Vt100

/-!
# What the mirror writes to terminals

The mirror composes its output from a fixed set of escape sequences, archived
lines and rendered rows. Each piece is one `TermOp`, named after the constant
or helper of `mirror.rs` that emits it; `TermOp.bytes` is what it emits.
-/

namespace G2mirror

/-- Decimal digits, as `format!` prints them. -/
def decimal (n : ℕ) : Bytes := (Nat.toDigits 10 n).map fun c => c.toNat.toUInt8

/-- One piece of terminal output. -/
inductive TermOp
  /-- Child output passed through untouched. -/
  | passThrough (bytes : Bytes)
  /-- `CLEAR` -/
  | clear
  /-- `SGR_RESET` -/
  | sgrReset
  /-- `CLEAR_TO_EOL` -/
  | clearToEol
  /-- `VIEW_HOST_PRELUDE` -/
  | viewHostPrelude
  /-- `HIDE_CURSOR` -/
  | hideCursor
  /-- `SHOW_CURSOR` -/
  | showCursor
  /-- `SYNC_BEGIN` -/
  | syncBegin
  /-- `SYNC_END` -/
  | syncEnd
  /-- `RESET_INPUT_MODES` -/
  | resetInputModes
  | autowrapOff
  | autowrapOn
  /-- `cup(row, col)`, both counted from zero. -/
  | cup (row col : ℕ)
  /-- Delete-line, `CSI count M`. -/
  | deleteLines (count : ℕ)
  /-- `b"\r\n".repeat(count)` -/
  | crlf (count : ℕ)
  /-- The bytes of a serialized row. -/
  | lineText (bytes : Bytes)
  /-- One row of `rows_diff`. -/
  | rowDiff (bytes : Bytes)
  /-- `input_mode_formatted` or `input_mode_diff`. -/
  | inputMode (bytes : Bytes)
  /-- `OSC 2 ; title BEL` -/
  | windowTitle (title : String)

/-- `cup`: the sequence addresses rows and columns from one. -/
def cupBytes (row col : ℕ) : Bytes :=
  ascii "\x1b[" ++ decimal (row + 1) ++ ascii ";" ++ decimal (col + 1) ++ ascii "H"

/-- The bytes of one piece of output. -/
def TermOp.bytes : TermOp → Bytes
  | .passThrough bytes => bytes
  | .clear => ascii "\x1b[0m\x1b[H\x1b[2J"
  | .sgrReset => ascii "\x1b[0m"
  | .clearToEol => ascii "\x1b[K"
  | .viewHostPrelude => ascii "\x1b[r\x1b[?6l\x1b[?7h"
  | .hideCursor => ascii "\x1b[?25l"
  | .showCursor => ascii "\x1b[?25h"
  | .syncBegin => ascii "\x1b[?2026h"
  | .syncEnd => ascii "\x1b[?2026l"
  | .resetInputModes =>
    ascii "\x1b[?1l\x1b>\x1b[?2004l\x1b[?1000l\x1b[?1002l\x1b[?1003l\x1b[?1006l"
  | .autowrapOff => ascii "\x1b[?7l"
  | .autowrapOn => ascii "\x1b[?7h"
  | .cup row col => cupBytes row col
  | .deleteLines count => ascii "\x1b[" ++ decimal count ++ ascii "M"
  | .crlf count => (List.replicate count (ascii "\r\n")).flatten
  | .lineText bytes => bytes
  | .rowDiff bytes => bytes
  | .inputMode bytes => bytes
  | .windowTitle title => ascii "\x1b]2;" ++ title.toUTF8.toList ++ ascii "\x07"

/-- The bytes of several pieces in order. -/
def render (ops : List TermOp) : Bytes := ops.flatMap TermOp.bytes

@[simp] theorem render_nil : render [] = [] := rfl

@[simp] theorem render_cons (op : TermOp) (ops : List TermOp) :
    render (op :: ops) = op.bytes ++ render ops := rfl

@[simp] theorem render_append (ops ops' : List TermOp) :
    render (ops ++ ops') = render ops ++ render ops' := List.flatMap_append

end G2mirror
