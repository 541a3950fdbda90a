import G2mirror.Library.ScrollTerminal
import G2mirror.TermOp

/-!
# The host terminal

What the mirror's output does to the terminal the user sits at, as far as lines
go: `CR LF` on the bottom row moves the top row into the native scrollback,
while delete-line and clear move nothing there. How text becomes a line is a
parameter.
-/

namespace G2mirror

open scoped List

/-- What the host terminal makes of text: the rows that printed text takes with
autowrap, the row it takes without, a rendered row painted over a line, and
what arbitrary child output does. -/
structure HostText (Line : Type) where
  blank : Line
  rows : Bytes → List Line
  cut : Bytes → Line
  paint : Line → Bytes → Line
  passThrough : Bytes → ScrollTerminal Line → ScrollTerminal Line

/-- A host terminal. -/
structure HostTerminal (Line : Type) where
  term : ScrollTerminal Line
  autowrap : Bool

variable {Line : Type} (text : HostText Line)

/-- The line in the row of the cursor. -/
def HostText.current (t : ScrollTerminal Line) : Line := (t.screen[t.row]?).getD text.blank

namespace HostTerminal

/-- The terminal with another content. -/
def withTerm (h : HostTerminal Line) (t : ScrollTerminal Line) : HostTerminal Line :=
  { h with term := t }

/-- One piece of output arrives. The mirror clears to the end of a line only
from its first column. -/
def exec (h : HostTerminal Line) : TermOp → HostTerminal Line
  | .passThrough bytes => h.withTerm (text.passThrough bytes h.term)
  | .clear => h.withTerm (h.term.clear text.blank)
  | .clearToEol => h.withTerm (h.term.write text.blank)
  | .viewHostPrelude => ⟨h.term.moveTo 0, true⟩
  | .autowrapOff => ⟨h.term, false⟩
  | .autowrapOn => ⟨h.term, true⟩
  | .cup row _ => h.withTerm (h.term.moveTo row)
  | .deleteLines count => h.withTerm (h.term.deleteLines text.blank count)
  | .crlf count => h.withTerm (ScrollTerminal.newlines text.blank count h.term)
  | .lineText bytes =>
    if h.autowrap then h.withTerm (h.term.writeLines text.blank (text.rows bytes))
    else h.withTerm (h.term.write (text.cut bytes))
  | .rowDiff bytes => h.withTerm (h.term.write (text.paint (text.current h.term) bytes))
  | .sgrReset => h
  | .hideCursor => h
  | .showCursor => h
  | .syncBegin => h
  | .syncEnd => h
  | .resetInputModes => h
  | .inputMode _ => h
  | .windowTitle _ => h

/-- Several pieces of output arrive in order. -/
def execAll (h : HostTerminal Line) (ops : List TermOp) : HostTerminal Line :=
  ops.foldl (exec text) h

@[simp] theorem execAll_nil (h : HostTerminal Line) : h.execAll text [] = h := rfl

@[simp] theorem execAll_cons (h : HostTerminal Line) (op : TermOp) (ops : List TermOp) :
    h.execAll text (op :: ops) = (h.exec text op).execAll text ops := rfl

theorem execAll_append (h : HostTerminal Line) (ops ops' : List TermOp) :
    h.execAll text (ops ++ ops') = (h.execAll text ops).execAll text ops' := List.foldl_append

variable {text}

/-- A piece of output that the mirror made itself. -/
def Own : TermOp → Prop
  | .passThrough _ => False
  | _ => True

/-- What the mirror writes keeps the height of the screen and takes nothing out
of the scrollback. -/
theorem exec_own (text : HostText Line) {h : HostTerminal Line}
    (hscreen : 0 < h.term.screen.length) {op : TermOp} (hop : Own op) :
    (h.exec text op).term.screen.length = h.term.screen.length ∧
      h.term.scrollback <+: (h.exec text op).term.scrollback := by
  cases op with
  | passThrough bytes => exact absurd hop id
  | clear => exact ⟨ScrollTerminal.length_clear h.term, List.prefix_rfl⟩
  | clearToEol => exact ⟨ScrollTerminal.length_write _ _, List.prefix_rfl⟩
  | deleteLines count => exact ⟨ScrollTerminal.length_deleteLines h.term count, List.prefix_rfl⟩
  | crlf count =>
    exact ⟨ScrollTerminal.length_newlines hscreen count,
      ScrollTerminal.newlines_scrollback h.term count⟩
  | lineText bytes =>
    rw [exec]
    split
    · exact ⟨ScrollTerminal.length_writeLines hscreen _, ScrollTerminal.writeLines_scrollback _ _⟩
    · exact ⟨ScrollTerminal.length_write _ _, List.prefix_rfl⟩
  | rowDiff bytes => exact ⟨ScrollTerminal.length_write _ _, List.prefix_rfl⟩
  | _ => exact ⟨rfl, List.prefix_rfl⟩

/-- See `exec_own`. -/
theorem execAll_own (text : HostText Line) {h : HostTerminal Line}
    (hscreen : 0 < h.term.screen.length) {ops : List TermOp} (hops : ∀ op ∈ ops, Own op) :
    (h.execAll text ops).term.screen.length = h.term.screen.length ∧
      h.term.scrollback <+: (h.execAll text ops).term.scrollback := by
  induction ops generalizing h with
  | nil => exact ⟨rfl, List.prefix_rfl⟩
  | cons op ops ih =>
    obtain ⟨hlength, hscrollback⟩ := exec_own text hscreen (hops op List.mem_cons_self)
    obtain ⟨hlength', hscrollback'⟩ :=
      ih (hlength ▸ hscreen) fun o ho => hops o (List.mem_cons_of_mem op ho)
    exact ⟨hlength'.trans hlength, hscrollback.trans hscrollback'⟩

/-- The rows above `zone` and the scrollback stay as they are, and autowrap too. -/
structure KeepsAbove (zone : ℕ) (h h' : HostTerminal Line) : Prop where
  scrollback : h'.term.scrollback = h.term.scrollback
  length : h'.term.screen.length = h.term.screen.length
  above : h'.term.screen.take zone = h.term.screen.take zone
  autowrap : h'.autowrap = h.autowrap

theorem KeepsAbove.refl (zone : ℕ) (h : HostTerminal Line) : KeepsAbove zone h h :=
  ⟨rfl, rfl, rfl, rfl⟩

theorem KeepsAbove.trans {zone : ℕ} {h h' h'' : HostTerminal Line} (hh' : KeepsAbove zone h h')
    (hh'' : KeepsAbove zone h' h'') : KeepsAbove zone h h'' :=
  ⟨hh''.scrollback.trans hh'.scrollback, hh''.length.trans hh'.length,
    hh''.above.trans hh'.above, hh''.autowrap.trans hh'.autowrap⟩

/-- A zone that is the whole screen. -/
theorem KeepsAbove.screen {h h' : HostTerminal Line}
    (hh' : KeepsAbove h.term.screen.length h h') : h'.term.screen = h.term.screen := by
  have habove := hh'.above
  rwa [List.take_length, ← hh'.length, List.take_length] at habove

/-- Output that changes no line at all. -/
def Silent : TermOp → Prop
  | .sgrReset => True
  | .hideCursor => True
  | .showCursor => True
  | .syncBegin => True
  | .syncEnd => True
  | .resetInputModes => True
  | .inputMode _ => True
  | .windowTitle _ => True
  | .cup _ _ => True
  | _ => False

theorem exec_silent (zone : ℕ) (h : HostTerminal Line) (op : TermOp) (hop : Silent op) :
    KeepsAbove zone h (h.exec text op) := by
  cases op <;> first | exact ⟨rfl, rfl, rfl, rfl⟩ | exact absurd hop id

/-- Writing over a row below the zone keeps the zone. -/
theorem write_keepsAbove {zone : ℕ} {h : HostTerminal Line} (hrow : zone ≤ h.term.row)
    (line : Line) : KeepsAbove zone h (h.withTerm (h.term.write line)) := by
  refine ⟨rfl, ScrollTerminal.length_write _ _, ?_, rfl⟩
  exact List.take_set_of_le hrow

/-- Output after which the zone is as before, on every screen with rows below the zone. -/
def KeepsZone (text : HostText Line) (zone : ℕ) (ops : List TermOp) : Prop :=
  ∀ h : HostTerminal Line, zone < h.term.screen.length → KeepsAbove zone h (h.execAll text ops)

theorem keepsZone_nil (zone : ℕ) : KeepsZone text zone [] := fun h _ => .refl zone h

theorem KeepsZone.append {zone : ℕ} {ops ops' : List TermOp} (h : KeepsZone text zone ops)
    (h' : KeepsZone text zone ops') : KeepsZone text zone (ops ++ ops') := by
  intro t ht
  have hfirst := h t ht
  rw [execAll_append]
  exact hfirst.trans (h' _ (hfirst.length ▸ ht))

/-- Silent output changes no line on any screen. -/
theorem execAll_silent (zone : ℕ) (h : HostTerminal Line) {ops : List TermOp}
    (hops : ∀ op ∈ ops, Silent op) : KeepsAbove zone h (h.execAll text ops) := by
  induction ops generalizing h with
  | nil => exact .refl zone h
  | cons op ops ih =>
    have hone : KeepsAbove zone h (h.exec text op) :=
      exec_silent zone h op (hops op List.mem_cons_self)
    exact hone.trans (ih _ fun o ho => hops o (List.mem_cons_of_mem op ho))

theorem keepsZone_of_silent (zone : ℕ) {ops : List TermOp} (hops : ∀ op ∈ ops, Silent op) :
    KeepsZone text zone ops := fun h _ => execAll_silent zone h hops

/-- Output made piece by piece keeps the zone if every piece does. -/
theorem keepsZone_flatMap {α : Type} {zone : ℕ} {f : α → List TermOp} {xs : List α}
    (hf : ∀ x ∈ xs, KeepsZone text zone (f x)) : KeepsZone text zone (xs.flatMap f) := by
  induction xs with
  | nil => exact keepsZone_nil zone
  | cons x xs ih =>
    rw [List.flatMap_cons]
    exact (hf x List.mem_cons_self).append (ih fun y hy => hf y (List.mem_cons_of_mem x hy))

/-- Painting a row below the zone keeps the zone. -/
theorem keepsZone_paintRow {zone row : ℕ} (hrow : zone ≤ row) {ops : List TermOp}
    (hops : ∀ op ∈ ops, op = .clearToEol ∨ ∃ bytes, op = .rowDiff bytes) :
    KeepsZone text zone (.sgrReset :: .cup row 0 :: ops) := by
  intro h hzone
  have hmoved : zone ≤ (h.term.moveTo row).row := by
    simp only [ScrollTerminal.moveTo]
    omega
  have hpaint (t : HostTerminal Line) (ht : zone ≤ t.term.row) :
      KeepsAbove zone t (t.execAll text ops) := by
    induction ops generalizing t with
    | nil => exact .refl zone t
    | cons op ops ih =>
      have hone : KeepsAbove zone t (t.exec text op) ∧ (t.exec text op).term.row = t.term.row := by
        rcases hops op List.mem_cons_self with rfl | ⟨bytes, rfl⟩
        · exact ⟨write_keepsAbove ht _, rfl⟩
        · exact ⟨write_keepsAbove ht _, rfl⟩
      exact hone.1.trans (ih (fun o ho => hops o (List.mem_cons_of_mem op ho)) _ (hone.2 ▸ ht))
  exact (exec_silent zone h (.cup row 0) trivial).trans (hpaint _ hmoved)

end HostTerminal

end G2mirror
