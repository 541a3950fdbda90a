import G2mirror.Staging

/-!
# What the mirror relies on the emulator for

The emulator is third-party code. Each assumption about it that a result rests
on is stated here by name: that snapshots hold complete control functions, that
`state_diff` says what it is documented to say, what the pieces of a snapshot do
to a screen, and what later output does not depend on.
-/

namespace G2mirror

variable {vt : Vt100}

/-- From between two control functions, these bytes are complete control
functions and text, and none of them switches to the alternate screen. -/
def Vt100.Plain (vt : Vt100) (bytes : Bytes) : Prop :=
  (vt.scan vt.ground bytes).1 = vt.ground ∧
    ∀ a ∈ (vt.scan vt.ground bytes).2, a ≠ Action.enterAlternate

/-- What snapshots rely on: no piece of a snapshot leaves a control function
open or switches screens. `input_mode_formatted` carries only keypad,
cursor-key, bracketed-paste and mouse modes. -/
structure Vt100.SnapshotsPlain (vt : Vt100) : Prop where
  constants : ∀ op ∈ [TermOp.clear, .syncBegin, .syncEnd, .hideCursor, .showCursor, .sgrReset],
    vt.Plain op.bytes
  cup : ∀ row col, vt.Plain (cupBytes row col)
  rowsDiff : ∀ screen prev start width, ∀ row ∈ vt.rowsDiff screen prev start width, vt.Plain row
  inputModeFormatted : ∀ modes, vt.Plain (vt.inputModeFormatted modes)

theorem Vt100.plain_nil (vt : Vt100) : vt.Plain [] := ⟨rfl, fun _ h => absurd h List.not_mem_nil⟩

theorem Vt100.Plain.append {bs cs : Bytes} (h : vt.Plain bs) (h' : vt.Plain cs) :
    vt.Plain (bs ++ cs) := by
  rw [Vt100.Plain, Vt100.scan_append, h.1]
  refine ⟨h'.1, fun a ha => ?_⟩
  rcases List.mem_append.mp ha with ha | ha
  · exact h.2 a ha
  · exact h'.2 a ha

/-- Functions of which none enters the alternate screen stay on the primary one. -/
theorem Vt100.foldl_screenAfter_of_plain {as : List (Action vt.Draw)}
    (h : ∀ a ∈ as, a ≠ Action.enterAlternate) : as.foldl Parser.screenAfter false = false := by
  induction as with
  | nil => rfl
  | cons a as ih =>
    have hone : Parser.screenAfter false a = false := by
      cases a with
      | enterAlternate => exact absurd rfl (h _ List.mem_cons_self)
      | _ => rfl
    rw [List.foldl_cons, hone]
    exact ih fun b hb => h b (List.mem_cons_of_mem a hb)

/-- Output is plain if each of its pieces is. -/
theorem Vt100.plain_render {ops : List TermOp} (h : ∀ op ∈ ops, vt.Plain op.bytes) :
    vt.Plain (render ops) := by
  induction ops with
  | nil => exact vt.plain_nil
  | cons op ops ih =>
    exact (h op List.mem_cons_self).append (ih fun o ho => h o (List.mem_cons_of_mem op ho))

/-- The painted rows of a snapshot are plain. -/
theorem Vt100.SnapshotsPlain.body (laws : vt.SnapshotsPlain) (src prev : Screen)
    (rowOff start width : ℕ) {rows : List (Bytes × ℕ)}
    (hrows : ∀ r ∈ rows, r.1 ∈ vt.rowsDiff src prev start width) :
    ∀ op ∈ rows.flatMap (snapshotRow rowOff), vt.Plain op.bytes := by
  intro op hop
  obtain ⟨⟨row, i⟩, hmem, hop⟩ := List.mem_flatMap.mp hop
  rw [snapshotRow] at hop
  split at hop
  · simp only [List.mem_cons, List.not_mem_nil, or_false] at hop
    rcases hop with rfl | rfl | rfl
    · exact laws.constants _ (by simp)
    · exact laws.cup _ _
    · exact laws.rowsDiff _ _ _ _ row (hrows _ hmem)
  · exact absurd hop List.not_mem_nil

/-- Placing the cursor is plain. -/
theorem Vt100.SnapshotsPlain.placeCursor (laws : vt.SnapshotsPlain) (screen : Screen)
    (srcOff rows cols targetOff : ℕ) :
    ∀ op ∈ placeCursor screen srcOff rows cols targetOff, vt.Plain op.bytes := by
  intro op hop
  rw [G2mirror.placeCursor] at hop
  split at hop
  rename_i row col hcursor
  split at hop
  · simp only [List.mem_cons, List.not_mem_nil, or_false] at hop
    rcases hop with rfl | rfl
    · exact laws.cup _ _
    · exact laws.constants _ (by simp)
  · exact absurd hop List.not_mem_nil

/-- A snapshot is plain. -/
theorem Vt100.SnapshotsPlain.snapshot (laws : vt.SnapshotsPlain) (src : Screen) (rows cols : ℕ) :
    vt.Plain (render (renderSnapshot vt src rows cols)) := by
  apply Vt100.plain_render
  intro op hop
  simp only [renderSnapshot, List.mem_append, List.mem_cons, List.not_mem_nil, or_false] at hop
  rcases hop with ((((rfl | rfl | rfl) | hrow) | rfl) | hcursor) | rfl
  · exact laws.constants _ (by simp)
  · exact laws.constants _ (by simp)
  · exact laws.constants _ (by simp)
  · refine laws.body src (blankScreen src.rows src.cols) (src.rows - rows) 0 (min cols src.cols)
      (fun r hr => ?_) op hrow
    obtain ⟨i, hi, hget⟩ := List.getElem_of_mem (List.mem_of_mem_drop (List.mem_of_mem_take hr))
    rw [List.getElem_zipIdx] at hget
    rw [← hget]
    exact List.getElem_mem _
  · exact laws.inputModeFormatted _
  · exact laws.placeCursor _ _ _ _ _ op hcursor
  · exact laws.constants _ (by simp)

/-- The alternate screen leaves the primary grid alone, its scrollback offset included. -/
def Vt100.KeepsOffset (vt : Vt100) : Prop := vt.enterRewinds = false

/-- The emulators that the mirror can have: new ones, fed and resized, with any staged rows. -/
inductive Vt100.Reached (vt : Vt100) : Parser vt → Prop
  | new (rows cols scrollbackLen : ℕ) : Reached vt (Parser.new vt rows cols scrollbackLen)
  | process {p : Parser vt} (bytes : Bytes) : Reached vt p → Reached vt (p.process bytes)
  | setSize {p : Parser vt} (rows cols : ℕ) : Reached vt p → Reached vt (p.setSize rows cols)
  | same {p q : Parser vt} : Reached vt p → q.Same p → Reached vt q

/-- The active grid is scrolled to its bottom. -/
def Parser.AtBottom (p : Parser vt) : Prop := p.scrollback = 0

/-- The emulators that devices have: primed with a snapshot, then fed differences
between what they show and what a live emulator of their size shows. -/
inductive Vt100.Device (vt : Vt100) (rows cols : ℕ) : Parser vt → Prop
  | snapshot {p : Parser vt} (scrollbackLen : ℕ) : vt.Reached p → p.AtBottom →
    Device vt rows cols
      ((Parser.new vt rows cols scrollbackLen).process
        (render (renderSnapshot vt p.screen rows cols)))
  | diff {e p : Parser vt} : Device vt rows cols e → vt.Reached p → p.AtBottom → p.rows = rows →
    p.cols = cols → Device vt rows cols (e.process (vt.stateDiff p.screen e.screen))

/-- What the stream relies on: `state_diff` turns what a device shows into what
the live emulator shows. -/
def Vt100.DiffsFaithful (vt : Vt100) : Prop :=
  ∀ {rows cols : ℕ} {e p : Parser vt}, vt.Device rows cols e → vt.Reached p → p.AtBottom →
    p.rows = rows → p.cols = cols →
    (e.process (vt.stateDiff p.screen e.screen)).screen = p.screen

namespace Parser

/-- On the primary screen the offset is the scrollback position. -/
theorem atBottom_of_offset {p : Parser vt} (h : p.offset = 0) : p.AtBottom := by
  rw [AtBottom, scrollback]
  split
  · rfl
  · exact h

/-- At its bottom an emulator shows its active grid: of the primary one, as many rows as it
has. -/
theorem AtBottom.visible {p : Parser vt} (h : p.AtBottom) :
    p.screen.visible = if p.alternate then p.core.grid else p.core.grid.take p.rows := by
  change p.visibleRows = _
  rw [AtBottom, scrollback] at h
  rw [visibleRows]
  split
  · rfl
  · rename_i halt
    rw [if_neg halt] at h
    rw [h, List.rtake_zero, List.take_nil, List.nil_append, Nat.sub_zero]

/-- Emulators that agree show the same once both are at the bottom. -/
theorem Same.screen {p q : Parser vt} (h : p.Same q) (hp : p.AtBottom) (hq : q.AtBottom) :
    p.screen = q.screen := by
  have hvisible : p.visibleRows = q.visibleRows := by
    change p.screen.visible = q.screen.visible
    rw [hp.visible, hq.visible, h.alternate, h.core, h.rows]
  rw [Parser.screen, Parser.screen, hvisible, h.rows, h.cols, h.core]

/-- A recognised function does not scroll an emulator back. -/
theorem perform_offset {p : Parser vt} (h : p.offset = 0) (a : Action vt.Draw) :
    (p.perform a).offset = 0 := by
  have hstage {q : Parser vt} (hq : q.offset = 0) (rows : List Row) :
      (rows.foldl stage q).offset = 0 := by
    induction rows generalizing q with
    | nil => exact hq
    | cons row rows ih => exact ih ((if_neg (by omega)).trans hq)
  cases a with
  | draw d =>
    cases halt : p.alternate with
    | true => rw [perform_draw_of_alternate halt]; exact h
    | false =>
      rw [perform_draw_of_primary halt]
      exact hstage (q := p.withCore (vt.draw p.core d).1) h _
  | fullReset => rfl
  | enterAlternate => exact (congrArg (ite _ 0) h).trans (ite_self 0)
  | _ => exact h

/-- Nor do several recognised functions. -/
theorem foldl_perform_offset {p : Parser vt} (h : p.offset = 0) (as : List (Action vt.Draw)) :
    (as.foldl perform p).offset = 0 := by
  induction as generalizing p with
  | nil => exact h
  | cons a as ih => exact ih (perform_offset h a)

/-- An emulator that is never scrolled back stays at its bottom. -/
theorem process_offset {p : Parser vt} (h : p.offset = 0) (bytes : Bytes) :
    (p.process bytes).offset = 0 := foldl_perform_offset h _

/-- Once the primary grid was scrolled to its bottom, it stays there. -/
theorem process_offset_of_rewinds {p : Parser vt} {bytes : Bytes} (h : p.rewinds bytes = true) :
    (p.process bytes).offset = 0 := by
  have hactions {p : Parser vt} {as : List (Action vt.Draw)} (has : p.rewindsActions as = true) :
      (as.foldl perform p).offset = 0 := by
    induction as generalizing p with
    | nil => exact absurd has Bool.false_ne_true
    | cons a as ih =>
      rw [rewindsActions, Bool.or_eq_true] at has
      rcases has with hnow | hlater
      · refine foldl_perform_offset (p := p.perform a) ?_ as
        cases a with
        | fullReset => rfl
        | enterAlternate => exact if_pos hnow
        | _ => exact absurd hnow Bool.false_ne_true
      · exact ih hlater
  exact hactions h

/-- Where the alternate screen leaves the primary grid alone, only full resets scroll it to
its bottom. -/
theorem rewinds_of_keepsOffset (hkeeps : vt.KeepsOffset) {p : Parser vt} {bytes : Bytes}
    (hreset : p.NoReset bytes) : p.rewinds bytes = false := by
  have hactions {p : Parser vt} {as : List (Action vt.Draw)}
      (has : ∀ a ∈ as, a ≠ Action.fullReset) : p.rewindsActions as = false := by
    induction as generalizing p with
    | nil => rfl
    | cons a as ih =>
      have hfirst : p.rewindsBy a = false := by
        cases a with
        | fullReset => exact absurd rfl (has _ List.mem_cons_self)
        | enterAlternate => exact congrArg (· && !p.alternate) hkeeps
        | _ => rfl
      rw [rewindsActions, hfirst, ih fun b hb => has b (List.mem_cons_of_mem a hb)]
      rfl
  exact hactions hreset

end Parser

namespace Parser

/-- The emulator is on its primary screen, between two control functions, and
its margins span the screen. -/
structure Ready (p : Parser vt) : Prop where
  reached : vt.Reached p
  ground : p.vte = vt.ground
  primary : p.alternate = false
  margins : p.core.margins = (0, p.rows - 1)

end Parser

/-- On an emulator that is ready, these bytes change the active grid's state in
this way and nothing else. -/
def Vt100.Sets (vt : Vt100) (bytes : Bytes) (f : Core vt.Rest → Core vt.Rest) : Prop :=
  ∀ p : Parser vt, p.Ready → (p.process bytes).Same (p.withCore (f p.core))

/-- What the pieces of a snapshot do to an emulator that is ready. `rowPen` tells
in which attributes a painted row ends. -/
structure Vt100.Paints (vt : Vt100) (rowPen : Row → CellStyle) : Prop where
  blank : ∀ rows cols, vt.blank rows cols =
    ⟨List.replicate rows (Row.blank cols), (0, 0), false, defaultStyle, (0, rows - 1), .default,
      (vt.blank rows cols).rest⟩
  /-- A grid has the rows of its screen, and the cursor is in one of them. -/
  shape : ∀ {p : Parser vt}, vt.Reached p → 0 < p.rows →
    p.core.grid.length = p.rows ∧ p.core.cursor.1 < p.rows
  clear : ∀ p : Parser vt, p.Ready → (p.process TermOp.clear.bytes).Same (p.withCore
    { p.core with
      grid := List.replicate p.rows (Row.blank p.cols), cursor := (0, 0), pen := defaultStyle })
  syncBegin : vt.Sets TermOp.syncBegin.bytes id
  syncEnd : vt.Sets TermOp.syncEnd.bytes id
  hideCursor : vt.Sets TermOp.hideCursor.bytes fun c => { c with hideCursor := true }
  showCursor : vt.Sets TermOp.showCursor.bytes fun c => { c with hideCursor := false }
  sgrReset : vt.Sets TermOp.sgrReset.bytes fun c => { c with pen := defaultStyle }
  cup : ∀ p : Parser vt, p.Ready → ∀ row < p.rows, ∀ col < p.cols,
    (p.process (cupBytes row col)).Same (p.withCore { p.core with cursor := (row, col) })
  /-- `input_mode_formatted` carries only keypad, cursor-key, paste and mouse modes. -/
  inputMode : ∀ {q : Parser vt}, vt.Reached q → ∀ p : Parser vt, p.Ready →
    p.core.inputModes = .default → (p.process (vt.inputModeFormatted q.core.inputModes)).Same
      (p.withCore { p.core with inputModes := q.core.inputModes })
  rowsLength : ∀ {q : Parser vt}, vt.Reached q → q.AtBottom →
    (vt.rowsDiff q.screen (blankScreen q.rows q.cols) 0 q.cols).length = q.rows
  /-- `rows_diff` against a blank screen says nothing of blank rows... -/
  rowsBlank : ∀ {q : Parser vt}, vt.Reached q → q.AtBottom → ∀ {k : ℕ} {bytes : Bytes} {row : Row},
    (vt.rowsDiff q.screen (blankScreen q.rows q.cols) 0 q.cols)[k]? = some bytes →
    q.screen.visible[k]? = some row → (bytes = [] ↔ row.cells = (Row.blank q.cols).cells)
  /-- ...and reproduces the cells of the others from their first column on. -/
  rowsPaint : ∀ {q : Parser vt}, vt.Reached q → q.AtBottom → ∀ {k : ℕ} {bytes : Bytes} {row : Row},
    (vt.rowsDiff q.screen (blankScreen q.rows q.cols) 0 q.cols)[k]? = some bytes →
    q.screen.visible[k]? = some row → bytes ≠ [] →
    ∀ p : Parser vt, p.Ready → p.rows = q.rows → p.cols = q.cols → p.core.cursor = (k, 0) →
      p.core.pen = defaultStyle → p.core.grid[k]? = some (Row.blank q.cols) →
      ∃ col, (p.process bytes).Same (p.withCore
        { p.core with
          grid := p.core.grid.set k ⟨row.cells, false⟩
          cursor := (k, col)
          pen := rowPen row })

/-- What later output depends on does not include whether rows soft-wrap: cores
that differ in nothing else stay alike and show the same. -/
structure Vt100.WrapBlind (vt : Vt100) (Alike : Core vt.Rest → Core vt.Rest → Prop) : Prop where
  ofFlags : ∀ c grid, c.grid.map Row.cells = grid.map Row.cells → Alike c { c with grid := grid }
  shows : ∀ c c', Alike c c' → c.grid.map Row.cells = c'.grid.map Row.cells ∧
    c.cursor = c'.cursor ∧ c.hideCursor = c'.hideCursor
  draw : ∀ c c' d, Alike c c' → Alike (vt.draw c d).1 (vt.draw c' d).1
  enterAlternate : ∀ c c' alternate, Alike c c' →
    Alike (vt.enterAlternate alternate c) (vt.enterAlternate alternate c')
  leaveAlternate : ∀ c c' alternate, Alike c c' →
    Alike (vt.leaveAlternate alternate c) (vt.leaveAlternate alternate c')

end G2mirror
