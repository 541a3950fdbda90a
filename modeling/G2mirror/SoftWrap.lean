import G2mirror.Archive
import G2mirror.AsciiLaws

/-!
# Soft-wrapped lines in the archive

A logical line that is wider than the screen is laid out over several rows, which
are archived one by one. Clients join the records of such a run again, up to the
first one that does not wrap. Each record is trimmed as if its row stood alone.
-/

namespace G2mirror

variable {vt : Vt100}

/-- A character as a cell holds it, with what combines with it. -/
structure Glyph where
  text : Bytes
  style : CellStyle
  /-- It takes two columns. -/
  wide : Bool
  /-- There is something to see. -/
  nonempty : text ≠ []
  /-- It is printable: no escape sequence is part of it. -/
  printable : 0x1b ∉ text
  /-- Spaces take one column. -/
  narrow : text = ascii " " → wide = false
  deriving DecidableEq

namespace Glyph

/-- The cells of a character. -/
def cells (g : Glyph) : List Cell :=
  ⟨g.text, false, g.style⟩ :: if g.wide then [⟨[], true, defaultStyle⟩] else []

/-- The columns that a character takes. -/
def width (g : Glyph) : ℕ := if g.wide then 2 else 1

/-- A space without any style. -/
def isBlank (g : Glyph) : Bool := g.text = ascii " " && g.style = defaultStyle

theorem length_cells (g : Glyph) : g.cells.length = g.width := by
  unfold cells width
  split <;> rfl

end Glyph

/-- The text of characters. -/
def textOf (gs : List Glyph) : Bytes := gs.flatMap Glyph.text

/-- The cells of characters. -/
def cellsOf (gs : List Glyph) : List Cell := gs.flatMap Glyph.cells

theorem textOf_append (gs hs : List Glyph) : textOf (gs ++ hs) = textOf gs ++ textOf hs :=
  List.flatMap_append

theorem cellsOf_append (gs hs : List Glyph) : cellsOf (gs ++ hs) = cellsOf gs ++ cellsOf hs :=
  List.flatMap_append

theorem textOf_cons (g : Glyph) (gs : List Glyph) : textOf (g :: gs) = g.text ++ textOf gs := rfl

/-- The characters in one row of a line. -/
structure LineRow where
  glyphs : List Glyph
  wrapped : Bool
  deriving DecidableEq

namespace LineRow

/-- The row of the screen: nothing was printed after the characters. -/
def row (width : ℕ) (r : LineRow) : Row :=
  ⟨cellsOf r.glyphs ++ List.replicate (width - (cellsOf r.glyphs).length) Cell.empty, r.wrapped⟩

/-- The blanks at the end of a row. -/
def blanks (r : LineRow) : List Glyph := r.glyphs.rtakeWhile Glyph.isBlank

/-- The characters up to the last one that is visible. -/
def visible (r : LineRow) : List Glyph := r.glyphs.rdropWhile Glyph.isBlank

end LineRow

/-- How an emulator lays out a line, character by character: `held` is in the current row
and takes `col` columns, and a character that does not fit goes to the next row. A row
with a column left, too narrow for a double-width character, is only marked as wrapped
by some emulators. -/
def softWrap (marksShort : Bool) (width : ℕ) (held : List Glyph) (col : ℕ) :
    List Glyph → List LineRow
  | [] => [⟨held, false⟩]
  | g :: gs =>
    if width < col + g.width then
      ⟨held, col = width || marksShort⟩ :: softWrap marksShort width [g] g.width gs
    else softWrap marksShort width (held ++ [g]) (col + g.width) gs

/-- A record's plain text: `ESC[...m` sequences are stripped. -/
def stripSgr (inside : Bool) : Bytes → Bytes
  | [] => []
  | b :: bs =>
    if inside then stripSgr (b ≠ 'm'.toNat.toUInt8) bs
    else if b = 0x1b then stripSgr true bs
    else b :: stripSgr false bs

/-- The text of a logical line: records are joined up to the first one that does not wrap. -/
def rejoin : List HistoryRecord → Bytes
  | [] => []
  | r :: rs => stripSgr false r.bytes ++ if r.wrapped then rejoin rs else []

/-- What a record's loop emits for a character: its style, if that changes, and its text. -/
def Glyph.emits (g : Glyph) (current : CellStyle) : Bytes :=
  (if g.style ≠ current then emitSgr g.style else []) ++ g.text

/-- What the loop emits for characters, after `len` bytes. -/
def emission (len : ℕ) (current : CellStyle) : List Glyph → Bytes
  | [] => []
  | g :: gs =>
    let new := g.emits current
    new ++ if maxLineBytes ≤ len + new.length then [] else emission (len + new.length) g.style gs

/-- The characters that the loop gets to. -/
def reached (len : ℕ) (current : CellStyle) : List Glyph → List Glyph
  | [] => []
  | g :: gs =>
    let new := g.emits current
    g :: if maxLineBytes ≤ len + new.length then [] else reached (len + new.length) g.style gs

/-- The cap is not reached before the last of these characters. -/
def Uncut (len : ℕ) (current : CellStyle) : List Glyph → Prop
  | [] => True
  | g :: gs =>
    let new := g.emits current
    gs = [] ∨ len + new.length < maxLineBytes ∧ Uncut (len + new.length) g.style gs

instance Uncut.decidable : (len : ℕ) → (current : CellStyle) → (gs : List Glyph) →
    Decidable (Uncut len current gs)
  | _, _, [] => isTrue trivial
  | len, current, g :: gs =>
    haveI := Uncut.decidable (len + (g.emits current).length) g.style gs
    inferInstanceAs (Decidable (_ ∨ _ ∧ _))

section Records

variable {current : CellStyle} {gs : List Glyph}

/-- The loop skips a cell that only continues a character. -/
theorem emitCells_continuation (bytes : Bytes) (current : CellStyle) (rest : List Cell) :
    emitCells bytes current (⟨[], true, defaultStyle⟩ :: rest) = emitCells bytes current rest := by
  rw [emitCells, if_pos rfl]

theorem hasContents_of_text (g : Glyph) (continues : Bool) :
    Cell.hasContents ⟨g.text, continues, g.style⟩ = true := by
  unfold Cell.hasContents
  rw [Bool.not_eq_true', List.isEmpty_eq_false_iff]
  exact g.nonempty

/-- The loop at the first cell of a character. -/
theorem emitCells_glyph (bytes : Bytes) (current : CellStyle) (g : Glyph) (rest : List Cell) :
    emitCells bytes current (⟨g.text, false, g.style⟩ :: rest) =
      if maxLineBytes ≤ (bytes ++ g.emits current).length then bytes ++ g.emits current
      else emitCells (bytes ++ g.emits current) g.style rest := by
  have hbytes : (if g.style ≠ current then bytes ++ emitSgr g.style else bytes) ++ g.text =
      bytes ++ g.emits current := by
    unfold Glyph.emits
    split_ifs <;> simp
  rw [emitCells, if_neg Bool.false_ne_true]
  simp only [hasContents_of_text, if_true, hbytes]

/-- The loop over the cells up to the first one of a last character. -/
theorem emitCells_eq (bytes : Bytes) (current : CellStyle) (gs : List Glyph) (last : Glyph) :
    emitCells bytes current (cellsOf gs ++ [⟨last.text, false, last.style⟩]) =
      bytes ++ emission bytes.length current (gs ++ [last]) := by
  induction gs generalizing bytes current with
  | nil =>
    rw [cellsOf, List.flatMap_nil, List.nil_append, emitCells_glyph, emitCells, ite_self]
    simp [emission]
  | cons g gs ih =>
    have hrest (bytes : Bytes) : emitCells bytes g.style
        ((if g.wide then [⟨[], true, defaultStyle⟩] else []) ++
          (cellsOf gs ++ [⟨last.text, false, last.style⟩])) =
        bytes ++ emission bytes.length g.style (gs ++ [last]) := by
      split_ifs
      · rw [List.singleton_append, emitCells_continuation, ih]
      · rw [List.nil_append, ih]
    have hcells : cellsOf (g :: gs) ++ [(⟨last.text, false, last.style⟩ : Cell)] =
        ⟨g.text, false, g.style⟩ :: ((if g.wide then [⟨[], true, defaultStyle⟩] else []) ++
          (cellsOf gs ++ [⟨last.text, false, last.style⟩])) := by
      simp [cellsOf, Glyph.cells]
    rw [hcells, emitCells_glyph, hrest, List.cons_append, emission, List.length_append]
    split_ifs
    · rw [List.append_nil]
    · rw [List.append_assoc]

/-- None of these bytes ends a sequence. -/
def Params (bytes : Bytes) : Prop := ∀ b ∈ bytes, b ≠ 'm'.toNat.toUInt8

instance (bytes : Bytes) : Decidable (Params bytes) := List.decidableBAll _ bytes

theorem Params.append {bs cs : Bytes} (h : Params bs) (h' : Params cs) : Params (bs ++ cs) :=
  List.forall_mem_append.mpr ⟨h, h'⟩

theorem params_decimal (n : ℕ) : Params (decimal n) := by
  intro b hb heq
  have hdigit := (Ascii.digit_of_mem_decimal hb).2
  rw [heq] at hdigit
  exact absurd hdigit (by decide)

theorem params_ite {P : Prop} [Decidable P] {bytes : Bytes} (h : Params bytes) :
    Params (if P then bytes else []) := by
  split_ifs
  · exact h
  · exact List.forall_mem_nil _

theorem params_emitColor (color : Color) (background : Bool) :
    Params (emitColor color background) := by
  have hsemi : Params (ascii ";") := by decide
  have hindexed : Params (ascii ";5;") := by decide
  have hdirect : Params (ascii ";2;") := by decide
  unfold emitColor
  dsimp only
  generalize (if background then 10 else 0) = base
  cases color with
  | default => exact List.forall_mem_nil _
  | idx i =>
    dsimp only
    split_ifs
    · exact hsemi.append (params_decimal _)
    · exact hsemi.append (params_decimal _)
    · exact ((hsemi.append (params_decimal _)).append hindexed).append (params_decimal _)
  | rgb r g b =>
    have hred := ((hsemi.append (params_decimal (38 + base))).append hdirect).append
      (params_decimal r.toNat)
    have hgreen := (hred.append hsemi).append (params_decimal g.toNat)
    exact (hgreen.append hsemi).append (params_decimal b.toNat)

/-- Inside a sequence everything is stripped up to its end. -/
theorem stripSgr_inside {params : Bytes} (h : Params params) (bs : Bytes) :
    stripSgr true (params ++ 'm'.toNat.toUInt8 :: bs) = stripSgr false bs := by
  induction params with
  | nil => simp [stripSgr]
  | cons b params ih =>
    obtain ⟨hb, hparams⟩ := List.forall_mem_cons.mp h
    rw [List.cons_append, stripSgr, if_pos rfl, decide_eq_true hb, ih hparams]

theorem stripSgr_emitSgr (style : CellStyle) (bs : Bytes) :
    stripSgr false (emitSgr style ++ bs) = stripSgr false bs := by
  have hparams : Params (ascii "[0" ++ (if style.bold then ascii ";1" else []) ++
      (if style.dim then ascii ";2" else []) ++ (if style.italic then ascii ";3" else []) ++
      (if style.underline then ascii ";4" else []) ++
      (if style.inverse then ascii ";7" else []) ++
      emitColor style.fg false ++ emitColor style.bg true) :=
    (((((((show Params (ascii "[0") by decide).append (params_ite (by decide))).append
      (params_ite (by decide))).append (params_ite (by decide))).append
      (params_ite (by decide))).append (params_ite (by decide))).append
      (params_emitColor _ _)).append (params_emitColor _ _)
  have hstart : ascii "\x1b[0" = 0x1b :: ascii "[0" := rfl
  have hstop : ascii "m" = ['m'.toNat.toUInt8] := rfl
  unfold emitSgr
  rw [hstart, hstop]
  simp only [List.cons_append, List.append_assoc]
  rw [stripSgr, if_neg Bool.false_ne_true, if_pos rfl]
  rw [← stripSgr_inside hparams bs]
  simp only [List.append_assoc, List.nil_append]

/-- Text is no part of a sequence. -/
theorem stripSgr_text {text : Bytes} (h : 0x1b ∉ text) (bs : Bytes) :
    stripSgr false (text ++ bs) = text ++ stripSgr false bs := by
  induction text with
  | nil => rfl
  | cons b text ih =>
    rw [List.mem_cons, not_or] at h
    obtain ⟨hb, htext⟩ := h
    rw [List.cons_append, stripSgr, if_neg Bool.false_ne_true, if_neg (Ne.symm hb), ih htext]
    rfl

theorem stripSgr_emits (g : Glyph) (current : CellStyle) (bs : Bytes) :
    stripSgr false (g.emits current ++ bs) = g.text ++ stripSgr false bs := by
  unfold Glyph.emits
  split_ifs
  · rw [List.append_assoc, stripSgr_emitSgr, stripSgr_text g.printable]
  · rw [List.nil_append, stripSgr_text g.printable]

/-- The plain text of what is emitted is that of the characters that the loop gets to. -/
theorem stripSgr_emission (len : ℕ) (current : CellStyle) (gs : List Glyph) :
    stripSgr false (emission len current gs) = textOf (reached len current gs) := by
  induction gs generalizing len current with
  | nil => rfl
  | cons g gs ih =>
    rw [emission, reached, stripSgr_emits, textOf_cons]
    split_ifs
    · rfl
    · rw [ih]

theorem reached_of_glyphs (len : ℕ) (current : CellStyle) (gs : List Glyph) :
    reached len current gs <+: gs := by
  induction gs generalizing len current with
  | nil => exact List.prefix_refl _
  | cons g gs ih =>
    rw [reached]
    split_ifs
    · exact List.cons_prefix_cons.mpr ⟨rfl, List.nil_prefix⟩
    · exact List.cons_prefix_cons.mpr ⟨rfl, ih _ _⟩

/-- The loop gets to all characters exactly if the cap is not reached before the last one. -/
theorem reached_eq_iff (len : ℕ) (current : CellStyle) (gs : List Glyph) :
    reached len current gs = gs ↔ Uncut len current gs := by
  induction gs generalizing len current with
  | nil => exact ⟨fun _ => trivial, fun _ => rfl⟩
  | cons g gs ih =>
    rw [reached, Uncut, List.cons_inj_right]
    split_ifs with hcap
    · constructor
      · exact fun h => .inl h.symm
      · rintro (h | ⟨h, -⟩)
        · exact h.symm
        · exact absurd hcap (by omega)
    · rw [ih]
      constructor
      · exact fun h => .inr ⟨by omega, h⟩
      · rintro (rfl | ⟨-, h⟩)
        · trivial
        · exact h

theorem lastVisible_append (col : ℕ) (found : Option ℕ) (cells rest : List Cell) :
    lastVisible col found (cells ++ rest) =
      lastVisible (col + cells.length) (lastVisible col found cells) rest := by
  induction cells generalizing col found with
  | nil => rfl
  | cons c cells ih =>
    rw [List.cons_append, lastVisible, ih, lastVisible, List.length_cons]
    congr 1
    omega

theorem lastVisible_of_invisible {cells : List Cell} (h : ∀ c ∈ cells, c.isVisible = false)
    (col : ℕ) (found : Option ℕ) : lastVisible col found cells = found := by
  induction cells generalizing col with
  | nil => rfl
  | cons c cells ih =>
    obtain ⟨hc, hcells⟩ := List.forall_mem_cons.mp h
    rw [lastVisible, hc, if_neg Bool.false_ne_true, ih hcells]

/-- The record of a row ends with the last visible cell. -/
theorem record_of_visible {row : Row} {width : ℕ} {front rest : List Cell} {last : Cell}
    (hcells : row.cells = front ++ last :: rest) (hwidth : row.cells.length = width)
    (hlast : last.isVisible = true) (hrest : ∀ c ∈ rest, c.isVisible = false) :
    (row.record width).bytes = emitCells [] defaultStyle (front ++ [last]) := by
  have hstop : lastVisible 0 none row.cells = some front.length := by
    rw [hcells, lastVisible_append, lastVisible, hlast, lastVisible_of_invisible hrest,
      Nat.zero_add]
    rfl
  have htake : row.cells.take (min width (front.length + 1)) = front ++ [last] := by
    have hle : front.length + 1 ≤ width := by
      rw [hcells, List.length_append, List.length_cons] at hwidth
      omega
    rw [Nat.min_eq_right hle, hcells, List.take_length_add_append]
    rfl
  unfold Row.record
  dsimp only
  rw [List.take_of_length_le hwidth.le, hstop]
  dsimp only
  rw [htake]

/-- The record of a row in which nothing is visible is empty. -/
theorem record_of_invisible {row : Row} {width : ℕ} (hwidth : row.cells.length = width)
    (h : ∀ c ∈ row.cells, c.isVisible = false) : (row.record width).bytes = [] := by
  unfold Row.record
  dsimp only
  rw [List.take_of_length_le hwidth.le, lastVisible_of_invisible h]

/-- The first cell of a character is visible unless it is an unstyled space. -/
theorem isVisible_glyph (g : Glyph) :
    Cell.isVisible ⟨g.text, false, g.style⟩ = !g.isBlank := by
  unfold Cell.isVisible Glyph.isBlank
  rw [hasContents_of_text]
  simp

/-- Blanks are invisible. -/
theorem invisible_of_blanks {gs : List Glyph} (h : ∀ g ∈ gs, g.isBlank = true) :
    ∀ c ∈ cellsOf gs, c.isVisible = false := by
  intro c hc
  obtain ⟨g, hg, hcell⟩ := List.mem_flatMap.mp hc
  rcases List.mem_cons.mp hcell with rfl | hcontinues
  · rw [isVisible_glyph, h g hg]
    rfl
  · split_ifs at hcontinues
    · obtain rfl := List.mem_singleton.mp hcontinues
      rfl
    · cases hcontinues

theorem invisible_empty (count : ℕ) :
    ∀ c ∈ List.replicate count Cell.empty, c.isVisible = false := by
  intro c hc
  rw [List.eq_of_mem_replicate hc]
  rfl

namespace LineRow

/-- A row is what is visible of it, and the blanks at its end. -/
theorem visible_append_blanks (r : LineRow) : r.visible ++ r.blanks = r.glyphs :=
  List.rdropWhile_append_rtakeWhile

theorem blanks_blank (r : LineRow) : ∀ g ∈ r.blanks, g.isBlank = true :=
  fun _ hg => List.mem_rtakeWhile_imp hg

/-- A record holds the visible characters of its row, as far as the loop gets. -/
theorem record_text (r : LineRow) {width : ℕ} (hfit : (cellsOf r.glyphs).length ≤ width) :
    stripSgr false ((r.row width).record width).bytes =
      textOf (reached 0 defaultStyle r.visible) := by
  set count := width - (cellsOf r.glyphs).length
  have hcells : (r.row width).cells =
      cellsOf r.visible ++ (cellsOf r.blanks ++ List.replicate count Cell.empty) := by
    rw [← List.append_assoc, ← cellsOf_append, r.visible_append_blanks]
    rfl
  have hlength : (r.row width).cells.length = width := by
    change (cellsOf r.glyphs ++ List.replicate count Cell.empty).length = width
    rw [List.length_append, List.length_replicate]
    omega
  have hrest : ∀ c ∈ cellsOf r.blanks ++ List.replicate count Cell.empty, c.isVisible = false :=
    List.forall_mem_append.mpr ⟨invisible_of_blanks r.blanks_blank, invisible_empty count⟩
  rcases List.eq_nil_or_concat r.visible with hnil | ⟨init, last, hlast⟩
  · rw [hnil, cellsOf, List.flatMap_nil, List.nil_append] at hcells
    rw [record_of_invisible hlength (hcells ▸ hrest), hnil]
    rfl
  · rw [List.concat_eq_append] at hlast
    have hvisible : last.isBlank = false := by
      have hne : r.glyphs.rdropWhile Glyph.isBlank ≠ [] := by
        change r.visible ≠ []
        simp [hlast]
      have hnot := List.rdropWhile_last_not Glyph.isBlank r.glyphs hne
      have hgetLast : (r.glyphs.rdropWhile Glyph.isBlank).getLast hne = last := by
        simp only [show r.glyphs.rdropWhile Glyph.isBlank = init ++ [last] from hlast,
          List.getLast_append_singleton]
      rwa [hgetLast, Bool.not_eq_true] at hnot
    obtain ⟨continues, hinvisible, hsplit⟩ : ∃ continues : List Cell,
        (∀ c ∈ continues, c.isVisible = false) ∧
          (r.row width).cells = cellsOf init ++ ⟨last.text, false, last.style⟩ :: continues := by
      refine ⟨(if last.wide then [⟨[], true, defaultStyle⟩] else []) ++
        (cellsOf r.blanks ++ List.replicate count Cell.empty), ?_, ?_⟩
      · refine List.forall_mem_append.mpr ⟨fun c hc => ?_, hrest⟩
        split_ifs at hc
        · obtain rfl := List.mem_singleton.mp hc
          rfl
        · cases hc
      · rw [hcells, hlast, cellsOf_append]
        simp [cellsOf, Glyph.cells]
    have hseen : Cell.isVisible ⟨last.text, false, last.style⟩ = true := by
      rw [isVisible_glyph, hvisible]
      rfl
    rw [record_of_visible hsplit hlength hseen hinvisible, emitCells_eq, List.nil_append, hlast]
    exact stripSgr_emission _ _ _

end LineRow

/-- What a logical line's rows have in common: the last one does not wrap, and where another
one is not marked as wrapped, something visible follows. -/
def Runs : List LineRow → Prop
  | [] => False
  | [r] => r.wrapped = false
  | r :: next :: rest =>
    (r.wrapped = false → ∃ g ∈ next.glyphs, g.isBlank = false) ∧ Runs (next :: rest)

/-- The rows can be joined again: all but the last are marked as wrapped and do not end with
an unstyled space, and none of their records is cut at the cap. -/
def Joinable : List LineRow → Prop
  | [] => True
  | [r] => Uncut 0 defaultStyle r.visible
  | r :: next :: rest =>
    r.wrapped = true ∧ r.blanks = [] ∧ Uncut 0 defaultStyle r.visible ∧ Joinable (next :: rest)

instance Joinable.decidable : (rows : List LineRow) → Decidable (Joinable rows)
  | [] => isTrue trivial
  | [_] => inferInstanceAs (Decidable (Uncut _ _ _))
  | _ :: next :: rest =>
    haveI := Joinable.decidable (next :: rest)
    inferInstanceAs (Decidable (_ ∧ _ ∧ _ ∧ _))

/-- The blanks at the end of the last row. -/
def lastBlanks : List LineRow → List Glyph
  | [] => []
  | [r] => r.blanks
  | _ :: next :: rest => lastBlanks (next :: rest)

/-- The characters of all rows. -/
def charsOf (rows : List LineRow) : List Glyph := rows.flatMap LineRow.glyphs

/-- The records of the rows, at the width that they were laid out at. -/
def recordsAt (width : ℕ) (rows : List LineRow) : List HistoryRecord :=
  rows.map fun r => (r.row width).record width

theorem eq_nil_of_text {gs : List Glyph} (h : (textOf gs).length = 0) : gs = [] := by
  cases gs with
  | nil => rfl
  | cons g gs =>
    have hpos := List.length_pos_iff.mpr g.nonempty
    rw [textOf_cons, List.length_append] at h
    omega

/-- Characters are lost if and only if text is. -/
theorem eq_of_prefix_of_text {hs gs : List Glyph} (hfirst : hs <+: gs)
    (hlength : (textOf gs).length ≤ (textOf hs).length) : hs = gs := by
  obtain ⟨lost, rfl⟩ := hfirst
  rw [textOf_append, List.length_append] at hlength
  rw [@eq_nil_of_text lost (by omega), List.append_nil]

theorem eq_of_suffix_of_text {hs gs : List Glyph} (hsuffix : hs <:+ gs)
    (hlength : (textOf gs).length ≤ (textOf hs).length) : hs = gs := by
  obtain ⟨lost, rfl⟩ := hsuffix
  rw [textOf_append, List.length_append] at hlength
  rw [@eq_nil_of_text lost (by omega), List.nil_append]

/-- A prefix has no more text. -/
theorem text_le_of_prefix {hs gs : List Glyph} (h : hs <+: gs) :
    (textOf hs).length ≤ (textOf gs).length := by
  obtain ⟨lost, rfl⟩ := h
  rw [textOf_append, List.length_append]
  omega

theorem text_le_of_suffix {hs gs : List Glyph} (h : hs <:+ gs) :
    (textOf hs).length ≤ (textOf gs).length := by
  obtain ⟨before, rfl⟩ := h
  rw [textOf_append, List.length_append]
  omega

theorem lastBlanks_suffix (rows : List LineRow) : lastBlanks rows <:+ charsOf rows := by
  induction rows with
  | nil => exact List.suffix_refl _
  | cons r rest ih =>
    cases rest with
    | nil =>
      rw [charsOf, List.flatMap_singleton]
      exact ⟨r.visible, r.visible_append_blanks⟩
    | cons next rest => exact ih.trans (List.suffix_append _ _)

theorem lastBlanks_blank (rows : List LineRow) : ∀ g ∈ lastBlanks rows, g.isBlank = true := by
  induction rows with
  | nil => exact List.forall_mem_nil _
  | cons r rest ih =>
    cases rest with
    | nil => exact r.blanks_blank
    | cons next rest => exact ih

/-- Joining adds nothing. -/
theorem rejoin_length {rows : List LineRow} {width : ℕ} (hruns : Runs rows)
    (hfit : ∀ r ∈ rows, (cellsOf r.glyphs).length ≤ width) (post : List HistoryRecord) :
    (rejoin (recordsAt width rows ++ post) ++ textOf (lastBlanks rows)).length ≤
      (textOf (charsOf rows)).length := by
  induction rows with
  | nil => cases hruns
  | cons r rest ih =>
    obtain ⟨hr, hrest⟩ := List.forall_mem_cons.mp hfit
    have hreached := text_le_of_prefix (reached_of_glyphs 0 defaultStyle r.visible)
    have hglyphs : (textOf r.glyphs).length = (textOf r.visible).length +
        (textOf r.blanks).length := by
      rw [← r.visible_append_blanks, textOf_append, List.length_append]
    have hrecord := r.record_text hr
    cases rest with
    | nil =>
      have hlast : r.wrapped = false := hruns
      change (stripSgr false _ ++ (if r.wrapped then _ else _) ++ textOf r.blanks).length ≤ _
      rw [hrecord, hlast, if_neg Bool.false_ne_true, List.append_nil, List.length_append, charsOf,
        List.flatMap_singleton]
      omega
    | cons next rest =>
      have hjoined := ih hruns.2 hrest
      have hblanks := text_le_of_suffix (lastBlanks_suffix (next :: rest))
      have hsplit : (textOf (charsOf (r :: next :: rest))).length =
          (textOf r.glyphs).length + (textOf (charsOf (next :: rest))).length := by
        rw [charsOf, List.flatMap_cons, textOf_append, List.length_append]
        rfl
      change (stripSgr false _ ++ (if r.wrapped then
        rejoin (recordsAt width (next :: rest) ++ post) else []) ++
          textOf (lastBlanks (next :: rest))).length ≤ _
      rw [hrecord, hsplit]
      rw [List.length_append] at hjoined
      split_ifs
      · simp only [List.length_append]
        omega
      · simp only [List.length_append, List.length_nil]
        omega

/-- When the rows of a logical line can be joined again. -/
theorem rejoin_iff {rows : List LineRow} {width : ℕ} (hruns : Runs rows)
    (hfit : ∀ r ∈ rows, (cellsOf r.glyphs).length ≤ width) (post : List HistoryRecord) :
    rejoin (recordsAt width rows ++ post) ++ textOf (lastBlanks rows) = textOf (charsOf rows) ↔
      Joinable rows := by
  induction rows with
  | nil => cases hruns
  | cons r rest ih =>
    obtain ⟨hr, hrest⟩ := List.forall_mem_cons.mp hfit
    have hprefix := reached_of_glyphs 0 defaultStyle r.visible
    have hrecord := r.record_text hr
    have hglyphs : textOf r.glyphs = textOf r.visible ++ textOf r.blanks := by
      rw [← textOf_append, r.visible_append_blanks]
    have hreached : textOf (reached 0 defaultStyle r.visible) = textOf r.visible ↔
        Uncut 0 defaultStyle r.visible := by
      rw [← reached_eq_iff]
      exact ⟨fun h => eq_of_prefix_of_text hprefix (by rw [h]), fun h => by rw [h]⟩
    cases rest with
    | nil =>
      have hlast : r.wrapped = false := hruns
      change stripSgr false _ ++ (if r.wrapped then _ else _) ++ textOf r.blanks = _ ↔ _
      rw [hrecord, hlast, if_neg Bool.false_ne_true, List.append_nil, charsOf,
        List.flatMap_singleton, hglyphs, List.append_left_inj, hreached]
      rfl
    | cons next rest =>
      have hjoined := rejoin_length hruns.2 hrest post
      have hiff := ih hruns.2 hrest
      have hchars : textOf (charsOf (r :: next :: rest)) =
          textOf r.glyphs ++ textOf (charsOf (next :: rest)) := by
        rw [charsOf, List.flatMap_cons, textOf_append]
        rfl
      have hvisible := text_le_of_prefix hprefix
      change stripSgr false _ ++ (if r.wrapped then
        rejoin (recordsAt width (next :: rest) ++ post) else []) ++
          textOf (lastBlanks (next :: rest)) = _ ↔ _
      rw [hrecord, hchars, Joinable, List.append_assoc]
      cases hwrapped : r.wrapped with
      | true =>
        rw [if_pos rfl, ← hiff]
        constructor
        · intro heq
          have hlength := congrArg List.length heq
          rw [hglyphs] at hlength
          simp only [List.length_append] at hlength hjoined
          have hkept := eq_of_prefix_of_text hprefix (by omega)
          have hblanks : r.blanks = [] := eq_nil_of_text (by omega)
          rw [hblanks, show textOf [] = [] from rfl, List.append_nil] at hglyphs
          rw [hkept, ← hglyphs] at heq
          exact ⟨rfl, hblanks, (reached_eq_iff _ _ _).mp hkept, List.append_cancel_left heq⟩
        · rintro ⟨-, hblanks, huncut, heq⟩
          rw [hreached.mpr huncut, heq, hglyphs, hblanks]
          simp [textOf]
      | false =>
        rw [if_neg Bool.false_ne_true]
        refine ⟨fun heq => ?_, fun h => absurd h.1 Bool.false_ne_true⟩
        have hlength := congrArg List.length heq
        rw [hglyphs] at hlength
        simp only [List.length_append, List.nil_append] at hlength
        obtain ⟨g, hg, hseen⟩ := hruns.1 hwrapped
        have hall := eq_of_suffix_of_text (lastBlanks_suffix (next :: rest)) (by omega)
        have hmem : g ∈ lastBlanks (next :: rest) := by
          rw [hall]
          exact List.mem_append_left _ hg
        rw [lastBlanks_blank _ g hmem] at hseen
        cases hseen

end Records

/-- The rows of a line hold its characters in order. -/
theorem softWrap_chars (marksShort : Bool) (width : ℕ) (held : List Glyph) (col : ℕ)
    (line : List Glyph) : charsOf (softWrap marksShort width held col line) = held ++ line := by
  induction line generalizing held col with
  | nil => simp [softWrap, charsOf]
  | cons g gs ih =>
    rw [softWrap]
    split_ifs
    · rw [charsOf, List.flatMap_cons, ← charsOf, ih]
      rfl
    · rw [ih, List.append_assoc]
      rfl

/-- Each row of a line fits the screen, if each character does. -/
theorem softWrap_fits {marksShort : Bool} {width : ℕ} {held line : List Glyph} {col : ℕ}
    (hline : ∀ g ∈ line, g.width ≤ width) (hcol : (cellsOf held).length = col) (hle : col ≤ width) :
    ∀ r ∈ softWrap marksShort width held col line, (cellsOf r.glyphs).length ≤ width := by
  induction line generalizing held col with
  | nil =>
    intro r hr
    obtain rfl := List.mem_singleton.mp hr
    exact hcol.le.trans hle
  | cons g gs ih =>
    obtain ⟨hg, hgs⟩ := List.forall_mem_cons.mp hline
    have hcells : (cellsOf [g]).length = g.width := by
      rw [cellsOf, List.flatMap_singleton, g.length_cells]
    rw [softWrap]
    split_ifs with hwraps
    · exact List.forall_mem_cons.mpr ⟨hcol.le.trans hle, ih hgs hcells hg⟩
    · refine ih hgs ?_ (by omega)
      rw [cellsOf_append, List.length_append, hcol, hcells]

/-- The rows of a line are a run. -/
theorem softWrap_runs {marksShort : Bool} {width : ℕ} {held line : List Glyph} {col : ℕ}
    (hline : ∀ g ∈ line, g.width ≤ width) (hle : col ≤ width) :
    ∃ r rest, softWrap marksShort width held col line = r :: rest ∧ held <+: r.glyphs ∧
      Runs (r :: rest) := by
  induction line generalizing held col with
  | nil => exact ⟨⟨held, false⟩, [], rfl, List.prefix_refl held, rfl⟩
  | cons g gs ih =>
    obtain ⟨hg, hgs⟩ := List.forall_mem_cons.mp hline
    rw [softWrap]
    split_ifs with hwraps
    · obtain ⟨r, rest, hrows, hprefix, hruns⟩ := @ih [g] g.width hgs hg
      rw [hrows]
      refine ⟨_, r :: rest, rfl, List.prefix_refl held, fun hunmarked => ⟨g, ?_, ?_⟩, hruns⟩
      · exact hprefix.subset List.mem_cons_self
      · -- Only a double-width character leaves a column of the row before it.
        have hnarrow : g.width ≠ 1 := by
          simp only [Bool.or_eq_false_iff, decide_eq_false_iff_not] at hunmarked
          omega
        unfold Glyph.isBlank
        rw [Bool.and_eq_false_iff, decide_eq_false_iff_not]
        refine .inl fun hspace => hnarrow ?_
        rw [Glyph.width, g.narrow hspace]
        rfl
    · obtain ⟨r, rest, hrows, hprefix, hruns⟩ :=
        @ih (held ++ [g]) (col + g.width) hgs (by omega)
      exact ⟨r, rest, hrows, (List.prefix_append held [g]).trans hprefix, hruns⟩

namespace Mirror

/-- When a soft-wrapped line can be joined again. Of every line of text that the emulator laid
out over rows which then scrolled off, the retained records from the first of these rows
on give back its characters, but for blanks at the end of its last row, exactly if all rows
but the last are marked as wrapped and end with something visible, and no record is cut. -/
theorem soft_wrapped_line_rejoins_iff {m : Mirror vt} (hm : m.Fresh) (inputs : List Bytes)
    (hreset : m.parser.NoReset inputs.flatten)
    (hroom : Ledger.empty.Room m.parser (slices inputs)) (hin : m.FeedInStep Ledger.empty inputs)
    {marksShort : Bool} {line : List Glyph}
    {rows : List LineRow} {before after : List Row}
    (hlayout : rows = softWrap marksShort m.parser.cols [] 0 line)
    (hrows : (Ledger.empty.parse m.parser (slices inputs)).archived =
      before ++ (rows.map (LineRow.row m.parser.cols) ++ after))
    (hline : ∀ g ∈ line, g.width ≤ m.parser.cols)
    (hretained : rows.length + after.length ≤ m.history.maxLines) :
    rejoin ((m.feed inputs).history.tail (rows.length + after.length)) ++ textOf (lastBlanks rows) =
      textOf line ↔ Joinable rows := by
  obtain ⟨first, rest, hsplit, -, hruns⟩ :=
    @softWrap_runs marksShort m.parser.cols [] line 0 hline (Nat.zero_le _)
  rw [← hsplit, ← hlayout] at hruns
  have hfit := @softWrap_fits marksShort m.parser.cols [] line 0 hline rfl (Nat.zero_le _)
  rw [← hlayout] at hfit
  have hchars := softWrap_chars marksShort m.parser.cols [] 0 line
  rw [← hlayout, List.nil_append] at hchars
  set records := recordsAt m.parser.cols rows ++ m.recordsOf after with hrecords
  have hlength : records.length = rows.length + after.length := by
    simp [hrecords, recordsAt, recordsOf]
  have hpushed : (m.feed inputs).history =
      (m.history.pushAll (m.recordsOf before)).pushAll records := by
    rw [feed_history hm inputs hreset hroom hin, hrows, recordsOf_append, recordsOf_append,
      History.pushAll_append]
    congr 2
    rw [recordsAt, recordsOf, List.map_map]
    rfl
  have htail : (m.feed inputs).history.tail (rows.length + after.length) = records := by
    rw [hpushed, ← hlength]
    refine History.tail_pushAll ?_
    rw [hlength, History.pushAll_maxLines]
    exact hretained
  rw [htail, hrecords, ← hchars]
  exact rejoin_iff hruns hfit (m.recordsOf after)

end Mirror

namespace Ascii

/-- Print, wrapping to the next row when the current one is full. -/
def drawWrapping (c : Core AsciiRest) : AsciiDraw → Core AsciiRest × List Row
  | .print b =>
    let (c, off) :=
      if c.cursor.2 < c.rest.cols then (c, [])
      else
        let marked := { c with grid := c.grid.modify c.cursor.1 fun row => ⟨row.cells, true⟩ }
        let (c, off) := draw marked .lineFeed
        ({ c with cursor := (c.cursor.1, 0) }, off)
    ({ setCell c (printed b.val) with cursor := (c.cursor.1, c.cursor.2 + 1) }, off)
  | d => draw c d

end Ascii

/-- The small emulator with autowrap. -/
abbrev wrappingVt100 : Vt100 := { asciiVt100 with draw := Ascii.drawWrapping }

/-- An unstyled character of ASCII. -/
def Glyph.ascii (b : UInt8) (h : b ≠ 0x1b) : Glyph where
  text := [b]
  style := defaultStyle
  wide := false
  nonempty := List.cons_ne_nil _ _
  printable := by simpa using h.symm
  narrow := fun _ => rfl

namespace Mirror

/-- `ab  cd` at a width of four comes back as `abcd`: the spaces at the end of the wrapped row
are taken for the blanks of an unfilled row. -/
theorem wrapped_spaces_lost :
    let m := Mirror.new wrappingVt100 2 4
    let line := [Glyph.ascii 97 (by decide), Glyph.ascii 98 (by decide), Glyph.ascii 32 (by decide),
      Glyph.ascii 32 (by decide), Glyph.ascii 99 (by decide), Glyph.ascii 100 (by decide)]
    let rows := softWrap false 4 [] 0 line
    textOf line = ascii "ab  cd" ∧
      (Ledger.empty.parse m.parser (slices [ascii "ab  cd\r\nx\r\ny"])).archived =
        rows.map (LineRow.row 4) ∧ textOf (lastBlanks rows) = [] ∧
      rejoin ((m.feed [ascii "ab  cd\r\nx\r\ny"]).history.tail 2) = ascii "abcd" := by
  decide +kernel

/-- A line whose spaces are inside its rows comes back whole. -/
theorem inner_spaces_rejoined :
    rejoin (((Mirror.new wrappingVt100 2 4).feed [ascii "ab cde\r\nx\r\ny"]).history.tail 2) =
      ascii "ab cde" := by
  obtain ⟨line, hline, htext, rows, hlayout, harchived, hjoinable, hcount, hblanks⟩ :
      ∃ line : List Glyph, (∀ g ∈ line, g.width ≤ 4) ∧ textOf line = ascii "ab cde" ∧
        ∃ rows, rows = softWrap false 4 [] 0 line ∧
          (Ledger.empty.parse (Mirror.new wrappingVt100 2 4).parser
            (slices [ascii "ab cde\r\nx\r\ny"])).archived =
              [] ++ (rows.map (LineRow.row 4) ++ []) ∧
          Joinable rows ∧ rows.length = 2 ∧ textOf (lastBlanks rows) = [] := by
    refine ⟨[Glyph.ascii 97 (by decide), Glyph.ascii 98 (by decide), Glyph.ascii 32 (by decide),
      Glyph.ascii 99 (by decide), Glyph.ascii 100 (by decide), Glyph.ascii 101 (by decide)],
      by decide, by decide, _, rfl, ?_⟩
    decide +kernel
  have hjoined := (soft_wrapped_line_rejoins_iff (new_fresh wrappingVt100 4 (by decide : 0 < 2))
    [ascii "ab cde\r\nx\r\ny"] (by decide +kernel) (by decide +kernel) (by decide +kernel) hlayout
    harchived hline (by rw [hcount]; decide)).mpr hjoinable
  rw [List.length_nil, hcount, hblanks, List.append_nil, htext] at hjoined
  exact hjoined

end Mirror

end G2mirror
