import G2mirror.Archive
import G2mirror.AsciiLaws
import Mathlib.Tactic.Ring

/-!
# How many rows a slice scrolls off

A slice is small enough that a flood of one-byte lines fits into the staging scrollback.
`CSI n S` scrolls up to a whole screen for four bytes, so the argument holds for screens of
at most seven rows and for no others.
-/

namespace G2mirror

variable {vt : Vt100}

/-- `CSI n S`: scroll up by `n` rows. -/
def scrollUpBytes (n : ℕ) : Bytes := ascii "\x1b[" ++ decimal n ++ ascii "S"

/-- What the size of a slice relies on. `read` counts the bytes of a character or control
function that is not complete yet, up to three. -/
structure Vt100.ScrollsBounded (vt : Vt100) (read : vt.Vte → ℕ) : Prop where
  read_le : ∀ v, read v ≤ 3
  /-- Line feeds and autowraps scroll one row each, and only a control sequence of four bytes
  or more scrolls up to a whole screen. -/
  byte : ∀ {p : Parser vt}, vt.Reached p → ∀ b,
    (p.rowsOff [b]).length + read (p.process [b]).vte ≤ read p.vte + 1 ∨
      read p.vte = 3 ∧ read (p.process [b]).vte = 0 ∧ (p.rowsOff [b]).length ≤ p.rows
  margins : ∀ rows cols, (vt.blank rows cols).margins = (0, rows - 1)
  /-- With full-screen margins, `CSI n S` scrolls `n` rows off, as far as the screen has them. -/
  scrollUp : ∀ {p : Parser vt}, p.Ready → ∀ n, 0 < n → n < 2 ^ 16 →
    (p.rowsOff (scrollUpBytes n)).length = min n p.rows ∧ (p.process (scrollUpBytes n)).Ready

namespace Parser

theorem rowsOff_cons (p : Parser vt) (b : UInt8) (bs : Bytes) :
    p.rowsOff (b :: bs) = p.rowsOff [b] ++ (p.process [b]).rowsOff bs :=
  p.rowsOff_append [b] bs

/-- Every four bytes scroll at most a screen off, if the screen has four rows or more. Bytes
read of what is not complete yet count for what completes it. -/
theorem rowsOff_bounded {read : vt.Vte → ℕ} (laws : vt.ScrollsBounded read) {p : Parser vt}
    (hp : vt.Reached p) (bytes : Bytes) :
    4 * (p.rowsOff bytes).length + max p.rows 4 * read (p.process bytes).vte ≤
      max p.rows 4 * (bytes.length + read p.vte) := by
  induction bytes generalizing p with
  | nil =>
    have hnone : p.rowsOff [] = [] := rfl
    have hstill : (p.process []).vte = p.vte := rfl
    rw [hnone, hstill, List.length_nil, List.length_nil, Nat.mul_zero, Nat.zero_add, Nat.zero_add]
  | cons b bs ih =>
    let next := p.process [b]
    have hrest := ih (p := next) (hp.process [b])
    have hend : (p.process (b :: bs)).vte = (next.process bs).vte :=
      congrArg Parser.vte (p.process_append [b] bs)
    have hrows : next.rows = p.rows := p.process_rows [b]
    have hfirst : 4 * (p.rowsOff [b]).length + max p.rows 4 * read next.vte ≤
        max p.rows 4 * (read p.vte + 1) := by
      have hfour : 4 ≤ max p.rows 4 := Nat.le_max_right _ _
      rcases laws.byte hp b with hone | ⟨hread, hdone, hscreen⟩
      · calc
          4 * (p.rowsOff [b]).length + max p.rows 4 * read next.vte
            ≤ max p.rows 4 * (p.rowsOff [b]).length + max p.rows 4 * read next.vte :=
              Nat.add_le_add_right (Nat.mul_le_mul_right _ hfour) _
          _ = max p.rows 4 * ((p.rowsOff [b]).length + read next.vte) := (Nat.mul_add ..).symm
          _ ≤ max p.rows 4 * (read p.vte + 1) := Nat.mul_le_mul_left _ hone
      · have hmax : (p.rowsOff [b]).length ≤ max p.rows 4 := hscreen.trans (Nat.le_max_left _ _)
        rw [hread, hdone]
        omega
    rw [hrows] at hrest
    rw [rowsOff_cons, List.length_append, hend, List.length_cons, Nat.mul_add, Nat.add_assoc]
    calc
      4 * (p.rowsOff [b]).length +
          (4 * (next.rowsOff bs).length + max p.rows 4 * read (next.process bs).vte)
        ≤ 4 * (p.rowsOff [b]).length + max p.rows 4 * (bs.length + read next.vte) :=
          Nat.add_le_add_left hrest _
      _ = 4 * (p.rowsOff [b]).length + max p.rows 4 * read next.vte +
          max p.rows 4 * bs.length := by ring
      _ ≤ max p.rows 4 * (read p.vte + 1) + max p.rows 4 * bs.length :=
          Nat.add_le_add_right hfirst _
      _ = max p.rows 4 * (bs.length + 1 + read p.vte) := by ring

/-- A slice of a screen of at most seven rows leaves room in the staging scrollback. -/
theorem rowsOff_le_of_rows {read : vt.Vte → ℕ} (laws : vt.ScrollsBounded read) {p : Parser vt}
    (hp : vt.Reached p) (hrows : p.rows ≤ 7) {slice : Bytes}
    (hslice : slice.length ≤ processSliceSize) :
    (p.rowsOff slice).length ≤ stageScrollback - 1 := by
  have hbound := rowsOff_bounded laws hp slice
  have hread := laws.read_le p.vte
  have hmax : max p.rows 4 ≤ 7 := Nat.max_le.mpr ⟨hrows, by omega⟩
  have hbytes : slice.length + read p.vte ≤ 2051 := by
    have hsize : processSliceSize = 2048 := rfl
    omega
  have htotal := Nat.mul_le_mul hmax hbytes
  have hstage : stageScrollback = 4096 := rfl
  omega

/-- Repeated, `CSI n S` scrolls as many times as many rows off. -/
theorem rowsOff_scrollUps {read : vt.Vte → ℕ} (laws : vt.ScrollsBounded read) {p : Parser vt}
    (hp : p.Ready) {n : ℕ} (hpos : 0 < n) (hmax : n < 2 ^ 16) (times : ℕ) :
    (p.rowsOff (List.replicate times (scrollUpBytes n)).flatten).length = times * min n p.rows := by
  induction times generalizing p with
  | zero => rw [Nat.zero_mul]; rfl
  | succ times ih =>
    obtain ⟨hscrolled, hready⟩ := laws.scrollUp hp n hpos hmax
    rw [List.replicate_succ, List.flatten_cons, rowsOff_append, List.length_append, hscrolled,
      ih hready, process_rows, Nat.succ_mul, Nat.add_comm]

end Parser

/-- The staging scrollback is not longer than it may be, and the offset not larger than it. -/
structure Parser.Within (p : Parser vt) : Prop where
  offset : p.offset ≤ p.staged.length
  staged : p.staged.length ≤ p.scrollbackLen

/-- Staged rows are evicted rather than counted twice. -/
theorem Parser.Within.stage {p : Parser vt} (h : p.Within) (row : Row) : (p.stage row).Within := by
  have hlength : (p.stage row).staged.length = min p.scrollbackLen (p.staged.length + 1) :=
    CappedQueue.length_push _ _ _
  obtain ⟨hoffset, hstaged⟩ := h
  refine ⟨?_, hlength ▸ Nat.min_le_left _ _⟩
  by_cases hpos : 0 < p.offset
  · have hnext : (p.stage row).offset = min (p.stage row).staged.length (p.offset + 1) :=
      if_pos hpos
    exact hnext ▸ Nat.min_le_left _ _
  · have hnext : (p.stage row).offset = p.offset := if_neg hpos
    omega

theorem Parser.Within.process {p : Parser vt} (h : p.Within) (bytes : Bytes) :
    (p.process bytes).Within := by
  have hstage {p : Parser vt} (h : p.Within) (rows : List Row) :
      (rows.foldl Parser.stage p).Within := by
    induction rows generalizing p with
    | nil => exact h
    | cons row rows ih => exact ih (h.stage row)
  have hfold {p : Parser vt} (h : p.Within) (as : List (Action vt.Draw)) :
      (as.foldl Parser.perform p).Within := by
    induction as generalizing p with
    | nil => exact h
    | cons a as ih =>
      refine ih ?_
      cases a with
      | draw d =>
        cases halt : p.alternate with
        | true => rw [Parser.perform_draw_of_alternate halt]; exact ⟨h.offset, h.staged⟩
        | false =>
          rw [Parser.perform_draw_of_primary halt]
          exact hstage (p := p.withCore (vt.draw p.core d).1) ⟨h.offset, h.staged⟩ _
      | fullReset => exact ⟨le_rfl, Nat.zero_le _⟩
      | enterAlternate =>
        refine ⟨?_, h.staged⟩
        change (if _ then 0 else p.offset) ≤ p.staged.length
        split
        · exact Nat.zero_le _
        · exact h.offset
      | _ => exact ⟨h.offset, h.staged⟩
  have hend := hfold h (vt.scan p.vte bytes).2
  exact ⟨hend.offset, hend.staged⟩

namespace Mirror

/-- The parked counter counts no more rows than the staging scrollback has room for. -/
theorem uncounted_le_of_parked {m : Mirror vt} (hparked : m.parked = true)
    (h : m.parser.Within) : m.uncounted ≤ m.parser.scrollbackLen - 1 := by
  have hcount : m.uncounted = m.parser.offset - 1 := if_pos hparked
  have hoffset := h.offset
  have hstaged := h.staged
  omega

/-- Scrolling by eight rows takes four bytes. -/
theorem length_scrollUps (times : ℕ) :
    (List.replicate times (scrollUpBytes 8)).flatten.length = times * 4 := by
  rw [List.length_flatten, List.map_replicate, List.sum_replicate_nat]
  rfl

/-- A new mirror of any height is scrolled by more rows than a slice may scroll. -/
theorem exists_long_slice {read : vt.Vte → ℕ} (laws : vt.ScrollsBounded read) {rows : ℕ}
    (hrows : 7 < rows) : ∃ slice : Bytes, slice.length ≤ processSliceSize ∧
      stageScrollback - 1 < ((Mirror.new vt rows 1).parser.rowsOff slice).length := by
  have hready : (Mirror.new vt rows 1).parser.Ready :=
    ⟨.new rows 1 stageScrollback, rfl, rfl, laws.margins rows 1⟩
  have hscrolls := Parser.rowsOff_scrollUps laws hready (n := 8) (by omega) (by omega)
  have hscreen : min 8 (Mirror.new vt rows 1).parser.rows = 8 := Nat.min_eq_left hrows
  refine ⟨(List.replicate 512 (scrollUpBytes 8)).flatten, (length_scrollUps 512).le, ?_⟩
  rw [hscrolls 512, hscreen]
  decide

end Mirror

/-! ### An emulator that scrolls -/

namespace Scroll

/-- What the scrolling emulator draws. -/
inductive Draw
  | lineFeed
  | scrollUp (count : ℕ)

/-- One byte. -/
def advance : AsciiVte → UInt8 → AsciiVte × List (Action Draw)
  | .ground, b =>
    if b = 27 then (.escape, []) else (.ground, if b = 10 then [.draw .lineFeed] else [])
  | .escape, b => if b = 91 then (.csi [], []) else (.ground, [])
  | .csi seen, b =>
    if 64 ≤ b then
      (.ground, if b = 83 then [.draw (.scrollUp (max 1 (Ascii.number seen)))] else [])
    else (.csi (seen ++ [b]), [])

/-- A new screen. Nothing else is kept than its size. -/
def blank (rows cols : ℕ) : Core (ℕ × ℕ) where
  grid := List.replicate rows (Row.blank cols)
  cursor := (0, 0)
  hideCursor := false
  pen := defaultStyle
  margins := (0, rows - 1)
  inputModes := .default
  rest := (rows, cols)

/-- Scroll up, and answer the rows that scroll off. -/
def scrollUp (c : Core (ℕ × ℕ)) (count : ℕ) : Core (ℕ × ℕ) × List Row :=
  ({ c with
    grid := c.grid.drop count ++
      List.replicate (min count c.grid.length) (Row.blank c.rest.2) }, c.grid.take count)

/-- Draw, and answer the rows that scroll off. -/
def draw (c : Core (ℕ × ℕ)) : Draw → Core (ℕ × ℕ) × List Row
  | .lineFeed =>
    if c.cursor.1 + 1 < c.rest.1 then ({ c with cursor := (c.cursor.1 + 1, c.cursor.2) }, [])
    else scrollUp c 1
  | .scrollUp count => scrollUp c count

end Scroll

/-- An emulator that does nothing but scroll. -/
abbrev scrollVt100 : Vt100 where
  Vte := AsciiVte
  Draw := Scroll.Draw
  Rest := ℕ × ℕ
  ground := .ground
  advance := Scroll.advance
  blank := Scroll.blank
  draw := Scroll.draw
  enterAlternate := fun _ c => c
  enterRewinds := true
  leaveAlternate := fun _ c => c
  setSize := fun _ rows cols => Scroll.blank rows cols
  rowsDiff := fun _ _ _ _ => []
  inputModeFormatted := fun _ => []
  inputModeDiff := fun _ _ => []
  stateDiff := fun _ _ => []

namespace Scroll

/-- The bytes read of a control function, up to three. -/
def read : AsciiVte → ℕ
  | .ground => 0
  | .escape => 1
  | .csi seen => min (2 + seen.length) 3

/-- A grid has the rows of its screen, and the margins span it. -/
structure Sound (rows : ℕ) (c : Core (ℕ × ℕ)) : Prop where
  length : c.grid.length = rows
  margins : c.margins = (0, rows - 1)

theorem sound_blank (rows cols : ℕ) : Sound rows (blank rows cols) :=
  ⟨List.length_replicate, rfl⟩

theorem Sound.scrollUp {rows : ℕ} {c : Core (ℕ × ℕ)} (h : Sound rows c) (count : ℕ) :
    Sound rows (scrollUp c count).1 := by
  refine ⟨?_, h.margins⟩
  simp only [Scroll.scrollUp, List.length_append, List.length_drop, List.length_replicate, h.length]
  omega

theorem Sound.draw {rows : ℕ} {c : Core (ℕ × ℕ)} (h : Sound rows c) (d : Draw) :
    Sound rows (draw c d).1 := by
  cases d with
  | scrollUp count => exact h.scrollUp count
  | lineFeed =>
    rw [Scroll.draw]
    split
    · exact ⟨h.length, h.margins⟩
    · exact h.scrollUp 1

theorem Sound.perform {p : Parser scrollVt100} (h : Sound p.rows p.core) (a : Action Draw) :
    Sound p.rows (p.perform a).core := by
  cases a with
  | draw d =>
    cases halt : p.alternate with
    | true =>
      rw [Parser.perform_draw_of_alternate halt]
      exact h.draw d
    | false =>
      rw [Parser.perform_draw_of_primary halt, (Parser.foldl_stage_same _ _).core]
      exact h.draw d
  | fullReset => exact sound_blank p.rows p.cols
  | _ => exact h

/-- Every emulator that can be reached is sound. -/
theorem reached_sound {p : Parser scrollVt100} (h : scrollVt100.Reached p) :
    Sound p.rows p.core := by
  have hfold {p : Parser scrollVt100} (h : Sound p.rows p.core) (as : List (Action Draw)) :
      Sound p.rows (as.foldl Parser.perform p).core := by
    induction as generalizing p with
    | nil => exact h
    | cons a as ih =>
      have hnext := h.perform a
      rw [← (p.perform_size a).1] at hnext ⊢
      exact ih hnext
  induction h with
  | new rows cols scrollbackLen => exact sound_blank rows cols
  | @process p bytes _ ih =>
    rw [Parser.process_rows]
    exact hfold ih _
  | setSize rows cols _ ih => exact sound_blank rows cols
  | same _ hsame ih =>
    rw [hsame.rows, hsame.core]
    exact ih

/-- At most one function is recognised at a byte. -/
theorem rowsOff_byte {p : Parser scrollVt100} {b : UInt8} {vte : AsciiVte}
    {actions : List (Action Draw)} (h : advance p.vte b = (vte, actions)) :
    p.rowsOff [b] = p.rowsOffActions actions ∧ (p.process [b]).vte = vte := by
  have hstep : scrollVt100.advance p.vte b = (vte, actions) := h
  rw [Parser.rowsOff, Parser.process_vte, Vt100.scan_cons hstep, Vt100.scan_nil, List.append_nil]
  exact ⟨rfl, rfl⟩

/-- On either screen, a drawing function scrolls at most these rows off. -/
theorem length_rowsOffActions (p : Parser scrollVt100) (d : Draw) :
    (p.rowsOffActions [.draw d]).length ≤ (draw p.core d).2.length := by
  have hone : p.rowsOffActions [.draw d] = if p.alternate then [] else (draw p.core d).2 :=
    List.append_nil _
  rw [hone]
  split
  · exact Nat.zero_le _
  · exact le_rfl

/-- A line feed scrolls at most one row off. -/
theorem length_lineFeed (c : Core (ℕ × ℕ)) : (draw c .lineFeed).2.length ≤ 1 := by
  rw [draw]
  split
  · exact Nat.zero_le 1
  · exact List.length_take_le 1 c.grid

/-- Everything that one byte can do. -/
theorem byte_bounded {p : Parser scrollVt100} (hp : scrollVt100.Reached p) (b : UInt8) :
    (p.rowsOff [b]).length + read (p.process [b]).vte ≤ read p.vte + 1 ∨
      read p.vte = 3 ∧ read (p.process [b]).vte = 0 ∧ (p.rowsOff [b]).length ≤ p.rows := by
  obtain ⟨vte, hvte⟩ : ∃ vte, p.vte = vte := ⟨_, rfl⟩
  cases vte with
  | ground =>
    left
    by_cases hescape : b = 27
    · obtain ⟨hnone, hend⟩ := rowsOff_byte (p := p) (b := b) (by rw [hvte, advance, if_pos hescape])
      rw [hnone, hend, hvte]
      exact le_rfl
    · obtain ⟨hrows, hend⟩ := rowsOff_byte (p := p) (b := b) (by rw [hvte, advance, if_neg hescape])
      rw [hrows, hend, hvte]
      by_cases hfeed : b = 10
      · rw [if_pos hfeed]
        exact (length_rowsOffActions p .lineFeed).trans (length_lineFeed p.core)
      · rw [if_neg hfeed]
        exact Nat.zero_le 1
  | escape =>
    left
    by_cases hopen : b = 91
    · obtain ⟨hnone, hend⟩ := rowsOff_byte (p := p) (b := b) (by rw [hvte, advance, if_pos hopen])
      rw [hnone, hend, hvte]
      exact le_rfl
    · obtain ⟨hnone, hend⟩ := rowsOff_byte (p := p) (b := b) (by rw [hvte, advance, if_neg hopen])
      rw [hnone, hend, hvte]
      exact Nat.zero_le 2
  | csi seen =>
    by_cases hfinal : 64 ≤ b
    · obtain ⟨hrows, hend⟩ := rowsOff_byte (p := p) (b := b) (by rw [hvte, advance, if_pos hfinal])
      rw [hrows, hend, hvte]
      by_cases hscroll : b = 83
      · have hoff := length_rowsOffActions p (.scrollUp (max 1 (Ascii.number seen)))
        have hgrid : (draw p.core (.scrollUp (max 1 (Ascii.number seen)))).2.length =
            min (max 1 (Ascii.number seen)) p.rows := by
          rw [← (reached_sound hp).length]
          exact List.length_take
        rw [if_pos hscroll]
        cases seen with
        | nil =>
          have hnumber : Ascii.number [] = 0 := rfl
          rw [hnumber] at hoff hgrid ⊢
          left
          simp only [read, List.length_nil]
          omega
        | cons c seen =>
          right
          refine ⟨?_, rfl, by omega⟩
          simp only [read, List.length_cons]
          omega
      · rw [if_neg hscroll]
        left
        exact Nat.zero_le _
    · obtain ⟨hnone, hend⟩ := rowsOff_byte (p := p) (b := b) (by rw [hvte, advance, if_neg hfinal])
      have hrows : (p.rowsOffActions ([] : List (Action Draw))).length = 0 := rfl
      rw [hnone, hend, hvte, hrows]
      left
      simp only [read, List.length_append, List.length_singleton]
      omega

/-- `CSI n S` is recognised. -/
theorem scan_scrollUp {n : ℕ} (hpos : 0 < n) :
    scrollVt100.scan AsciiVte.ground (scrollUpBytes n) =
      (AsciiVte.ground, [.draw (.scrollUp n)]) := by
  have hbytes : scrollUpBytes n = 27 :: 91 :: (decimal n ++ [83]) := by
    have hopen : ascii "\x1b[" = [27, 91] := by decide
    have hclose : ascii "S" = [83] := by decide
    rw [scrollUpBytes, hopen, hclose]
    rfl
  have htaking (seen : Bytes) (b : UInt8) (hb : b < 64) :
      scrollVt100.advance (AsciiVte.csi seen) b = (AsciiVte.csi (seen ++ [b]), []) :=
    if_neg (UInt8.not_le.mpr hb)
  have hdigits : ∀ b ∈ decimal n, b < 64 := fun b hb =>
    UInt8.lt_trans (Ascii.digit_of_mem_decimal hb).2 (by decide)
  have hescape : scrollVt100.advance AsciiVte.ground 27 = (AsciiVte.escape, []) := rfl
  have hopened : scrollVt100.advance AsciiVte.escape 91 = (AsciiVte.csi [], []) := rfl
  have hfinal : scrollVt100.advance (AsciiVte.csi (decimal n)) 83 =
      (AsciiVte.ground, [.draw (.scrollUp (max 1 (Ascii.number (decimal n))))]) := rfl
  rw [hbytes, Vt100.scan_cons hescape, Vt100.scan_cons hopened, Vt100.scan_append,
    Ascii.scan_params htaking [] hdigits, List.nil_append, Vt100.scan_cons hfinal,
    Ascii.number_decimal, Nat.max_eq_right hpos]
  rfl

end Scroll

/-- The scrolling emulator scrolls no more than what the size of a slice relies on. -/
theorem scrollVt100_bounded : scrollVt100.ScrollsBounded Scroll.read where
  read_le := by
    intro v
    cases v with
    | ground => exact Nat.zero_le 3
    | escape => exact Nat.le_of_ble_eq_true rfl
    | csi seen => exact Nat.min_le_right _ _
  byte := Scroll.byte_bounded
  margins := fun _ _ => rfl
  scrollUp := by
    intro p hp n hpos _
    have hscan : scrollVt100.scan p.vte (scrollUpBytes n) =
        (AsciiVte.ground, [.draw (.scrollUp n)]) := by
      rw [hp.ground]
      exact Scroll.scan_scrollUp hpos
    have hreached := hp.reached.process (scrollUpBytes n)
    have hrows : p.rowsOff (scrollUpBytes n) = p.core.grid.take n := by
      rw [Parser.rowsOff, hscan]
      simp only [Parser.rowsOffActions, Parser.rowsOffBy, hp.primary, Bool.false_eq_true, if_false,
        List.append_nil]
      rfl
    refine ⟨?_, hreached, ?_, ?_, (Scroll.reached_sound hreached).margins⟩
    · rw [hrows, List.length_take, (Scroll.reached_sound hp.reached).length]
    · rw [Parser.process_vte, hscan]
    · rw [Parser.process_alternate, hscan, hp.primary]
      rfl

namespace Mirror

/-- The rows that a slice scrolls off are still staged when its harvest is due. -/
theorem staged_of_room {m : Mirror vt} (h : m.Steady) {slice : Bytes}
    (hreset : m.parser.NoReset slice)
    (hroom : (m.parser.rowsOff slice).length ≤ stageScrollback - 1) :
    m.parser.rowsOff slice <:+ (m.parsed slice).parser.staged := by
  have hsame := m.park_rebooked.same
  have hstaged : (m.parsed slice).parser.staged = CappedQueue.pushAll
      m.park.parser.scrollbackLen m.park.parser.staged (m.park.parser.rowsOff slice) :=
    Parser.process_staged (fun a ha => hreset a (by rwa [← hsame.vte]))
  rw [hstaged, hsame.rowsOff]
  refine CappedQueue.append_suffix_pushAll (List.nil_suffix (l := m.park.parser.staged)) ?_
  rw [h.park_capacity]
  exact hroom.trans (Nat.sub_le _ _)

/-- Slices of at most `processSliceSize` bytes leave room in the staging scrollback, so that no
row is evicted before the harvest: on screens of at most seven rows, and on no others. With
nothing pending, the counter is exact if and only if the slice leaves it in step or scrolls
nothing off. -/
theorem slice_capacity_iff {read : vt.Vte → ℕ} (laws : vt.ScrollsBounded read) (rows : ℕ) :
    (∀ m : Mirror vt, vt.Reached m.parser → m.parser.rows = rows →
      ∀ slice : Bytes, slice.length ≤ processSliceSize →
        (m.parser.rowsOff slice).length ≤ stageScrollback - 1 ∧
          (m.Booked [] → m.parser.NoReset slice →
            m.parser.rowsOff slice <:+ (m.parsed slice).parser.staged ∧
              ((m.parsed slice).uncounted = (m.parser.rowsOff slice).length ↔
                (m.OutOfStep slice → m.parser.rowsOff slice = [])))) ↔ rows ≤ 7 := by
  constructor
  · intro hfits
    by_contra hmore
    obtain ⟨slice, hlength, hmany⟩ := exists_long_slice laws (Nat.lt_of_not_le hmore)
    have hfew := (hfits (Mirror.new vt rows 1) (.new rows 1 stageScrollback) rfl slice hlength).1
    omega
  · intro hrows m hreached hheight slice hlength
    have hroom := Parser.rowsOff_le_of_rows laws hreached (hheight.trans_le hrows) hlength
    refine ⟨hroom, fun hbooked hreset => ⟨staged_of_room hbooked.steady hreset hroom,
      fun hcounted hout => ?_, fun hstep => ?_⟩⟩
    · have hparked : (m.parsed slice).parked = true := hout.1
      rw [uncounted_of_stuck hparked (parsed_offset_of_outOfStep hout)] at hcounted
      exact List.length_eq_zero_iff.mp hcounted.symm
    · exact (hbooked.ready hreset hroom hstep).uncounted

/-- Two line feeds and a whole screen scroll off seven rows. -/
theorem seven_rows_fit :
    ((Mirror.new scrollVt100 7 1).parser.rowsOff (ascii "\n\n\n\n\n\n\n\n\x1b[9S")).length ≤
        stageScrollback - 1 ∧
      ((Mirror.new scrollVt100 7 1).parsed (ascii "\n\n\n\n\n\n\n\n\x1b[9S")).uncounted = 9 := by
  obtain ⟨hroom, hcounted⟩ := (slice_capacity_iff scrollVt100_bounded 7).mpr le_rfl
    (Mirror.new scrollVt100 7 1) (.new 7 1 stageScrollback) rfl
    (ascii "\n\n\n\n\n\n\n\n\x1b[9S") (by decide)
  have hbooked := (new_fresh scrollVt100 1 (by decide : 0 < 7)).booked
  exact ⟨hroom, ((hcounted hbooked (by decide)).2.mpr (by decide)).trans (by decide)⟩

/-- A screen of eight rows from which one row has scrolled off. -/
def scrolledOnce : Mirror scrollVt100 :=
  (Mirror.new scrollVt100 8 1).processSlice (scrollUpBytes 1)

/-- As often as it fits into a slice: scroll by a screen. -/
def screenfuls : Bytes := (List.replicate 512 (scrollUpBytes 8)).flatten

/-- A slice scrolls off 4096 rows, and the harvest counts 4095 of them. -/
theorem eight_rows_overflow :
    scrollVt100.Reached scrolledOnce.parser ∧ scrolledOnce.Booked [] ∧
      scrolledOnce.parser.rows = 8 ∧ screenfuls.length = processSliceSize ∧
      (scrolledOnce.parser.rowsOff screenfuls).length = stageScrollback ∧
      (scrolledOnce.parsed screenfuls).uncounted ≤ stageScrollback - 1 := by
  have hfresh := (new_fresh scrollVt100 1 (by decide : 0 < 8)).booked
  have hbooked : scrolledOnce.Booked [] :=
    hfresh.processSlice (scrollUpBytes 1) (by decide) (by decide) (by decide)
  have hsame : scrolledOnce.parser.Same
      ((Mirror.new scrollVt100 8 1).parser.process (scrollUpBytes 1)) := processSlice_same _ _
  have hready : scrolledOnce.parser.Ready :=
    ⟨.same (.process _ (.new 8 1 stageScrollback)) hsame, hsame.vte.trans rfl,
      hsame.alternate.trans rfl, by rw [hsame.core, hsame.rows]; rfl⟩
  have hrows : scrolledOnce.parser.rows = 8 := hsame.rows
  have hscrolls := Parser.rowsOff_scrollUps scrollVt100_bounded hready (n := 8) (by omega)
    (by omega) 512
  rw [hrows] at hscrolls
  have hparked : scrolledOnce.park.parked = true := by decide
  have hwithin : scrolledOnce.park.parser.Within := ⟨by decide, by decide⟩
  have hcapacity : (scrolledOnce.parsed screenfuls).parser.scrollbackLen = stageScrollback :=
    (Parser.process_scrollbackLen _ _).trans hbooked.steady.park_capacity
  refine ⟨hready.reached, hbooked, hrows, length_scrollUps 512, hscrolls, ?_⟩
  rw [← hcapacity]
  exact uncounted_le_of_parked hparked (hwithin.process screenfuls)

end Mirror

end G2mirror
