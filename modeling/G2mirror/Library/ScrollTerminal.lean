import Mathlib.Data.List.Basic

/-!
# Terminals with a scrollback

A terminal is seen here as lines: those on the screen and those that scrolled
into the scrollback. A line feed on the bottom row moves the top row there;
moving the cursor, writing over a row, deleting rows and clearing move nothing.
What a line is does not matter.
-/

/-- A terminal's scrollback, its screen from the top, and the row of its cursor. -/
structure ScrollTerminal (Line : Type*) where
  scrollback : List Line
  screen : List Line
  row : ℕ

namespace ScrollTerminal

variable {Line : Type*} (blank : Line)

/-- Move the cursor to a row of the screen. -/
def moveTo (t : ScrollTerminal Line) (row : ℕ) : ScrollTerminal Line :=
  { t with row := min row (t.screen.length - 1) }

/-- Write over the row of the cursor. -/
def write (t : ScrollTerminal Line) (line : Line) : ScrollTerminal Line :=
  { t with screen := t.screen.set t.row line }

/-- Move down one row. On the bottom row the screen scrolls up instead. -/
def newline (t : ScrollTerminal Line) : ScrollTerminal Line :=
  if t.row + 1 < t.screen.length then { t with row := t.row + 1 }
  else
    { t with
      scrollback := t.scrollback ++ t.screen.take 1
      screen := t.screen.drop 1 ++ [blank] }

/-- Several line feeds. -/
def newlines : ℕ → ScrollTerminal Line → ScrollTerminal Line
  | 0, t => t
  | n + 1, t => newlines n (newline blank t)

/-- Write a line on the next row. -/
def writeBelow (t : ScrollTerminal Line) (line : Line) : ScrollTerminal Line :=
  (newline blank t).write line

/-- Write lines on successive rows. -/
def writeLines (t : ScrollTerminal Line) : List Line → ScrollTerminal Line
  | [] => t
  | line :: lines => lines.foldl (writeBelow blank) (t.write line)

/-- Write lines over rows that are addressed one by one, from this one down. -/
def writeRows (t : ScrollTerminal Line) (first : ℕ) (lines : List Line) : ScrollTerminal Line :=
  (lines.zipIdx first).foldl (fun t line => (t.moveTo line.2).write line.1) t

/-- Delete rows from the cursor down; blank rows come in at the bottom. -/
def deleteLines (t : ScrollTerminal Line) (count : ℕ) : ScrollTerminal Line :=
  { t with
    screen := t.screen.take t.row ++ t.screen.drop (t.row + count) ++
      List.replicate (min count (t.screen.length - t.row)) blank }

/-- Blank the screen and move to its top. -/
def clear (t : ScrollTerminal Line) : ScrollTerminal Line :=
  { t with screen := List.replicate t.screen.length blank, row := 0 }

variable {blank}

@[simp] theorem moveTo_scrollback (t : ScrollTerminal Line) (row : ℕ) :
    (t.moveTo row).scrollback = t.scrollback := rfl

@[simp] theorem moveTo_screen (t : ScrollTerminal Line) (row : ℕ) :
    (t.moveTo row).screen = t.screen := rfl

@[simp] theorem write_scrollback (t : ScrollTerminal Line) (line : Line) :
    (t.write line).scrollback = t.scrollback := rfl

@[simp] theorem length_write (t : ScrollTerminal Line) (line : Line) :
    (t.write line).screen.length = t.screen.length := List.length_set

/-- Line feeds keep the height of the screen. -/
theorem length_newline {t : ScrollTerminal Line} (ht : 0 < t.screen.length) :
    (newline blank t).screen.length = t.screen.length := by
  rw [newline]
  split
  · rfl
  · rw [List.length_append, List.length_drop, List.length_singleton]
    omega

/-- A line feed takes nothing out of the scrollback. -/
theorem newline_scrollback (t : ScrollTerminal Line) :
    t.scrollback <+: (newline blank t).scrollback := by
  rw [newline]
  split
  · exact List.prefix_rfl
  · exact List.prefix_append _ _

/-- A line feed loses no line. -/
theorem mem_newline {t : ScrollTerminal Line} {line : Line} (hline : line ∈ t.screen) :
    line ∈ (newline blank t).scrollback ∨ line ∈ (newline blank t).screen := by
  rw [newline]
  split
  · exact .inr hline
  · rw [← List.take_append_drop 1 t.screen, List.mem_append] at hline
    rcases hline with htop | hrest
    · exact .inl (List.mem_append_right _ htop)
    · exact .inr (List.mem_append_left _ hrest)

theorem length_newlines {t : ScrollTerminal Line} (ht : 0 < t.screen.length) (n : ℕ) :
    (newlines blank n t).screen.length = t.screen.length := by
  induction n generalizing t with
  | zero => rfl
  | succ n ih =>
    have hone : (newline blank t).screen.length = t.screen.length := length_newline ht
    rw [newlines, ih (by rw [hone]; exact ht), hone]

theorem newlines_scrollback (t : ScrollTerminal Line) (n : ℕ) :
    t.scrollback <+: (newlines blank n t).scrollback := by
  induction n generalizing t with
  | zero => exact List.prefix_rfl
  | succ n ih => exact (newline_scrollback t).trans (ih _)

theorem length_writeLines {t : ScrollTerminal Line} (ht : 0 < t.screen.length)
    (lines : List Line) : (writeLines blank t lines).screen.length = t.screen.length := by
  have hbelow (lines : List Line) {t : ScrollTerminal Line} (ht : 0 < t.screen.length) :
      (lines.foldl (writeBelow blank) t).screen.length = t.screen.length := by
    induction lines generalizing t with
    | nil => rfl
    | cons line lines ih =>
      have hone : (writeBelow blank t line).screen.length = t.screen.length := by
        rw [writeBelow, length_write, length_newline ht]
      rw [List.foldl_cons, ih (by rw [hone]; exact ht), hone]
  cases lines with
  | nil => rfl
  | cons line lines =>
    rw [writeLines, hbelow lines (by rw [length_write]; exact ht), length_write]

theorem writeLines_scrollback (t : ScrollTerminal Line) (lines : List Line) :
    t.scrollback <+: (writeLines blank t lines).scrollback := by
  have hbelow (lines : List Line) (t : ScrollTerminal Line) :
      t.scrollback <+: (lines.foldl (writeBelow blank) t).scrollback := by
    induction lines generalizing t with
    | nil => exact List.prefix_rfl
    | cons line lines ih =>
      have hone : t.scrollback <+: (newline blank t).scrollback := newline_scrollback t
      exact hone.trans (ih (writeBelow blank t line))
  cases lines with
  | nil => exact List.prefix_rfl
  | cons line lines => exact hbelow lines (t.write line)

theorem length_deleteLines (t : ScrollTerminal Line) (count : ℕ) :
    (deleteLines blank t count).screen.length = t.screen.length := by
  simp only [deleteLines, List.length_append, List.length_take, List.length_drop,
    List.length_replicate]
  omega

theorem length_clear (t : ScrollTerminal Line) :
    (clear blank t).screen.length = t.screen.length := List.length_replicate

/-- Line feeds on the bottom row move the top rows to the scrollback, the topmost first. -/
theorem newlines_of_bottom {t : ScrollTerminal Line} (ht : t.row + 1 = t.screen.length) (n : ℕ) :
    newlines blank n t =
      ⟨t.scrollback ++ (t.screen ++ List.replicate n blank).take n,
        (t.screen ++ List.replicate n blank).drop n, t.row⟩ := by
  induction n generalizing t with
  | zero => rw [List.take_zero, List.append_nil, List.drop_zero, List.replicate_zero,
      List.append_nil, newlines]
  | succ n ih =>
    obtain ⟨scrollback, screen, row⟩ := t
    cases screen with
    | nil => exact absurd ht (Nat.succ_ne_zero row)
    | cons top rest =>
      have hone : newline blank ⟨scrollback, top :: rest, row⟩ =
          ⟨scrollback ++ [top], rest ++ [blank], row⟩ := if_neg (by omega)
      rw [newlines, hone, ih (by simpa using ht), List.replicate_succ]
      simp only [List.append_assoc, List.cons_append, List.nil_append, List.take_succ_cons,
        List.drop_succ_cons]

/-- Addressed rows are replaced; the others and the scrollback stay. -/
theorem writeRows_spec {t : ScrollTerminal Line} {first : ℕ} {lines : List Line}
    (hfits : first + lines.length ≤ t.screen.length) :
    (t.writeRows first lines).scrollback = t.scrollback ∧
      (t.writeRows first lines).screen =
        t.screen.take first ++ lines ++ t.screen.drop (first + lines.length) := by
  induction lines generalizing t first with
  | nil =>
    refine ⟨rfl, ?_⟩
    rw [List.append_nil, List.length_nil, Nat.add_zero, List.take_append_drop]
    rfl
  | cons line lines ih =>
    rw [List.length_cons] at hfits
    let one := (t.moveTo first).write line
    have hrow : min first (t.screen.length - 1) = first := Nat.min_eq_left (by omega)
    have hone : one.screen = t.screen.take first ++ line :: t.screen.drop (first + 1) := by
      change t.screen.set (min first (t.screen.length - 1)) line = _
      rw [hrow, List.set_eq_take_append_cons_drop, if_pos (by omega)]
    have hlength : one.screen.length = t.screen.length := length_write _ _
    have hnext : first + 1 + lines.length ≤ one.screen.length := by omega
    obtain ⟨hscrollback, hscreen⟩ := ih hnext
    refine ⟨hscrollback, ?_⟩
    have htop : (t.screen.take first ++ [line]).length = first + 1 := by
      rw [List.length_append, List.length_take, List.length_singleton]
      omega
    have hsplit : one.screen = t.screen.take first ++ [line] ++ t.screen.drop (first + 1) := by
      rw [hone, List.append_assoc, List.singleton_append]
    have hupper : one.screen.take (first + 1) = t.screen.take first ++ [line] := by
      rw [hsplit, List.take_left' htop]
    have hlower : one.screen.drop (first + 1 + lines.length) =
        t.screen.drop (first + (lines.length + 1)) := by
      rw [← List.drop_drop, hsplit, List.drop_left' htop, List.drop_drop]
      congr 1
      omega
    change (one.writeRows (first + 1) lines).screen = _
    rw [hscreen, hupper, hlower, List.length_cons, List.append_assoc (t.screen.take first),
      List.singleton_append]

theorem length_writeRows {t : ScrollTerminal Line} {first : ℕ} {lines : List Line}
    (hfits : first + lines.length ≤ t.screen.length) :
    (t.writeRows first lines).screen.length = t.screen.length := by
  rw [(writeRows_spec hfits).2, List.length_append, List.length_append, List.length_take,
    List.length_drop]
  omega

/-- Lines painted over the top rows and as many line feeds at the bottom: exactly these lines
reach the scrollback, and the other rows move up. -/
theorem newlines_writeRows {t : ScrollTerminal Line} (ht : 0 < t.screen.length)
    {lines : List Line} (hfits : lines.length ≤ t.screen.length) :
    newlines blank lines.length ((t.writeRows 0 lines).moveTo (t.screen.length - 1)) =
      ⟨t.scrollback ++ lines,
        t.screen.drop lines.length ++ List.replicate lines.length blank,
        t.screen.length - 1⟩ := by
  have hfits' : 0 + lines.length ≤ t.screen.length := by omega
  obtain ⟨hscrollback, hscreen⟩ := writeRows_spec hfits'
  have hlength := length_writeRows hfits'
  have hbottom :
      ((t.writeRows 0 lines).moveTo (t.screen.length - 1)).row = t.screen.length - 1 := by
    simp only [moveTo, hlength, Nat.min_self]
  have hlast : ((t.writeRows 0 lines).moveTo (t.screen.length - 1)).row + 1 =
      ((t.writeRows 0 lines).moveTo (t.screen.length - 1)).screen.length := by
    rw [hbottom, moveTo_screen, hlength]
    omega
  rw [newlines_of_bottom hlast, hbottom, moveTo_scrollback, moveTo_screen, hscrollback, hscreen,
    List.take_zero, List.nil_append, Nat.zero_add, List.append_assoc, List.take_left,
    List.drop_left]

/-- A terminal of this height on which only these lines were ever written, one
below the other: what does not fit has scrolled off. -/
def showing (blank : Line) (old : List Line) (height : ℕ) (written : List Line) :
    ScrollTerminal Line :=
  ⟨old ++ written.take (written.length - height),
    written.drop (written.length - height) ++ List.replicate (height - written.length) blank,
    min written.length height - 1⟩

/-- Writing one more line below the others. -/
theorem writeBelow_showing {old written : List Line} {height : ℕ} (line : Line)
    (hheight : 0 < height) (hwritten : 0 < written.length) :
    writeBelow blank (showing blank old height written) line =
      showing blank old height (written ++ [line]) := by
  have hlength : (showing blank old height written).screen.length = height := by
    simp only [showing, List.length_append, List.length_drop, List.length_replicate]
    omega
  rcases Nat.lt_or_ge written.length height with hroom | hfull
  · have hnext : newline blank (showing blank old height written) =
        { showing blank old height written with row := written.length } := by
      rw [newline, if_pos (by rw [hlength]; simp only [showing]; omega)]
      simp only [showing]
      congr 1
      omega
    have hset : (written ++ List.replicate (height - written.length) blank).set written.length
        line = written ++ [line] ++ List.replicate (height - (written.length + 1)) blank := by
      obtain ⟨gap, hgap⟩ : ∃ gap, height - written.length = gap + 1 :=
        ⟨height - written.length - 1, by omega⟩
      rw [hgap, List.replicate_succ, List.set_append_right _ _ (Nat.le_refl _), Nat.sub_self,
        List.set_cons_zero, List.append_assoc, List.singleton_append]
      congr 3
      omega
    have hshow : showing blank old height written =
        ⟨old ++ [], written ++ List.replicate (height - written.length) blank,
          written.length - 1⟩ := by
      simp only [showing, Nat.sub_eq_zero_of_le (Nat.le_of_lt hroom), List.take_zero,
        List.drop_zero, Nat.min_eq_left (Nat.le_of_lt hroom)]
    have hshow' : showing blank old height (written ++ [line]) =
        ⟨old ++ [], written ++ [line] ++ List.replicate (height - (written.length + 1)) blank,
          written.length⟩ := by
      have hfits : written.length + 1 ≤ height := hroom
      simp only [showing, List.length_append, List.length_singleton, Nat.sub_eq_zero_of_le hfits,
        List.take_zero, List.drop_zero, Nat.min_eq_left hfits, Nat.add_sub_cancel]
    rw [writeBelow, hnext, hshow', hshow, write]
    simp only [hset]
  · obtain ⟨gone, top, rest, hsplit, hgone⟩ : ∃ gone top rest, written = gone ++ top :: rest ∧
        gone.length = written.length - height := by
      have hlt : written.length - height < written.length := by omega
      refine ⟨written.take (written.length - height), written[written.length - height],
        written.drop (written.length - height + 1), ?_, ?_⟩
      · rw [← List.drop_eq_getElem_cons hlt, List.take_append_drop]
      · rw [List.length_take]
        omega
    have hrest : rest.length + 1 = height := by
      have hcount := congrArg List.length hsplit
      rw [List.length_append, List.length_cons] at hcount
      omega
    have hshow : showing blank old height written = ⟨old ++ gone, top :: rest, rest.length⟩ := by
      simp only [showing, ← hgone, Nat.sub_eq_zero_of_le hfull, List.replicate_zero,
        List.append_nil, Nat.min_eq_right hfull]
      rw [hsplit, List.take_left, List.drop_left]
      congr 1
      omega
    have hshow' : showing blank old height (written ++ [line]) =
        ⟨old ++ gone ++ [top], rest ++ [line], rest.length⟩ := by
      have hcut : written.length + 1 - height = gone.length + 1 := by omega
      have hpart : written ++ [line] = (gone ++ [top]) ++ (rest ++ [line]) := by
        rw [hsplit]
        simp
      have hlen : gone.length + 1 = (gone ++ [top]).length := by
        rw [List.length_append, List.length_singleton]
      simp only [showing, List.length_append, List.length_singleton, hcut]
      rw [Nat.sub_eq_zero_of_le (by omega), List.replicate_zero, List.append_nil, hpart, hlen,
        List.take_left, List.drop_left, List.append_assoc]
      congr 1
      omega
    have hscroll : newline blank (⟨old ++ gone, top :: rest, rest.length⟩ : ScrollTerminal Line) =
        ⟨old ++ gone ++ [top], rest ++ [blank], rest.length⟩ := if_neg (Nat.lt_irrefl _)
    rw [writeBelow, hshow, hshow', hscroll, write]
    congr 1
    rw [List.set_append_right _ _ (Nat.le_refl _), Nat.sub_self, List.set_cons_zero]

/-- Writing several more lines below the others. -/
theorem foldl_writeBelow_showing {old written : List Line} {height : ℕ} (hheight : 0 < height)
    (hwritten : 0 < written.length) (lines : List Line) :
    lines.foldl (writeBelow blank) (showing blank old height written) =
      showing blank old height (written ++ lines) := by
  induction lines generalizing written with
  | nil => rw [List.append_nil, List.foldl_nil]
  | cons line lines ih =>
    have hpos : 0 < (written ++ [line]).length := by
      rw [List.length_append]
      exact Nat.add_pos_left hwritten _
    rw [List.foldl_cons, writeBelow_showing line hheight hwritten, ih hpos, List.append_assoc,
      List.singleton_append]

/-- Lines written below `zone` into a blank region, and as many line feeds at
the bottom as the region has rows for them: the lines flow through the zone, and
as many rows as there are lines reach the scrollback. -/
theorem newlines_writeLines {old zone : List Line} {region : ℕ} (hregion : 0 < region)
    {lines : List Line} (hlines : lines ≠ []) :
    let t : ScrollTerminal Line := ⟨old, zone ++ List.replicate region blank, zone.length⟩
    newlines blank (min lines.length region)
        ((writeLines blank t lines).moveTo (zone.length + region - 1)) =
      ⟨old ++ (zone ++ lines).take lines.length,
        (zone ++ lines).drop lines.length ++ List.replicate region blank,
        zone.length + region - 1⟩ := by
  intro t
  obtain ⟨first, rest, rfl⟩ := List.exists_cons_of_ne_nil hlines
  let height := zone.length + region
  let written := zone ++ first :: rest
  have hwritten : written.length = zone.length + (rest.length + 1) := by
    rw [List.length_append, List.length_cons]
  have hfirst : t.write first = showing blank old height (zone ++ [first]) := by
    obtain ⟨gap, rfl⟩ : ∃ gap, region = gap + 1 := ⟨region - 1, by omega⟩
    have hfits : (zone ++ [first]).length ≤ height := by
      rw [List.length_append, List.length_singleton]
      omega
    simp only [showing, Nat.sub_eq_zero_of_le hfits, List.take_zero, List.append_nil,
      List.drop_zero, Nat.min_eq_left hfits, write, t, List.replicate_succ]
    rw [List.set_append_right _ _ (Nat.le_refl _), Nat.sub_self, List.set_cons_zero,
      List.length_append, List.length_singleton, List.append_assoc, List.singleton_append]
    congr 4
    omega
  have hshown : writeLines blank t (first :: rest) = showing blank old height written := by
    rw [writeLines, hfirst, foldl_writeBelow_showing (by omega)
      (by rw [List.length_append, List.length_singleton]; omega), List.append_assoc,
      List.singleton_append]
  have hlength : (showing blank old height written).screen.length = height := by
    simp only [showing, List.length_append, List.length_drop, List.length_replicate]
    omega
  have hbottom : ((showing blank old height written).moveTo (height - 1)).row + 1 =
      ((showing blank old height written).moveTo (height - 1)).screen.length := by
    simp only [moveTo, hlength]
    omega
  rw [hshown, newlines_of_bottom hbottom]
  simp only [moveTo, hlength, Nat.min_self]
  simp only [showing, List.append_assoc, List.length_cons]
  rw [List.replicate_append_replicate]
  have hsplit : rest.length + 1 = (written.length - height) + min (rest.length + 1) region := by
    omega
  have hcut : written.length - height ≤ written.length := Nat.sub_le _ _
  have hfront : (written.drop (written.length - height) ++ List.replicate
      (height - written.length + min (rest.length + 1) region) blank).take
        (min (rest.length + 1) region) =
      (written.drop (written.length - height)).take (min (rest.length + 1) region) := by
    rw [List.take_append_of_le_length (by rw [List.length_drop]; omega)]
  have hsuffix : (written.drop (written.length - height) ++ List.replicate
      (height - written.length + min (rest.length + 1) region) blank).drop
        (min (rest.length + 1) region) =
      written.drop (rest.length + 1) ++ List.replicate region blank := by
    rw [List.drop_append_of_le_length (by rw [List.length_drop]; omega), List.drop_drop, ← hsplit]
    congr 2
    omega
  rw [hfront, hsuffix, ← List.take_add, ← hsplit]

end ScrollTerminal
