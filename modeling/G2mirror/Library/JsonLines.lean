import G2mirror.Library.Json

/-!
# JSON texts cut at newlines

A text that is one JSON value may have raw newlines between its tokens. Of its
lines the first one is either no value, or the same value with nothing but
whitespace in the lines after it.
-/

namespace Json

/-- The lines of a text, without the empty ones. -/
def lines (text : List Char) : List (List Char) := (text.splitOn '\n').filter (· ≠ [])

/-- Raw newlines stand at the ends of the text only. -/
def OneLine (text : List Char) : Prop :=
  ∃ m line n, '\n' ∉ line ∧ text = List.replicate m '\n' ++ line ++ List.replicate n '\n'

@[simp] theorem lines_nil : lines [] = [] := rfl

@[simp] theorem lines_newline (text : List Char) : lines ('\n' :: text) = lines text := by
  unfold lines
  rw [List.splitOn_cons_eq_if_modifyHead, if_pos (beq_self_eq_true _), List.filter_cons_of_neg]
  simp

theorem lines_newlines (n : ℕ) (text : List Char) :
    lines (List.replicate n '\n' ++ text) = lines text := by
  induction n with
  | zero => rfl
  | succ n ih => rw [List.replicate_succ, List.cons_append, lines_newline, ih]

/-- A line that is followed by nothing or by a newline is the first one. -/
theorem lines_line {line rest : List Char} (hne : line ≠ []) (hline : '\n' ∉ line)
    (hrest : rest = [] ∨ ∃ rest', rest = '\n' :: rest') :
    lines (line ++ rest) = line :: lines rest := by
  rcases hrest with rfl | ⟨rest, rfl⟩
  · unfold lines
    rw [List.append_nil, List.splitOn_eq_singleton hline,
      List.filter_cons_of_pos (by simpa using hne)]
    rfl
  · rw [lines_newline]
    unfold lines
    rw [List.splitOn_append_cons_self_of_not_mem hline,
      List.filter_cons_of_pos (by simpa using hne)]

/-- A text is cut at its first newline. -/
theorem exists_cut (text : List Char) :
    ∃ line rest, text = line ++ rest ∧ '\n' ∉ line ∧
      (rest = [] ∨ ∃ rest', rest = '\n' :: rest') := by
  induction text with
  | nil => exact ⟨[], [], rfl, List.not_mem_nil, .inl rfl⟩
  | cons c text ih =>
    by_cases hc : c = '\n'
    · subst hc
      exact ⟨[], '\n' :: text, rfl, List.not_mem_nil, .inr ⟨text, rfl⟩⟩
    · obtain ⟨line, rest, rfl, hline, hrest⟩ := ih
      refine ⟨c :: line, rest, rfl, ?_, hrest⟩
      rw [List.mem_cons, not_or]
      exact ⟨Ne.symm hc, hline⟩

/-- A text with anything but newlines begins with newlines and a line. -/
theorem exists_line {text : List Char} (h : ¬ ∀ c ∈ text, c = '\n') :
    ∃ m line rest, text = List.replicate m '\n' ++ (line ++ rest) ∧ line ≠ [] ∧ '\n' ∉ line ∧
      (rest = [] ∨ ∃ rest', rest = '\n' :: rest') := by
  induction text with
  | nil => exact absurd (fun _ hc => absurd hc List.not_mem_nil) h
  | cons c text ih =>
    by_cases hc : c = '\n'
    · subst hc
      obtain ⟨m, line, rest, rfl, hline⟩ :=
        ih fun hrest => h (List.forall_mem_cons.mpr ⟨rfl, hrest⟩)
      exact ⟨m + 1, line, rest, by rw [List.replicate_succ, List.cons_append], hline⟩
    · obtain ⟨line, rest, rfl, hline, hrest⟩ := exists_cut text
      refine ⟨0, c :: line, rest, rfl, List.cons_ne_nil _ _, ?_, hrest⟩
      rw [List.mem_cons, not_or]
      exact ⟨Ne.symm hc, hline⟩

/-- Only newlines have no lines. -/
theorem lines_eq_nil {text : List Char} : lines text = [] ↔ ∀ c ∈ text, c = '\n' := by
  constructor
  · intro h
    by_contra hother
    obtain ⟨m, line, rest, rfl, hne, hline, hrest⟩ := exists_line hother
    rw [lines_newlines, lines_line hne hline hrest] at h
    cases h
  · intro h
    have hreplicate := List.eq_replicate_of_mem h
    have hlines := lines_newlines text.length []
    rwa [List.append_nil, ← hreplicate, lines_nil] at hlines

/-- The characters of the lines are those of the text. -/
theorem mem_of_mem_lines {text line : List Char} (hline : line ∈ lines text) {c : Char}
    (hc : c ∈ line) : c ∈ text := by
  have hpart := (List.mem_filter.mp hline).1
  clear hline
  induction text generalizing line with
  | nil =>
    obtain rfl := List.mem_singleton.mp hpart
    exact hc
  | cons d text ih =>
    rw [List.splitOn_cons_eq_if_modifyHead] at hpart
    split_ifs at hpart
    · rcases List.mem_cons.mp hpart with rfl | hrest
      · cases hc
      · exact List.mem_cons_of_mem _ (ih hc hrest)
    · cases hsplit : text.splitOn '\n' with
      | nil => exact absurd hsplit (List.splitOn_ne_nil _ _)
      | cons part parts =>
        rw [hsplit, List.modifyHead_cons] at hpart
        rw [hsplit] at ih
        rcases List.mem_cons.mp hpart with rfl | hrest
        · exact List.mem_cons.mpr
            ((List.mem_cons.mp hc).imp_right fun hc => ih hc List.mem_cons_self)
        · exact List.mem_cons_of_mem _ (ih hc (List.mem_cons_of_mem _ hrest))

section Values

variable {limits : Limits} {text : List Char} {value : Json}

/-- Newlines are no value. -/
theorem not_newlines_of_read (h : read limits text = some value) : ¬ ∀ c ∈ text, c = '\n' := by
  intro hnewlines
  have hspaces : ∀ c ∈ text, isSpace c = true := by
    intro c hc
    rw [hnewlines c hc]
    rfl
  rw [read_spaces hspaces] at h
  cases h

/-- Newlines before a value do not matter. -/
theorem read_newlines (m : ℕ) (text : List Char) :
    read limits (List.replicate m '\n' ++ text) = read limits text := by
  apply read_spaces_append
  intro c hc
  rw [List.eq_of_mem_replicate hc]
  rfl

/-- The lines of a value: the first one is no value, or it is this value and the
others are none. -/
theorem read_lines (h : read limits text = some value) :
    ∃ line rest, lines text = line :: rest ∧
      (read limits line = none ∨
        read limits line = some value ∧ ∀ other ∈ rest, read limits other = none) := by
  obtain ⟨m, line, rest, rfl, hne, hline, hrest⟩ := exists_line (not_newlines_of_read h)
  rw [read_newlines] at h
  refine ⟨line, lines rest, ?_, ?_⟩
  · rw [lines_newlines, lines_line hne hline hrest]
  · rcases hrest with rfl | ⟨rest, rfl⟩
    · rw [List.append_nil] at h
      exact .inr ⟨h, fun other hother => absurd hother List.not_mem_nil⟩
    · cases hread : read limits line with
      | none => exact .inl rfl
      | some value' =>
        obtain ⟨rfl, hspaces⟩ := read_of_read_append rfl h hread
        refine .inr ⟨rfl, fun other hother => ?_⟩
        rw [lines_newline] at hother
        exact read_spaces fun c hc => hspaces c (mem_of_mem_lines hother hc)

/-- A value has one line exactly if its raw newlines stand at its ends. -/
theorem lines_eq_singleton_iff (h : read limits text = some value) :
    (∃ line, lines text = [line]) ↔ OneLine text := by
  constructor
  · rintro ⟨line', hlines⟩
    obtain ⟨m, line, rest, rfl, hne, hline, hrest⟩ := exists_line (not_newlines_of_read h)
    rw [lines_newlines, lines_line hne hline hrest] at hlines
    have hnewlines := lines_eq_nil.mp (List.cons.inj hlines).2
    refine ⟨m, line, rest.length, hline, ?_⟩
    rw [← List.eq_replicate_of_mem hnewlines, List.append_assoc]
  · rintro ⟨m, line, n, hline, rfl⟩
    have hend : lines (List.replicate n '\n') = [] :=
      lines_eq_nil.mpr fun c hc => List.eq_of_mem_replicate hc
    rw [List.append_assoc, lines_newlines]
    by_cases hne : line = []
    · refine absurd (fun c hc => ?_) (not_newlines_of_read h)
      rw [hne, List.append_nil, ← List.replicate_add] at hc
      exact List.eq_of_mem_replicate hc
    · refine ⟨line, ?_⟩
      rw [lines_line hne hline, hend]
      cases n with
      | zero => exact .inl rfl
      | succ n => exact .inr ⟨_, List.replicate_succ⟩

/-- The line of such a value is the value. -/
theorem read_oneLine (h : read limits text = some value) {line : List Char}
    (hlines : lines text = [line]) : read limits line = some value := by
  obtain ⟨m, line', rest, rfl, hne, hline, hrest⟩ := exists_line (not_newlines_of_read h)
  rw [lines_newlines, lines_line hne hline hrest] at hlines
  obtain ⟨rfl, hnil⟩ := List.cons.inj hlines
  rw [read_newlines, List.eq_replicate_of_mem (lines_eq_nil.mp hnil)] at h
  exact read_of_read_newlines h

end Values

end Json
