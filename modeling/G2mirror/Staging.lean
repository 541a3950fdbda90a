import G2mirror.Mirror

/-!
# The staging scrollback and what a harvest archives

The archive is fed through the staging scrollback of the primary grid. This
file says once what parsing does to it (`Parser.process_staged`) and what a
harvest does with it (`Mirror.harvest_eq`): it archives the newest rows the
scroll counter covers, each once and in order.
-/

namespace G2mirror

variable {vt : Vt100}

namespace Parser

/-- The rows that one recognised function scrolls off the primary grid. -/
def rowsOffBy (p : Parser vt) : Action vt.Draw → List Row
  | .draw d => if p.alternate then [] else (vt.draw p.core d).2
  | _ => []

/-- The rows that several recognised functions scroll off the primary grid, in order. -/
def rowsOffActions (p : Parser vt) : List (Action vt.Draw) → List Row
  | [] => []
  | a :: as => p.rowsOffBy a ++ (p.perform a).rowsOffActions as

/-- The rows that scroll off the primary grid while these bytes are parsed. -/
def rowsOff (p : Parser vt) (bytes : Bytes) : List Row :=
  p.rowsOffActions (vt.scan p.vte bytes).2

/-- The functions recognised in these bytes include no full reset. -/
def NoReset (p : Parser vt) (bytes : Bytes) : Prop :=
  ∀ a ∈ (vt.scan p.vte bytes).2, a ≠ Action.fullReset

instance (p : Parser vt) (bytes : Bytes) : Decidable (p.NoReset bytes) :=
  inferInstanceAs (Decidable (∀ a ∈ (vt.scan p.vte bytes).2, a ≠ Action.fullReset))

/-- Whether one recognised function scrolls the primary grid to its bottom: a full reset
does, and entering the alternate screen from the primary one may. -/
def rewindsBy (p : Parser vt) : Action vt.Draw → Bool
  | .fullReset => true
  | .enterAlternate => vt.enterRewinds && !p.alternate
  | _ => false

/-- Whether one of several recognised functions scrolls the primary grid to its bottom. -/
def rewindsActions (p : Parser vt) : List (Action vt.Draw) → Bool
  | [] => false
  | a :: as => p.rewindsBy a || (p.perform a).rewindsActions as

/-- Whether these bytes scroll the primary grid to its bottom on the way. -/
def rewinds (p : Parser vt) (bytes : Bytes) : Bool := p.rewindsActions (vt.scan p.vte bytes).2

/-- Staging rows one after the other appends them all. Nothing else changes but the offset. -/
theorem foldl_stage (p : Parser vt) (rows : List Row) :
    ∃ offset, rows.foldl stage p =
      { p with staged := CappedQueue.pushAll p.scrollbackLen p.staged rows, offset := offset } := by
  induction rows generalizing p with
  | nil => exact ⟨p.offset, rfl⟩
  | cons row rows ih => exact ih (p.stage row)

/-- The parser with another state of its active grid. -/
def withCore (p : Parser vt) (core : Core vt.Rest) : Parser vt := { p with core := core }

/-- On the alternate screen a drawing function changes nothing but the screen's state. -/
theorem perform_draw_of_alternate {p : Parser vt} (halt : p.alternate = true) (d : vt.Draw) :
    p.perform (.draw d) = p.withCore (vt.draw p.core d).1 := by
  simp only [perform, halt, if_true]
  rw [withCore, halt]

/-- On the primary screen the rows that a drawing function scrolls off are staged. -/
theorem perform_draw_of_primary {p : Parser vt} (halt : p.alternate = false) (d : vt.Draw) :
    p.perform (.draw d) =
      (vt.draw p.core d).2.foldl stage (p.withCore (vt.draw p.core d).1) := by
  simp only [perform, halt, Bool.false_eq_true, if_false]
  rw [withCore, halt]

/-- Only a full reset and scrolled rows change the staging scrollback. -/
theorem perform_staged (p : Parser vt) (a : Action vt.Draw) (ha : a ≠ .fullReset) :
    (p.perform a).staged = CappedQueue.pushAll p.scrollbackLen p.staged (p.rowsOffBy a) := by
  cases a with
  | fullReset => exact absurd rfl ha
  | draw d =>
    simp only [perform, rowsOffBy]
    split
    · rfl
    · obtain ⟨offset, h⟩ := foldl_stage { p with core := (vt.draw p.core d).1 } (vt.draw p.core d).2
      rw [h]
  | _ => rfl

/-- The size and the staging capacity stay what they are. -/
theorem perform_size (p : Parser vt) (a : Action vt.Draw) :
    (p.perform a).rows = p.rows ∧ (p.perform a).cols = p.cols ∧
      (p.perform a).scrollbackLen = p.scrollbackLen := by
  cases a with
  | draw d =>
    simp only [perform]
    split
    · exact ⟨rfl, rfl, rfl⟩
    · obtain ⟨offset, h⟩ := foldl_stage { p with core := (vt.draw p.core d).1 } (vt.draw p.core d).2
      rw [h]
      exact ⟨rfl, rfl, rfl⟩
  | _ => exact ⟨rfl, rfl, rfl⟩

/-- The size and the staging capacity survive any number of recognised functions. -/
theorem foldl_perform_size (p : Parser vt) (as : List (Action vt.Draw)) :
    (as.foldl perform p).rows = p.rows ∧ (as.foldl perform p).cols = p.cols ∧
      (as.foldl perform p).scrollbackLen = p.scrollbackLen := by
  induction as generalizing p with
  | nil => exact ⟨rfl, rfl, rfl⟩
  | cons a as ih =>
    obtain ⟨hr, hc, hs⟩ := p.perform_size a
    obtain ⟨hr', hc', hs'⟩ := ih (p.perform a)
    exact ⟨hr'.trans hr, hc'.trans hc, hs'.trans hs⟩

@[simp] theorem process_rows (p : Parser vt) (bs : Bytes) : (p.process bs).rows = p.rows :=
  (p.foldl_perform_size _).1

@[simp] theorem process_cols (p : Parser vt) (bs : Bytes) : (p.process bs).cols = p.cols :=
  (p.foldl_perform_size _).2.1

@[simp] theorem process_scrollbackLen (p : Parser vt) (bs : Bytes) :
    (p.process bs).scrollbackLen = p.scrollbackLen := (p.foldl_perform_size _).2.2

/-- Without a full reset, parsing stages the rows that scroll off. -/
theorem process_staged {p : Parser vt} {bytes : Bytes} (h : p.NoReset bytes) :
    (p.process bytes).staged = CappedQueue.pushAll p.scrollbackLen p.staged (p.rowsOff bytes) := by
  have hactions {p : Parser vt} {as : List (Action vt.Draw)}
      (has : ∀ a ∈ as, a ≠ Action.fullReset) : (as.foldl perform p).staged =
        CappedQueue.pushAll p.scrollbackLen p.staged (p.rowsOffActions as) := by
    induction as generalizing p with
    | nil => rfl
    | cons a as ih =>
      rw [List.foldl_cons, ih fun b hb => has b (List.mem_cons_of_mem a hb),
        perform_staged p a (has a List.mem_cons_self), (p.perform_size a).2.2, rowsOffActions,
        CappedQueue.pushAll_append]
  exact hactions h

/-- The parser with another state of its byte automaton. -/
def withVte (p : Parser vt) (vte : vt.Vte) : Parser vt := { p with vte := vte }

/-- What was recognised takes effect independently of the automaton. -/
theorem perform_withVte (p : Parser vt) (vte : vt.Vte) (a : Action vt.Draw) :
    (p.withVte vte).perform a = (p.perform a).withVte vte := by
  cases a with
  | draw d =>
    have hstage (q : Parser vt) (rows : List Row) :
        rows.foldl stage (q.withVte vte) = (rows.foldl stage q).withVte vte := by
      induction rows generalizing q with
      | nil => rfl
      | cons row rows ih => exact ih (q.stage row)
    by_cases halt : p.alternate = true
    · have halt' : (p.withVte vte).alternate = true := halt
      simp only [perform, halt, halt', if_true]
      rfl
    · have halt' : ¬(p.withVte vte).alternate = true := halt
      simp only [perform, if_neg halt, if_neg halt']
      exact hstage { p with core := (vt.draw p.core d).1 } (vt.draw p.core d).2
  | _ => rfl

/-- Processing performs what is recognised and leaves the automaton where it ends. -/
theorem process_eq (p : Parser vt) (bs : Bytes) :
    p.process bs = ((vt.scan p.vte bs).2.foldl perform p).withVte (vt.scan p.vte bs).1 := rfl

@[simp] theorem process_vte (p : Parser vt) (bs : Bytes) :
    (p.process bs).vte = (vt.scan p.vte bs).1 := rfl

/-- Feeding two portions of bytes is feeding their concatenation. -/
theorem process_append (p : Parser vt) (bs cs : Bytes) :
    p.process (bs ++ cs) = (p.process bs).process cs := by
  have hfold (q : Parser vt) (v : vt.Vte) (as : List (Action vt.Draw)) :
      as.foldl perform (q.withVte v) = (as.foldl perform q).withVte v := by
    induction as generalizing q with
    | nil => rfl
    | cons a as ih => rw [List.foldl_cons, perform_withVte, ih, List.foldl_cons]
  rw [process_eq, process_eq (p.process bs), process_vte, process_eq p bs, hfold,
    Vt100.scan_append, List.foldl_append]
  rfl

/-- Whether bytes hold a full reset does not depend on how they are split. -/
theorem noReset_append {p : Parser vt} {bs cs : Bytes} :
    p.NoReset (bs ++ cs) ↔ p.NoReset bs ∧ (p.process bs).NoReset cs := by
  simp only [NoReset, Vt100.scan_append, process_vte, List.mem_append, or_imp, forall_and]

/-- Two parsers agree on everything but the staged rows, the offset and the events held
for the callbacks. -/
structure Same (p q : Parser vt) : Prop where
  rows : p.rows = q.rows
  cols : p.cols = q.cols
  vte : p.vte = q.vte
  core : p.core = q.core
  alternate : p.alternate = q.alternate

theorem Same.refl (p : Parser vt) : p.Same p := ⟨rfl, rfl, rfl, rfl, rfl⟩

theorem Same.trans {p q r : Parser vt} (h : p.Same q) (h' : q.Same r) : p.Same r :=
  ⟨h.rows.trans h'.rows, h.cols.trans h'.cols, h.vte.trans h'.vte, h.core.trans h'.core,
    h.alternate.trans h'.alternate⟩

theorem Same.symm {p q : Parser vt} (h : p.Same q) : q.Same p :=
  ⟨h.rows.symm, h.cols.symm, h.vte.symm, h.core.symm, h.alternate.symm⟩

/-- Staging rows leaves the screen alone. -/
theorem foldl_stage_same (p : Parser vt) (rows : List Row) : (rows.foldl stage p).Same p := by
  obtain ⟨offset, h⟩ := p.foldl_stage rows
  rw [h]
  exact ⟨rfl, rfl, rfl, rfl, rfl⟩

/-- Scrolling the primary grid back leaves the screen's state alone. -/
theorem withOffset_same (p : Parser vt) (offset : ℕ) : (p.withOffset offset).Same p :=
  ⟨rfl, rfl, rfl, rfl, rfl⟩

/-- A recognised function does the same to parsers that agree. -/
theorem Same.perform {p q : Parser vt} (h : p.Same q) (a : Action vt.Draw) :
    (p.perform a).Same (q.perform a) := by
  cases a with
  | draw d =>
    have hdrawn : (p.withCore (vt.draw p.core d).1).Same (q.withCore (vt.draw q.core d).1) :=
      ⟨h.rows, h.cols, h.vte, by rw [h.core]; rfl, h.alternate⟩
    cases halt : p.alternate with
    | true =>
      rw [perform_draw_of_alternate halt, perform_draw_of_alternate (h.alternate ▸ halt)]
      exact hdrawn
    | false =>
      rw [perform_draw_of_primary halt, perform_draw_of_primary (h.alternate ▸ halt)]
      exact (foldl_stage_same _ _).trans (hdrawn.trans (foldl_stage_same _ _).symm)
  | enterAlternate =>
    exact ⟨h.rows, h.cols, h.vte, by simp only [Parser.perform, h.alternate, h.core], rfl⟩
  | leaveAlternate =>
    exact ⟨h.rows, h.cols, h.vte, by simp only [Parser.perform, h.alternate, h.core], rfl⟩
  | fullReset =>
    exact ⟨h.rows, h.cols, h.vte, by simp only [Parser.perform, h.rows, h.cols], rfl⟩
  | bell => exact ⟨h.rows, h.cols, h.vte, h.core, h.alternate⟩
  | windowTitle title => exact ⟨h.rows, h.cols, h.vte, h.core, h.alternate⟩

/-- The same rows scroll off parsers that agree. -/
theorem Same.rowsOffActions {p q : Parser vt} (h : p.Same q) (as : List (Action vt.Draw)) :
    p.rowsOffActions as = q.rowsOffActions as := by
  induction as generalizing p q with
  | nil => rfl
  | cons a as ih =>
    have hfirst : p.rowsOffBy a = q.rowsOffBy a := by
      cases a with
      | draw d => simp only [rowsOffBy, h.alternate, h.core]
      | _ => rfl
    rw [Parser.rowsOffActions, Parser.rowsOffActions, hfirst, ih (h.perform a)]

/-- Parsers that agree go on to agree when they are fed the same bytes. -/
theorem Same.process {p q : Parser vt} (h : p.Same q) (bs : Bytes) :
    (p.process bs).Same (q.process bs) := by
  have hfold {p q : Parser vt} (h : p.Same q) (as : List (Action vt.Draw)) :
      (as.foldl Parser.perform p).Same (as.foldl Parser.perform q) := by
    induction as generalizing p q with
    | nil => exact h
    | cons a as ih => exact ih (h.perform a)
  have hend := hfold h (vt.scan p.vte bs).2
  rw [process_eq, process_eq, ← h.vte]
  exact ⟨hend.rows, hend.cols, rfl, hend.core, hend.alternate⟩

/-- The same rows scroll off parsers that agree when they are fed the same bytes. -/
theorem Same.rowsOff {p q : Parser vt} (h : p.Same q) (bs : Bytes) :
    p.rowsOff bs = q.rowsOff bs := by
  rw [Parser.rowsOff, Parser.rowsOff, ← h.vte]
  exact h.rowsOffActions _

/-- The same bytes rewind parsers that agree. -/
theorem Same.rewinds {p q : Parser vt} (h : p.Same q) (bs : Bytes) :
    p.rewinds bs = q.rewinds bs := by
  have hactions {p q : Parser vt} (h : p.Same q) (as : List (Action vt.Draw)) :
      p.rewindsActions as = q.rewindsActions as := by
    induction as generalizing p q with
    | nil => rfl
    | cons a as ih =>
      have hfirst : p.rewindsBy a = q.rewindsBy a := by
        cases a with
        | enterAlternate => simp only [rewindsBy, h.alternate]
        | _ => rfl
      rw [rewindsActions, rewindsActions, hfirst, ih (h.perform a)]
  rw [Parser.rewinds, Parser.rewinds, ← h.vte]
  exact hactions h _

/-- A full reset scrolls the primary grid to its bottom. -/
theorem rewinds_of_reset {p : Parser vt} {bs : Bytes} (h : ¬p.NoReset bs) :
    p.rewinds bs = true := by
  have hactions {p : Parser vt} {as : List (Action vt.Draw)}
      (has : ¬∀ a ∈ as, a ≠ Action.fullReset) : p.rewindsActions as = true := by
    induction as generalizing p with
    | nil => exact absurd (fun _ h => absurd h List.not_mem_nil) has
    | cons a as ih =>
      rw [rewindsActions, Bool.or_eq_true]
      by_cases hreset : a = .fullReset
      · left
        rw [hreset, rewindsBy]
      · right
        refine ih fun hrest => has fun b hb => ?_
        rcases List.mem_cons.mp hb with rfl | hb
        · exact hreset
        · exact hrest b hb
  exact hactions h

/-- Whether the alternate screen is active after one function was recognised. -/
def screenAfter (alternate : Bool) : Action vt.Draw → Bool
  | .enterAlternate => true
  | .leaveAlternate => false
  | .fullReset => false
  | _ => alternate

/-- What was recognised alone decides which screen is active. -/
theorem foldl_perform_alternate (p : Parser vt) (as : List (Action vt.Draw)) :
    (as.foldl perform p).alternate = as.foldl screenAfter p.alternate := by
  induction as generalizing p with
  | nil => rfl
  | cons a as ih =>
    have hone : (p.perform a).alternate = screenAfter p.alternate a := by
      cases a with
      | draw d =>
        cases halt : p.alternate with
        | true => rw [perform_draw_of_alternate halt]; exact halt
        | false => rw [perform_draw_of_primary halt, (foldl_stage_same _ _).alternate]; exact halt
      | _ => rfl
    rw [List.foldl_cons, ih, hone, List.foldl_cons]

@[simp] theorem process_alternate (p : Parser vt) (bs : Bytes) :
    (p.process bs).alternate = (vt.scan p.vte bs).2.foldl screenAfter p.alternate :=
  p.foldl_perform_alternate _

/-- The rows that scroll off do not depend on how the bytes are split. -/
theorem rowsOff_append (p : Parser vt) (bs cs : Bytes) :
    p.rowsOff (bs ++ cs) = p.rowsOff bs ++ (p.process bs).rowsOff cs := by
  have hactions (q : Parser vt) (as as' : List (Action vt.Draw)) :
      q.rowsOffActions (as ++ as') =
        q.rowsOffActions as ++ (as.foldl perform q).rowsOffActions as' := by
    induction as generalizing q with
    | nil => rfl
    | cons a as ih => rw [List.cons_append, rowsOffActions, ih, rowsOffActions, List.append_assoc,
        List.foldl_cons]
  have hvte (q : Parser vt) (v : vt.Vte) (as : List (Action vt.Draw)) :
      (q.withVte v).rowsOffActions as = q.rowsOffActions as := by
    induction as generalizing q with
    | nil => rfl
    | cons a as ih =>
      rw [rowsOffActions, rowsOffActions, perform_withVte, ih]
      cases a <;> rfl
  rw [rowsOff, rowsOff, rowsOff, Vt100.scan_append, hactions, process_vte, process_eq, hvte]

/-- Scrolled back by `n` staged rows, the screen shows these rows at its top. -/
theorem visibleRows_setScrollback {p : Parser vt} {n i : ℕ} (halt : p.alternate = false)
    (hn : n ≤ p.staged.length) (hi : i < min n p.rows) :
    (p.setScrollback n).visibleRows[i]? = (p.staged.rtake n)[i]? := by
  have hlen : i < ((p.staged.rtake n).take p.rows).length := by
    rw [List.length_take, CappedQueue.length_rtake, Nat.min_eq_left hn]
    omega
  rw [setScrollback_of_primary halt, Nat.min_eq_left hn]
  simp only [visibleRows, withOffset, halt, Bool.false_eq_true, if_false]
  rw [List.getElem?_append_left hlen, List.getElem?_take_of_lt (by omega)]

end Parser

/-- The numbers of the rows that are left after skipping and taking some. -/
theorem index_of_window {α : Type} {l : List α} {start count : ℕ} {x : α × ℕ}
    (hx : x ∈ (l.zipIdx.drop start).take count) : start ≤ x.2 ∧ x.2 < start + count := by
  obtain ⟨i, hi, rfl⟩ := List.getElem_of_mem hx
  rw [List.length_take] at hi
  rw [List.getElem_take, List.getElem_drop, List.getElem_zipIdx]
  constructor <;> dsimp only <;> omega

/-- The slices of a chunk make up the chunk. -/
theorem flatten_chunks {size : ℕ} (hsize : 0 < size) (bytes : Bytes) :
    (chunks size bytes).flatten = bytes := by
  have haux (fuel : ℕ) (bytes : Bytes) (hfuel : bytes.length ≤ fuel) :
      (chunksAux size fuel bytes).flatten = bytes := by
    induction fuel generalizing bytes with
    | zero => rw [List.length_eq_zero_iff.mp (Nat.le_zero.mp hfuel)]; rfl
    | succ fuel ih =>
      rw [chunksAux]
      split
      · rename_i hempty
        rw [hempty]
        rfl
      · rename_i hsome
        have hpos : 0 < bytes.length := List.length_pos_iff.mpr hsome
        rw [List.flatten_cons, ih _ (by rw [List.length_drop]; omega), List.take_append_drop]
  exact haux _ bytes le_rfl

namespace Mirror

/-- How many rows the next harvest counts as new. -/
def uncounted (m : Mirror vt) : ℕ :=
  if m.parked then m.parser.offset - 1 else m.parser.staged.length - m.stagedSeen

/-- The staged rows that the next harvest archives. -/
def unarchived (m : Mirror vt) : List Row := m.parser.staged.rtake m.uncounted

/-- The records a harvest makes of staged rows, at the current width. -/
def recordsOf (m : Mirror vt) (rows : List Row) : List HistoryRecord :=
  rows.map fun row => row.record m.parser.cols

/-- One window of `archive_staged_rows` serializes the oldest of the remaining rows. -/
theorem window_records {m : Mirror vt} {remaining : ℕ} (halt : m.parser.alternate = false)
    (hremaining : remaining ≤ m.parser.staged.length) :
    ((List.range (min remaining m.parser.rows)).map fun row =>
        serializeRow (m.parser.setScrollback remaining).screen row m.parser.cols) =
      m.recordsOf ((m.parser.staged.rtake remaining).take (min remaining m.parser.rows)) := by
  apply List.ext_getElem?
  intro i
  by_cases hi : i < min remaining m.parser.rows
  · have hrow := Parser.visibleRows_setScrollback halt hremaining hi
    have hsome : i < (m.parser.staged.rtake remaining).length := by
      rw [CappedQueue.length_rtake, Nat.min_eq_left hremaining]
      omega
    rw [List.getElem?_eq_getElem hsome] at hrow
    simp only [recordsOf, List.getElem?_map, List.getElem?_range hi, Option.map_some,
      List.getElem?_take_of_lt hi, List.getElem?_eq_getElem hsome, serializeRow, Parser.screen,
      hrow, Option.getD_some]
  · have hlen : (m.recordsOf ((m.parser.staged.rtake remaining).take
        (min remaining m.parser.rows))).length ≤ i := by
      rw [recordsOf, List.length_map, List.length_take]
      omega
    rw [List.getElem?_eq_none (by simpa using Nat.le_of_not_lt hi), List.getElem?_eq_none hlen]

/-- The mirror with its primary grid scrolled back by `offset` rows. -/
def withOffset (m : Mirror vt) (offset : ℕ) : Mirror vt :=
  { m with parser := m.parser.withOffset offset }

/-- The mirror after these staged rows were archived. -/
def archiving (m : Mirror vt) (rows : List Row) : Mirror vt :=
  { m with history := m.history.pushAll (m.recordsOf rows) }

/-- Archiving in two portions is archiving their concatenation. -/
theorem archiving_append (m : Mirror vt) (rows rows' : List Row) :
    m.archiving (rows ++ rows') = (m.archiving rows).archiving rows' := by
  simp only [archiving, recordsOf, List.map_append, History.pushAll_append]

/-- Measuring the staging buffer only moves the offset. -/
theorem stagedLen_eq {m : Mirror vt} (halt : m.parser.alternate = false) :
    m.stagedLen = (m.parser.staged.length, m.withOffset m.parser.staged.length) := by
  have htop : m.parser.scrollToTop = m.parser.withOffset m.parser.staged.length := by
    simp only [Parser.scrollToTop, halt, Bool.false_eq_true, if_false]
  have hback : (m.parser.withOffset m.parser.staged.length).scrollback =
      m.parser.staged.length := by
    change (if m.parser.alternate = true then _ else _) = _
    rw [halt]
    rfl
  simp only [stagedLen, htop, hback, withOffset]

/-- The archiving loop pushes the remaining staged rows, oldest first. Each
window is a prefix of what remains; the next step goes on with the rest. -/
theorem archiveLoop_eq {m : Mirror vt} {fuel remaining : ℕ} (halt : m.parser.alternate = false)
    (hrows : 0 < m.parser.rows) (hremaining : remaining ≤ m.parser.staged.length)
    (hfuel : remaining ≤ fuel) :
    ∃ offset, archiveLoop m.parser.rows m.parser.cols fuel remaining m =
      (m.archiving (m.parser.staged.rtake remaining)).withOffset offset := by
  induction fuel generalizing m remaining with
  | zero =>
    have hzero : remaining = 0 := by omega
    subst hzero
    exact ⟨m.parser.offset, by rw [List.rtake_zero]; rfl⟩
  | succ fuel ih =>
    by_cases hpos : 0 < remaining
    · let window := min remaining m.parser.rows
      let staged := m.parser.staged.rtake remaining
      let next := (m.archiving (staged.take window)).withOffset remaining
      have hoffset : m.parser.setScrollback remaining = (m.withOffset remaining).parser := by
        rw [Parser.setScrollback_of_primary halt, Nat.min_eq_left hremaining]
        rfl
      have hstep : archiveLoop m.parser.rows m.parser.cols (fuel + 1) remaining m =
          archiveLoop m.parser.rows m.parser.cols fuel (remaining - window) next := by
        simp only [archiveLoop, if_pos hpos, window_records halt hremaining]
        rw [hoffset]
        rfl
      have hleft : remaining - window ≤ next.parser.staged.length :=
        (Nat.sub_le _ _).trans hremaining
      obtain ⟨offset, hrest⟩ := ih (m := next) halt hrows hleft (by omega)
      have hdrop : m.parser.staged.rtake (remaining - window) = staged.drop window := by
        simp only [staged, List.rtake, List.drop_drop]
        congr 1
        omega
      refine ⟨offset, hstep.trans (hrest.trans ?_)⟩
      change (next.archiving (m.parser.staged.rtake (remaining - window))).withOffset offset = _
      rw [hdrop, ← List.take_append_drop window (m.parser.staged.rtake remaining),
        archiving_append]
      rfl
    · have hzero : remaining = 0 := by omega
      subst hzero
      exact ⟨m.parser.offset, by rw [List.rtake_zero]; rfl⟩

/-- Archiving the newest `count` staged rows pushes exactly these rows. -/
theorem archiveStagedRows_eq {m : Mirror vt} (count : ℕ) (halt : m.parser.alternate = false)
    (hrows : 0 < m.parser.rows) :
    ∃ offset, m.archiveStagedRows count =
      (m.archiving (m.parser.staged.rtake count)).withOffset offset := by
  have hstart : m.archiveStagedRows count =
      archiveLoop m.parser.rows m.parser.cols (min count m.parser.staged.length)
        (min count m.parser.staged.length) (m.withOffset 0) := by
    simp only [archiveStagedRows, stagedLen_eq halt, withOffset]
    rw [Parser.setScrollback_zero (p := m.parser.withOffset m.parser.staged.length) halt]
    rfl
  have htake : m.parser.staged.rtake (min count m.parser.staged.length) =
      m.parser.staged.rtake count := by
    simp only [List.rtake]
    congr 1
    omega
  obtain ⟨offset, hloop⟩ := archiveLoop_eq (m := m.withOffset 0) halt hrows
    (Nat.min_le_right count m.parser.staged.length) le_rfl
  refine ⟨offset, hstart.trans (hloop.trans ?_)⟩
  rw [← htake]
  rfl

/-- Counting the new rows only moves the offset. -/
theorem newRows_eq {m : Mirror vt} (halt : m.parser.alternate = false) :
    ∃ offset, m.newRows = (m.uncounted, m.withOffset offset) := by
  by_cases hparked : m.parked = true
  · refine ⟨m.parser.offset, ?_⟩
    simp only [newRows, uncounted, hparked, if_true, Parser.scrollback, halt, Bool.false_eq_true,
      if_false]
    rfl
  · refine ⟨m.parser.staged.length, ?_⟩
    simp only [newRows, uncounted, hparked, Bool.false_eq_true, if_false, stagedLen_eq halt]

/-- Settling notes the staged length and scrolls the primary grid to its bottom. -/
theorem settle_eq {m : Mirror vt} (halt : m.parser.alternate = false) :
    m.settle = { m.withOffset 0 with stagedSeen := m.parser.staged.length } := by
  simp only [settle, stagedLen_eq halt, withOffset]
  rw [Parser.setScrollback_zero (p := m.parser.withOffset m.parser.staged.length) halt]
  rfl

/-- A harvest is deferred while the alternate screen is active. -/
theorem harvest_of_alternate {m : Mirror vt} (halt : m.parser.alternate = true) :
    m.harvest = m := by
  simp only [harvest, halt, if_true]

/-- A harvest that runs archives the rows its counter covers, each once and in
order, and starts counting afresh with the primary grid scrolled to its bottom. -/
theorem harvest_eq {m : Mirror vt} (halt : m.parser.alternate = false)
    (hrows : 0 < m.parser.rows) :
    m.harvest = { (m.archiving m.unarchived).withOffset 0 with
      parked := false
      stagedSeen := m.parser.staged.length } := by
  obtain ⟨offset, hcount⟩ := newRows_eq halt
  let counted : Mirror vt := { m.withOffset offset with parked := false }
  obtain ⟨offset', harchive⟩ : ∃ offset', (if 0 < m.uncounted
      then counted.archiveStagedRows m.uncounted else counted) =
        { (m.archiving m.unarchived).withOffset offset' with parked := false } := by
    by_cases hpos : 0 < m.uncounted
    · obtain ⟨offset', h⟩ := archiveStagedRows_eq (m := counted) m.uncounted halt hrows
      exact ⟨offset', by rw [if_pos hpos, h]; rfl⟩
    · have hzero : m.uncounted = 0 := by omega
      refine ⟨offset, ?_⟩
      rw [if_neg hpos, unarchived, hzero, List.rtake_zero]
      rfl
  have hunfold : m.harvest =
      settle (if 0 < m.uncounted then counted.archiveStagedRows m.uncounted else counted) := by
    simp only [harvest, halt, Bool.false_eq_true, if_false, hcount, counted]
  rw [hunfold, harchive]
  exact settle_eq (m := { (m.archiving m.unarchived).withOffset offset' with parked := false }) halt

/-- The records that a harvest appends. -/
def harvestRecords (m : Mirror vt) : List HistoryRecord :=
  if m.parser.alternate then [] else m.recordsOf m.unarchived

/-- A harvest appends its records. -/
theorem harvest_history {m : Mirror vt} (hrows : 0 < m.parser.rows) :
    m.harvest.history = m.history.pushAll m.harvestRecords := by
  cases halt : m.parser.alternate with
  | true =>
    rw [harvest_of_alternate halt, harvestRecords, if_pos halt]
    rfl
  | false =>
    rw [harvest_eq halt hrows, harvestRecords, if_neg (by rw [halt]; exact Bool.false_ne_true)]
    rfl

/-- Two mirrors agree on everything that parking, parsing and archiving leave alone. -/
structure SameView (m m' : Mirror vt) : Prop where
  hostRows : m.hostRows = m'.hostRows
  hostCols : m.hostCols = m'.hostCols
  shadow : m.shadow = m'.shadow
  view : m.view = m'.view
  title : m.title = m'.title
  zoneDirty : m.zoneDirty = m'.zoneDirty
  rows : m.parser.rows = m'.parser.rows
  cols : m.parser.cols = m'.parser.cols

theorem SameView.refl (m : Mirror vt) : m.SameView m := ⟨rfl, rfl, rfl, rfl, rfl, rfl, rfl, rfl⟩

theorem SameView.trans {m m' m'' : Mirror vt} (h : m.SameView m') (h' : m'.SameView m'') :
    m.SameView m'' :=
  ⟨h.hostRows.trans h'.hostRows, h.hostCols.trans h'.hostCols, h.shadow.trans h'.shadow,
    h.view.trans h'.view, h.title.trans h'.title, h.zoneDirty.trans h'.zoneDirty,
    h.rows.trans h'.rows, h.cols.trans h'.cols⟩

/-- The mirror with another scrollback position and other books. -/
def rebooked (m : Mirror vt) (offset : ℕ) (history : History) (parked : Bool) (seen : ℕ) :
    Mirror vt :=
  { m with
    parser := m.parser.withOffset offset
    history := history
    parked := parked
    stagedSeen := seen }

/-- The second mirror differs from the first in its scrollback position and books at most. -/
def Rebooked (m m' : Mirror vt) : Prop :=
  ∃ offset history parked seen, m' = m.rebooked offset history parked seen

theorem Rebooked.refl (m : Mirror vt) : m.Rebooked m :=
  ⟨m.parser.offset, m.history, m.parked, m.stagedSeen, rfl⟩

theorem Rebooked.trans {m m' m'' : Mirror vt} (h : m.Rebooked m') (h' : m'.Rebooked m'') :
    m.Rebooked m'' := by
  obtain ⟨_, _, _, _, rfl⟩ := h
  obtain ⟨offset, history, parked, seen, rfl⟩ := h'
  exact ⟨offset, history, parked, seen, rfl⟩

theorem Rebooked.sameView {m m' : Mirror vt} (h : m.Rebooked m') : m'.SameView m := by
  obtain ⟨_, _, _, _, rfl⟩ := h
  exact ⟨rfl, rfl, rfl, rfl, rfl, rfl, rfl, rfl⟩

theorem Rebooked.same {m m' : Mirror vt} (h : m.Rebooked m') : m'.parser.Same m.parser := by
  obtain ⟨offset, _, _, _, rfl⟩ := h
  exact m.parser.withOffset_same offset

theorem setScrollback_rebooked (m : Mirror vt) (n : ℕ) :
    m.Rebooked { m with parser := m.parser.setScrollback n } := by
  cases halt : m.parser.alternate with
  | true =>
    have hstay : m.parser.setScrollback n = m.parser := by
      simp only [Parser.setScrollback, halt, if_true]
    rw [hstay]
    exact .refl m
  | false =>
    rw [Parser.setScrollback_of_primary halt]
    exact ⟨_, m.history, m.parked, m.stagedSeen, rfl⟩

theorem stagedLen_rebooked (m : Mirror vt) : m.Rebooked m.stagedLen.2 := by
  cases halt : m.parser.alternate with
  | true =>
    have hstay : m.stagedLen.2 = m := by
      simp only [stagedLen, Parser.scrollToTop, halt, if_true]
    rw [hstay]
    exact .refl m
  | false =>
    rw [stagedLen_eq halt]
    exact ⟨_, m.history, m.parked, m.stagedSeen, rfl⟩

theorem archiveLoop_rebooked (rows cols fuel remaining : ℕ) (m : Mirror vt) :
    m.Rebooked (archiveLoop rows cols fuel remaining m) := by
  induction fuel generalizing m remaining with
  | zero => exact .refl m
  | succ fuel ih =>
    rw [archiveLoop]
    split
    · refine .trans ((m.setScrollback_rebooked remaining).trans ?_) (ih _ _)
      exact ⟨_, _, m.parked, m.stagedSeen, rfl⟩
    · exact .refl m

theorem archiveStagedRows_rebooked (m : Mirror vt) (count : ℕ) :
    m.Rebooked (m.archiveStagedRows count) :=
  m.stagedLen_rebooked.trans ((m.stagedLen.2.setScrollback_rebooked 0).trans
    (archiveLoop_rebooked _ _ _ _ _))

theorem newRows_rebooked (m : Mirror vt) : m.Rebooked m.newRows.2 := by
  rw [newRows]
  split
  · exact .refl m
  · exact m.stagedLen_rebooked

theorem settle_rebooked (m : Mirror vt) : m.Rebooked m.settle := by
  refine m.stagedLen_rebooked.trans ((m.stagedLen.2.setScrollback_rebooked 0).trans ?_)
  exact ⟨_, m.stagedLen.2.history, m.stagedLen.2.parked, m.stagedLen.1, rfl⟩

/-- A harvest only keeps books. -/
theorem harvest_rebooked (m : Mirror vt) : m.Rebooked m.harvest := by
  cases halt : m.parser.alternate with
  | true =>
    rw [harvest_of_alternate halt]
    exact .refl m
  | false =>
    let counted : Mirror vt := { m.newRows.2 with parked := false }
    have hrun : m.harvest =
        settle (if 0 < m.newRows.1 then counted.archiveStagedRows m.newRows.1 else counted) := by
      rw [harvest, if_neg (by rw [halt]; exact Bool.false_ne_true)]
    have hcounted : m.Rebooked counted := m.newRows_rebooked.trans
      ⟨m.newRows.2.parser.offset, m.newRows.2.history, false, m.newRows.2.stagedSeen, rfl⟩
    rw [hrun]
    refine hcounted.trans (.trans ?_ (settle_rebooked _))
    split
    · exact counted.archiveStagedRows_rebooked _
    · exact .refl counted

/-- Parking an unparked counter on the primary screen scrolls back by one row, if one is staged. -/
theorem park_of_primary {m : Mirror vt} (halt : m.parser.alternate = false)
    (hparked : m.parked = false) :
    m.park = if 0 < m.parser.staged.length then { m.withOffset 1 with parked := true }
      else m.withOffset 0 := by
  have hscroll (n : ℕ) : (m.parser.withOffset m.parser.staged.length).setScrollback n =
      m.parser.withOffset (min n m.parser.staged.length) :=
    Parser.setScrollback_of_primary (p := m.parser.withOffset m.parser.staged.length) halt n
  have hpark : m.park = if 0 < m.parser.staged.length
      then { m with
        parser := (m.parser.withOffset m.parser.staged.length).setScrollback 1, parked := true }
      else { m with parser := (m.parser.withOffset m.parser.staged.length).setScrollback 0 } := by
    rw [park, if_neg (by rw [halt]; exact Bool.false_ne_true),
      if_neg (by rw [hparked]; exact Bool.false_ne_true), stagedLen_eq halt]
    rfl
  rw [hpark, hscroll, hscroll, Nat.zero_min]
  split
  · rename_i hsome
    rw [Nat.min_eq_left hsome]
    rfl
  · rfl

/-- Parking stays where it is on the alternate screen, or when it is parked already. -/
theorem park_of_deferred {m : Mirror vt} (h : m.parser.alternate = true ∨ m.parked = true) :
    m.park = m := by
  rw [park]
  split
  · rfl
  · rename_i halt
    rw [if_pos (h.resolve_left halt)]

/-- Parking only moves the scrollback position. -/
theorem park_rebooked (m : Mirror vt) : m.Rebooked m.park := by
  by_cases h : m.parser.alternate = true ∨ m.parked = true
  · rw [park_of_deferred h]
    exact .refl m
  · rw [not_or, Bool.not_eq_true, Bool.not_eq_true] at h
    rw [park_of_primary h.1 h.2]
    split
    · exact ⟨1, m.history, true, m.stagedSeen, rfl⟩
    · exact ⟨0, m.history, m.parked, m.stagedSeen, rfl⟩

/-- Parking archives nothing. -/
theorem park_history (m : Mirror vt) : m.park.history = m.history := by
  by_cases h : m.parser.alternate = true ∨ m.parked = true
  · rw [park_of_deferred h]
  · rw [not_or, Bool.not_eq_true, Bool.not_eq_true] at h
    rw [park_of_primary h.1 h.2]
    split <;> rfl

/-- Flushing for a rebuild only keeps books. -/
theorem flushHistoryForRebuild_rebooked (m : Mirror vt) (keepRows : ℕ) :
    m.Rebooked (m.flushHistoryForRebuild keepRows) := by
  refine m.harvest_rebooked.trans ?_
  rw [flushHistoryForRebuild]
  change Rebooked _ { (if m.harvest.parser.alternate then m.harvest else _ : Mirror vt) with
    parked := false, stagedSeen := 0 }
  split
  · exact ⟨m.harvest.parser.offset, m.harvest.history, false, 0, rfl⟩
  · exact ⟨m.harvest.parser.offset, _, false, 0, rfl⟩

/-- The mirror on a host terminal of this size. -/
def withHost (m : Mirror vt) (rows cols : ℕ) : Mirror vt :=
  { m with hostRows := rows, hostCols := cols }

/-- Without a view the model follows the host terminal. -/
theorem hostResized_of_none {m : Mirror vt} (hview : m.view = none) (rows cols : ℕ) :
    (m.hostResized rows cols).2 =
      { (m.withHost rows cols).harvest with
        parser := (m.withHost rows cols).harvest.parser.setSize rows cols } := by
  simp only [hostResized]
  split
  · rfl
  · rename_i v hsome
    exact absurd (hview.symm.trans hsome) (Option.some_ne_none v).symm

/-- With a view the model stays as it is. -/
theorem hostResized_of_some {m : Mirror vt} {v : View} (hview : m.view = some v) (rows cols : ℕ) :
    (m.hostResized rows cols).2 = { m.withHost rows cols with zoneDirty := false } := by
  simp only [hostResized]
  split
  · rename_i hnone
    exact absurd (hnone.symm.trans hview) (Option.some_ne_none v).symm
  · rfl

/-- A resized host has the same view. -/
theorem view_hostResized (m : Mirror vt) (rows cols : ℕ) :
    (m.hostResized rows cols).2.view = m.view := by
  cases hview : m.view with
  | none =>
    rw [hostResized_of_none hview]
    exact (m.withHost rows cols).harvest_rebooked.sameView.view.trans hview
  | some view =>
    rw [hostResized_of_some hview]
    exact hview

end Mirror

end G2mirror
