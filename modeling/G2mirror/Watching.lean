import G2mirror.Archive

/-!
# Watching what scrolls off

The archive's claims speak of rows: which of them a scroll counter covers, and which
scrolled off while the wrapped app was on the alternate screen. Neither is state of
the mirror; both are determined here from the emulator and from what the app has sent.
-/

namespace G2mirror

open scoped List

variable {vt : Vt100}

namespace Parser

/-- The staged rows that a scroll counter in this state covers. -/
def countedRows (p : Parser vt) (parked : Bool) (seen : ℕ) : List Row :=
  p.staged.rtake (if parked then p.offset - 1 else p.staged.length - seen)

/-- A staged row adds at most itself to the counted rows. -/
theorem countedRows_stage {p : Parser vt} {parked : Bool} {seen : ℕ} {pending : List Row}
    (h : p.countedRows parked seen <:+ pending) (row : Row) :
    (p.stage row).countedRows parked seen <:+ pending ++ [row] := by
  let count := if parked then p.offset - 1 else p.staged.length - seen
  let count' := if parked then (p.stage row).offset - 1 else (p.stage row).staged.length - seen
  have hlength : (p.stage row).staged.length = min p.scrollbackLen (p.staged.length + 1) :=
    CappedQueue.length_push _ _ _
  have hoffset : (p.stage row).offset =
      if 0 < p.offset then min (p.stage row).staged.length (p.offset + 1) else p.offset := rfl
  have hcount : count' ≤ count + 1 := by
    cases parked with
    | true =>
      simp only [count, count', if_true, hoffset]
      split <;> omega
    | false =>
      simp only [count, count', Bool.false_eq_true, if_false, hlength]
      omega
  obtain ⟨front, hfront⟩ := h
  have hgrown : (p.staged ++ [row]).rtake (count + 1) = p.staged.rtake count ++ [row] := by
    rw [CappedQueue.rtake_append, List.length_singleton, Nat.add_sub_cancel,
      CappedQueue.rtake_of_length_le (l := [row]) (by rw [List.length_singleton]; omega)]
  have hnew : (p.stage row).countedRows parked seen <:+ p.staged.rtake count ++ [row] := by
    rw [← hgrown]
    change ((p.staged ++ [row]).rtake p.scrollbackLen).rtake count' <:+ _
    rw [CappedQueue.rtake_rtake]
    exact CappedQueue.rtake_suffix_rtake _ ((Nat.min_le_left _ _).trans hcount)
  rw [← hfront, List.append_assoc]
  exact hnew.trans (List.suffix_append _ _)

/-- The counted rows stay among the last of those that were counted and those that scroll off. -/
theorem countedRows_perform {p : Parser vt} {parked : Bool} {seen : ℕ} {pending : List Row}
    (h : p.countedRows parked seen <:+ pending) (a : Action vt.Draw) :
    (p.perform a).countedRows parked seen <:+ pending ++ p.rowsOffBy a := by
  have hnone : p.countedRows parked seen <:+ pending ++ [] := by rwa [List.append_nil]
  cases a with
  | fullReset =>
    have hempty : (p.perform .fullReset).countedRows parked seen = [] := by
      rw [countedRows, perform, List.rtake_nil]
    rw [hempty]
    exact List.nil_suffix
  | draw d =>
    cases halt : p.alternate with
    | true =>
      have hkept : pending ++ p.rowsOffBy (.draw d) = pending := by
        simp only [rowsOffBy, halt, if_true, List.append_nil]
      rw [perform_draw_of_alternate halt, hkept]
      exact h
    | false =>
      have hstage {q : Parser vt} {pending : List Row} (h : q.countedRows parked seen <:+ pending)
          (rows : List Row) :
          (rows.foldl stage q).countedRows parked seen <:+ pending ++ rows := by
        induction rows generalizing q pending with
        | nil => rwa [List.append_nil]
        | cons row rows ih =>
          have hnext := ih (countedRows_stage h row)
          rwa [List.append_assoc, List.singleton_append] at hnext
      rw [perform_draw_of_primary halt]
      simp only [rowsOffBy, halt, Bool.false_eq_true, if_false]
      exact hstage (q := p.withCore (vt.draw p.core d).1) h _
  | enterAlternate =>
    refine List.IsSuffix.trans ?_ hnone
    refine CappedQueue.rtake_suffix_rtake p.staged ?_
    have hoffset : (p.perform .enterAlternate).offset ≤ p.offset := by
      change (if _ then 0 else p.offset) ≤ p.offset
      split
      · exact Nat.zero_le _
      · exact le_rfl
    split
    · exact Nat.sub_le_sub_right hoffset 1
    · exact le_rfl
  | leaveAlternate => exact hnone
  | bell => exact hnone
  | windowTitle title => exact hnone

/-- Parsing keeps the counted rows among the last of those that were counted and those that
scroll off. -/
theorem countedRows_process {p : Parser vt} {parked : Bool} {seen : ℕ} {pending : List Row}
    (h : p.countedRows parked seen <:+ pending) (bytes : Bytes) :
    (p.process bytes).countedRows parked seen <:+ pending ++ p.rowsOff bytes := by
  have hfold {p : Parser vt} {pending : List Row} (h : p.countedRows parked seen <:+ pending)
      (as : List (Action vt.Draw)) :
      (as.foldl perform p).countedRows parked seen <:+ pending ++ p.rowsOffActions as := by
    induction as generalizing p pending with
    | nil => rwa [rowsOffActions, List.append_nil]
    | cons a as ih =>
      rw [rowsOffActions, ← List.append_assoc]
      exact ih (countedRows_perform h a)
  exact hfold h _

/-- The rows that one recognised function scrolls off the active grid, whichever that is. -/
def scrolledBy (p : Parser vt) : Action vt.Draw → List Row
  | .draw d => (vt.draw p.core d).2
  | _ => []

/-- The rows that several recognised functions scroll off the active grid. -/
def scrolledActions (p : Parser vt) : List (Action vt.Draw) → List Row
  | [] => []
  | a :: as => p.scrolledBy a ++ (p.perform a).scrolledActions as

end Parser

/-- What the wrapped app has sent, as far as its choice of screen goes. -/
structure App (vt : Vt100) where
  vte : vt.Vte
  alternate : Bool

namespace App

/-- An app that has sent nothing. -/
def start (vt : Vt100) : App vt := ⟨vt.ground, false⟩

/-- The app after it sent these bytes. -/
def feed (app : App vt) (bytes : Bytes) : App vt :=
  ⟨(vt.scan app.vte bytes).1, (vt.scan app.vte bytes).2.foldl Parser.screenAfter app.alternate⟩

/-- All through this byte the app is on the alternate screen: it has sent the enter sequence,
and not yet the leave sequence. -/
def inAlternate (app : App vt) (b : UInt8) : Bool :=
  app.alternate && (vt.scan app.vte [b]).2.all (Parser.screenAfter true)

/-- The app is on the primary screen and between two control functions. -/
def AtRest (app : App vt) : Prop := app.vte = vt.ground ∧ app.alternate = false

end App

namespace Parser

/-- The rows that scroll off the active grid while these bytes of the app are
parsed, each with whether the app was on the alternate screen. -/
def scrolledBeside (p : Parser vt) (app : App vt) : Bytes → List (Bool × Row)
  | [] => []
  | b :: bs =>
    (p.scrolledActions (vt.scan p.vte [b]).2).map (app.inAlternate b, ·) ++
      (p.process [b]).scrolledBeside (app.feed [b]) bs

/-- The parser is where the app believes its terminal to be. -/
structure InStep (p : Parser vt) (app : App vt) : Prop where
  vte : p.vte = app.vte
  alternate : p.alternate = app.alternate

theorem InStep.of_same {p q : Parser vt} {app : App vt} (h : p.InStep app) (hq : q.Same p) :
    q.InStep app := ⟨hq.vte.trans h.vte, hq.alternate.trans h.alternate⟩

/-- Feeding both the same bytes keeps them in step. -/
theorem InStep.feed {p : Parser vt} {app : App vt} (h : p.InStep app) (bs : Bytes) :
    (p.process bs).InStep (app.feed bs) := by
  constructor
  · rw [process_vte, h.vte, App.feed]
  · rw [process_alternate, h.vte, h.alternate, App.feed]

end Parser

/-- Those of the rows that scrolled off while the app was on the primary screen. -/
def onPrimary (scrolled : List (Bool × Row)) : List Row :=
  (scrolled.filter fun s => !s.1).map Prod.snd

theorem onPrimary_append (ss ts : List (Bool × Row)) :
    onPrimary (ss ++ ts) = onPrimary ss ++ onPrimary ts := by
  rw [onPrimary, List.filter_append, List.map_append, onPrimary, onPrimary]

theorem onPrimary_map_false (rows : List Row) : onPrimary (rows.map (false, ·)) = rows := by
  induction rows with
  | nil => rfl
  | cons row rows ih => exact congrArg (row :: ·) ih

namespace Parser

/-- Rows leave the primary grid only while it is the active one. -/
theorem rowsOffActions_sublist (p : Parser vt) (as : List (Action vt.Draw)) :
    p.rowsOffActions as <+ p.scrolledActions as := by
  induction as generalizing p with
  | nil => exact List.Sublist.refl _
  | cons a as ih =>
    refine List.Sublist.append ?_ (ih _)
    cases a with
    | draw d =>
      cases halt : p.alternate <;> simp [rowsOffBy, scrolledBy, halt]
    | _ => exact List.Sublist.refl _

/-- Functions that stay on the alternate screen scroll nothing off the primary grid. -/
theorem rowsOffActions_of_stays {p : Parser vt} {as : List (Action vt.Draw)}
    (hp : p.alternate = true) (has : ∀ a ∈ as, screenAfter true a = true) :
    p.rowsOffActions as = [] := by
  induction as generalizing p with
  | nil => rfl
  | cons a as ih =>
    have hnext : (p.perform a).alternate = true := by
      have hone := p.foldl_perform_alternate [a]
      rw [List.foldl_cons, List.foldl_nil, List.foldl_cons, List.foldl_nil, hp,
        has a List.mem_cons_self] at hone
      exact hone
    have hfirst : p.rowsOffBy a = [] := by
      cases a with
      | draw d => simp only [rowsOffBy, hp, if_true]
      | _ => rfl
    rw [rowsOffActions, hfirst, ih hnext fun b hb => has b (List.mem_cons_of_mem a hb)]
    rfl

/-- While parser and app are in step, every row that leaves the primary grid
scrolled off while the app was on the primary screen. -/
theorem InStep.rowsOff_sublist {p : Parser vt} {app : App vt} (h : p.InStep app) (bs : Bytes) :
    p.rowsOff bs <+ onPrimary (p.scrolledBeside app bs) := by
  induction bs generalizing p app with
  | nil => exact List.Sublist.refl _
  | cons b bs ih =>
    have hsplit : p.rowsOff (b :: bs) = p.rowsOff [b] ++ (p.process [b]).rowsOff bs :=
      p.rowsOff_append [b] bs
    rw [hsplit, scrolledBeside, onPrimary_append]
    refine List.Sublist.append ?_ (ih (h.feed [b]))
    cases hwithin : app.inAlternate b with
    | false =>
      rw [onPrimary_map_false]
      exact p.rowsOffActions_sublist _
    | true =>
      rw [App.inAlternate, Bool.and_eq_true, List.all_eq_true, ← h.vte, ← h.alternate] at hwithin
      rw [rowsOff, rowsOffActions_of_stays hwithin.1 hwithin.2]
      exact List.nil_sublist _

end Parser

namespace Mirror

/-- Parking covers no other rows than before. -/
theorem park_unarchived {m : Mirror vt} {pending : List Row} (h : m.unarchived <:+ pending) :
    m.park.unarchived <:+ pending := by
  by_cases hdeferred : m.parser.alternate = true ∨ m.parked = true
  · rwa [park_of_deferred hdeferred]
  · rw [not_or, Bool.not_eq_true, Bool.not_eq_true] at hdeferred
    have hnone : m.park.unarchived = [] := by
      rw [park_of_primary hdeferred.1 hdeferred.2]
      split
      · exact List.rtake_zero _
      · rename_i hnone
        have hempty : m.parser.staged = [] := List.length_eq_zero_iff.mp (by omega)
        change m.parser.staged.rtake _ = []
        rw [hempty, List.rtake_nil]
    rw [hnone]
    exact List.nil_suffix

/-- Once a slice is parsed, the rows the counter covers are the last of those that it covered
and those that scrolled off. -/
theorem parsed_unarchived {m : Mirror vt} {pending : List Row} (h : m.unarchived <:+ pending)
    (bytes : Bytes) : (m.parsed bytes).unarchived <:+ pending ++ m.parser.rowsOff bytes := by
  rw [← m.park_rebooked.same.rowsOff]
  exact Parser.countedRows_process (park_unarchived h) bytes

/-- After a harvest that ran, nothing is left to archive. -/
theorem harvest_unarchived {m : Mirror vt} (halt : m.parser.alternate = false)
    (hrows : 0 < m.parser.rows) : m.harvest.unarchived = [] := by
  rw [harvest_eq halt hrows]
  change m.parser.staged.rtake (m.parser.staged.length - m.parser.staged.length) = []
  rw [Nat.sub_self, List.rtake_zero]

end Mirror

end G2mirror
