import G2mirror.AsciiTerminal

/-!
# The archive captures exactly the rows that scroll off

Between two slices everything that scrolled off is archived, or the app is on the
alternate screen and the counter covers exactly the rows whose harvest was deferred.
A parked counter that the emulator scrolls to the bottom covers nothing any more, and
is right as long as no row scrolls off until the next harvest. The ledger of rows is
computed from the emulator alone, without the mirror's counter.
-/

namespace G2mirror

variable {vt : Vt100}

/-- The rows that scrolled off the primary grid: those up to the last harvest
that ran, and those after it. -/
structure Ledger where
  archived : List Row
  pending : List Row

/-- Nothing has scrolled off yet. -/
def Ledger.empty : Ledger := ⟨[], []⟩

/-- A slice scrolls these rows off. The harvest after it runs unless the slice
ends on the alternate screen. -/
def Ledger.scroll (l : Ledger) (rows : List Row) (alternate : Bool) : Ledger :=
  if alternate then ⟨l.archived, l.pending ++ rows⟩
  else ⟨l.archived ++ (l.pending ++ rows), []⟩

/-- The ledger after an emulator parsed these slices. -/
def Ledger.parse (l : Ledger) (p : Parser vt) : List Bytes → Ledger
  | [] => l
  | slice :: slices =>
    let p' := p.process slice
    (l.scroll (p.rowsOff slice) p'.alternate).parse p' slices

/-- Fewer rows than the staging scrollback holds scroll off between two harvests that run. -/
def Ledger.Room (l : Ledger) (p : Parser vt) : List Bytes → Prop
  | [] => True
  | slice :: slices =>
    let p' := p.process slice
    (l.pending ++ p.rowsOff slice).length ≤ stageScrollback - 1 ∧
      (l.scroll (p.rowsOff slice) p'.alternate).Room p' slices

instance Ledger.decidableRoom : (l : Ledger) → (p : Parser vt) → (slices : List Bytes) →
    Decidable (l.Room p slices)
  | _, _, [] => isTrue trivial
  | l, p, slice :: slices =>
    haveI := Ledger.decidableRoom (l.scroll (p.rowsOff slice) (p.process slice).alternate)
      (p.process slice) slices
    inferInstanceAs (Decidable (_ ∧ _))

/-- What a slice adds to the ledger depends on its pending rows alone. -/
theorem Ledger.scroll_eq (l : Ledger) (rows : List Row) (alternate : Bool) :
    l.scroll rows alternate =
      ⟨l.archived ++ (Ledger.scroll ⟨[], l.pending⟩ rows alternate).archived,
        (Ledger.scroll ⟨[], l.pending⟩ rows alternate).pending⟩ := by
  cases alternate with
  | true => simp only [Ledger.scroll, if_true, List.append_nil]
  | false => rfl

theorem Ledger.parse_append (l : Ledger) (p : Parser vt) (ss ts : List Bytes) :
    l.parse p (ss ++ ts) = (l.parse p ss).parse (p.process ss.flatten) ts := by
  induction ss generalizing l p with
  | nil => rfl
  | cons s ss ih =>
    rw [List.cons_append, Ledger.parse, ih, Ledger.parse, List.flatten_cons,
      Parser.process_append]

/-- Archived or pending, the rows that scroll off are in the ledger. -/
theorem Ledger.scroll_rows (l : Ledger) (rows : List Row) (alternate : Bool) :
    (l.scroll rows alternate).archived ++ (l.scroll rows alternate).pending =
      l.archived ++ l.pending ++ rows := by
  cases alternate <;> simp [Ledger.scroll]

/-- See `Ledger.scroll_rows`. -/
theorem Ledger.parse_rows (l : Ledger) (p : Parser vt) (slices : List Bytes) :
    (l.parse p slices).archived ++ (l.parse p slices).pending =
      l.archived ++ l.pending ++ p.rowsOff slices.flatten := by
  induction slices generalizing l p with
  | nil => exact (List.append_nil _).symm
  | cons slice slices ih =>
    rw [Ledger.parse, ih, Ledger.scroll_rows, List.flatten_cons, Parser.rowsOff_append,
      List.append_assoc]

/-- When the slices end on the primary screen, nothing is pending any more. -/
theorem Ledger.parse_pending {l : Ledger} {p : Parser vt} {slices : List Bytes}
    (hpending : slices = [] → l.pending = [])
    (hprimary : (p.process slices.flatten).alternate = false) :
    (l.parse p slices).pending = [] := by
  induction slices generalizing l p with
  | nil => exact hpending rfl
  | cons slice slices ih =>
    rw [List.flatten_cons, Parser.process_append] at hprimary
    rw [Ledger.parse]
    refine ih (fun hlast => ?_) hprimary
    subst hlast
    have hnow : (p.process slice).alternate = false := hprimary
    rw [hnow]
    rfl

theorem Ledger.room_append {l : Ledger} {p : Parser vt} {ss ts : List Bytes} :
    l.Room p (ss ++ ts) ↔ l.Room p ss ∧ (l.parse p ss).Room (p.process ss.flatten) ts := by
  induction ss generalizing l p with
  | nil => simp only [List.nil_append, Ledger.Room, true_and]; rfl
  | cons s ss ih =>
    rw [List.cons_append, Ledger.Room, ih, Ledger.Room, Ledger.parse, List.flatten_cons,
      Parser.process_append, and_assoc]

/-- Emulators that agree scroll the same rows off. -/
theorem Ledger.parse_of_same {l : Ledger} {p q : Parser vt} (h : p.Same q) (slices : List Bytes) :
    l.parse p slices = l.parse q slices := by
  induction slices generalizing l p q with
  | nil => rfl
  | cons slice slices ih =>
    have hnext := h.process slice
    rw [Ledger.parse, Ledger.parse, h.rowsOff, hnext.alternate]
    exact ih hnext

theorem Ledger.room_of_same {l : Ledger} {p q : Parser vt} (h : p.Same q) (slices : List Bytes) :
    l.Room p slices ↔ l.Room q slices := by
  induction slices generalizing l p q with
  | nil => exact Iff.rfl
  | cons slice slices ih =>
    have hnext := h.process slice
    rw [Ledger.Room, Ledger.Room, h.rowsOff, hnext.alternate]
    exact and_congr_right fun _ => ih hnext

namespace Parser

/-- The staged rows end with the pending ones, and the counter covers exactly
them: the parked offset is one past them, or, if the staging buffer was empty
when it should have been parked, they are all there is. -/
structure Counting (p : Parser vt) (parked : Bool) (pending : List Row) : Prop where
  suffix : pending <:+ p.staged
  ofParked : parked = true → p.offset = pending.length + 1 ∧ pending.length < p.staged.length
  ofUnparked : parked = false → p.offset = 0 ∧ p.staged = pending

/-- One more staged row is one more pending row, while the staging scrollback has room. -/
theorem Counting.stage {p : Parser vt} {parked : Bool} {pending : List Row}
    (h : p.Counting parked pending) (row : Row) (hroom : pending.length + 1 < p.scrollbackLen) :
    (p.stage row).Counting parked (pending ++ [row]) := by
  have hlength : (p.stage row).staged.length = min p.scrollbackLen (p.staged.length + 1) :=
    CappedQueue.length_push _ _ _
  refine ⟨CappedQueue.append_suffix_push row h.suffix (by omega), fun hparked => ?_,
    fun hparked => ?_⟩
  · obtain ⟨hoffset, hmore⟩ := h.ofParked hparked
    have hnext : (p.stage row).offset = min (p.stage row).staged.length (p.offset + 1) :=
      if_pos (by omega)
    rw [hnext, hlength, List.length_append, List.length_singleton]
    omega
  · obtain ⟨hoffset, hall⟩ := h.ofUnparked hparked
    have hnext : (p.stage row).offset = p.offset := if_neg (by omega)
    refine ⟨hnext.trans hoffset, ?_⟩
    change CappedQueue.push p.scrollbackLen p.staged row = pending ++ [row]
    rw [hall, CappedQueue.push_of_lt row (by omega)]

/-- Several staged rows are as many pending rows. -/
theorem Counting.foldl_stage {p : Parser vt} {parked : Bool} {pending : List Row}
    (h : p.Counting parked pending) (rows : List Row)
    (hroom : (pending ++ rows).length < p.scrollbackLen) :
    (rows.foldl Parser.stage p).Counting parked (pending ++ rows) := by
  induction rows generalizing p pending with
  | nil => rwa [List.append_nil]
  | cons row rows ih =>
    rw [List.length_append, List.length_cons] at hroom
    have hnext := ih (h.stage row (by omega)) (by
      rw [List.length_append, List.length_append, List.length_singleton]
      exact (by omega : pending.length + 1 + rows.length < p.scrollbackLen))
    rwa [List.append_assoc, List.singleton_append] at hnext

/-- A recognised function other than a full reset leaves the counter in step
with the rows it scrolls off, if it leaves a parked counter where it is. -/
theorem Counting.perform {p : Parser vt} {parked : Bool} {pending : List Row}
    (h : p.Counting parked pending) (a : Action vt.Draw) (ha : a ≠ .fullReset)
    (hkept : parked = true → p.rewindsBy a = false)
    (hroom : (pending ++ p.rowsOffBy a).length < p.scrollbackLen) :
    (p.perform a).Counting parked (pending ++ p.rowsOffBy a) := by
  have hunstaged : p.rowsOffBy a = [] → (p.perform a).staged = p.staged →
      (p.perform a).offset = p.offset →
        (p.perform a).Counting parked (pending ++ p.rowsOffBy a) := by
    intro hnone hstaged hoffset
    rw [hnone, List.append_nil]
    exact ⟨hstaged ▸ h.suffix, hstaged ▸ hoffset ▸ h.ofParked, hstaged ▸ hoffset ▸ h.ofUnparked⟩
  cases a with
  | fullReset => exact absurd rfl ha
  | draw d =>
    cases halt : p.alternate with
    | true =>
      apply hunstaged
      · simp only [rowsOffBy, halt, if_true]
      · rw [perform_draw_of_alternate halt]; rfl
      · rw [perform_draw_of_alternate halt]; rfl
    | false =>
      have hrows : p.rowsOffBy (.draw d) = (vt.draw p.core d).2 := by
        simp only [rowsOffBy, halt, Bool.false_eq_true, if_false]
      rw [hrows] at hroom ⊢
      rw [perform_draw_of_primary halt]
      have hcore : (p.withCore (vt.draw p.core d).1).Counting parked pending :=
        ⟨h.suffix, h.ofParked, h.ofUnparked⟩
      exact hcore.foldl_stage _ hroom
  | enterAlternate =>
    refine hunstaged rfl rfl ?_
    change (if vt.enterRewinds && !p.alternate then 0 else p.offset) = p.offset
    split
    · rename_i hrewinds
      cases parked with
      | true => exact absurd (hrewinds.symm.trans (hkept rfl)) Bool.true_eq_false.mp
      | false => exact (h.ofUnparked rfl).1.symm
    · rfl
  | _ => exact hunstaged rfl rfl rfl

/-- Parsing leaves the counter in step with the rows that scroll off, if it leaves a parked
counter where it is. -/
theorem Counting.process {p : Parser vt} {parked : Bool} {pending : List Row}
    (h : p.Counting parked pending) (bs : Bytes) (hreset : p.NoReset bs)
    (hkept : parked = true → p.rewinds bs = false)
    (hroom : (pending ++ p.rowsOff bs).length < p.scrollbackLen) :
    (p.process bs).Counting parked (pending ++ p.rowsOff bs) := by
  have hfold {p : Parser vt} {pending : List Row} (h : p.Counting parked pending)
      (as : List (Action vt.Draw)) (has : ∀ a ∈ as, a ≠ Action.fullReset)
      (hkept : parked = true → p.rewindsActions as = false)
      (hroom : (pending ++ p.rowsOffActions as).length < p.scrollbackLen) :
      (as.foldl Parser.perform p).Counting parked (pending ++ p.rowsOffActions as) := by
    induction as generalizing p pending with
    | nil => rwa [rowsOffActions, List.append_nil]
    | cons a as ih =>
      have hsplit (hparked : parked = true) :
          p.rewindsBy a = false ∧ (p.perform a).rewindsActions as = false :=
        Bool.or_eq_false_iff.mp (hkept hparked)
      rw [rowsOffActions, ← List.append_assoc] at hroom ⊢
      have hfirst := h.perform a (has a List.mem_cons_self) (fun hparked => (hsplit hparked).1) (by
        rw [List.length_append] at hroom
        omega)
      exact ih hfirst (fun b hb => has b (List.mem_cons_of_mem a hb))
        (fun hparked => (hsplit hparked).2) (by rwa [(p.perform_size a).2.2])
  have hend := hfold h _ hreset hkept hroom
  exact ⟨hend.suffix, hend.ofParked, hend.ofUnparked⟩

end Parser

namespace Mirror

/-- The mirror with another parser. -/
def withParser (m : Mirror vt) (parser : Parser vt) : Mirror vt := { m with parser := parser }

/-- The mirror after a slice was parsed, when its harvest is due. -/
def parsed (m : Mirror vt) (slice : Bytes) : Mirror vt :=
  m.park.withParser (m.park.parser.process slice)

/-- A slice is parked, parsed and harvested. -/
theorem processSlice_eq (m : Mirror vt) (slice : Bytes) :
    m.processSlice slice = (m.parsed slice).harvest := rfl

theorem parsed_history (m : Mirror vt) (slice : Bytes) : (m.parsed slice).history = m.history :=
  m.park_history

/-- Parking leaves the emulator alone, so it sees the same bytes as without. -/
theorem parsed_same (m : Mirror vt) (slice : Bytes) :
    (m.parsed slice).parser.Same (m.parser.process slice) := m.park_rebooked.same.process slice

/-- A slice leaves the view alone. -/
theorem processSlice_sameView (m : Mirror vt) (slice : Bytes) :
    (m.processSlice slice).SameView m := by
  have hpark := m.park_rebooked.sameView
  refine (m.parsed slice).harvest_rebooked.sameView.trans ⟨hpark.hostRows, hpark.hostCols,
    hpark.shadow, hpark.view, hpark.title, hpark.zoneDirty, ?_, ?_⟩
  · exact (m.parsed_same slice).rows.trans (Parser.process_rows _ _)
  · exact (m.parsed_same slice).cols.trans (Parser.process_cols _ _)

/-- Parking and parsing show the parser the same bytes as parsing alone. -/
theorem processSlice_same (m : Mirror vt) (slice : Bytes) :
    (m.processSlice slice).parser.Same (m.parser.process slice) :=
  (m.parsed slice).harvest_rebooked.same.trans (m.parsed_same slice)

/-- The records that a slice appends. -/
def sliceRecords (m : Mirror vt) (slice : Bytes) : List HistoryRecord :=
  (m.parsed slice).harvestRecords

/-- The records that several slices append, in order. -/
def slicesRecords (m : Mirror vt) : List Bytes → List HistoryRecord
  | [] => []
  | slice :: slices => m.sliceRecords slice ++ (m.processSlice slice).slicesRecords slices

/-- The records that a chunk of child output appends, in order. -/
def processRecords (m : Mirror vt) (bytes : Bytes) : List HistoryRecord :=
  m.slicesRecords (chunks processSliceSize bytes)

/-- Several slices leave the view alone. -/
theorem foldl_processSlice_sameView (m : Mirror vt) (slices : List Bytes) :
    (slices.foldl processSlice m).SameView m := by
  induction slices generalizing m with
  | nil => exact .refl m
  | cons slice slices ih => exact (ih _).trans (m.processSlice_sameView slice)

/-- Several slices show the parser their bytes. -/
theorem foldl_processSlice_same (m : Mirror vt) (slices : List Bytes) :
    (slices.foldl processSlice m).parser.Same (m.parser.process slices.flatten) := by
  induction slices generalizing m with
  | nil => exact .refl m.parser
  | cons slice slices ih =>
    rw [List.flatten_cons, Parser.process_append]
    exact (ih _).trans ((m.processSlice_same slice).process _)

/-- A chunk shows the parser its bytes. -/
theorem processSlices_same (m : Mirror vt) (bytes : Bytes) :
    (m.processSlices bytes).parser.Same (m.parser.process bytes) := by
  have hsame := m.foldl_processSlice_same (chunks processSliceSize bytes)
  rwa [flatten_chunks (by decide : 0 < processSliceSize)] at hsame

/-- Several slices append their records. -/
theorem foldl_processSlice_history {m : Mirror vt} (hrows : 0 < m.parser.rows)
    (slices : List Bytes) :
    (slices.foldl processSlice m).history = m.history.pushAll (m.slicesRecords slices) := by
  induction slices generalizing m with
  | nil => rfl
  | cons slice slices ih =>
    have hparsed : 0 < (m.parsed slice).parser.rows := by
      rw [(m.parsed_same slice).rows, Parser.process_rows]
      exact hrows
    have hnext : 0 < (m.processSlice slice).parser.rows := by
      rwa [(m.processSlice_sameView slice).rows]
    rw [List.foldl_cons, ih hnext, processSlice_eq, harvest_history hparsed, parsed_history,
      slicesRecords, History.pushAll_append]
    rfl

/-- Between slices, whatever was lost before: on the primary screen the next count starts
afresh, and a counter that is not parked has not counted yet. -/
structure Steady (m : Mirror vt) : Prop where
  rows : 0 < m.parser.rows
  capacity : m.parser.scrollbackLen = stageScrollback
  ofPrimary : m.parser.alternate = false →
    m.parked = false ∧ m.stagedSeen ≤ m.parser.staged.length
  ofUnparked : m.parked = false →
    m.parser.offset = 0 ∧ (m.parser.alternate = true → m.stagedSeen = 0)

/-- Between slices: the counter is in step with the pending rows, or it is parked on
nothing and no row is pending. -/
inductive Counts (m : Mirror vt) : List Row → Prop
  | afresh : m.parser.alternate = false → m.stagedSeen = m.parser.staged.length → Counts m []
  | deferred {pending : List Row} : m.parser.alternate = true →
    m.parser.Counting m.parked pending → Counts m pending
  | stuck : m.parser.alternate = true → m.parked = true → m.parser.offset = 0 → Counts m []

/-- Between slices: the books are balanced. -/
structure Booked (m : Mirror vt) (pending : List Row) : Prop where
  steady : m.Steady
  counts : m.Counts pending

/-- The counter is parked, and the slice takes it out of step: it is parked on nothing since
an earlier slice, or this one scrolls the primary grid to its bottom. -/
def OutOfStep (m : Mirror vt) (slice : Bytes) : Prop :=
  m.park.parked = true ∧ (m.park.parser.offset = 0 ∨ m.parser.rewinds slice = true)

instance (m : Mirror vt) (slice : Bytes) : Decidable (m.OutOfStep slice) :=
  inferInstanceAs (Decidable (_ ∧ _))

theorem Steady.park_capacity {m : Mirror vt} (h : m.Steady) :
    m.park.parser.scrollbackLen = stageScrollback := by
  obtain ⟨offset, history, parked, seen, hpark⟩ := m.park_rebooked
  rw [hpark]
  exact h.capacity

/-- After `park` a counter that is not parked starts from nothing. -/
theorem Steady.park_unparked {m : Mirror vt} (h : m.Steady) (hparked : m.park.parked = false) :
    m.park.parser.offset = 0 ∧ m.park.stagedSeen = 0 := by
  cases halt : m.parser.alternate with
  | true =>
    rw [park_of_deferred (.inl halt)] at hparked ⊢
    exact ⟨(h.ofUnparked hparked).1, (h.ofUnparked hparked).2 halt⟩
  | false =>
    obtain ⟨hunparked, hseen⟩ := h.ofPrimary halt
    rw [park_of_primary halt hunparked] at hparked ⊢
    split at hparked
    · cases hparked
    · rename_i hnone
      rw [if_neg hnone]
      exact ⟨rfl, (by omega : m.stagedSeen = 0)⟩

/-- On the primary screen the counter is in step once it is parked: nothing is pending. -/
theorem Steady.park_counting {m : Mirror vt} (h : m.Steady) (halt : m.parser.alternate = false) :
    m.park.parser.Counting m.park.parked [] := by
  rw [park_of_primary halt (h.ofPrimary halt).1]
  split
  · rename_i hsome
    exact ⟨List.nil_suffix, fun _ => ⟨rfl, hsome⟩, fun hfalse => by cases hfalse⟩
  · rename_i hnone
    have hempty : m.parser.staged = [] := List.length_eq_zero_iff.mp (by omega)
    refine ⟨List.nil_suffix, fun htrue => ?_, fun _ => ⟨rfl, hempty⟩⟩
    exact absurd ((h.ofPrimary halt).1.symm.trans htrue) Bool.false_eq_true.mp

/-- Before a slice that does not take it out of step, the parked counter covers the pending
rows. -/
theorem Booked.park_counting {m : Mirror vt} {pending : List Row} (h : m.Booked pending)
    {slice : Bytes} (hin : ¬m.OutOfStep slice) :
    m.park.parser.Counting m.park.parked pending := by
  cases h.counts with
  | afresh halt _ => exact h.steady.park_counting halt
  | deferred halt hcounting => rwa [park_of_deferred (.inl halt)]
  | stuck halt hparked hoffset =>
    rw [OutOfStep, park_of_deferred (.inl halt)] at hin
    exact absurd ⟨hparked, .inl hoffset⟩ hin

theorem recordsOf_append (m : Mirror vt) (rows rows' : List Row) :
    m.recordsOf (rows ++ rows') = m.recordsOf rows ++ m.recordsOf rows' := List.map_append

/-- Records depend on the width alone. -/
theorem recordsOf_of_cols {m m' : Mirror vt} (h : m'.parser.cols = m.parser.cols)
    (rows : List Row) : m'.recordsOf rows = m.recordsOf rows := by
  rw [recordsOf, recordsOf, h]

/-- Before the harvest, on either screen: the counter is in step with the pending rows, or it
is parked on nothing and no row is pending. -/
inductive Ready (m : Mirror vt) : List Row → Prop
  | counting {pending : List Row} : m.parser.Counting m.parked pending →
    (m.parked = false → m.stagedSeen = 0) → Ready m pending
  | stuck : m.parked = true → m.parser.offset = 0 → Ready m []

/-- A counter that is parked on nothing counts nothing. -/
theorem uncounted_of_stuck {m : Mirror vt} (hparked : m.parked = true)
    (hoffset : m.parser.offset = 0) : m.uncounted = 0 := by
  simp only [uncounted, hparked, if_true, hoffset]

/-- Either way the harvest counts as many rows as are pending. -/
theorem Ready.uncounted {m : Mirror vt} {pending : List Row} (h : m.Ready pending) :
    m.uncounted = pending.length := by
  cases h with
  | stuck hparked hoffset => exact uncounted_of_stuck hparked hoffset
  | counting hcounting hseen =>
    cases hparked : m.parked with
    | true =>
      simp only [Mirror.uncounted, hparked, if_true]
      rw [(hcounting.ofParked hparked).1]
      rfl
    | false =>
      simp only [Mirror.uncounted, hparked, Bool.false_eq_true, if_false]
      rw [(hcounting.ofUnparked hparked).2, hseen hparked]
      rfl

/-- The pending rows are the last ones staged. -/
theorem Ready.suffix {m : Mirror vt} {pending : List Row} (h : m.Ready pending) :
    pending <:+ m.parser.staged := by
  cases h with
  | stuck => exact List.nil_suffix
  | counting hcounting _ => exact hcounting.suffix

/-- A harvest that runs archives exactly the pending rows. -/
theorem Ready.unarchived {m : Mirror vt} {pending : List Row} (h : m.Ready pending) :
    m.unarchived = pending := by
  rw [Mirror.unarchived, h.uncounted, CappedQueue.rtake_length_of_suffix h.suffix]

/-- A harvest that runs leaves nothing pending. -/
theorem harvest_counts {m : Mirror vt} (halt : m.parser.alternate = false)
    (hrows : 0 < m.parser.rows) : m.harvest.Counts [] := by
  rw [harvest_eq halt hrows]
  exact .afresh halt rfl

/-- A harvest leaves pending what it does not archive. -/
theorem Ready.harvest {m : Mirror vt} {pending : List Row} (h : m.Ready pending)
    (hrows : 0 < m.parser.rows) :
    m.harvest.Counts (if m.parser.alternate then pending else []) := by
  cases halt : m.parser.alternate with
  | false => exact harvest_counts halt hrows
  | true =>
    rw [harvest_of_alternate halt]
    cases h with
    | counting hcounting _ => exact .deferred halt hcounting
    | stuck hparked hoffset => exact .stuck halt hparked hoffset

/-- A slice that takes the parked counter out of step puts it back to the bottom. -/
theorem parsed_offset_of_outOfStep {m : Mirror vt} {slice : Bytes} (h : m.OutOfStep slice) :
    (m.parsed slice).parser.offset = 0 := by
  rcases h.2 with hoffset | hrewinds
  · exact Parser.process_offset hoffset slice
  · refine Parser.process_offset_of_rewinds ?_
    rwa [m.park_rebooked.same.rewinds]

/-- Once a slice without a full reset is parsed, the counter covers the pending rows and
those that the slice scrolls off, if it stays in step. -/
theorem Booked.parsed_counting {m : Mirror vt} {pending : List Row} (h : m.Booked pending)
    {slice : Bytes} (hreset : m.parser.NoReset slice) (hin : ¬m.OutOfStep slice)
    (hroom : (pending ++ m.parser.rowsOff slice).length ≤ stageScrollback - 1) :
    (m.parsed slice).parser.Counting (m.parsed slice).parked
      (pending ++ m.parser.rowsOff slice) := by
  have hsame := m.park_rebooked.same
  have hroom' : stageScrollback - 1 < m.park.parser.scrollbackLen := by
    rw [h.steady.park_capacity]
    decide
  rw [← hsame.rowsOff slice] at hroom ⊢
  refine (h.park_counting hin).process slice ?_ (fun hparked => ?_) (hroom.trans_lt hroom')
  · intro a ha
    exact hreset a (by rwa [← hsame.vte])
  · rw [hsame.rewinds]
    exact Bool.eq_false_iff.mpr fun hrewinds => hin ⟨hparked, .inr hrewinds⟩

/-- Once a slice without a full reset is parsed, the harvest archives the pending rows and
those that the slice scrolls off: the counter stays in step, or there are none. -/
theorem Booked.ready {m : Mirror vt} {pending : List Row} (h : m.Booked pending)
    {slice : Bytes} (hreset : m.parser.NoReset slice)
    (hroom : (pending ++ m.parser.rowsOff slice).length ≤ stageScrollback - 1)
    (hstep : m.OutOfStep slice → pending ++ m.parser.rowsOff slice = []) :
    (m.parsed slice).Ready (pending ++ m.parser.rowsOff slice) := by
  by_cases hout : m.OutOfStep slice
  · rw [hstep hout]
    exact .stuck hout.1 (parsed_offset_of_outOfStep hout)
  · exact .counting (h.parsed_counting hreset hout hroom) fun hparked =>
      (h.steady.park_unparked hparked).2

/-- A slice leaves a mirror steady, whatever is in it. -/
theorem Steady.processSlice {m : Mirror vt} (h : m.Steady) (slice : Bytes) :
    (m.processSlice slice).Steady := by
  let parsed := m.parsed slice
  have hsame : parsed.parser.Same (m.parser.process slice) := m.parsed_same slice
  have hrows : 0 < parsed.parser.rows := by
    rw [hsame.rows, Parser.process_rows]
    exact h.rows
  have hcap : parsed.parser.scrollbackLen = stageScrollback :=
    (Parser.process_scrollbackLen _ _).trans h.park_capacity
  have hunparked (hparked : parsed.parked = false) :
      parsed.parser.offset = 0 ∧ parsed.stagedSeen = 0 := by
    obtain ⟨hoffset, hseen⟩ := h.park_unparked hparked
    exact ⟨Parser.process_offset hoffset slice, hseen⟩
  change parsed.harvest.Steady
  cases halt : parsed.parser.alternate with
  | true =>
    rw [harvest_of_alternate halt]
    refine ⟨hrows, hcap, fun hfalse => ?_, fun hparked => ?_⟩
    · exact absurd (halt.symm.trans hfalse) Bool.true_eq_false.mp
    · exact ⟨(hunparked hparked).1, fun _ => (hunparked hparked).2⟩
  | false =>
    rw [harvest_eq halt hrows]
    refine ⟨hrows, hcap, fun _ => ⟨rfl, le_rfl⟩, fun _ => ⟨rfl, fun htrue => ?_⟩⟩
    exact absurd (halt.symm.trans htrue) Bool.false_eq_true.mp

/-- What a slice appends are the ledger's new entries. -/
theorem Booked.sliceRecords {m : Mirror vt} {pending : List Row} (h : m.Booked pending)
    (slice : Bytes) (hreset : m.parser.NoReset slice)
    (hroom : (pending ++ m.parser.rowsOff slice).length ≤ stageScrollback - 1)
    (hstep : m.OutOfStep slice → pending ++ m.parser.rowsOff slice = []) :
    m.sliceRecords slice = m.recordsOf (Ledger.scroll ⟨[], pending⟩ (m.parser.rowsOff slice)
      (m.parser.process slice).alternate).archived := by
  have hparsed : (m.parsed slice).parser.Same (m.parser.process slice) := m.parsed_same slice
  have hcols : (m.parsed slice).parser.cols = m.parser.cols := by
    rw [hparsed.cols, Parser.process_cols]
  rw [Mirror.sliceRecords, harvestRecords, hparsed.alternate]
  cases (m.parser.process slice).alternate with
  | true => rfl
  | false =>
    rw [(h.ready hreset hroom hstep).unarchived]
    exact recordsOf_of_cols hcols _

/-- One slice keeps the books: what it leaves pending is what the ledger says. -/
theorem Booked.processSlice {m : Mirror vt} {pending : List Row} (h : m.Booked pending)
    (slice : Bytes) (hreset : m.parser.NoReset slice)
    (hroom : (pending ++ m.parser.rowsOff slice).length ≤ stageScrollback - 1)
    (hstep : m.OutOfStep slice → pending ++ m.parser.rowsOff slice = []) :
    (m.processSlice slice).Booked (Ledger.scroll ⟨[], pending⟩ (m.parser.rowsOff slice)
      (m.parser.process slice).alternate).pending := by
  have hparsed := m.parsed_same slice
  have hrows : 0 < (m.parsed slice).parser.rows := by
    rw [hparsed.rows, Parser.process_rows]
    exact h.steady.rows
  have hcounts := (h.ready hreset hroom hstep).harvest hrows
  rw [hparsed.alternate] at hcounts
  refine ⟨h.steady.processSlice slice, ?_⟩
  cases halt : (m.parser.process slice).alternate with
  | true => rw [halt] at hcounts; exact hcounts
  | false => rw [halt] at hcounts; exact hcounts

/-- No slice takes the counter out of step with rows that are pending or that it scrolls off. -/
def InStep (m : Mirror vt) (pending : List Row) : List Bytes → Prop
  | [] => True
  | slice :: slices =>
    (m.OutOfStep slice → pending ++ m.parser.rowsOff slice = []) ∧
      (m.processSlice slice).InStep (Ledger.scroll ⟨[], pending⟩ (m.parser.rowsOff slice)
        (m.parser.process slice).alternate).pending slices

instance decidableInStep : (m : Mirror vt) → (pending : List Row) → (slices : List Bytes) →
    Decidable (m.InStep pending slices)
  | _, _, [] => isTrue trivial
  | m, pending, slice :: slices =>
    haveI := decidableInStep (m.processSlice slice) (Ledger.scroll ⟨[], pending⟩
      (m.parser.rowsOff slice) (m.parser.process slice).alternate).pending slices
    inferInstanceAs (Decidable (_ ∧ _))

/-- Several slices keep the books. -/
theorem foldl_processSlice_booked {m : Mirror vt} {l : Ledger} {p : Parser vt}
    (h : m.Booked l.pending) (hp : m.parser.Same p) (slices : List Bytes)
    (hreset : p.NoReset slices.flatten) (hroom : l.Room p slices)
    (hin : m.InStep l.pending slices) :
    let m' := slices.foldl processSlice m
    m'.Booked (l.parse p slices).pending ∧ m'.parser.Same (p.process slices.flatten) ∧
      ∃ rows, (l.parse p slices).archived = l.archived ++ rows ∧
        m.slicesRecords slices = m.recordsOf rows := by
  induction slices generalizing m l p with
  | nil => exact ⟨h, hp, [], (List.append_nil _).symm, rfl⟩
  | cons slice slices ih =>
    rw [List.flatten_cons, Parser.noReset_append] at hreset
    have hfirst : m.parser.NoReset slice := by
      intro a ha
      exact hreset.1 a (by rwa [← hp.vte])
    have hnext := hp.process slice
    have hfits : (l.pending ++ m.parser.rowsOff slice).length ≤ stageScrollback - 1 := by
      rw [hp.rowsOff slice]
      exact hroom.1
    have hsame := m.processSlice_same slice
    have hbooked := h.processSlice slice hfirst hfits hin.1
    have hrecords := h.sliceRecords slice hfirst hfits hin.1
    have hrest := hin.2
    rw [hp.rowsOff slice, hnext.alternate] at hbooked hrecords hrest
    let done := Ledger.scroll ⟨[], l.pending⟩ (p.rowsOff slice) (p.process slice).alternate
    have hledger : l.scroll (p.rowsOff slice) (p.process slice).alternate =
        ⟨l.archived ++ done.archived, done.pending⟩ := l.scroll_eq _ _
    rw [Ledger.Room, hledger] at hroom
    obtain ⟨hbooked', hsame', rows, hrows, hrecords'⟩ :=
      ih (l := ⟨l.archived ++ done.archived, done.pending⟩) hbooked (hsame.trans hnext) hreset.2
        hroom.2 hrest
    have hcols : (m.processSlice slice).parser.cols = m.parser.cols := by
      rw [hsame.cols, Parser.process_cols]
    rw [Ledger.parse, hledger]
    refine ⟨hbooked', ?_, done.archived ++ rows, ?_, ?_⟩
    · rw [List.flatten_cons, Parser.process_append]
      exact hsame'
    · rw [hrows, List.append_assoc]
    · rw [slicesRecords, hrecords, hrecords', recordsOf_of_cols hcols, recordsOf_append]

/-- A parked counter that has not been scrolled to the bottom counts. -/
def Armed (m : Mirror vt) : Prop := m.parked = true → 0 < m.parser.offset

/-- Where the alternate screen leaves the primary grid alone, a slice without a full reset
takes no counter out of step that counts. -/
theorem Armed.not_outOfStep (hkeeps : vt.KeepsOffset) {m : Mirror vt} (h : m.Armed)
    (hm : m.Steady) {slice : Bytes} (hreset : m.parser.NoReset slice) : ¬m.OutOfStep slice := by
  rintro ⟨hparked, hoffset | hrewinds⟩
  · have hpos : 0 < m.park.parser.offset := by
      cases halt : m.parser.alternate with
      | true =>
        rw [park_of_deferred (.inl halt)] at hparked ⊢
        exact h hparked
      | false =>
        rw [((hm.park_counting halt).ofParked hparked).1]
        exact Nat.succ_pos _
    omega
  · rw [Parser.rewinds_of_keepsOffset hkeeps hreset] at hrewinds
    cases hrewinds

/-- A counter that stays in step with a slice counts after it. -/
theorem Booked.armed_processSlice {m : Mirror vt} {pending : List Row} (h : m.Booked pending)
    {slice : Bytes} (hreset : m.parser.NoReset slice) (hin : ¬m.OutOfStep slice)
    (hroom : (pending ++ m.parser.rowsOff slice).length ≤ stageScrollback - 1) :
    (m.processSlice slice).Armed := by
  intro hparked
  rw [processSlice_eq] at hparked ⊢
  cases halt : (m.parsed slice).parser.alternate with
  | true =>
    rw [harvest_of_alternate halt] at hparked ⊢
    rw [((h.parsed_counting hreset hin hroom).ofParked hparked).1]
    exact Nat.succ_pos _
  | false =>
    have hrows : 0 < (m.parsed slice).parser.rows := by
      rw [(m.parsed_same slice).rows, Parser.process_rows]
      exact h.steady.rows
    rw [harvest_eq halt hrows] at hparked
    cases hparked

/-- Where the alternate screen leaves the primary grid alone, slices without a full reset keep
the counter in step. -/
theorem Booked.inStep_of_keepsOffset (hkeeps : vt.KeepsOffset) {m : Mirror vt} {l : Ledger}
    {p : Parser vt} (h : m.Booked l.pending) (harmed : m.Armed) (hp : m.parser.Same p)
    (slices : List Bytes) (hreset : p.NoReset slices.flatten) (hroom : l.Room p slices) :
    m.InStep l.pending slices ∧ (slices.foldl Mirror.processSlice m).Armed := by
  induction slices generalizing m l p with
  | nil => exact ⟨trivial, harmed⟩
  | cons slice slices ih =>
    rw [List.flatten_cons, Parser.noReset_append] at hreset
    have hfirst : m.parser.NoReset slice := by
      intro a ha
      exact hreset.1 a (by rwa [← hp.vte])
    have hnext := hp.process slice
    have hfits : (l.pending ++ m.parser.rowsOff slice).length ≤ stageScrollback - 1 := by
      rw [hp.rowsOff slice]
      exact hroom.1
    have hout := harmed.not_outOfStep hkeeps h.steady hfirst
    have hbooked := h.processSlice slice hfirst hfits fun h => absurd h hout
    have hpending : (l.scroll (p.rowsOff slice) (p.process slice).alternate).pending =
        (Ledger.scroll ⟨[], l.pending⟩ (m.parser.rowsOff slice)
          (m.parser.process slice).alternate).pending := by
      rw [l.scroll_eq, hp.rowsOff slice, hnext.alternate]
    rw [← hpending] at hbooked
    obtain ⟨hrest, hend⟩ := ih hbooked (h.armed_processSlice hfirst hout hfits)
      ((m.processSlice_same slice).trans hnext) hreset.2 hroom.2
    rw [hpending] at hrest
    exact ⟨⟨fun h => absurd h hout, hrest⟩, hend⟩

/-- The mirror after a chunk, once pending bells and titles were taken and the output was made. -/
def chunkDone (m : Mirror vt) (title : Option String) (shadow : Option (Parser vt))
    (zoneDirty : Bool) : Mirror vt :=
  { m with
    parser := { m.parser with bells := 0, title := none }
    title := title
    shadow := shadow
    zoneDirty := zoneDirty }

/-- Taking a title change clears the pending title. -/
theorem takeTitleChange_eq (m : Mirror vt) :
    ∃ title, m.takeTitleChange.2 =
      { m with parser := { m.parser with title := none }, title := title } := by
  obtain ⟨hostRows, hostCols, ⟨rows, cols, len, vte, core, alternate, staged, offset, bells, title⟩,
    shadow, view, known, history, parked, seen, dirty⟩ := m
  cases title with
  | none => exact ⟨known, rfl⟩
  | some title =>
    simp only [takeTitleChange]
    split
    · exact ⟨known, rfl⟩
    · exact ⟨some title, rfl⟩

/-- Past its slices, a chunk changes neither the screen nor the archive. -/
theorem process_eq (m : Mirror vt) (bytes : Bytes) :
    ∃ title shadow zoneDirty,
      (m.process bytes).2 = (m.processSlices bytes).chunkDone title shadow zoneDirty := by
  obtain ⟨title, htitle⟩ := takeTitleChange_eq (m.processSlices bytes).takeBells.2
  simp only [process]
  split
  · exact ⟨title, _, _, by rw [htitle]; rfl⟩
  · exact ⟨title, _, _, by rw [htitle]; rfl⟩

/-- The mirror after a chunk, when its output is made. -/
def taken (m : Mirror vt) (bytes : Bytes) : Mirror vt :=
  (m.processSlices bytes).takeBells.2.takeTitleChange.2

theorem taken_eq (m : Mirror vt) (bytes : Bytes) :
    ∃ title, m.taken bytes = (m.processSlices bytes).chunkDone title
      (m.processSlices bytes).shadow (m.processSlices bytes).zoneDirty := by
  obtain ⟨title, htitle⟩ := takeTitleChange_eq (m.processSlices bytes).takeBells.2
  exact ⟨title, by rw [taken, htitle]; rfl⟩

/-- What a chunk scrolls through the host's zone while a view is active. -/
def hostScroll (m : Mirror vt) (scrolled : ℕ) : List TermOp :=
  if 0 < scrolled then m.scrollHost scrolled else []

/-- What a chunk repaints on the host while a view is active. -/
def hostRepaint (m : Mirror vt) (scrolled : ℕ) (shadow : Parser vt) : List TermOp :=
  let screen := m.parser.screen
  if 0 < scrolled then
    renderRows vt screen (blankScreen screen.rows screen.cols) m.hostRows m.hostCols true
      m.regionOffset m.cropTop
  else renderRows vt screen shadow.screen m.hostRows m.hostCols false m.regionOffset m.cropTop

/-- The host terminal's new title, if there is one. -/
def hostTitle (title : Option String) : List TermOp :=
  match title with
  | none => []
  | some t => [.windowTitle t]

/-- A chunk while a view is active: the host gets the scrolled lines and the
changed rows, the devices the difference to the shadow. -/
theorem process_of_view {m : Mirror vt} {v : View} {shadow : Parser vt} (hview : m.view = some v)
    (hshadow : m.shadow = some shadow) (bytes : Bytes) :
    let done := m.taken bytes
    let scrolled := (m.processSlices bytes).history.nextIndex - m.history.nextIndex
    ∃ bells title, m.process bytes =
      (⟨done.hostScroll scrolled ++ done.hostRepaint scrolled shadow ++ hostTitle title,
        some (vt.stateDiff done.parser.screen shadow.screen), bells, title⟩,
        { done with
          zoneDirty := done.zoneDirty || 0 < scrolled
          shadow := some (shadow.process bytes) }) := by
  intro done scrolled
  obtain ⟨title, htaken⟩ := m.taken_eq bytes
  have hsame := m.foldl_processSlice_sameView (chunks processSliceSize bytes)
  have hdone : done.view = some v ∧ done.shadow = some shadow := by
    constructor
    · exact (congrArg Mirror.view htaken).trans (hsame.view.trans hview)
    · exact (congrArg Mirror.shadow htaken).trans (hsame.shadow.trans hshadow)
  refine ⟨(m.processSlices bytes).takeBells.1,
    (m.processSlices bytes).takeBells.2.takeTitleChange.1, ?_⟩
  simp only [process]
  split
  · rename_i v' shadow' hview' hshadow'
    have heq : shadow' = shadow := Option.some.inj (hshadow'.symm.trans hdone.2)
    subst heq
    rfl
  · rename_i hnone
    exact absurd hdone.2 (hnone v shadow hdone.1)

/-- A chunk appends its records; the model keeps its size and parses the chunk. -/
theorem process_spec {m : Mirror vt} (hrows : 0 < m.parser.rows) (bytes : Bytes) :
    (m.process bytes).2.hostRows = m.hostRows ∧ (m.process bytes).2.hostCols = m.hostCols ∧
      (m.process bytes).2.view = m.view ∧
      (m.process bytes).2.parser.Same (m.parser.process bytes) ∧
      (m.process bytes).2.history = m.history.pushAll (m.processRecords bytes) := by
  have hview := m.foldl_processSlice_sameView (chunks processSliceSize bytes)
  have hsame := m.processSlices_same bytes
  obtain ⟨title, shadow, zoneDirty, hdone⟩ := m.process_eq bytes
  rw [hdone]
  exact ⟨hview.hostRows, hview.hostCols, hview.view,
    ⟨hsame.rows, hsame.cols, hsame.vte, hsame.core, hsame.alternate⟩,
    foldl_processSlice_history hrows _⟩

/-- Taking events and making output leaves a mirror steady. -/
theorem Steady.chunkDone {m : Mirror vt} (h : m.Steady) (title : Option String)
    (shadow : Option (Parser vt)) (zoneDirty : Bool) :
    (m.chunkDone title shadow zoneDirty).Steady :=
  ⟨h.rows, h.capacity, h.ofPrimary, h.ofUnparked⟩

/-- What is pending does not depend on the size of the host, the view or the events. -/
theorem Counts.of_same {m m' : Mirror vt} {pending : List Row} (h : m.Counts pending)
    (halt : m'.parser.alternate = m.parser.alternate) (hstaged : m'.parser.staged = m.parser.staged)
    (hoffset : m'.parser.offset = m.parser.offset) (hparked : m'.parked = m.parked)
    (hseen : m'.stagedSeen = m.stagedSeen) : m'.Counts pending := by
  cases h with
  | afresh hprimary hall => exact .afresh (halt.trans hprimary) (by rw [hseen, hall, hstaged])
  | deferred halternate hcounting =>
    refine .deferred (halt.trans halternate) ⟨?_, ?_, ?_⟩
    · rw [hstaged]; exact hcounting.suffix
    · rw [hparked, hoffset, hstaged]; exact hcounting.ofParked
    · rw [hparked, hoffset, hstaged]; exact hcounting.ofUnparked
  | stuck halternate htrue hzero =>
    exact .stuck (halt.trans halternate) (hparked.trans htrue) (hoffset.trans hzero)

/-- Taking events and making output touches no books. -/
theorem Booked.chunkDone {m : Mirror vt} {pending : List Row} (h : m.Booked pending)
    (title : Option String) (shadow : Option (Parser vt)) (zoneDirty : Bool) :
    (m.chunkDone title shadow zoneDirty).Booked pending :=
  ⟨h.steady.chunkDone title shadow zoneDirty, h.counts.of_same rfl rfl rfl rfl rfl⟩

/-- The mirror after several chunks of child output. -/
def feed (m : Mirror vt) (inputs : List Bytes) : Mirror vt :=
  inputs.foldl (fun m bytes => (m.process bytes).2) m

/-- The slices that several chunks are parsed in. -/
def slices (inputs : List Bytes) : List Bytes := inputs.flatMap (chunks processSliceSize)

/-- No slice of these chunks takes the counter out of step with rows that are pending or that
it scrolls off. -/
def FeedInStep (m : Mirror vt) (l : Ledger) : List Bytes → Prop
  | [] => True
  | bytes :: inputs =>
    m.InStep l.pending (chunks processSliceSize bytes) ∧
      (m.process bytes).2.FeedInStep (l.parse m.parser (chunks processSliceSize bytes)) inputs

instance decidableFeedInStep : (m : Mirror vt) → (l : Ledger) → (inputs : List Bytes) →
    Decidable (m.FeedInStep l inputs)
  | _, _, [] => isTrue trivial
  | m, l, bytes :: inputs =>
    haveI := decidableFeedInStep (m.process bytes).2
      (l.parse m.parser (chunks processSliceSize bytes)) inputs
    inferInstanceAs (Decidable (_ ∧ _))

/-- One chunk keeps the books. -/
theorem process_booked {m : Mirror vt} {l : Ledger} {p : Parser vt} (h : m.Booked l.pending)
    (hp : m.parser.Same p) {bytes : Bytes} (hreset : p.NoReset bytes)
    (hroom : l.Room p (chunks processSliceSize bytes))
    (hin : m.InStep l.pending (chunks processSliceSize bytes)) :
    (m.process bytes).2.Booked (l.parse p (chunks processSliceSize bytes)).pending ∧
      (m.process bytes).2.parser.Same (p.process bytes) ∧
      ∃ rows, (l.parse p (chunks processSliceSize bytes)).archived = l.archived ++ rows ∧
        (m.process bytes).2.history = m.history.pushAll (m.recordsOf rows) := by
  have hchunk : (chunks processSliceSize bytes).flatten = bytes :=
    flatten_chunks (by decide) bytes
  obtain ⟨hbooked, hsame, rows, hrows, hrecords⟩ := foldl_processSlice_booked h hp
    (chunks processSliceSize bytes) (by rw [hchunk]; exact hreset) hroom hin
  rw [hchunk] at hsame
  obtain ⟨title, shadow, zoneDirty, hdone⟩ := m.process_eq bytes
  rw [hdone]
  refine ⟨hbooked.chunkDone title shadow zoneDirty,
    ⟨hsame.rows, hsame.cols, hsame.vte, hsame.core, hsame.alternate⟩, rows, hrows, ?_⟩
  rw [← hrecords]
  exact foldl_processSlice_history h.steady.rows _

/-- Any number of chunks keeps the books. -/
theorem feed_booked {m : Mirror vt} {l : Ledger} {p : Parser vt} (h : m.Booked l.pending)
    (hp : m.parser.Same p) (inputs : List Bytes) (hreset : p.NoReset inputs.flatten)
    (hroom : l.Room p (slices inputs)) (hin : m.FeedInStep l inputs) :
    (m.feed inputs).Booked (l.parse p (slices inputs)).pending ∧
      (m.feed inputs).parser.Same (p.process inputs.flatten) ∧
      ∃ rows, (l.parse p (slices inputs)).archived = l.archived ++ rows ∧
        (m.feed inputs).history = m.history.pushAll (m.recordsOf rows) := by
  induction inputs generalizing m l p with
  | nil => exact ⟨h, hp, [], (List.append_nil _).symm, rfl⟩
  | cons bytes inputs ih =>
    have hchunk : (chunks processSliceSize bytes).flatten = bytes :=
      flatten_chunks (by decide) bytes
    rw [List.flatten_cons, Parser.noReset_append] at hreset
    rw [slices, List.flatMap_cons, Ledger.room_append, hchunk] at hroom
    rw [FeedInStep, Ledger.parse_of_same hp] at hin
    obtain ⟨hbooked, hsame, rows, hrows, hhistory⟩ :=
      process_booked h hp hreset.1 hroom.1 hin.1
    obtain ⟨hbooked', hsame', rows', hrows', hhistory'⟩ :=
      ih hbooked hsame hreset.2 hroom.2 hin.2
    have hcols : (m.process bytes).2.parser.cols = m.parser.cols := by
      rw [hsame.cols, Parser.process_cols, hp.cols]
    rw [slices, List.flatMap_cons, Ledger.parse_append, hchunk]
    refine ⟨hbooked', ?_, rows ++ rows', ?_, ?_⟩
    · rw [List.flatten_cons, Parser.process_append]
      exact hsame'
    · rw [← slices, hrows', hrows, List.append_assoc]
    · change ((m.process bytes).2.feed inputs).history = _
      rw [hhistory', hhistory, recordsOf_of_cols hcols, recordsOf_append, History.pushAll_append]

/-- Where the alternate screen leaves the primary grid alone, chunks without a full reset keep
the counter in step. -/
theorem Booked.feedInStep_of_keepsOffset (hkeeps : vt.KeepsOffset) {m : Mirror vt} {l : Ledger}
    (h : m.Booked l.pending) (harmed : m.Armed) (inputs : List Bytes)
    (hreset : m.parser.NoReset inputs.flatten) (hroom : l.Room m.parser (slices inputs)) :
    m.FeedInStep l inputs := by
  induction inputs generalizing m l with
  | nil => exact trivial
  | cons bytes inputs ih =>
    have hchunk : (chunks processSliceSize bytes).flatten = bytes :=
      flatten_chunks (by decide) bytes
    rw [List.flatten_cons, Parser.noReset_append] at hreset
    rw [slices, List.flatMap_cons, Ledger.room_append, hchunk] at hroom
    obtain ⟨hin, harmed'⟩ := h.inStep_of_keepsOffset hkeeps harmed (.refl m.parser)
      (chunks processSliceSize bytes) (by rw [hchunk]; exact hreset.1) hroom.1
    obtain ⟨hbooked, hsame, -⟩ := process_booked h (.refl m.parser) hreset.1 hroom.1 hin
    obtain ⟨title, shadow, zoneDirty, hdone⟩ := m.process_eq bytes
    refine ⟨hin, ih hbooked (by rw [hdone]; exact harmed') ?_ ?_⟩
    · intro a ha
      exact hreset.2 a (by rwa [hsame.vte] at ha)
    · rw [Ledger.room_of_same hsame]
      exact hroom.2

/-- A mirror as `new` and the view transitions leave it: nothing is staged, nothing counted. -/
structure Fresh (m : Mirror vt) : Prop where
  rows : 0 < m.parser.rows
  capacity : m.parser.scrollbackLen = stageScrollback
  staged : m.parser.staged = []
  offset : m.parser.offset = 0
  parked : m.parked = false
  seen : m.stagedSeen = 0

theorem new_fresh (vt : Vt100) {hostRows : ℕ} (hostCols : ℕ) (hrows : 0 < hostRows) :
    (Mirror.new vt hostRows hostCols).Fresh := ⟨hrows, rfl, rfl, rfl, rfl, rfl⟩

/-- A fresh mirror's books are balanced. -/
theorem Fresh.booked {m : Mirror vt} (h : m.Fresh) : m.Booked [] := by
  refine ⟨⟨h.rows, h.capacity, fun _ => ⟨h.parked, ?_⟩, fun _ => ⟨h.offset, fun _ => h.seen⟩⟩, ?_⟩
  · rw [h.seen]
    exact Nat.zero_le _
  · cases halt : m.parser.alternate with
    | true =>
      refine .deferred halt ⟨List.nil_suffix, fun htrue => ?_, fun _ => ⟨h.offset, h.staged⟩⟩
      exact absurd (h.parked.symm.trans htrue) Bool.false_eq_true.mp
    | false =>
      refine .afresh halt ?_
      rw [h.seen, h.staged]
      rfl

/-- Nothing is parked in a fresh mirror. -/
theorem Fresh.armed {m : Mirror vt} (h : m.Fresh) : m.Armed := fun htrue =>
  absurd (h.parked.symm.trans htrue) Bool.false_eq_true.mp

/-- The snapshot that a view start makes. -/
def snapshot (m : Mirror vt) (view : View) : Bytes :=
  render (renderSnapshot vt (m.flushHistoryForRebuild view.rows).parser.screen view.rows view.cols)

/-- The parser that a view start primes with the snapshot. -/
def blankParser (vt : Vt100) (view : View) : Parser vt :=
  Parser.new vt view.rows view.cols stageScrollback

theorem parser_startView (m : Mirror vt) (view : View) :
    (m.startView view).2.parser = (blankParser vt view).process (m.snapshot view) := rfl

theorem startView_history (m : Mirror vt) (view : View) :
    (m.startView view).2.history = (m.flushHistoryForRebuild view.rows).history := rfl

theorem endView_history (m : Mirror vt) : m.endView.2.history = m.harvest.history := rfl

end Mirror

namespace Parser

/-- The alternate screen is active and none of these bytes leaves it. -/
def StaysAlternate (p : Parser vt) (bytes : Bytes) : Prop :=
  p.alternate = true ∧ ∀ a ∈ (vt.scan p.vte bytes).2, screenAfter true a = true

/-- Functions of which none leaves the alternate screen end on it. -/
theorem foldl_screenAfter_of_stays {as : List (Action vt.Draw)}
    (h : ∀ a ∈ as, screenAfter true a = true) : as.foldl screenAfter true = true := by
  induction as with
  | nil => rfl
  | cons a as ih =>
    rw [List.foldl_cons, h a List.mem_cons_self]
    exact ih fun b hb => h b (List.mem_cons_of_mem a hb)

/-- Bytes that do not leave the alternate screen end on it. -/
theorem StaysAlternate.process {p : Parser vt} {bytes : Bytes} (h : p.StaysAlternate bytes) :
    (p.process bytes).alternate = true := by
  rw [process_alternate, h.1, foldl_screenAfter_of_stays h.2]

/-- Bytes that do not leave the alternate screen do so nowhere between their portions. -/
theorem StaysAlternate.append {p : Parser vt} {bs cs : Bytes} (h : p.StaysAlternate (bs ++ cs)) :
    p.StaysAlternate bs ∧ (p.process bs).StaysAlternate cs := by
  have hactions := h.2
  simp only [Vt100.scan_append, List.mem_append, or_imp, forall_and] at hactions
  have hfirst : p.StaysAlternate bs := ⟨h.1, hactions.1⟩
  exact ⟨hfirst, hfirst.process, hactions.2⟩

end Parser

namespace Mirror

/-- Slices spent on the alternate screen add no record. -/
theorem foldl_processSlice_of_staysAlternate {m : Mirror vt} (slices : List Bytes)
    (h : m.parser.StaysAlternate slices.flatten) :
    (slices.foldl processSlice m).history = m.history := by
  induction slices generalizing m with
  | nil => rfl
  | cons slice slices ih =>
    rw [List.flatten_cons] at h
    obtain ⟨hfirst, hrest⟩ := h.append
    have hpark : m.park = m := park_of_deferred (.inl hfirst.1)
    have hslice : m.processSlice slice = m.withParser (m.parser.process slice) := by
      rw [processSlice_eq, parsed, hpark]
      exact harvest_of_alternate hfirst.process
    rw [List.foldl_cons, hslice]
    exact ih hrest

/-- A chunk spent on the alternate screen adds no record. -/
theorem process_of_staysAlternate {m : Mirror vt} {bytes : Bytes}
    (h : m.parser.StaysAlternate bytes) : (m.process bytes).2.history = m.history := by
  obtain ⟨title, shadow, zoneDirty, hdone⟩ := m.process_eq bytes
  rw [hdone]
  exact foldl_processSlice_of_staysAlternate _
    (by rwa [flatten_chunks (by decide : 0 < processSliceSize) bytes])

/-- The records pushed are those of the rows up to the last harvest that ran. -/
theorem feed_history {m : Mirror vt} (hm : m.Fresh) (inputs : List Bytes)
    (hreset : m.parser.NoReset inputs.flatten)
    (hroom : Ledger.empty.Room m.parser (slices inputs))
    (hin : m.FeedInStep Ledger.empty inputs) :
    (m.feed inputs).history = m.history.pushAll
      (m.recordsOf (Ledger.empty.parse m.parser (slices inputs)).archived) := by
  obtain ⟨-, -, rows, hrows, hhistory⟩ :=
    feed_booked (l := Ledger.empty) hm.booked (.refl m.parser) inputs hreset hroom hin
  rw [hhistory, hrows, Ledger.empty, List.nil_append]

/-- Without view transitions and full resets, and with room in the staging
scrollback between two harvests that run, the records pushed to the history are
those of exactly the rows that scrolled off the primary grid up to the last such
harvest, each once and in order. Chunks spent on the alternate screen add none.
This rests on an alternate screen that leaves the primary grid alone. -/
theorem archive_captures_scrolled_rows (hkeeps : vt.KeepsOffset) {m : Mirror vt} (hm : m.Fresh)
    (inputs : List Bytes) (hreset : m.parser.NoReset inputs.flatten)
    (hroom : Ledger.empty.Room m.parser (slices inputs)) :
    (m.feed inputs).history =
        m.history.pushAll
          (m.recordsOf (Ledger.empty.parse m.parser (slices inputs)).archived) ∧
      ∀ bytes, (m.feed inputs).parser.StaysAlternate bytes →
        ((m.feed inputs).process bytes).2.history = (m.feed inputs).history :=
  ⟨feed_history hm inputs hreset hroom
    (hm.booked.feedInStep_of_keepsOffset hkeeps (l := Ledger.empty) hm.armed inputs hreset hroom),
    fun _ hstays => process_of_staysAlternate hstays⟩

/-- Four rows leave the primary screen before and after the alternate one; what scrolls
there leaves no record. -/
theorem archive_captures_four_rows :
    let inputs := [ascii "ab\r\ncd\r\ne\r\nf", ascii "\x1b[?1049hx\r\ny\r\nz\x1b[?1049l",
      ascii "g\r\nh", ascii "\r\ni"]
    ((Mirror.new keepingVt100 2 4).feed inputs).history.lines.map HistoryRecord.bytes =
      [ascii "ab", ascii "cd", ascii "e", ascii "fg"] := by
  intro inputs
  have hcaptured := (archive_captures_scrolled_rows keepingVt100_keepsOffset
    (new_fresh keepingVt100 4 (by decide : 0 < 2)) inputs (by decide) (by decide)).1
  rw [hcaptured]
  decide

/-- The small emulator scrolls the primary grid to its bottom, and archives the same. -/
example :
    let inputs := [ascii "ab\r\ncd\r\ne\r\nf", ascii "\x1b[?1049hx\r\ny\r\nz\x1b[?1049l",
      ascii "g\r\nh", ascii "\r\ni"]
    ((Mirror.new asciiVt100 2 4).feed inputs).history.lines.map HistoryRecord.bytes =
      [ascii "ab", ascii "cd", ascii "e", ascii "fg"] := by decide

end Mirror

end G2mirror
