import G2mirror.HostTerminal
import G2mirror.Archive
import G2mirror.Library.Machine

/-!
# Scrolled lines reach the host's native scrollback

While a view is active, archived lines flow through the history zone above the
live region before they reach the host's scrollback. The invariant counts both:
every archived line is in the scrollback or, after it, in the zone, and a zone
that is not dirty owes the scrollback nothing.
-/

namespace G2mirror

open scoped List

variable {vt : Vt100} {Line : Type} {text : HostText Line}

namespace Mirror

/-- The loop over hidden rows paints the mirror's own rows. -/
theorem cropBatches_own (m : Mirror vt) (crop fuel pushed : ℕ) :
    ∀ op ∈ m.cropBatches crop fuel pushed, HostTerminal.Own op := by
  induction fuel generalizing pushed with
  | zero => exact fun op hop => absurd hop List.not_mem_nil
  | succ fuel ih =>
    intro op hop
    rw [cropBatches] at hop
    split at hop
    · simp only [List.mem_append, List.mem_flatMap, cropRow, List.mem_cons, List.not_mem_nil,
        or_false] at hop
      rcases hop with (⟨i, -, rfl | rfl | rfl | rfl⟩ | rfl | rfl | rfl) | hop
      all_goals first | exact trivial | exact ih _ op hop
    · exact absurd hop List.not_mem_nil

/-- Pushing the crop writes the mirror's own output and leaves autowrap on. -/
theorem pushCrop_own (m : Mirror vt) : ∀ op ∈ m.pushCropToHostScrollback, HostTerminal.Own op := by
  intro op hop
  rw [pushCropToHostScrollback] at hop
  split at hop
  · exact absurd hop List.not_mem_nil
  · simp only [List.mem_append, List.mem_cons, List.not_mem_nil, or_false] at hop
    rcases hop with ((rfl | rfl | rfl) | hop) | rfl | rfl
    · exact trivial
    · exact trivial
    · exact trivial
    · exact m.cropBatches_own _ _ _ op hop
    · exact trivial
    · exact trivial

theorem pushCrop_autowrap (m : Mirror vt) {h : HostTerminal Line} (hwrap : h.autowrap = true) :
    (h.execAll text m.pushCropToHostScrollback).autowrap = true := by
  rw [pushCropToHostScrollback]
  split
  · exact hwrap
  · rw [HostTerminal.execAll_append]
    rfl

/-- Whether and how the zone is pushed depends on the view alone. -/
theorem pushZone_sameView {m m' : Mirror vt} (h : m.SameView m') :
    m.pushZoneToHostScrollback = m'.pushZoneToHostScrollback := by
  have hregion : m.regionRows = m'.regionRows := by
    rw [regionRows, regionRows, h.view, h.hostRows]
  have hoffset : m.regionOffset = m'.regionOffset := by
    rw [regionOffset, regionOffset, h.hostRows, hregion]
  rw [pushZoneToHostScrollback, pushZoneToHostScrollback, h.zoneDirty, hoffset, h.hostRows]

end Mirror

/-- Placing the cursor changes no line. -/
theorem placeCursor_silent (screen : Screen) (srcOff rows cols targetOff : ℕ) :
    ∀ op ∈ placeCursor screen srcOff rows cols targetOff, HostTerminal.Silent op := by
  intro op hop
  rw [placeCursor] at hop
  split at hop
  split at hop
  · simp only [List.mem_cons, List.not_mem_nil, or_false] at hop
    rcases hop with rfl | rfl <;> exact trivial
  · exact absurd hop List.not_mem_nil

/-- Rendering below the zone keeps the zone and scrolls nothing. -/
theorem renderRows_keepsZone (vt : Vt100) (text : HostText Line) (screen prev : Screen)
    (hostRows hostCols : ℕ) (full : Bool) (zone srcOff : ℕ) :
    HostTerminal.KeepsZone text zone
      (renderRows vt screen prev hostRows hostCols full zone srcOff) := by
  simp only [renderRows]
  refine .append (.append (.append (.append ?_ ?_) ?_) ?_) ?_
  · exact HostTerminal.keepsZone_of_silent zone (by simp [HostTerminal.Silent])
  · refine HostTerminal.keepsZone_flatMap fun row hrow => ?_
    have hindex : srcOff ≤ row.2 := (index_of_window hrow).1
    have hbelow : zone ≤ zone + row.2 - srcOff := by omega
    split
    · exact HostTerminal.keepsZone_paintRow hbelow (by simp)
    · split
      · exact HostTerminal.keepsZone_paintRow hbelow (by simp)
      · exact HostTerminal.keepsZone_nil zone
  · exact HostTerminal.keepsZone_of_silent zone (by simp [HostTerminal.Silent])
  · exact HostTerminal.keepsZone_of_silent zone (placeCursor_silent _ _ _ _ _)
  · exact HostTerminal.keepsZone_of_silent zone (by simp [HostTerminal.Silent])

/-- A line fits the host's width: printed with autowrap it takes one row. -/
def HostText.Fits (text : HostText Line) (record : HistoryRecord) : Prop :=
  text.rows record.bytes = [text.cut record.bytes]

instance [DecidableEq Line] (text : HostText Line) : DecidablePred text.Fits :=
  fun record => inferInstanceAs (Decidable (text.rows record.bytes = [text.cut record.bytes]))

/-- The line that a record makes on the host. -/
def HostText.line (text : HostText Line) (record : HistoryRecord) : Line := text.cut record.bytes

/-- Archived lines that fit are written on successive rows, with or without autowrap. -/
theorem execAll_lines {h : HostTerminal Line} {records : List HistoryRecord}
    (hfits : ∀ r ∈ records, text.Fits r) :
    h.execAll text (records.zipIdx.flatMap Mirror.scrolledLine) =
      h.withTerm (h.term.writeLines text.blank (records.map text.line)) := by
  have hwrite {h : HostTerminal Line} {r : HistoryRecord} (hr : text.Fits r) :
      h.exec text (.lineText r.bytes) = h.withTerm (h.term.write (text.line r)) := by
    rw [HostTerminal.exec]
    split
    · rw [hr]
      rfl
    · rfl
  have hbelow {h : HostTerminal Line} {records : List HistoryRecord}
      (hfits : ∀ r ∈ records, text.Fits r) (n : ℕ) (hn : 0 < n) :
      h.execAll text ((records.zipIdx n).flatMap Mirror.scrolledLine) =
        h.withTerm ((records.map text.line).foldl (ScrollTerminal.writeBelow text.blank)
          h.term) := by
    induction records generalizing h n with
    | nil => rfl
    | cons r records ih =>
      have hone : h.execAll text [.crlf 1, .lineText r.bytes, .sgrReset] =
          h.withTerm (ScrollTerminal.writeBelow text.blank h.term (text.line r)) := by
        rw [HostTerminal.execAll_cons, HostTerminal.execAll_cons,
          hwrite (h := h.exec text (.crlf 1)) (hfits r List.mem_cons_self)]
        rfl
      have hline : Mirror.scrolledLine (r, n) = [.crlf 1, .lineText r.bytes, .sgrReset] := by
        rw [Mirror.scrolledLine, if_pos hn]
        rfl
      rw [List.zipIdx_cons, List.flatMap_cons, hline, HostTerminal.execAll_append]
      change (h.execAll text [.crlf 1, .lineText r.bytes, .sgrReset]).execAll text _ = _
      have hrest := ih (h := h.withTerm (ScrollTerminal.writeBelow text.blank h.term (text.line r)))
        (fun o ho => hfits o (List.mem_cons_of_mem r ho)) (n + 1) n.succ_pos
      rw [hone, hrest]
      rfl
  cases records with
  | nil => rfl
  | cons r records =>
    rw [List.zipIdx_cons, List.flatMap_cons, HostTerminal.execAll_append]
    change (h.exec text (.lineText r.bytes)).execAll text _ = _
    rw [hwrite (hfits r List.mem_cons_self)]
    exact hbelow (h := h.withTerm (h.term.write (text.line r)))
      (fun o ho => hfits o (List.mem_cons_of_mem r ho)) 1 Nat.one_pos

/-- Scrolled lines flow through the zone: as many rows as there are lines reach
the scrollback, and the region below the zone is blank. -/
theorem execAll_scrollHost {m : Mirror vt} {h : HostTerminal Line}
    (hheight : h.term.screen.length = m.hostRows) (hregion : 0 < m.regionRows)
    {records : List HistoryRecord} (hsome : records ≠ [])
    (htail : m.history.tail records.length = records) (hfits : ∀ r ∈ records, text.Fits r) :
    let zone := h.term.screen.take m.regionOffset
    let lines := records.map text.line
    (h.execAll text (m.scrollHost records.length)).autowrap = h.autowrap ∧
      (h.execAll text (m.scrollHost records.length)).term.scrollback =
        h.term.scrollback ++ (zone ++ lines).take lines.length ∧
      (h.execAll text (m.scrollHost records.length)).term.screen =
        (zone ++ lines).drop lines.length ++ List.replicate m.regionRows text.blank := by
  intro zone lines
  have hsplit : m.regionOffset + m.regionRows = m.hostRows := by
    have hle : m.regionRows ≤ m.hostRows := by
      rw [Mirror.regionRows]
      split
      · exact le_rfl
      · exact Nat.min_le_right _ _
    rw [Mirror.regionOffset]
    omega
  have hzone : zone.length = m.regionOffset := by
    rw [List.length_take, hheight]
    omega
  let opened : ScrollTerminal Line :=
    ⟨h.term.scrollback, zone ++ List.replicate m.regionRows text.blank, zone.length⟩
  have hopen : h.execAll text [.syncBegin, .hideCursor, .sgrReset, .cup m.regionOffset 0,
      .deleteLines m.regionRows] = h.withTerm opened := by
    have hrow : min m.regionOffset (h.term.screen.length - 1) = zone.length := by omega
    have hcount : min m.regionRows (h.term.screen.length - zone.length) = m.regionRows := by omega
    have hdrop : h.term.screen.drop (zone.length + m.regionRows) = [] :=
      List.drop_of_length_le (by omega)
    change h.withTerm ((h.term.moveTo m.regionOffset).deleteLines text.blank m.regionRows) = _
    simp only [ScrollTerminal.deleteLines, ScrollTerminal.moveTo, hrow, hcount, hdrop,
      List.append_nil, opened]
    rw [hzone]
  have hlines : h.execAll text (m.scrollHost records.length) =
      h.withTerm (ScrollTerminal.newlines text.blank (min lines.length m.regionRows)
        ((ScrollTerminal.writeLines text.blank opened lines).moveTo
          (zone.length + m.regionRows - 1))) := by
    rw [Mirror.scrollHost, htail, HostTerminal.execAll_append, HostTerminal.execAll_append, hopen,
      execAll_lines (h := h.withTerm opened) hfits, hzone, hsplit, List.length_map]
    rfl
  have hne : lines ≠ [] := fun hnil => hsome (List.map_eq_nil_iff.mp hnil)
  rw [hlines, ScrollTerminal.newlines_writeLines hregion hne]
  exact ⟨rfl, rfl, rfl⟩

/-- The mirror in a run with its host terminal, and every line that `process`
archived in the run. -/
structure HostRun (vt : Vt100) (Line : Type) where
  mirror : Mirror vt
  host : HostTerminal Line
  archived : List HistoryRecord

/-- The calls of a run between its first view start and its end. -/
inductive HostCall
  | startView (view : View)
  | process (bytes : Bytes)

namespace HostRun

/-- The host gets a view start's output. -/
def startView (text : HostText Line) (s : HostRun vt Line) (view : View) : HostRun vt Line :=
  { s with
    mirror := (s.mirror.startView view).2
    host := s.host.execAll text (s.mirror.startView view).1.hostOutput }

/-- The host gets a chunk's output. -/
def process (text : HostText Line) (s : HostRun vt Line) (bytes : Bytes) : HostRun vt Line where
  mirror := (s.mirror.process bytes).2
  host := s.host.execAll text (s.mirror.process bytes).1.host
  archived := s.archived ++ s.mirror.processRecords bytes

/-- One call of a run. Views have at least one row. -/
def step (text : HostText Line) (s : HostRun vt Line) : HostCall → Option (HostRun vt Line)
  | .startView view => if 0 < view.rows then some (s.startView text view) else none
  | .process bytes => some (s.process text bytes)

/-- What a chunk archives fits the host's width and the archive's limit. -/
def LinesFit (text : HostText Line) (s : HostRun vt Line) : HostCall → Prop
  | .startView _ => True
  | .process bytes => (s.mirror.processRecords bytes).length ≤ s.mirror.history.maxLines ∧
      ∀ r ∈ s.mirror.processRecords bytes, text.Fits r

instance [DecidableEq Line] (text : HostText Line) (s : HostRun vt Line) :
    DecidablePred (s.LinesFit text)
  | .startView _ => isTrue trivial
  | .process _ => inferInstanceAs (Decidable (_ ∧ ∀ r ∈ _, text.Fits r))

/-- A view starts anew only when the zone is not dirty, or when there is no zone. -/
def RestartsClean (s : HostRun vt Line) : HostCall → Prop
  | .startView _ => s.mirror.zoneDirty = false ∨ s.mirror.regionOffset = 0
  | .process _ => True

instance (s : HostRun vt Line) : DecidablePred s.RestartsClean
  | .startView _ => inferInstanceAs (Decidable (_ ∨ _))
  | .process _ => isTrue trivial

/-- During a view, every archived line is in the scrollback or, after it, in the
zone. A zone that is not dirty owes the scrollback nothing. -/
structure Owed (text : HostText Line) (s : HostRun vt Line) : Prop where
  hostRows : 0 < s.mirror.hostRows
  height : s.host.term.screen.length = s.mirror.hostRows
  autowrap : s.host.autowrap = true
  rows : 0 < s.mirror.parser.rows
  viewing : ∃ view, s.mirror.view = some view ∧ 0 < view.rows
  shadowed : ∃ shadow, s.mirror.shadow = some shadow
  inZone : s.archived.map text.line <+
    s.host.term.scrollback ++ s.host.term.screen.take s.mirror.regionOffset
  clean : s.mirror.zoneDirty = false → s.archived.map text.line <+ s.host.term.scrollback

/-- The live region has at least one row. -/
theorem Owed.region {s : HostRun vt Line} (h : s.Owed text) : 0 < s.mirror.regionRows := by
  obtain ⟨view, hview, hrows⟩ := h.viewing
  rw [Mirror.regionRows, hview]
  exact lt_min hrows h.hostRows

/-- A view start scrolls its crop away and repaints; nothing leaves the scrollback. -/
theorem startView_owed {s : HostRun vt Line} (hrows : 0 < s.mirror.hostRows)
    (hheight : s.host.term.screen.length = s.mirror.hostRows)
    (harchived : s.archived.map text.line <+ s.host.term.scrollback) {view : View}
    (hview : 0 < view.rows) : (s.startView text view).Owed text := by
  let m := (s.mirror.startView view).2
  have hhost : m.hostRows = s.mirror.hostRows :=
    (s.mirror.flushHistoryForRebuild_rebooked view.rows).sameView.hostRows
  have hops : (s.mirror.startView view).1.hostOutput =
      [.viewHostPrelude] ++ m.pushCropToHostScrollback ++ m.renderHostFull := rfl
  let opened := s.host.execAll text [.viewHostPrelude]
  let cropped := opened.execAll text m.pushCropToHostScrollback
  have hend : (s.startView text view).host = cropped.execAll text m.renderHostFull := by
    change s.host.execAll text (s.mirror.startView view).1.hostOutput = _
    rw [hops, HostTerminal.execAll_append, HostTerminal.execAll_append]
  have hscreen : 0 < opened.term.screen.length := by
    change 0 < s.host.term.screen.length
    omega
  obtain ⟨hlength, hfront⟩ := HostTerminal.execAll_own text hscreen m.pushCrop_own
  have hzone : m.regionOffset < cropped.term.screen.length := by
    have hregion : 0 < m.regionRows := lt_min hview (hhost ▸ hrows)
    have hopened : opened.term.screen.length = s.mirror.hostRows := hheight
    rw [Mirror.regionOffset, hlength, hopened]
    omega
  have hrendered := renderRows_keepsZone vt text m.parser.screen
    (blankScreen m.parser.screen.rows m.parser.screen.cols) m.hostRows m.hostCols true
    m.regionOffset m.cropTop cropped hzone
  have hscrollback : s.archived.map text.line <+ (s.startView text view).host.term.scrollback := by
    rw [hend]
    change _ <+ (cropped.execAll text (renderRows vt _ _ _ _ _ _ _)).term.scrollback
    rw [hrendered.scrollback]
    exact harchived.trans hfront.sublist
  refine ⟨hhost ▸ hrows, ?_, ?_, ?_, ⟨view, rfl, hview⟩, ⟨_, rfl⟩,
    hscrollback.trans (List.sublist_append_left _ _), fun _ => hscrollback⟩
  · rw [hend]
    refine hrendered.length.trans (hlength.trans ?_)
    exact hheight.trans hhost.symm
  · rw [hend]
    exact hrendered.autowrap.trans (m.pushCrop_autowrap rfl)
  · change 0 < ((Parser.new vt view.rows view.cols stageScrollback).process _).rows
    rw [Parser.process_rows]
    exact hview

/-- What a chunk's scrolled lines do to the host: they join the zone from below,
and as many rows leave it for the scrollback. -/
theorem execAll_hostScroll (text : HostText Line) {m : Mirror vt} {h : HostTerminal Line}
    (hheight : h.term.screen.length = m.hostRows) (hregion : 0 < m.regionRows)
    (hwrap : h.autowrap = true) {records : List HistoryRecord}
    (htail : m.history.tail records.length = records) (hfits : ∀ r ∈ records, text.Fits r) :
    let h' := h.execAll text (m.hostScroll records.length)
    h'.autowrap = true ∧ h'.term.screen.length = m.hostRows ∧
      h'.term.scrollback ++ h'.term.screen.take m.regionOffset =
        h.term.scrollback ++ h.term.screen.take m.regionOffset ++ records.map text.line ∧
      (records = [] → h'.term.scrollback = h.term.scrollback) := by
  intro h'
  by_cases hnone : records = []
  · have hstay : h' = h := by
      simp only [h', hnone, List.length_nil, Mirror.hostScroll, Nat.lt_irrefl, if_false]
      rfl
    rw [hstay, hnone, List.map_nil, List.append_nil]
    exact ⟨hwrap, hheight, rfl, fun _ => rfl⟩
  · have hscroll : h' = h.execAll text (m.scrollHost records.length) := by
      simp only [h', Mirror.hostScroll, if_pos (List.length_pos_iff.mpr hnone)]
    obtain ⟨hwrap', hscrollback, hscreen⟩ :=
      execAll_scrollHost hheight hregion hnone htail hfits
    have hle : m.regionOffset ≤ m.hostRows := Nat.sub_le _ _
    have hzone : ((h.term.screen.take m.regionOffset ++ records.map text.line).drop
        (records.map text.line).length).length = m.regionOffset := by
      rw [List.length_drop, List.length_append, List.length_take, hheight]
      omega
    rw [hscroll, hscrollback, hscreen, List.take_append_of_le_length hzone.ge,
      List.take_of_length_le hzone.le, List.append_assoc, List.take_append_drop,
      ← List.append_assoc]
    refine ⟨hwrap'.trans hwrap, ?_, rfl, fun h => absurd h hnone⟩
    rw [List.length_append, hzone, List.length_replicate]
    have hrows : m.regionRows ≤ m.hostRows := by
      rw [Mirror.regionRows]
      split
      · exact le_rfl
      · exact Nat.min_le_right _ _
    rw [Mirror.regionOffset]
    omega

/-- What a chunk does while a view is active: its lines scroll through the zone, and
what follows is painted below the zone. `done` is the mirror when its output is made. -/
structure Chunk (text : HostText Line) (s : HostRun vt Line) (bytes : Bytes)
    (done : Mirror vt) : Prop where
  hostRows : done.hostRows = s.mirror.hostRows
  regionRows : done.regionRows = s.mirror.regionRows
  regionOffset : done.regionOffset = s.mirror.regionOffset
  history : done.history = s.mirror.history.pushAll (s.mirror.processRecords bytes)
  host : ∃ rest, HostTerminal.KeepsZone text s.mirror.regionOffset rest ∧
    (s.process text bytes).host =
      (s.host.execAll text (done.hostScroll (s.mirror.processRecords bytes).length)).execAll text
        rest
  zoneDirty : (s.process text bytes).mirror.zoneDirty =
    (s.mirror.zoneDirty || decide (0 < (s.mirror.processRecords bytes).length))
  sameHost : (s.process text bytes).mirror.hostRows = s.mirror.hostRows
  sameView : (s.process text bytes).mirror.view = s.mirror.view
  sameRows : (s.process text bytes).mirror.parser.rows = s.mirror.parser.rows
  shadowed : ∃ shadow, (s.process text bytes).mirror.shadow = some shadow

/-- A chunk leaves the region where it is. -/
theorem Chunk.sameRegion {s : HostRun vt Line} {bytes : Bytes} {done : Mirror vt}
    (h : s.Chunk text bytes done) :
    (s.process text bytes).mirror.regionOffset = s.mirror.regionOffset := by
  rw [Mirror.regionOffset, Mirror.regionOffset, Mirror.regionRows, Mirror.regionRows, h.sameHost,
    h.sameView]

theorem chunk_of_view (text : HostText Line) {s : HostRun vt Line} {view : View}
    {shadow : Parser vt} (hview : s.mirror.view = some view)
    (hshadow : s.mirror.shadow = some shadow) (hrows : 0 < s.mirror.parser.rows) (bytes : Bytes) :
    s.Chunk text bytes (s.mirror.taken bytes) := by
  let records := s.mirror.processRecords bytes
  let done := s.mirror.taken bytes
  have hspec := Mirror.process_spec hrows bytes
  obtain ⟨title, hdone⟩ := s.mirror.taken_eq bytes
  have hsame := s.mirror.foldl_processSlice_sameView (chunks processSliceSize bytes)
  have hdoneView : done.hostRows = s.mirror.hostRows ∧ done.view = s.mirror.view ∧
      done.zoneDirty = s.mirror.zoneDirty := by
    have hfields : done = _ := hdone
    rw [hfields]
    exact ⟨hsame.hostRows, hsame.view, hsame.zoneDirty⟩
  have hregionRows : done.regionRows = s.mirror.regionRows := by
    rw [Mirror.regionRows, Mirror.regionRows, hdoneView.1, hdoneView.2.1]
  have hregionOffset : done.regionOffset = s.mirror.regionOffset := by
    rw [Mirror.regionOffset, Mirror.regionOffset, hdoneView.1, hregionRows]
  have hpushed := Mirror.foldl_processSlice_history hrows (chunks processSliceSize bytes)
  have hscrolled : (s.mirror.processSlices bytes).history.nextIndex -
      s.mirror.history.nextIndex = records.length := by
    change (List.foldl Mirror.processSlice _ _).history.next - _ = _
    rw [hpushed, History.pushAll_next, History.nextIndex, Nat.add_sub_cancel_left]
    rfl
  obtain ⟨bells, newTitle, hprocess⟩ := Mirror.process_of_view hview hshadow bytes
  rw [hscrolled] at hprocess
  have hrest : HostTerminal.KeepsZone text s.mirror.regionOffset
      (done.hostRepaint records.length shadow ++ Mirror.hostTitle newTitle) := by
    refine .append ?_ (HostTerminal.keepsZone_of_silent _ ?_)
    · rw [Mirror.hostRepaint, ← hregionOffset]
      split
      · exact renderRows_keepsZone _ _ _ _ _ _ _ _ _
      · exact renderRows_keepsZone _ _ _ _ _ _ _ _ _
    · cases newTitle <;> simp [Mirror.hostTitle, HostTerminal.Silent]
  refine ⟨hdoneView.1, hregionRows, hregionOffset, ?_, ⟨_, hrest, ?_⟩, ?_, hspec.1, hspec.2.2.1,
    ?_, ?_⟩
  · exact (congrArg Mirror.history hdone).trans hpushed
  · change s.host.execAll text (s.mirror.process bytes).1.host = _
    rw [hprocess, List.append_assoc, HostTerminal.execAll_append]
  · change (s.mirror.process bytes).2.zoneDirty = _
    rw [← hdoneView.2.2, hprocess]
  · exact hspec.2.2.2.1.rows.trans (Parser.process_rows _ _)
  · refine ⟨shadow.process bytes, ?_⟩
    change (s.mirror.process bytes).2.shadow = _
    rw [hprocess]

/-- A chunk's lines join the zone from below and push as many rows into the scrollback. -/
theorem Owed.process {s : HostRun vt Line} (h : s.Owed text) {bytes : Bytes}
    (hfit : s.LinesFit text (.process bytes)) : (s.process text bytes).Owed text := by
  obtain ⟨view, hview, hviewRows⟩ := h.viewing
  obtain ⟨shadow, hshadow⟩ := h.shadowed
  let records := s.mirror.processRecords bytes
  let done := s.mirror.taken bytes
  have hchunk := chunk_of_view text hview hshadow h.rows bytes
  have htail : done.history.tail records.length = records := by
    rw [hchunk.history]
    exact History.tail_pushAll hfit.1
  obtain ⟨hwrap, hheight, hflow, hquiet⟩ := execAll_hostScroll text (m := done)
    (h.height.trans hchunk.hostRows.symm) (hchunk.regionRows ▸ h.region) h.autowrap htail hfit.2
  let scrolled := s.host.execAll text (done.hostScroll records.length)
  obtain ⟨rest, hrest, hhost⟩ := hchunk.host
  have hkept := hrest scrolled (by
    rw [hheight, hchunk.hostRows, Mirror.regionOffset]
    have hregion := h.region
    have hhostRows := h.hostRows
    omega)
  rw [← hhost] at hkept
  have hzone : (s.process text bytes).host.term.scrollback ++
      (s.process text bytes).host.term.screen.take s.mirror.regionOffset =
        s.host.term.scrollback ++ s.host.term.screen.take s.mirror.regionOffset ++
          records.map text.line := by
    rw [hkept.scrollback, hkept.above, ← hchunk.regionOffset]
    exact hflow
  refine ⟨hchunk.sameHost ▸ h.hostRows, ?_, hkept.autowrap.trans hwrap, ?_, ⟨view, ?_, hviewRows⟩,
    hchunk.shadowed, ?_, ?_⟩
  · rw [hkept.length, hchunk.sameHost, hheight, hchunk.hostRows]
  · rw [hchunk.sameRows]
    exact h.rows
  · exact hchunk.sameView.trans hview
  · rw [hchunk.sameRegion, hzone]
    change (s.archived ++ records).map text.line <+ _
    rw [List.map_append]
    exact h.inZone.append (List.Sublist.refl _)
  · intro hclean
    rw [hchunk.zoneDirty, Bool.or_eq_false_iff, decide_eq_false_iff_not] at hclean
    have hnone : records = [] := List.length_eq_zero_iff.mp (Nat.eq_zero_of_not_pos hclean.2)
    change (s.archived ++ records).map text.line <+ _
    rw [hnone, List.append_nil, hkept.scrollback, hquiet hnone]
    exact h.clean hclean.1

/-- A zone that owes the scrollback nothing may be painted over. -/
theorem Owed.of_restartsClean {s : HostRun vt Line} (h : s.Owed text)
    (hclean : s.mirror.zoneDirty = false ∨ s.mirror.regionOffset = 0) :
    s.archived.map text.line <+ s.host.term.scrollback := by
  rcases hclean with hclean | hnone
  · exact h.clean hclean
  · have hzone := h.inZone
    rwa [hnone, List.take_zero, List.append_nil] at hzone

/-- One call keeps every archived line in the scrollback or the zone. -/
theorem Owed.step {s s' : HostRun vt Line} (h : s.Owed text) {c : HostCall}
    (hfit : s.LinesFit text c) (hclean : s.RestartsClean c)
    (hstep : HostRun.step text s c = some s') : s'.Owed text := by
  cases c with
  | startView view =>
    rw [HostRun.step, Option.ite_none_right_eq_some] at hstep
    rw [← Option.some.inj hstep.2]
    exact startView_owed h.hostRows h.height (h.of_restartsClean hclean) hstep.1
  | process bytes =>
    rw [← Option.some.inj hstep]
    exact h.process hfit

/-- Once the zone is pushed, every archived line is in the scrollback. -/
theorem Owed.pushZone {s : HostRun vt Line} (h : s.Owed text) :
    s.archived.map text.line <+
      (s.host.execAll text s.mirror.pushZoneToHostScrollback).term.scrollback := by
  rw [Mirror.pushZoneToHostScrollback]
  split
  · rename_i hskip
    rw [Bool.or_eq_true, Bool.not_eq_true', decide_eq_true_eq] at hskip
    rcases hskip with hclean | hnone
    · exact h.clean hclean
    · exact h.of_restartsClean (.inr hnone)
  · have hpos := h.hostRows
    let bottom := s.host.term.moveTo (s.mirror.hostRows - 1)
    have hrow : bottom.row + 1 = bottom.screen.length := by
      simp only [bottom, ScrollTerminal.moveTo, h.height]
      omega
    have hpush : (s.host.execAll text [.sgrReset, .cup (s.mirror.hostRows - 1) 0,
        .crlf s.mirror.regionOffset]).term =
          ScrollTerminal.newlines text.blank s.mirror.regionOffset bottom := rfl
    have hle : s.mirror.regionOffset ≤ s.host.term.screen.length := by
      rw [h.height]
      exact Nat.sub_le _ _
    rw [hpush, ScrollTerminal.newlines_of_bottom hrow]
    change _ <+ s.host.term.scrollback ++ (s.host.term.screen ++ _).take s.mirror.regionOffset
    rw [List.take_append_of_le_length hle]
    exact h.inZone

/-- What follows the zone push takes nothing out of the scrollback. -/
theorem Owed.pushZone_append {s : HostRun vt Line} (h : s.Owed text) {ops : List TermOp}
    (hops : ∀ op ∈ ops, HostTerminal.Own op) :
    s.archived.map text.line <+
      (s.host.execAll text (s.mirror.pushZoneToHostScrollback ++ ops)).term.scrollback := by
  have hown : ∀ op ∈ s.mirror.pushZoneToHostScrollback, HostTerminal.Own op := by
    intro op hop
    rw [Mirror.pushZoneToHostScrollback] at hop
    split at hop
    · exact absurd hop List.not_mem_nil
    · simp only [List.mem_cons, List.not_mem_nil, or_false] at hop
      rcases hop with rfl | rfl | rfl <;> exact trivial
  have hscreen : 0 < s.host.term.screen.length := h.height ▸ h.hostRows
  have hlength := (HostTerminal.execAll_own text hscreen hown).1
  rw [HostTerminal.execAll_append]
  exact h.pushZone.trans
    (HostTerminal.execAll_own text (hlength ▸ hscreen) hops).2.sublist

/-- In a run in which no view restarts over a dirty zone, every line that
`process` archived is in the host's scrollback, in order, once the view ends or
the mirror cleans up. -/
theorem archived_lines_reach_scrollback {m : Mirror vt} {h : HostTerminal Line}
    (hrows : 0 < m.hostRows) (hheight : h.term.screen.length = m.hostRows) {view : View}
    (hview : 0 < view.rows) {calls : List HostCall} {s : HostRun vt Line}
    (hfit : Machine.Along (step text) (LinesFit text) (startView text ⟨m, h, []⟩ view) calls)
    (hclean : Machine.Along (step text) RestartsClean (startView text ⟨m, h, []⟩ view) calls)
    (hrun : Machine.run (step text) (startView text ⟨m, h, []⟩ view) calls = some s) :
    s.archived.map text.line <+
        (s.host.execAll text s.mirror.endView.1.hostOutput).term.scrollback ∧
      s.archived.map text.line <+ (s.host.execAll text s.mirror.cleanup).term.scrollback := by
  have hstart : (startView text ⟨m, h, []⟩ view).Owed text :=
    startView_owed (s := ⟨m, h, []⟩) hrows hheight (List.nil_sublist _) hview
  have hend : s.Owed text :=
    Machine.run_invariant_along (I := fun s => s.Owed text)
      (fun s c s' hs hc hstep => hs.step hc.1 hc.2 hstep) hstart (hfit.and hclean) hrun
  constructor
  · have hendView : s.mirror.endView.1.hostOutput =
        s.mirror.pushZoneToHostScrollback ++ [.clear, .resetInputModes] := by
      rw [← Mirror.pushZone_sameView s.mirror.harvest_rebooked.sameView]
      rfl
    rw [hendView]
    exact hend.pushZone_append (by simp [HostTerminal.Own])
  · obtain ⟨view', hview', -⟩ := hend.viewing
    have hcleanup : s.mirror.cleanup = s.mirror.pushZoneToHostScrollback ++
        [.sgrReset, .showCursor, .resetInputModes, .cup (s.mirror.hostRows - 1) 0, .crlf 1] := by
      rw [Mirror.cleanup, hview']
    rw [hcleanup]
    exact hend.pushZone_append (by simp [HostTerminal.Own])

/-- A host for plain text of this width: printed lines are cut into rows, and a
rendered row overwrites what it says. -/
def plainText (cols : ℕ) : HostText Bytes where
  blank := []
  rows bytes := if bytes = [] then [[]] else chunks cols bytes
  cut bytes := bytes.take cols
  paint line bytes :=
    ((((Parser.new asciiVt100 1 cols 0).process (line ++ ascii "\r" ++ bytes)).core.grid.head?).getD
      (Row.blank cols)).record cols |>.bytes
  passThrough _ t := t

/-- A blank host of three rows that starts a view of one row. -/
abbrev smallRun : HostRun asciiVt100 Bytes :=
  startView (plainText 4) ⟨Mirror.new asciiVt100 3 4, ⟨⟨[], [[], [], []], 0⟩, true⟩, []⟩
    ⟨1, 4, false⟩

/-- The view is sent again while two lines are still in the zone: the view's end
brings neither of them to the scrollback, and cleaning up only one. -/
theorem lines_lost_by_resent_view :
    let calls := [.process (ascii "a\r\nb\r\nc"), .startView ⟨1, 4, false⟩]
    ∃ s, Machine.run (step (plainText 4)) smallRun calls = some s ∧
      Machine.Along (step (plainText 4)) (LinesFit (plainText 4)) smallRun calls ∧
      s.archived.map (plainText 4).line = [ascii "a", ascii "b"] ∧
      ascii "a" ∉ (s.host.execAll (plainText 4) s.mirror.endView.1.hostOutput).term.scrollback ∧
      ascii "b" ∉ (s.host.execAll (plainText 4) s.mirror.cleanup).term.scrollback :=
  ⟨_, rfl, by decide, by decide, by decide, by decide⟩

/-- Without the second view start both lines arrive. -/
theorem lines_kept_without_restart :
    let calls := [.process (ascii "a\r\nb\r\nc")]
    ∃ s, Machine.run (step (plainText 4)) smallRun calls = some s ∧
      s.archived.map (plainText 4).line = [ascii "a", ascii "b"] ∧
      s.archived.map (plainText 4).line <+
        (s.host.execAll (plainText 4) s.mirror.endView.1.hostOutput).term.scrollback := by
  intro calls
  have hrun : Machine.run (step (plainText 4)) smallRun calls = some _ := rfl
  have harrived := archived_lines_reach_scrollback (by decide) rfl (by decide) (by decide)
    (by decide) hrun
  exact ⟨_, hrun, by decide, harrived.1⟩

end HostRun

end G2mirror
