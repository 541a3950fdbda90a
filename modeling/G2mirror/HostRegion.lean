import G2mirror.DiffStream
import G2mirror.Library.Unsigned

/-!
# The host's live region

While a view is active its rows are at the bottom of the host screen. `mirror.rs` computes their
places in `u16`. Here every such operation has a value only if it stays in the range, and every
conversion to `u16` keeps the low bits.
-/

namespace G2mirror

open Unsigned

open scoped List

variable {vt : Vt100}

/-! ### Sizes and places in 16 bits -/

/-- `cup`, which counts from one. -/
def cup? (row col : ℕ) : Option TermOp := do
  let _ ← add? 16 row 1
  let _ ← add? 16 col 1
  return .cup row col

/-- `place_cursor` -/
def placeCursor? (screen : Screen) (srcOff rows cols targetOff : ℕ) : Option (List TermOp) :=
  let (row, col) := screen.cursor
  if !screen.hideCursor && srcOff ≤ row then do
    let inside ← sub? row srcOff
    if inside < rows && col < cols then
      let sum ← add? 16 targetOff row
      let target ← sub? sum srcOff
      let address ← cup? target col
      return [address, .showCursor]
    else return []
  else return []

/-- One turn of the loop of `render_rows`, with the row's number on the screen. -/
def renderRow? (full : Bool) (rowOffset srcOff : ℕ) (row : Bytes × ℕ) : Option (List TermOp) := do
  let sum ← add? 16 rowOffset (convert 16 row.2)
  let targetRow ← sub? sum srcOff
  if full then
    let address ← cup? targetRow 0
    return [.sgrReset, address, .clearToEol, .rowDiff row.1]
  else if row.1 ≠ [] then
    let address ← cup? targetRow 0
    return [.sgrReset, address, .rowDiff row.1]
  else return []

/-- `render_rows` -/
def renderRows? (vt : Vt100) (screen prev : Screen) (hostRows hostCols : ℕ) (full : Bool)
    (rowOffset srcOff : ℕ) : Option (List TermOp) := do
  let rows := min hostRows (screen.rows - srcOff)
  let cols := min hostCols screen.cols
  let body ← (((vt.rowsDiff screen prev 0 cols).zipIdx.drop srcOff).take rows).mapM
    (renderRow? full rowOffset srcOff)
  let modes :=
    if full then vt.inputModeFormatted screen.inputModes
    else vt.inputModeDiff screen.inputModes prev.inputModes
  let cursor ← placeCursor? screen srcOff rows cols rowOffset
  return [.syncBegin, .hideCursor] ++ body.flatten ++ [.inputMode modes] ++ cursor ++ [.syncEnd]

/-- One turn of the loop of `render_snapshot`. -/
def snapshotRow? (rowOff : ℕ) (row : Bytes × ℕ) : Option (List TermOp) := do
  if row.1 ≠ [] then
    let target ← sub? (convert 16 row.2) rowOff
    let address ← cup? target 0
    return [.sgrReset, address, .rowDiff row.1]
  else return []

/-- `render_snapshot` -/
def renderSnapshot? (vt : Vt100) (src : Screen) (rows cols : ℕ) : Option (List TermOp) := do
  let rowOff := src.rows - rows
  let width := min cols src.cols
  let diffs := (vt.rowsDiff src (blankScreen src.rows src.cols) 0 width).zipIdx
  let body ← ((diffs.drop rowOff).take rows).mapM (snapshotRow? rowOff)
  let cursor ← placeCursor? src rowOff rows cols 0
  return [.clear, .syncBegin, .hideCursor] ++ body.flatten ++
    [.inputMode (vt.inputModeFormatted src.inputModes)] ++ cursor ++ [.syncEnd]

namespace Mirror

/-- `Mirror::region_offset` -/
def regionOffset? (m : Mirror vt) : Option ℕ := sub? m.hostRows m.regionRows

/-- One turn of the inner loop of `push_crop_to_host_scrollback`. -/
def cropRow? (m : Mirror vt) (pushed i : ℕ) : Option (List TermOp) := do
  let address ← cup? (convert 16 i) 0
  let record := serializeRow m.parser.screen (convert 16 (pushed + i)) m.parser.cols
  return [.sgrReset, address, .clearToEol, .lineText record.bytes]

/-- The loop of `push_crop_to_host_scrollback`, with the rows that are left as fuel. -/
def cropBatches? (m : Mirror vt) (crop : ℕ) : ℕ → ℕ → Option (List TermOp)
  | 0, _ => some []
  | fuel + 1, pushed =>
    if pushed < crop then do
      let batch := min (crop - pushed) m.hostRows
      let rows ← (List.range batch).mapM (m.cropRow? pushed)
      let bottom ← cup? (m.hostRows - 1) 0
      let rest ← cropBatches? m crop fuel (pushed + batch)
      return rows.flatten ++ [.sgrReset, bottom, .crlf batch] ++ rest
    else some []

/-- `Mirror::push_crop_to_host_scrollback` -/
def pushCropToHostScrollback? (m : Mirror vt) : Option (List TermOp) :=
  if m.cropTop = 0 then some []
  else do
    let batches ← m.cropBatches? m.cropTop m.cropTop 0
    return [.syncBegin, .hideCursor, .autowrapOff] ++ batches ++ [.autowrapOn, .syncEnd]

/-- `Mirror::render_host_full` -/
def renderHostFull? (m : Mirror vt) : Option (List TermOp) := do
  let screen := m.parser.screen
  let offset ← m.regionOffset?
  renderRows? vt screen (blankScreen screen.rows screen.cols) m.hostRows m.hostCols true offset
    m.cropTop

/-- `Mirror::refresh_scrollback` -/
def refreshScrollback? (m : Mirror vt) : Option (List TermOp) :=
  if m.view.isNone then some []
  else do
    let pushed ← m.pushCropToHostScrollback?
    let region ← m.renderHostFull?
    return pushed ++ region

/-- `Mirror::push_zone_to_host_scrollback` -/
def pushZoneToHostScrollback? (m : Mirror vt) : Option (List TermOp) := do
  let zoneRows ← m.regionOffset?
  if !m.zoneDirty || zoneRows = 0 then return []
  else
    let bottom ← cup? (m.hostRows - 1) 0
    return [.sgrReset, bottom, .crlf zoneRows]

/-- The scroll branch of `process`. -/
def scrollHost? (m : Mirror vt) (offset scrolled : ℕ) : Option (List TermOp) := do
  let lines := (m.history.tail scrolled).zipIdx.flatMap scrolledLine
  let top ← cup? offset 0
  let bottom ← cup? (m.hostRows - 1) 0
  return [.syncBegin, .hideCursor, .sgrReset, top, .deleteLines m.regionRows] ++ lines ++
    [bottom, .crlf (min scrolled m.regionRows), .syncEnd]

/-- What a chunk scrolls through the zone while a view is active. -/
def hostScroll? (m : Mirror vt) (offset scrolled : ℕ) : Option (List TermOp) :=
  if 0 < scrolled then m.scrollHost? offset scrolled else some []

/-- What a chunk repaints of the region. -/
def hostRepaint? (m : Mirror vt) (offset scrolled : ℕ) (shadow : Parser vt) :
    Option (List TermOp) :=
  let screen := m.parser.screen
  if 0 < scrolled then
    renderRows? vt screen (blankScreen screen.rows screen.cols) m.hostRows m.hostCols true offset
      m.cropTop
  else renderRows? vt screen shadow.screen m.hostRows m.hostCols false offset m.cropTop

/-- `Mirror::process` -/
def process? (m : Mirror vt) (bytes : Bytes) : Option (Output × Mirror vt) :=
  let historyBefore := m.history.nextIndex
  let m := m.processSlices bytes
  let scrolled := m.history.nextIndex - historyBefore
  let (bells, m) := m.takeBells
  let (title, m) := m.takeTitleChange
  match m.view, m.shadow with
  | some _, some shadow => do
    let offset ← m.regionOffset?
    let scroll ← m.hostScroll? offset scrolled
    let rows ← m.hostRepaint? offset scrolled shadow
    return (⟨scroll ++ rows ++ hostTitle title,
        some (vt.stateDiff m.parser.screen shadow.screen), bells, title⟩,
      { m with
        zoneDirty := m.zoneDirty || 0 < scrolled
        shadow := some (shadow.process bytes) })
  | _, _ => some (⟨[.passThrough bytes], none, bells, title⟩, m)

/-- `Mirror::start_view` -/
def startView? (m : Mirror vt) (view : View) : Option (Transition × Mirror vt) := do
  let m := m.flushHistoryForRebuild view.rows
  let snapshot ← renderSnapshot? vt m.parser.screen view.rows view.cols
  let m := { m with
    parser := (Parser.new vt view.rows view.cols stageScrollback).process (render snapshot)
    shadow := some ((Parser.new vt view.rows view.cols 0).process (render snapshot))
    view := some view
    zoneDirty := false }
  let pushed ← m.pushCropToHostScrollback?
  let region ← m.renderHostFull?
  return (⟨some (view.rows, view.cols), [.viewHostPrelude] ++ pushed ++ region,
    some (render snapshot)⟩, m)

/-- `Mirror::host_resized` -/
def hostResized? (m : Mirror vt) (rows cols : ℕ) : Option (Transition × Mirror vt) :=
  let m := { m with hostRows := rows, hostCols := cols }
  match m.view with
  | none =>
    let m := m.harvest
    some (⟨some (rows, cols), [], none⟩, { m with parser := m.parser.setSize rows cols })
  | some _ => do
    let zone ← m.pushZoneToHostScrollback?
    let m := { m with zoneDirty := false }
    let pushed ← m.pushCropToHostScrollback?
    let region ← m.renderHostFull?
    return (⟨none, zone ++ pushed ++ [.clear] ++ region, none⟩, m)

end Mirror

/-! ### In range -/

theorem cup?_eq {row col : ℕ} (hrow : row + 1 < 2 ^ 16) (hcol : col + 1 < 2 ^ 16) :
    cup? row col = some (.cup row col) := by
  rw [cup?, add?_eq hrow, add?_eq hcol]
  rfl

/-- The cursor is placed in a row of the window. -/
theorem placeCursor?_eq {screen : Screen} {srcOff rows cols targetOff : ℕ}
    (hrows : ∀ i < rows, targetOff + (srcOff + i) + 1 < 2 ^ 16) (hcols : cols < 2 ^ 16) :
    placeCursor? screen srcOff rows cols targetOff =
      some (placeCursor screen srcOff rows cols targetOff) := by
  rw [placeCursor?, placeCursor]
  generalize screen.cursor = cursor
  obtain ⟨row, col⟩ := cursor
  dsimp only
  rw [Bool.and_assoc (_ && _)]
  cases hshown : !screen.hideCursor && decide (srcOff ≤ row) with
  | false => rfl
  | true =>
    have hle : srcOff ≤ row := by
      rw [Bool.and_eq_true, decide_eq_true_eq] at hshown
      exact hshown.2
    rw [if_pos rfl, sub?_eq hle, Option.bind_eq_bind, Option.bind_some]
    cases hinside : decide (row - srcOff < rows) && decide (col < cols) with
    | false => rfl
    | true =>
      rw [Bool.and_eq_true, decide_eq_true_eq, decide_eq_true_eq] at hinside
      have hrow := hrows (row - srcOff) hinside.1
      have hsum : targetOff + row < 2 ^ 16 := by omega
      have htarget : srcOff ≤ targetOff + row := by omega
      have haddress : cup? (targetOff + row - srcOff) col =
          some (.cup (targetOff + row - srcOff) col) := cup?_eq (by omega) (by omega)
      rw [if_pos rfl, add?_eq hsum, Option.bind_some, sub?_eq htarget, Option.bind_some, haddress]
      rfl

/-- One turn of the loop of `render_rows` on natural numbers. -/
def renderRow (full : Bool) (rowOffset srcOff : ℕ) (row : Bytes × ℕ) : List TermOp :=
  let targetRow := rowOffset + row.2 - srcOff
  if full then [.sgrReset, .cup targetRow 0, .clearToEol, .rowDiff row.1]
  else if row.1 ≠ [] then [.sgrReset, .cup targetRow 0, .rowDiff row.1]
  else []

theorem renderRow?_eq {full : Bool} {rowOffset srcOff : ℕ} {row : Bytes × ℕ}
    (hlow : srcOff ≤ row.2) (hhigh : rowOffset + row.2 + 1 < 2 ^ 16) :
    renderRow? full rowOffset srcOff row = some (renderRow full rowOffset srcOff row) := by
  have hsum : rowOffset + row.2 < 2 ^ 16 := by omega
  have htarget : srcOff ≤ rowOffset + row.2 := by omega
  have hconvert : convert 16 row.2 = row.2 := convert_eq (by omega)
  have haddress : cup? (rowOffset + row.2 - srcOff) 0 =
      some (.cup (rowOffset + row.2 - srcOff) 0) := cup?_eq (by omega) (by omega)
  simp only [renderRow?, renderRow, hconvert, add?_eq hsum, sub?_eq htarget, haddress,
    Option.bind_eq_bind, Option.bind_some]
  split_ifs <;> rfl

/-- No operation of `render_rows` leaves the range if the rows of the window have places. -/
theorem renderRows?_eq {screen prev : Screen} {hostRows hostCols : ℕ} {full : Bool}
    {rowOffset srcOff : ℕ}
    (hrows : ∀ i < min hostRows (screen.rows - srcOff), rowOffset + (srcOff + i) + 1 < 2 ^ 16)
    (hcols : min hostCols screen.cols < 2 ^ 16) :
    renderRows? vt screen prev hostRows hostCols full rowOffset srcOff =
      some (renderRows vt screen prev hostRows hostCols full rowOffset srcOff) := by
  have hbody : (((vt.rowsDiff screen prev 0 (min hostCols screen.cols)).zipIdx.drop srcOff).take
      (min hostRows (screen.rows - srcOff))).mapM (renderRow? full rowOffset srcOff) =
        some ((((vt.rowsDiff screen prev 0 (min hostCols screen.cols)).zipIdx.drop srcOff).take
          (min hostRows (screen.rows - srcOff))).map (renderRow full rowOffset srcOff)) := by
    apply mapM_eq_some
    intro row hrow
    obtain ⟨hlow, hhigh⟩ := index_of_window hrow
    have hplace := hrows (row.2 - srcOff) (by omega)
    exact renderRow?_eq hlow (by omega)
  simp only [renderRows?, hbody, placeCursor?_eq hrows hcols, Option.bind_eq_bind,
    Option.bind_some]
  rfl

theorem snapshotRow?_eq {rowOff : ℕ} {row : Bytes × ℕ} (hlow : rowOff ≤ row.2)
    (hhigh : row.2 < 2 ^ 16) (hplace : row.2 - rowOff + 1 < 2 ^ 16) :
    snapshotRow? rowOff row = some (snapshotRow rowOff row) := by
  have hconvert : convert 16 row.2 = row.2 := convert_eq hhigh
  rw [snapshotRow?, snapshotRow, hconvert, sub?_eq hlow]
  simp only [cup?_eq hplace (by omega : 0 + 1 < 2 ^ 16), Option.bind_eq_bind, Option.bind_some]
  split_ifs <;> rfl

/-- No operation of `render_snapshot` leaves the range. -/
theorem renderSnapshot?_eq {src : Screen} {rows cols : ℕ} (hsrc : src.rows < 2 ^ 16)
    (hrows : rows < 2 ^ 16) (hcols : cols < 2 ^ 16) :
    renderSnapshot? vt src rows cols = some (renderSnapshot vt src rows cols) := by
  have hbody : (((vt.rowsDiff src (blankScreen src.rows src.cols) 0
      (min cols src.cols)).zipIdx.drop (src.rows - rows)).take rows).mapM
        (snapshotRow? (src.rows - rows)) =
      some ((((vt.rowsDiff src (blankScreen src.rows src.cols) 0
        (min cols src.cols)).zipIdx.drop (src.rows - rows)).take rows).map
          (snapshotRow (src.rows - rows))) := by
    apply mapM_eq_some
    intro row hrow
    obtain ⟨hlow, hhigh⟩ := index_of_window hrow
    exact snapshotRow?_eq hlow (by omega) (by omega)
  have hcursor : placeCursor? src (src.rows - rows) rows cols 0 =
      some (placeCursor src (src.rows - rows) rows cols 0) := by
    apply placeCursor?_eq
    · intro i hi
      omega
    · exact hcols
  simp only [renderSnapshot?, hbody, hcursor, Option.bind_eq_bind, Option.bind_some]
  rfl

/-- A number of rows or columns: `1..=65535`. -/
def Dimension (n : ℕ) : Prop := 0 < n ∧ n < 2 ^ 16

instance (n : ℕ) : Decidable (Dimension n) := inferInstanceAs (Decidable (_ ∧ _))

/-- The sizes that a call passes on are in range. -/
def Call.InRange : Call → Prop
  | .startView view => Dimension view.rows ∧ Dimension view.cols
  | .hostResized rows cols => Dimension rows ∧ Dimension cols
  | _ => True

namespace Mirror

/-- What all calls with sizes in range preserve. The model has the size of the view. -/
structure Fits (m : Mirror vt) : Prop where
  hostRows : Dimension m.hostRows
  hostCols : Dimension m.hostCols
  rows : Dimension m.parser.rows
  cols : Dimension m.parser.cols
  view : ∀ v, m.view = some v → m.parser.rows = v.rows ∧ m.parser.cols = v.cols
  shadow : ∀ v, m.view = some v → m.shadow.isSome

variable {m : Mirror vt}

theorem regionRows_le (m : Mirror vt) : m.regionRows ≤ m.hostRows := by
  rw [regionRows]
  split
  · exact le_rfl
  · exact Nat.min_le_right _ _

theorem regionOffset?_eq (m : Mirror vt) : m.regionOffset? = some m.regionOffset :=
  sub?_eq m.regionRows_le

/-- Where the region is and what is hidden: one of them is at the top. -/
theorem region_of_view {view : View} (hview : m.view = some view) :
    m.regionOffset = m.hostRows - min view.rows m.hostRows ∧
      m.cropTop = view.rows - m.hostRows := by
  rw [regionOffset, regionRows, cropTop, hview]
  exact ⟨rfl, rfl⟩

namespace Fits

theorem bottom?_eq (h : m.Fits) : cup? (m.hostRows - 1) 0 = some (.cup (m.hostRows - 1) 0) := by
  have hhost := h.hostRows.2
  apply cup?_eq <;> omega

theorem cropRow?_eq (h : m.Fits) {pushed i : ℕ} (hi : i < m.hostRows)
    (hrow : pushed + i < 2 ^ 16) : m.cropRow? pushed i = some (m.cropRow pushed i) := by
  have hhost := h.hostRows.2
  have haddress : cup? i 0 = some (.cup i 0) := cup?_eq (by omega) (by omega)
  rw [cropRow?, convert_eq (by omega : i < 2 ^ 16), convert_eq hrow, haddress]
  rfl

theorem cropBatches?_eq (h : m.Fits) {crop : ℕ} (hcrop : crop < 2 ^ 16) (fuel pushed : ℕ) :
    m.cropBatches? crop fuel pushed = some (m.cropBatches crop fuel pushed) := by
  induction fuel generalizing pushed with
  | zero => rfl
  | succ fuel ih =>
    rw [cropBatches?, cropBatches]
    by_cases hmore : pushed < crop
    · have hrows : (List.range (min (crop - pushed) m.hostRows)).mapM (m.cropRow? pushed) =
          some ((List.range (min (crop - pushed) m.hostRows)).map (m.cropRow pushed)) := by
        apply mapM_eq_some
        intro i hi
        rw [List.mem_range] at hi
        exact h.cropRow?_eq (by omega) (by omega)
      simp only [if_pos hmore, hrows, h.bottom?_eq, ih, Option.bind_eq_bind, Option.bind_some]
      rfl
    · rw [if_neg hmore, if_neg hmore]

theorem cropTop_lt (h : m.Fits) : m.cropTop < 2 ^ 16 := by
  cases hview : m.view with
  | none =>
    rw [cropTop, hview]
    exact Nat.two_pow_pos 16
  | some view =>
    obtain ⟨hrows, -⟩ := h.view view hview
    have hmodel := h.rows.2
    rw [(region_of_view hview).2]
    omega

theorem pushCrop?_eq (h : m.Fits) :
    m.pushCropToHostScrollback? = some m.pushCropToHostScrollback := by
  rw [pushCropToHostScrollback?, pushCropToHostScrollback, h.cropBatches?_eq h.cropTop_lt]
  split_ifs <;> rfl

theorem pushZone?_eq (h : m.Fits) :
    m.pushZoneToHostScrollback? = some m.pushZoneToHostScrollback := by
  simp only [pushZoneToHostScrollback?, pushZoneToHostScrollback, m.regionOffset?_eq,
    h.bottom?_eq, Option.bind_eq_bind, Option.bind_some]
  split_ifs <;> rfl

/-- No operation leaves the range when the region is rendered. -/
theorem renderRegion?_eq (h : m.Fits) {view : View} (hview : m.view = some view) (prev : Screen)
    (full : Bool) :
    renderRows? vt m.parser.screen prev m.hostRows m.hostCols full m.regionOffset m.cropTop =
      some (renderRows vt m.parser.screen prev m.hostRows m.hostCols full m.regionOffset
        m.cropTop) := by
  obtain ⟨hoffset, hcrop⟩ := region_of_view hview
  have hhost := h.hostRows.2
  have hrows := h.rows.2
  have hsize : m.parser.screen.rows = view.rows := (h.view view hview).1
  have hmodel : m.parser.screen.rows < 2 ^ 16 := hrows
  apply renderRows?_eq
  · intro i hi
    rw [hoffset, hcrop]
    rw [hcrop] at hi
    omega
  · exact (Nat.min_le_left _ _).trans_lt h.hostCols.2

theorem renderHostFull?_eq (h : m.Fits) {view : View} (hview : m.view = some view) :
    m.renderHostFull? = some m.renderHostFull := by
  rw [renderHostFull?, m.regionOffset?_eq]
  exact h.renderRegion?_eq hview _ true

theorem refreshScrollback?_eq (h : m.Fits) : m.refreshScrollback? = some m.refreshScrollback := by
  rw [refreshScrollback?, refreshScrollback]
  cases hview : m.view with
  | none => rfl
  | some view =>
    rw [h.pushCrop?_eq, h.renderHostFull?_eq hview]
    rfl

/-- The region has a row. -/
theorem regionOffset_lt (h : m.Fits) : m.regionOffset < m.hostRows := by
  have hhost := h.hostRows.1
  cases hview : m.view with
  | none =>
    rw [regionOffset, regionRows, hview]
    dsimp only
    omega
  | some view =>
    obtain ⟨hrows, -⟩ := h.view view hview
    have hmodel := h.rows.1
    rw [(region_of_view hview).1]
    omega

theorem scrollHost?_eq (h : m.Fits) (scrolled : ℕ) :
    m.scrollHost? m.regionOffset scrolled = some (m.scrollHost scrolled) := by
  have hhost := h.hostRows.2
  have htop := h.regionOffset_lt
  have haddress : cup? m.regionOffset 0 = some (.cup m.regionOffset 0) :=
    cup?_eq (by omega) (by omega)
  rw [scrollHost?, haddress, h.bottom?_eq]
  rfl

/-- Books and scrollback positions do not matter. -/
theorem sameView {m' : Mirror vt} (h : m.Fits) (hsame : m'.SameView m) : m'.Fits := by
  constructor
  · rw [hsame.hostRows]
    exact h.hostRows
  · rw [hsame.hostCols]
    exact h.hostCols
  · rw [hsame.rows]
    exact h.rows
  · rw [hsame.cols]
    exact h.cols
  · intro v hv
    rw [hsame.rows, hsame.cols]
    exact h.view v (hsame.view.symm.trans hv)
  · intro v hv
    rw [hsame.shadow]
    exact h.shadow v (hsame.view.symm.trans hv)

/-- The mirror that makes the output of a chunk. -/
theorem taken (h : m.Fits) (bytes : Bytes) :
    (m.taken bytes).Fits ∧ (m.taken bytes).view = m.view ∧ (m.taken bytes).shadow = m.shadow := by
  have hslices := m.foldl_processSlice_sameView (chunks processSliceSize bytes)
  have hdone : (m.processSlices bytes).Fits := h.sameView hslices
  obtain ⟨title, htaken⟩ := m.taken_eq bytes
  rw [htaken]
  exact ⟨⟨hdone.hostRows, hdone.hostCols, hdone.rows, hdone.cols, hdone.view, hdone.shadow⟩,
    hslices.view, hslices.shadow⟩

theorem hostScroll?_eq (h : m.Fits) (scrolled : ℕ) :
    m.hostScroll? m.regionOffset scrolled = some (m.hostScroll scrolled) := by
  rw [hostScroll?, hostScroll, h.scrollHost?_eq]
  split_ifs <;> rfl

theorem hostRepaint?_eq (h : m.Fits) {view : View} (hview : m.view = some view) (scrolled : ℕ)
    (shadow : Parser vt) :
    m.hostRepaint? m.regionOffset scrolled shadow = some (m.hostRepaint scrolled shadow) := by
  rw [hostRepaint?, hostRepaint, h.renderRegion?_eq hview, h.renderRegion?_eq hview]
  split_ifs <;> rfl

theorem process?_eq (h : m.Fits) (bytes : Bytes) : m.process? bytes = some (m.process bytes) := by
  obtain ⟨hdone, hview, hshadow⟩ := h.taken bytes
  let scrolled := (m.processSlices bytes).history.nextIndex - m.history.nextIndex
  cases hviewing : m.view with
  | none =>
    have hnone : (m.processSlices bytes).takeBells.2.takeTitleChange.2.view = none :=
      hview.trans hviewing
    simp only [process?, process, hnone]
  | some view =>
    obtain ⟨shadow, hsome⟩ := Option.isSome_iff_exists.mp (h.shadow view hviewing)
    have hdoneView : (m.processSlices bytes).takeBells.2.takeTitleChange.2.view = some view :=
      hview.trans hviewing
    have hdoneShadow : (m.processSlices bytes).takeBells.2.takeTitleChange.2.shadow =
        some shadow := hshadow.trans hsome
    have hscroll := hdone.hostScroll?_eq scrolled
    have hrepaint := hdone.hostRepaint?_eq hdoneView scrolled shadow
    have hoffset := (m.taken bytes).regionOffset?_eq
    simp only [process?, process, hdoneView, hdoneShadow]
    change ((m.taken bytes).regionOffset?.bind fun offset =>
      ((m.taken bytes).hostScroll? offset scrolled).bind fun scroll =>
        ((m.taken bytes).hostRepaint? offset scrolled shadow).bind fun rows => some _) = _
    rw [hoffset, Option.bind_some, hscroll, Option.bind_some, hrepaint, Option.bind_some]
    rfl

theorem withHost (h : m.Fits) {rows cols : ℕ} (hrows : Dimension rows)
    (hcols : Dimension cols) : (m.withHost rows cols).Fits :=
  ⟨hrows, hcols, h.rows, h.cols, h.view, h.shadow⟩

theorem clearZone (h : m.Fits) : Fits { m with zoneDirty := false } :=
  ⟨h.hostRows, h.hostCols, h.rows, h.cols, h.view, h.shadow⟩

theorem hostResized?_eq (h : m.Fits) {rows cols : ℕ} (hrows : Dimension rows)
    (hcols : Dimension cols) : m.hostResized? rows cols = some (m.hostResized rows cols) := by
  have hsized := h.withHost hrows hcols
  have hcleared := hsized.clearZone
  cases hview : m.view with
  | none => simp only [hostResized?, hostResized, hview]
  | some view =>
    have hzone := hsized.pushZone?_eq
    have hpush := hcleared.pushCrop?_eq
    have hregion := hcleared.renderHostFull?_eq hview
    simp only [hostResized?, hostResized, hview]
    simp only [Mirror.withHost, hview] at hzone hpush hregion
    simp only [hzone, hpush, hregion, Option.bind_eq_bind, Option.bind_some]
    rfl

/-- The mirror that a view starts from. -/
theorem flushed (h : m.Fits) (keepRows : ℕ) : (m.flushHistoryForRebuild keepRows).Fits :=
  h.sameView (m.flushHistoryForRebuild_rebooked keepRows).sameView

theorem startView (h : m.Fits) {view : View} (hrows : Dimension view.rows)
    (hcols : Dimension view.cols) : (m.startView view).2.Fits := by
  have hflushed := h.flushed view.rows
  have hsize : (m.startView view).2.parser.rows = view.rows ∧
      (m.startView view).2.parser.cols = view.cols :=
    ⟨Parser.process_rows _ _, Parser.process_cols _ _⟩
  constructor
  · exact hflushed.hostRows
  · exact hflushed.hostCols
  · rw [hsize.1]
    exact hrows
  · rw [hsize.2]
    exact hcols
  · intro v hv
    obtain rfl : view = v := Option.some.inj hv
    exact hsize
  · intro _ _
    rfl

theorem startView?_eq (h : m.Fits) {view : View} (hrows : Dimension view.rows)
    (hcols : Dimension view.cols) : m.startView? view = some (m.startView view) := by
  have hstarted := h.startView hrows hcols
  have hsnapshot : renderSnapshot? vt (m.flushHistoryForRebuild view.rows).parser.screen
      view.rows view.cols = some (renderSnapshot vt
        (m.flushHistoryForRebuild view.rows).parser.screen view.rows view.cols) :=
    renderSnapshot?_eq (h.flushed view.rows).rows.2 hrows.2 hcols.2
  have hpush := hstarted.pushCrop?_eq
  have hregion := hstarted.renderHostFull?_eq rfl
  simp only [Mirror.startView] at hpush hregion
  simp only [startView?, hsnapshot, hpush, hregion, Option.bind_eq_bind, Option.bind_some]
  rfl

theorem new (vt : Vt100) {hostRows hostCols : ℕ} (hrows : Dimension hostRows)
    (hcols : Dimension hostCols) : (Mirror.new vt hostRows hostCols).Fits :=
  ⟨hrows, hcols, hrows, hcols, nofun, nofun⟩

theorem process (h : m.Fits) (bytes : Bytes) : (m.process bytes).2.Fits := by
  obtain ⟨hhostRows, hhostCols, hview, hsame, -⟩ := process_spec h.rows.1 bytes
  have hrows : (m.process bytes).2.parser.rows = m.parser.rows := by
    rw [hsame.rows, Parser.process_rows]
  have hcols : (m.process bytes).2.parser.cols = m.parser.cols := by
    rw [hsame.cols, Parser.process_cols]
  constructor
  · rw [hhostRows]
    exact h.hostRows
  · rw [hhostCols]
    exact h.hostCols
  · rw [hrows]
    exact h.rows
  · rw [hcols]
    exact h.cols
  · intro v hv
    rw [hrows, hcols]
    exact h.view v (hview.symm.trans hv)
  · intro v hv
    have hviewing : m.view = some v := hview.symm.trans hv
    obtain ⟨shadow, hshadow⟩ := Option.isSome_iff_exists.mp (h.shadow v hviewing)
    obtain ⟨bells, title, hprocess⟩ := process_of_view hviewing hshadow bytes
    rw [hprocess]
    rfl

theorem endView (h : m.Fits) : m.endView.2.Fits := by
  have hharvest := m.harvest_rebooked.sameView
  have hrows : Dimension m.harvest.hostRows := by
    rw [hharvest.hostRows]
    exact h.hostRows
  have hcols : Dimension m.harvest.hostCols := by
    rw [hharvest.hostCols]
    exact h.hostCols
  exact ⟨hrows, hcols, hrows, hcols, nofun, nofun⟩

theorem hostResized (h : m.Fits) {rows cols : ℕ} (hrows : Dimension rows)
    (hcols : Dimension cols) : (m.hostResized rows cols).2.Fits := by
  have hsized := h.withHost hrows hcols
  cases hview : m.view with
  | none =>
    have hsame := (m.withHost rows cols).harvest_rebooked.sameView
    have hharvest := hsized.sameView hsame
    have hnone := (m.view_hostResized rows cols).trans hview
    rw [hostResized_of_none hview] at hnone ⊢
    refine ⟨hharvest.hostRows, hharvest.hostCols, hrows, hcols, ?_, hharvest.shadow⟩
    intro v hv
    exact absurd (hnone.symm.trans hv) (Option.some_ne_none v).symm
  | some view =>
    rw [hostResized_of_some hview]
    exact hsized.clearZone

/-- One call. -/
theorem call (h : m.Fits) {c : Call} (hc : c.InRange) : (m.call c).Fits := by
  cases c with
  | process bytes => exact h.process bytes
  | startView view => exact h.startView hc.1 hc.2
  | endView => exact h.endView
  | hostResized rows cols => exact h.hostResized hc.1 hc.2

end Fits

/-- Every mirror that calls with sizes in range lead to. -/
theorem fits_of_calls {hostRows hostCols : ℕ} (hrows : Dimension hostRows)
    (hcols : Dimension hostCols) {calls : List Call} (hcalls : ∀ c ∈ calls, c.InRange) :
    (calls.foldl call (Mirror.new vt hostRows hostCols)).Fits := by
  have hfold {m : Mirror vt} (hm : m.Fits) {calls : List Call} (hcalls : ∀ c ∈ calls, c.InRange) :
      (calls.foldl call m).Fits := by
    induction calls generalizing m with
    | nil => exact hm
    | cons c calls ih =>
      exact ih (hm.call (hcalls c List.mem_cons_self)) fun d hd =>
        hcalls d (List.mem_cons_of_mem c hd)
  exact hfold (Fits.new vt hrows hcols) hcalls

end Mirror

/-! ### In the region -/

/-- All cursor addresses are inside. -/
def Confined (inside : ℕ → ℕ → Prop) (ops : List TermOp) : Prop :=
  ∀ row col, TermOp.cup row col ∈ ops → inside row col

section Confined

variable {inside inside' : ℕ → ℕ → Prop} {ops ops' : List TermOp}

theorem Confined.append (h : Confined inside ops) (h' : Confined inside ops') :
    Confined inside (ops ++ ops') := by
  intro row col hmem
  rcases List.mem_append.mp hmem with hleft | hright
  · exact h row col hleft
  · exact h' row col hright

theorem Confined.flatMap {α : Type} {l : List α} {f : α → List TermOp}
    (h : ∀ x ∈ l, Confined inside (f x)) : Confined inside (l.flatMap f) := by
  intro row col hmem
  obtain ⟨x, hx, hfx⟩ := List.mem_flatMap.mp hmem
  exact h x hx row col hfx

theorem Confined.mono (h : Confined inside ops)
    (hinside : ∀ row col, inside row col → inside' row col) : Confined inside' ops :=
  fun row col hmem => hinside row col (h row col hmem)

end Confined

/-- Neither an address outside nor a row of the model. -/
def TermOp.Beside (inside : ℕ → ℕ → Prop) : TermOp → Prop
  | .cup row col => inside row col
  | .rowDiff _ => False
  | _ => True

theorem confined_of_beside {inside : ℕ → ℕ → Prop} {ops : List TermOp}
    (h : ∀ op ∈ ops, op.Beside inside) : Confined inside ops :=
  fun _ _ hmem => h _ hmem

/-- In one of the `rows` rows from `top` on and in the first `cols` columns. -/
def InWindow (top rows cols row col : ℕ) : Prop := top ≤ row ∧ row < top + rows ∧ col < cols

/-- The cursor is placed in the window. -/
theorem placeCursor_confined (screen : Screen) (srcOff rows cols targetOff : ℕ) :
    Confined (InWindow targetOff rows cols) (placeCursor screen srcOff rows cols targetOff) := by
  rw [placeCursor]
  generalize screen.cursor = cursor
  obtain ⟨row, col⟩ := cursor
  dsimp only
  split
  · rename_i hplace
    simp only [Bool.and_eq_true, decide_eq_true_eq] at hplace
    obtain ⟨⟨⟨-, hle⟩, hrow⟩, hcol⟩ := hplace
    intro target targetCol hmem
    obtain ⟨rfl, rfl⟩ : target = targetOff + row - srcOff ∧ targetCol = col := by
      simpa using hmem
    exact ⟨by omega, by omega, hcol⟩
  · simp [Confined]

/-- The addresses of `render_rows`, of the rows and of the cursor. -/
theorem renderRows_confined (vt : Vt100) (screen prev : Screen) (hostRows hostCols : ℕ)
    (full : Bool) (rowOffset srcOff : ℕ) (hcols : 0 < min hostCols screen.cols) :
    Confined (InWindow rowOffset (min hostRows (screen.rows - srcOff)) (min hostCols screen.cols))
      (renderRows vt screen prev hostRows hostCols full rowOffset srcOff) := by
  let rows := min hostRows (screen.rows - srcOff)
  let cols := min hostCols screen.cols
  have hbody : Confined (InWindow rowOffset rows cols)
      ((((vt.rowsDiff screen prev 0 cols).zipIdx.drop srcOff).take rows).flatMap
        (renderRow full rowOffset srcOff)) := by
    apply Confined.flatMap
    intro row hrow target col hmem
    obtain ⟨hlow, hhigh⟩ := index_of_window hrow
    obtain ⟨rfl, rfl⟩ : target = rowOffset + row.2 - srcOff ∧ col = 0 := by
      rw [renderRow] at hmem
      split_ifs at hmem
      · simpa using hmem
      · simpa using hmem
      · exact absurd hmem List.not_mem_nil
    exact ⟨by omega, by omega, hcols⟩
  have hcursor := placeCursor_confined screen srcOff rows cols rowOffset
  rw [renderRows]
  refine (((Confined.append ?_ hbody).append ?_).append hcursor).append ?_
  · simp [Confined]
  · simp [Confined]
  · simp [Confined]

/-- The addresses of `render_snapshot`. They are for the device, which has the view's size. -/
theorem renderSnapshot_confined (src : Screen) {rows cols : ℕ} (hcols : 0 < cols) :
    Confined (InWindow 0 rows cols) (renderSnapshot vt src rows cols) := by
  have hbody : Confined (InWindow 0 rows cols)
      ((((vt.rowsDiff src (blankScreen src.rows src.cols) 0 (min cols src.cols)).zipIdx.drop
        (src.rows - rows)).take rows).flatMap (snapshotRow (src.rows - rows))) := by
    apply Confined.flatMap
    intro row hrow target col hmem
    obtain ⟨hlow, hhigh⟩ := index_of_window hrow
    obtain ⟨rfl, rfl⟩ : target = row.2 - (src.rows - rows) ∧ col = 0 := by
      rw [snapshotRow] at hmem
      split_ifs at hmem
      · simpa using hmem
      · exact absurd hmem List.not_mem_nil
    exact ⟨by omega, by omega, hcols⟩
  have hcursor := placeCursor_confined src (src.rows - rows) rows cols 0
  rw [renderSnapshot]
  refine (((Confined.append ?_ hbody).append ?_).append hcursor).append ?_
  · simp [Confined]
  · simp [Confined]
  · simp [Confined]

/-- One painted row: which one, and where. -/
def paintRow (full : Bool) (target : ℕ) (diff : Bytes) : List TermOp :=
  [.sgrReset, .cup target 0] ++ (if full then [.clearToEol] else []) ++ [.rowDiff diff]

/-- The loop of `render_rows` paints some rows, in order. -/
theorem flatMap_renderRow (full : Bool) (rowOffset : ℕ) {srcOff : ℕ} {diffs : List Bytes}
    {window : List (Bytes × ℕ)}
    (hwindow : ∀ row ∈ window, srcOff ≤ row.2 ∧ diffs.getD row.2 [] = row.1) :
    ∃ rows, rows <+ window.map Prod.snd ∧
      window.flatMap (renderRow full rowOffset srcOff) =
        rows.flatMap fun i => paintRow full (rowOffset + (i - srcOff)) (diffs.getD i []) := by
  induction window with
  | nil => exact ⟨[], List.Sublist.refl _, rfl⟩
  | cons row window ih =>
    obtain ⟨⟨hlow, hdiff⟩, hrest⟩ := List.forall_mem_cons.mp hwindow
    obtain ⟨rows, hsub, heq⟩ := ih hrest
    have htarget : rowOffset + row.2 - srcOff = rowOffset + (row.2 - srcOff) := by omega
    by_cases hpainted : full = true ∨ row.1 ≠ []
    · refine ⟨row.2 :: rows, hsub.cons_cons row.2, ?_⟩
      have hrow : renderRow full rowOffset srcOff row =
          paintRow full (rowOffset + (row.2 - srcOff)) (diffs.getD row.2 []) := by
        rw [renderRow, paintRow, hdiff, htarget]
        cases full with
        | true => rfl
        | false =>
          have hne : row.1 ≠ [] := hpainted.resolve_left Bool.false_ne_true
          rw [if_neg Bool.false_ne_true, if_pos hne]
          rfl
      rw [List.flatMap_cons, List.flatMap_cons, hrow, heq]
    · refine ⟨rows, hsub.cons row.2, ?_⟩
      have hrow : renderRow full rowOffset srcOff row = [] := by
        rw [not_or] at hpainted
        rw [renderRow, if_neg hpainted.1, if_neg hpainted.2]
      rw [List.flatMap_cons, hrow, heq]
      rfl

/-- The row numbers of a window. -/
theorem window_map_snd {α : Type} (l : List α) (start count : ℕ) :
    ((l.zipIdx.drop start).take count).map Prod.snd <+ List.range' start count := by
  rw [List.map_take, List.map_drop, List.zipIdx_map_snd, List.drop_range', Nat.mul_one,
    Nat.zero_add]
  rcases Nat.le_total count (l.length - start) with hle | hge
  · rw [List.take_range'_of_length_ge hle]
  · rw [List.take_range'_of_length_le hge]
    exact List.range'_sublist_right.mpr hge

/-- `render_rows` paints rows of the window, each at most once and in order, at the places from
`rowOffset` on. -/
theorem renderRows_ordered (vt : Vt100) (screen prev : Screen) (hostRows hostCols : ℕ)
    (full : Bool) (rowOffset srcOff : ℕ) :
    ∃ rows modes, rows <+ List.range' srcOff (min hostRows (screen.rows - srcOff)) ∧
      renderRows vt screen prev hostRows hostCols full rowOffset srcOff =
        [.syncBegin, .hideCursor] ++
          (rows.flatMap fun i => paintRow full (rowOffset + (i - srcOff))
            ((vt.rowsDiff screen prev 0 (min hostCols screen.cols)).getD i [])) ++
          [.inputMode modes] ++
          placeCursor screen srcOff (min hostRows (screen.rows - srcOff))
            (min hostCols screen.cols) rowOffset ++ [.syncEnd] := by
  let diffs := vt.rowsDiff screen prev 0 (min hostCols screen.cols)
  let count := min hostRows (screen.rows - srcOff)
  have hwindow : ∀ row ∈ (diffs.zipIdx.drop srcOff).take count,
      srcOff ≤ row.2 ∧ diffs.getD row.2 [] = row.1 := by
    intro row hmem
    have hrow : row ∈ diffs.zipIdx := List.mem_of_mem_drop (List.mem_of_mem_take hmem)
    have hget : diffs[row.2]? = some row.1 := List.mk_mem_zipIdx_iff_getElem?.mp hrow
    refine ⟨(index_of_window hmem).1, ?_⟩
    rw [List.getD_eq_getElem?_getD, hget]
    rfl
  let modes :=
    if full then vt.inputModeFormatted screen.inputModes
    else vt.inputModeDiff screen.inputModes prev.inputModes
  obtain ⟨rows, hsub, heq⟩ := flatMap_renderRow full rowOffset hwindow
  refine ⟨rows, modes, hsub.trans (window_map_snd diffs srcOff count), ?_⟩
  rw [← heq]
  rfl

/-- The calls that render a view on the host. -/
inductive RenderCall
  | process (bytes : Bytes)
  | startView (view : View)
  | hostResized (rows cols : ℕ)
  | refreshScrollback

/-- The sizes that a call passes on are in range. -/
def RenderCall.InRange : RenderCall → Prop
  | .startView view => Dimension view.rows ∧ Dimension view.cols
  | .hostResized rows cols => Dimension rows ∧ Dimension cols
  | _ => True

/-- What a call writes, to the host and to the devices, and what becomes of the mirror. -/
structure Written (vt : Vt100) where
  host : List TermOp
  device : Option Bytes
  mirror : Mirror vt

namespace Mirror

/-- One call, on natural numbers. -/
def written (m : Mirror vt) : RenderCall → Written vt
  | .process bytes =>
    ⟨(m.process bytes).1.host, (m.process bytes).1.remote, (m.process bytes).2⟩
  | .startView view =>
    ⟨(m.startView view).1.hostOutput, (m.startView view).1.remoteOutput, (m.startView view).2⟩
  | .hostResized rows cols =>
    ⟨(m.hostResized rows cols).1.hostOutput, (m.hostResized rows cols).1.remoteOutput,
      (m.hostResized rows cols).2⟩
  | .refreshScrollback => ⟨m.refreshScrollback, none, m⟩

/-- One call, in 16 bits. -/
def written? (m : Mirror vt) : RenderCall → Option (Written vt)
  | .process bytes => (m.process? bytes).map fun done => ⟨done.1.host, done.1.remote, done.2⟩
  | .startView view =>
    (m.startView? view).map fun done => ⟨done.1.hostOutput, done.1.remoteOutput, done.2⟩
  | .hostResized rows cols =>
    (m.hostResized? rows cols).map fun done => ⟨done.1.hostOutput, done.1.remoteOutput, done.2⟩
  | .refreshScrollback => m.refreshScrollback?.map fun ops => ⟨ops, none, m⟩

/-- In the host rows from `region_offset` on and in the columns that host and view have. -/
def InRegion (m : Mirror vt) (view : View) (row col : ℕ) : Prop :=
  m.regionOffset ≤ row ∧ row < m.hostRows ∧ col < min m.hostCols view.cols

/-- Output for the host that renders the region. -/
structure RendersRegion (m : Mirror vt) (view : View) (ops : List TermOp) : Prop where
  /-- All addresses are in the region. -/
  confined : Confined (m.InRegion view) ops
  /-- The rows of the model are those that one call of `render_rows` writes. -/
  rendered : ∃ before prev full after,
    ops = before ++ renderRows vt m.parser.screen prev m.hostRows m.hostCols full
      m.regionOffset m.cropTop ++ after ∧
    ∀ diff, TermOp.rowDiff diff ∉ before ++ after
  /-- Such a call writes rows that are not hidden, in order and from the region's top on. -/
  ordered : ∀ prev full, ∃ rows modes,
    rows <+ List.range' (view.rows - m.hostRows) (min view.rows m.hostRows) ∧
    renderRows vt m.parser.screen prev m.hostRows m.hostCols full m.regionOffset m.cropTop =
      [.syncBegin, .hideCursor] ++
        (rows.flatMap fun i => paintRow full (m.regionOffset + (i - (view.rows - m.hostRows)))
          ((vt.rowsDiff m.parser.screen prev 0 (min m.hostCols view.cols)).getD i [])) ++
        [.inputMode modes] ++
        placeCursor m.parser.screen (view.rows - m.hostRows) (min view.rows m.hostRows)
          (min m.hostCols view.cols) m.regionOffset ++ [.syncEnd]

namespace Fits

variable {m : Mirror vt} {view : View}

theorem written?_eq (h : m.Fits) {c : RenderCall} (hc : c.InRange) :
    m.written? c = some (m.written c) := by
  cases c with
  | process bytes => rw [written?, h.process?_eq]; rfl
  | startView view => rw [written?, h.startView?_eq hc.1 hc.2]; rfl
  | hostResized rows cols => rw [written?, h.hostResized?_eq hc.1 hc.2]; rfl
  | refreshScrollback => rw [written?, h.refreshScrollback?_eq]; rfl

theorem written (h : m.Fits) {c : RenderCall} (hc : c.InRange) : (m.written c).mirror.Fits := by
  cases c with
  | process bytes => exact h.process bytes
  | startView view => exact h.startView hc.1 hc.2
  | hostResized rows cols => exact h.hostResized hc.1 hc.2
  | refreshScrollback => exact h

/-- Host and view have a first column. -/
theorem firstCol (h : m.Fits) (hview : m.view = some view) : 0 < min m.hostCols view.cols := by
  have hcols := h.cols.1
  rw [(h.view view hview).2] at hcols
  exact lt_min h.hostCols.1 hcols

theorem top_inRegion (h : m.Fits) (hview : m.view = some view) :
    m.InRegion view m.regionOffset 0 :=
  ⟨le_rfl, h.regionOffset_lt, h.firstCol hview⟩

theorem bottom_inRegion (h : m.Fits) (hview : m.view = some view) :
    m.InRegion view (m.hostRows - 1) 0 := by
  have htop := h.regionOffset_lt
  exact ⟨by omega, by omega, h.firstCol hview⟩

/-- If rows are hidden, the region is the host screen. -/
theorem row_inRegion (h : m.Fits) (hview : m.view = some view) (hcrop : m.cropTop ≠ 0) {i : ℕ}
    (hi : i < m.hostRows) : m.InRegion view i 0 := by
  obtain ⟨hoffset, htop⟩ := region_of_view hview
  refine ⟨?_, hi, h.firstCol hview⟩
  rw [hoffset]
  omega

theorem pushCrop_beside (h : m.Fits) (hview : m.view = some view) :
    ∀ op ∈ m.pushCropToHostScrollback, op.Beside (m.InRegion view) := by
  have hbatches (hcrop : m.cropTop ≠ 0) (fuel pushed : ℕ) :
      ∀ op ∈ m.cropBatches m.cropTop fuel pushed, op.Beside (m.InRegion view) := by
    induction fuel generalizing pushed with
    | zero => exact List.forall_mem_nil _
    | succ fuel ih =>
      rw [cropBatches]
      split
      · simp only [List.forall_mem_append, List.forall_mem_flatMap, List.mem_range]
        refine ⟨⟨?_, ?_⟩, ih _⟩
        · intro i hi
          have hrow := h.row_inRegion hview hcrop (lt_of_lt_of_le hi (Nat.min_le_right _ _))
          simpa [cropRow, TermOp.Beside] using hrow
        · simpa [TermOp.Beside] using h.bottom_inRegion hview
      · exact List.forall_mem_nil _
  rw [pushCropToHostScrollback]
  split
  · exact List.forall_mem_nil _
  · rename_i hcrop
    simp only [List.forall_mem_append]
    exact ⟨⟨by simp [TermOp.Beside], hbatches hcrop _ _⟩, by simp [TermOp.Beside]⟩

theorem pushZone_beside (h : m.Fits) (hview : m.view = some view) :
    ∀ op ∈ m.pushZoneToHostScrollback, op.Beside (m.InRegion view) := by
  rw [pushZoneToHostScrollback]
  split
  · exact List.forall_mem_nil _
  · simpa [TermOp.Beside] using h.bottom_inRegion hview

theorem hostScroll_beside (h : m.Fits) (hview : m.view = some view) (scrolled : ℕ) :
    ∀ op ∈ m.hostScroll scrolled, op.Beside (m.InRegion view) := by
  have hlines : ∀ op ∈ (m.history.tail scrolled).zipIdx.flatMap scrolledLine,
      op.Beside (m.InRegion view) := by
    rw [List.forall_mem_flatMap]
    intro line _
    rw [scrolledLine]
    split <;> simp [TermOp.Beside]
  rw [hostScroll]
  split
  · simp only [scrollHost, List.forall_mem_append]
    refine ⟨⟨?_, hlines⟩, ?_⟩
    · simpa [TermOp.Beside] using h.top_inRegion hview
    · simpa [TermOp.Beside] using h.bottom_inRegion hview
  · exact List.forall_mem_nil _

/-- Output with one call of `render_rows` in it, which alone writes rows of the model. -/
theorem rendersRegion (h : m.Fits) (hview : m.view = some view) {before after : List TermOp}
    (hbefore : ∀ op ∈ before, op.Beside (m.InRegion view))
    (hafter : ∀ op ∈ after, op.Beside (m.InRegion view)) (prev : Screen) (full : Bool) :
    m.RendersRegion view (before ++ renderRows vt m.parser.screen prev m.hostRows m.hostCols full
      m.regionOffset m.cropTop ++ after) := by
  obtain ⟨hoffset, hcrop⟩ := region_of_view hview
  obtain ⟨hrows, hcols⟩ : m.parser.screen.rows = view.rows ∧ m.parser.screen.cols = view.cols :=
    h.view view hview
  have hcount : min m.hostRows (view.rows - (view.rows - m.hostRows)) =
      min view.rows m.hostRows := by omega
  constructor
  · have hregion := renderRows_confined vt m.parser.screen prev m.hostRows m.hostCols full
      m.regionOffset m.cropTop (hcols ▸ h.firstCol hview)
    rw [hrows, hcols, hcrop, hcount] at hregion
    refine ((confined_of_beside hbefore).append ?_).append (confined_of_beside hafter)
    rw [hcrop]
    refine hregion.mono ?_
    intro row col ⟨hlow, hhigh, hcol⟩
    refine ⟨hlow, ?_, hcol⟩
    omega
  · refine ⟨before, prev, full, after, rfl, ?_⟩
    intro diff hmem
    rcases List.mem_append.mp hmem with hleft | hright
    · exact hbefore _ hleft
    · exact hafter _ hright
  · intro prev full
    have hordered := renderRows_ordered vt m.parser.screen prev m.hostRows m.hostCols full
      m.regionOffset m.cropTop
    rw [hrows, hcols, hcrop, hcount] at hordered
    rw [hcrop]
    exact hordered

/-- The whole region. -/
theorem renderHostFull_rendersRegion (h : m.Fits) (hview : m.view = some view)
    {before : List TermOp} (hbefore : ∀ op ∈ before, op.Beside (m.InRegion view)) :
    m.RendersRegion view (before ++ m.renderHostFull) := by
  have hregion := h.rendersRegion hview hbefore (List.forall_mem_nil _)
    (blankScreen m.parser.rows m.parser.cols) true
  rw [List.append_nil] at hregion
  exact hregion

theorem process_rendersRegion (h : m.Fits) (bytes : Bytes)
    (hview : (m.process bytes).2.view = some view) :
    (m.process bytes).2.RendersRegion view (m.process bytes).1.host := by
  have hfits := h.process bytes
  have hviewing : m.view = some view := (process_spec h.rows.1 bytes).2.2.1.symm.trans hview
  obtain ⟨shadow, hshadow⟩ := Option.isSome_iff_exists.mp (h.shadow view hviewing)
  obtain ⟨bells, title, hprocess⟩ := process_of_view hviewing hshadow bytes
  let scrolled := (m.processSlices bytes).history.nextIndex - m.history.nextIndex
  have hhost : (m.process bytes).1.host = (m.process bytes).2.hostScroll scrolled ++
      (m.process bytes).2.hostRepaint scrolled shadow ++ hostTitle title := by
    rw [hprocess]
    rfl
  have hscroll := hfits.hostScroll_beside hview scrolled
  have htitle : ∀ op ∈ hostTitle title, op.Beside ((m.process bytes).2.InRegion view) := by
    cases title with
    | none => exact List.forall_mem_nil _
    | some t => simp [hostTitle, TermOp.Beside]
  rw [hhost, hostRepaint]
  split
  · exact hfits.rendersRegion hview hscroll htitle _ true
  · exact hfits.rendersRegion hview hscroll htitle shadow.screen false

theorem startView_rendersRegion (h : m.Fits) (hrows : Dimension view.rows)
    (hcols : Dimension view.cols) :
    (m.startView view).2.RendersRegion view (m.startView view).1.hostOutput := by
  have hfits := h.startView hrows hcols
  have hview : (m.startView view).2.view = some view := rfl
  have hbefore : ∀ op ∈ [.viewHostPrelude] ++ (m.startView view).2.pushCropToHostScrollback,
      op.Beside ((m.startView view).2.InRegion view) := by
    rw [List.forall_mem_append]
    exact ⟨by simp [TermOp.Beside], hfits.pushCrop_beside hview⟩
  exact hfits.renderHostFull_rendersRegion hview hbefore

theorem hostResized_rendersRegion (h : m.Fits) {rows cols : ℕ} (hrows : Dimension rows)
    (hcols : Dimension cols) (hview : (m.hostResized rows cols).2.view = some view) :
    (m.hostResized rows cols).2.RendersRegion view (m.hostResized rows cols).1.hostOutput := by
  have hviewing : m.view = some view := (m.view_hostResized rows cols).symm.trans hview
  have hsized := h.withHost hrows hcols
  have hcleared := hsized.clearZone
  let cleared : Mirror vt := { m.withHost rows cols with zoneDirty := false }
  have hdone : (m.hostResized rows cols).2 = cleared := hostResized_of_some hviewing rows cols
  have hhost : (m.hostResized rows cols).1.hostOutput =
      (m.withHost rows cols).pushZoneToHostScrollback ++ cleared.pushCropToHostScrollback ++
        [.clear] ++ cleared.renderHostFull := by
    simp only [Mirror.hostResized]
    split
    · rename_i hnone
      exact absurd (hnone.symm.trans hviewing) (Option.some_ne_none view).symm
    · rfl
  have hbefore : ∀ op ∈ (m.withHost rows cols).pushZoneToHostScrollback ++
      cleared.pushCropToHostScrollback ++ [.clear], op.Beside (cleared.InRegion view) := by
    rw [List.forall_mem_append, List.forall_mem_append]
    exact ⟨⟨hsized.pushZone_beside hviewing, hcleared.pushCrop_beside hviewing⟩,
      by simp [TermOp.Beside]⟩
  rw [hdone, hhost]
  exact hcleared.renderHostFull_rendersRegion hviewing hbefore

theorem refreshScrollback_rendersRegion (h : m.Fits) (hview : m.view = some view) :
    m.RendersRegion view m.refreshScrollback := by
  rw [refreshScrollback, hview]
  exact h.renderHostFull_rendersRegion hview (h.pushCrop_beside hview)

/-- Every call renders the region of the view that is active after it. -/
theorem written_rendersRegion (h : m.Fits) {c : RenderCall} (hc : c.InRange)
    (hview : (m.written c).mirror.view = some view) :
    (m.written c).mirror.RendersRegion view (m.written c).host := by
  cases c with
  | process bytes => exact h.process_rendersRegion bytes hview
  | startView started =>
    obtain rfl : started = view := Option.some.inj hview
    exact h.startView_rendersRegion hc.1 hc.2
  | hostResized rows cols => exact h.hostResized_rendersRegion hc.1 hc.2 hview
  | refreshScrollback => exact h.refreshScrollback_rendersRegion hview

end Fits

end Mirror

/-- Calls with sizes in `1..=65535` lead to mirrors that fit. Whatever the model of a mirror that
fits shows, and wherever its cursor is, no operation in 16 bits leaves the range. If a view is
active after the call, the host output renders its region. A snapshot stays on the device. -/
theorem host_rendering_in_region (vt : Vt100) :
    (∀ hostRows hostCols, Dimension hostRows → Dimension hostCols →
      ∀ calls : List Call, (∀ c ∈ calls, c.InRange) →
        (calls.foldl Mirror.call (Mirror.new vt hostRows hostCols)).Fits) ∧
    (∀ m : Mirror vt, m.Fits → ∀ c : RenderCall, c.InRange →
      m.written? c = some (m.written c) ∧ (m.written c).mirror.Fits ∧
      ∀ view, (m.written c).mirror.view = some view →
        (m.written c).mirror.RendersRegion view (m.written c).host) ∧
    ∀ src rows cols, 0 < cols →
      Confined (InWindow 0 rows cols) (renderSnapshot vt src rows cols) := by
  refine ⟨?_, ?_, fun src rows cols hcols => renderSnapshot_confined src hcols⟩
  · intro hostRows hostCols hrows hcols calls hcalls
    exact Mirror.fits_of_calls hrows hcols hcalls
  · intro m h c hc
    refine ⟨h.written?_eq hc, h.written hc, ?_⟩
    intro view hview
    exact h.written_rendersRegion hc hview

/-- A host and a view of the greatest size, and then a host with one row. -/
theorem greatest_view_in_region :
    let view : View := ⟨65535, 65535, false⟩
    let m := [Call.startView view].foldl Mirror.call (Mirror.new asciiVt100 65535 65535)
    m.written? .refreshScrollback = some (m.written .refreshScrollback) ∧
      m.RendersRegion view m.refreshScrollback ∧
      m.written? (.hostResized 1 1) = some (m.written (.hostResized 1 1)) := by
  intro view m
  have hm : m.Fits := (host_rendering_in_region asciiVt100).1 65535 65535 (by decide) (by decide)
    [.startView view] (by simp [Call.InRange, view, Dimension])
  have hrendered := (host_rendering_in_region asciiVt100).2.1 m hm
  have hrefreshed := hrendered .refreshScrollback trivial
  have hresized := hrendered (.hostResized 1 1) ⟨by decide, by decide⟩
  exact ⟨hrefreshed.1, hrefreshed.2.2 view rfl, hresized.1⟩

end G2mirror
