import G2mirror.Serialize

/-!
# The mirror

`mirror.rs`: translation between the wrapped app's output, the host terminal
and the viewing devices. The model parser is always at the child's size; while
viewing, the shadow parser holds the state as of the last render.
-/

namespace G2mirror

/-- `SIM_ROWS`: rows of the hotkey-simulated device. -/
def simRows : ℕ := 24

/-- `SIM_COLS`: columns of the hotkey-simulated device. -/
def simCols : ℕ := 96

/-- `STAGE_SCROLLBACK`: rows the staging scrollback holds. -/
def stageScrollback : ℕ := 4096

/-- `PROCESS_SLICE`: most bytes parsed between two harvests. -/
def processSliceSize : ℕ := 2048

/-- `View`. -/
structure View where
  rows : ℕ
  cols : ℕ
  /-- True for the hotkey-simulated device, false for a socket client. -/
  simulated : Bool
  deriving DecidableEq

/-- `Mirror`. -/
structure Mirror (vt : Vt100) where
  hostRows : ℕ
  hostCols : ℕ
  parser : Parser vt
  shadow : Option (Parser vt)
  view : Option View
  title : Option String
  history : History
  /-- The primary grid is parked at offset 1, so that the offset counts new rows. -/
  parked : Bool
  /-- Staging-buffer length after the last harvest. -/
  stagedSeen : ℕ
  /-- The host's history zone holds content not yet in its native scrollback. -/
  zoneDirty : Bool

/-- `Output`: the result of processing a chunk of child output. -/
structure Output where
  host : List TermOp
  remote : Option Bytes
  bells : ℕ
  title : Option String

/-- `Transition`: what the event loop should do after a state change. -/
structure Transition where
  childSize : Option (ℕ × ℕ)
  hostOutput : List TermOp
  remoteOutput : Option Bytes

/-- `slice::chunks`, with the number of elements left as fuel. -/
def chunksAux (size : ℕ) : ℕ → Bytes → List Bytes
  | 0, _ => []
  | fuel + 1, bytes =>
    if bytes = [] then [] else bytes.take size :: chunksAux size fuel (bytes.drop size)

/-- `slice::chunks`: pieces of `size` bytes, the last one possibly shorter. -/
def chunks (size : ℕ) (bytes : Bytes) : List Bytes := chunksAux size bytes.length bytes

/-- `place_cursor`: the cursor is shown if it falls inside the rendered window. -/
def placeCursor (screen : Screen) (srcOff rows cols targetOff : ℕ) : List TermOp :=
  let (row, col) := screen.cursor
  if !screen.hideCursor && srcOff ≤ row && row - srcOff < rows && col < cols then
    [.cup (targetOff + row - srcOff) col, .showCursor]
  else []

/-- `render_rows`: the rendered window of the screen, each row explicitly positioned. -/
def renderRows (vt : Vt100) (screen prev : Screen) (hostRows hostCols : ℕ) (full : Bool)
    (rowOffset srcOff : ℕ) : List TermOp :=
  let rows := min hostRows (screen.rows - srcOff)
  let cols := min hostCols screen.cols
  let body := (((vt.rowsDiff screen prev 0 cols).zipIdx.drop srcOff).take rows).flatMap
    fun (rowDiff, i) =>
      let targetRow := rowOffset + i - srcOff
      if full then [.sgrReset, .cup targetRow 0, .clearToEol, .rowDiff rowDiff]
      else if rowDiff ≠ [] then [.sgrReset, .cup targetRow 0, .rowDiff rowDiff]
      else []
  let modes :=
    if full then vt.inputModeFormatted screen.inputModes
    else vt.inputModeDiff screen.inputModes prev.inputModes
  [.syncBegin, .hideCursor] ++ body ++ [.inputMode modes] ++
    placeCursor screen srcOff rows cols rowOffset ++ [.syncEnd]

/-- One row of a snapshot whose first row is the screen's `rowOff`. -/
def snapshotRow (rowOff : ℕ) (row : Bytes × ℕ) : List TermOp :=
  if row.1 ≠ [] then [.sgrReset, .cup (row.2 - rowOff) 0, .rowDiff row.1] else []

/-- `render_snapshot`: sequences reproducing the bottom-left crop of the screen
on a fresh terminal of `rows` by `cols`. -/
def renderSnapshot (vt : Vt100) (src : Screen) (rows cols : ℕ) : List TermOp :=
  let rowOff := src.rows - rows
  let width := min cols src.cols
  let diffs := (vt.rowsDiff src (blankScreen src.rows src.cols) 0 width).zipIdx
  [.clear, .syncBegin, .hideCursor] ++
    ((diffs.drop rowOff).take rows).flatMap (snapshotRow rowOff) ++
    [.inputMode (vt.inputModeFormatted src.inputModes)] ++
    placeCursor src rowOff rows cols 0 ++ [.syncEnd]

namespace Mirror

variable {vt : Vt100}

/-- `Mirror::new`. -/
def new (vt : Vt100) (hostRows hostCols : ℕ) : Mirror vt where
  hostRows := hostRows
  hostCols := hostCols
  parser := Parser.new vt hostRows hostCols stageScrollback
  shadow := none
  view := none
  title := none
  history := History.new defaultMaxLines
  parked := false
  stagedSeen := 0
  zoneDirty := false

/-- Rows of the live region: the view's, as far as the host has them. -/
def regionRows (m : Mirror vt) : ℕ :=
  match m.view with
  | none => m.hostRows
  | some v => min v.rows m.hostRows

/-- `Mirror::region_offset`: host row where the live region starts. -/
def regionOffset (m : Mirror vt) : ℕ := m.hostRows - m.regionRows

/-- `Mirror::crop_top`: view-model rows hidden above the host screen. -/
def cropTop (m : Mirror vt) : ℕ :=
  match m.view with
  | none => 0
  | some v => v.rows - m.hostRows

/-- One hidden row of `push_crop_to_host_scrollback`, painted at host row `i`. -/
def cropRow (m : Mirror vt) (pushed i : ℕ) : List TermOp :=
  [.sgrReset, .cup i 0, .clearToEol,
    .lineText (serializeRow m.parser.screen (pushed + i) m.parser.cols).bytes]

/-- The loop of `push_crop_to_host_scrollback`: batches of hidden rows are
painted over the top of the screen and scrolled off. Every batch holds at least
one row as long as the host has one, so `crop` steps of fuel suffice. -/
def cropBatches (m : Mirror vt) (crop : ℕ) : ℕ → ℕ → List TermOp
  | 0, _ => []
  | fuel + 1, pushed =>
    if pushed < crop then
      let batch := min (crop - pushed) m.hostRows
      (List.range batch).flatMap (m.cropRow pushed) ++
        [.sgrReset, .cup (m.hostRows - 1) 0, .crlf batch] ++
        cropBatches m crop fuel (pushed + batch)
    else []

/-- `Mirror::push_crop_to_host_scrollback`. -/
def pushCropToHostScrollback (m : Mirror vt) : List TermOp :=
  if m.cropTop = 0 then []
  else [.syncBegin, .hideCursor, .autowrapOff] ++ m.cropBatches m.cropTop m.cropTop 0 ++
    [.autowrapOn, .syncEnd]

/-- `Mirror::render_host_full`: full repaint of the view model. -/
def renderHostFull (m : Mirror vt) : List TermOp :=
  let screen := m.parser.screen
  renderRows vt screen (blankScreen screen.rows screen.cols) m.hostRows m.hostCols true
    m.regionOffset m.cropTop

/-- `Mirror::refresh_scrollback`. -/
def refreshScrollback (m : Mirror vt) : List TermOp :=
  if m.view.isNone then [] else m.pushCropToHostScrollback ++ m.renderHostFull

/-- `Mirror::push_zone_to_host_scrollback`. -/
def pushZoneToHostScrollback (m : Mirror vt) : List TermOp :=
  if !m.zoneDirty || m.regionOffset = 0 then []
  else [.sgrReset, .cup (m.hostRows - 1) 0, .crlf m.regionOffset]

/-- `Mirror::set_history_limit`. -/
def setHistoryLimit (m : Mirror vt) (maxLines : ℕ) : Mirror vt :=
  { m with history := m.history.setMaxLines maxLines }

/-- `Mirror::history_extent`: the (next, oldest) indices of the archive. -/
def historyExtent (m : Mirror vt) : ℕ × ℕ := (m.history.nextIndex, m.history.oldest)

/-- `Mirror::host_size`: the host terminal's (rows, cols). -/
def hostSize (m : Mirror vt) : ℕ × ℕ := (m.hostRows, m.hostCols)

/-- The model's size, which is the child's. -/
def size (m : Mirror vt) : ℕ × ℕ := (m.parser.rows, m.parser.cols)

/-- `Mirror::set_title`. -/
def setTitle (m : Mirror vt) (title : String) : Mirror vt := { m with title := some title }

/-- `Mirror::staged_len`: it leaves the primary grid scrolled to its oldest staged row. -/
def stagedLen (m : Mirror vt) : ℕ × Mirror vt :=
  let parser := m.parser.scrollToTop
  (parser.scrollback, { m with parser := parser })

/-- `Mirror::park`: arm the scroll counter before parsing a slice. -/
def park (m : Mirror vt) : Mirror vt :=
  if m.parser.alternate then m
  else if m.parked then m
  else
    let (staged, m) := m.stagedLen
    if 0 < staged then { m with parser := m.parser.setScrollback 1, parked := true }
    else { m with parser := m.parser.setScrollback 0 }

/-- The loop of `archive_staged_rows`. Every window holds at least one row as
long as the screen has one, so `remaining` steps of fuel suffice. -/
def archiveLoop (rows cols : ℕ) : ℕ → ℕ → Mirror vt → Mirror vt
  | 0, _, m => m
  | fuel + 1, remaining, m =>
    if 0 < remaining then
      let parser := m.parser.setScrollback remaining
      let window := min remaining rows
      let records := (List.range window).map fun row => serializeRow parser.screen row cols
      archiveLoop rows cols fuel (remaining - window)
        { m with parser := parser, history := m.history.pushAll records }
    else m

/-- `Mirror::archive_staged_rows`: the newest `count` staged rows, oldest first. -/
def archiveStagedRows (m : Mirror vt) (count : ℕ) : Mirror vt :=
  let (staged, m) := m.stagedLen
  let remaining := min count staged
  archiveLoop m.parser.rows m.parser.cols remaining remaining
    { m with parser := m.parser.setScrollback 0 }

/-- How `harvest` counts the new rows: by the parked offset, exact even if the
staging buffer overflowed meanwhile, or else by growth since the last look. -/
def newRows (m : Mirror vt) : ℕ × Mirror vt :=
  if m.parked then (m.parser.scrollback - 1, m)
  else
    let (staged, m') := m.stagedLen
    (staged - m.stagedSeen, m')

/-- The end of `harvest`: note the staged length and scroll to the bottom. -/
def settle (m : Mirror vt) : Mirror vt :=
  let (staged, m') := m.stagedLen
  { m' with stagedSeen := staged, parser := m'.parser.setScrollback 0 }

/-- `Mirror::harvest`: archive the rows staged since the last harvest. It is
deferred while the alternate screen is active. -/
def harvest (m : Mirror vt) : Mirror vt :=
  if m.parser.alternate then m
  else
    let (count, m) := m.newRows
    let m := { m with parked := false }
    settle (if 0 < count then m.archiveStagedRows count else m)

/-- One slice of `process`: park, parse, harvest. -/
def processSlice (m : Mirror vt) (slice : Bytes) : Mirror vt :=
  let m := m.park
  harvest { m with parser := m.parser.process slice }

/-- The loop of `process` over the slices of a chunk. -/
def processSlices (m : Mirror vt) (bytes : Bytes) : Mirror vt :=
  (chunks processSliceSize bytes).foldl processSlice m

/-- `Mirror::take_bells`. -/
def takeBells (m : Mirror vt) : ℕ × Mirror vt :=
  (m.parser.bells, { m with parser := { m.parser with bells := 0 } })

/-- `Mirror::take_title_change`: the title set in the last chunk, if it differs. -/
def takeTitleChange (m : Mirror vt) : Option String × Mirror vt :=
  let taken := { m with parser := { m.parser with title := none } }
  match m.parser.title with
  | none => (none, m)
  | some title =>
    if m.title = some title then (none, taken)
    else (some title, { taken with title := some title })

/-- One archived line of the scroll branch, with its place among them. -/
def scrolledLine (line : HistoryRecord × ℕ) : List TermOp :=
  (if 0 < line.2 then [.crlf 1] else []) ++ [.lineText line.1.bytes, .sgrReset]

/-- The scroll branch of `process`: `scrolled` archived lines flow through the
zone into the host's native scrollback. -/
def scrollHost (m : Mirror vt) (scrolled : ℕ) : List TermOp :=
  let lines := (m.history.tail scrolled).zipIdx.flatMap scrolledLine
  [.syncBegin, .hideCursor, .sgrReset, .cup m.regionOffset 0, .deleteLines m.regionRows] ++
    lines ++
    [.cup (m.hostRows - 1) 0, .crlf (min scrolled m.regionRows), .syncEnd]

/-- `Mirror::process`: translate a chunk of child output. -/
def process (m : Mirror vt) (bytes : Bytes) : Output × Mirror vt :=
  let historyBefore := m.history.nextIndex
  let m := m.processSlices bytes
  let scrolled := m.history.nextIndex - historyBefore
  let (bells, m) := m.takeBells
  let (title, m) := m.takeTitleChange
  match m.view, m.shadow with
  | some _, some shadow =>
    let screen := m.parser.screen
    let scroll := if 0 < scrolled then m.scrollHost scrolled else []
    let rows :=
      if 0 < scrolled then
        renderRows vt screen (blankScreen screen.rows screen.cols) m.hostRows m.hostCols true
          m.regionOffset m.cropTop
      else
        renderRows vt screen shadow.screen m.hostRows m.hostCols false m.regionOffset m.cropTop
    let titleOut := match title with
      | none => []
      | some t => [.windowTitle t]
    (⟨scroll ++ rows ++ titleOut, some (vt.stateDiff screen shadow.screen), bells, title⟩,
      { m with
        zoneDirty := m.zoneDirty || 0 < scrolled
        shadow := some (shadow.process bytes) })
  | _, _ => (⟨[.passThrough bytes], none, bells, title⟩, m)

/-- The visible rows that a crop to the last `keepRows` rows drops, as records. -/
def droppedRecords (m : Mirror vt) (keepRows : ℕ) : List HistoryRecord :=
  (List.range (m.parser.rows - keepRows)).map fun row =>
    serializeRow m.parser.screen row m.parser.cols

/-- The records up to the last one that is not blank. -/
def upToLastNonblank (records : List HistoryRecord) : List HistoryRecord :=
  records.rdropWhile fun r => r.bytes.isEmpty

/-- `Mirror::flush_history_for_rebuild`. -/
def flushHistoryForRebuild (m : Mirror vt) (keepRows : ℕ) : Mirror vt :=
  let m := m.harvest
  let m :=
    if m.parser.alternate then m
    else { m with history := m.history.pushAll (upToLastNonblank (m.droppedRecords keepRows)) }
  { m with parked := false, stagedSeen := 0 }

/-- `Mirror::start_view`. -/
def startView (m : Mirror vt) (view : View) : Transition × Mirror vt :=
  let m := m.flushHistoryForRebuild view.rows
  let snapshot := render (renderSnapshot vt m.parser.screen view.rows view.cols)
  let m := { m with
    parser := (Parser.new vt view.rows view.cols stageScrollback).process snapshot
    shadow := some ((Parser.new vt view.rows view.cols 0).process snapshot)
    view := some view
    zoneDirty := false }
  (⟨some (view.rows, view.cols),
    [.viewHostPrelude] ++ m.pushCropToHostScrollback ++ m.renderHostFull, some snapshot⟩, m)

/-- `Mirror::end_view`. -/
def endView (m : Mirror vt) : Transition × Mirror vt :=
  let m := m.harvest
  let m := { m with parked := false, stagedSeen := 0 }
  let zone := m.pushZoneToHostScrollback
  let m := { m with
    zoneDirty := false
    view := none
    shadow := none
    parser := Parser.new vt m.hostRows m.hostCols stageScrollback }
  (⟨some (m.hostRows, m.hostCols), zone ++ [.clear, .resetInputModes], none⟩, m)

/-- `Mirror::host_resized`. -/
def hostResized (m : Mirror vt) (rows cols : ℕ) : Transition × Mirror vt :=
  let m := { m with hostRows := rows, hostCols := cols }
  match m.view with
  | none =>
    let m := m.harvest
    (⟨some (rows, cols), [], none⟩, { m with parser := m.parser.setSize rows cols })
  | some _ =>
    let zone := m.pushZoneToHostScrollback
    let m := { m with zoneDirty := false }
    (⟨none, zone ++ m.pushCropToHostScrollback ++ [.clear] ++ m.renderHostFull, none⟩, m)

/-- `Mirror::cleanup`: bytes to restore the host terminal on exit. -/
def cleanup (m : Mirror vt) : List TermOp :=
  match m.view with
  | none => []
  | some _ =>
    m.pushZoneToHostScrollback ++
      [.sgrReset, .showCursor, .resetInputModes, .cup (m.hostRows - 1) 0, .crlf 1]

end Mirror

end G2mirror
