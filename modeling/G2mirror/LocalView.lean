import G2mirror.Wrapper

/-!
# A client's view in its own terminal

What `attach.rs` and `g2mirror-view.rs` have in common: a snapshot and the
outputs that follow it are kept until the history before them is there; the
history is printed into the terminal's own scrollback, and a mirror of the
session goes live below it.
-/

namespace G2mirror

/-- A snapshot with the dimensions of its stream. -/
structure Snapshot where
  streamRows : ℕ
  streamCols : ℕ
  snapshot : Bytes
  deriving DecidableEq

/-- `Mode::FetchingHistory`. -/
structure Fetching where
  shown : Snapshot
  pending : List Bytes
  /-- Stale history replies to discard. Requests on their way are far fewer than
  its `u32` can count. -/
  skipReplies : ℕ
  deriving DecidableEq

/-- The dimensions of a stream. Snapshots from old wrappers do not state them. -/
def streamSize (rows cols : ℕ) (own : ℕ × ℕ) : ℕ × ℕ :=
  if rows = 0 ∨ cols = 0 then own else (rows, cols)

/-- A line of history as it is printed: its bytes if they could be decoded, and
whether it continues on the next line. -/
structure PrintedLine where
  data : Option Bytes
  wrapped : Bool
  deriving DecidableEq

/-- A title, without control characters. -/
def cleanTitle (title : String) : String :=
  String.ofList (title.toList.filter fun c => !isControl c)

/-- The keys before the one that detaches, and whether it was pressed. -/
def splitKeys (detachKey : Option UInt8) (bytes : Bytes) : Bytes × Bool :=
  match detachKey with
  | none => (bytes, false)
  | some k => if k ∈ bytes then (bytes.takeWhile (· ≠ k), true) else (bytes, false)

/-- The loop of `go_live` over the lines of history. -/
def printHistory (continuation : Bool) : List PrintedLine → List TermOp
  | [] => []
  | line :: lines =>
    (if continuation then [] else [.crlf 1]) ++ (line.data.map TermOp.lineText).toList ++
      [.sgrReset] ++ printHistory line.wrapped lines

/-- The host output of a mirror for several chunks. -/
def processAll {vt : Vt100} (m : Mirror vt) : List Bytes → List TermOp × Mirror vt
  | [] => ([], m)
  | chunk :: chunks =>
    let (out, m) := m.process chunk
    let (rest, m) := processAll m chunks
    (out.host ++ rest, m)

/-- What both `go_live` write to a terminal of `rows` by `cols`, and the mirror they start. -/
def launchView (vt : Vt100) (rows cols : ℕ) (lines : List PrintedLine) (s : Snapshot)
    (pending : List Bytes) : List TermOp × Mirror vt :=
  let history := [.sgrReset, .autowrapOn, .cup (rows - 1) 0] ++ printHistory false lines ++
    [.cup (rows - 1) 0, .crlf (min s.streamRows rows)]
  let (view, mirror) := (Mirror.new vt rows cols).startView ⟨s.streamRows, s.streamCols, false⟩
  let (out, mirror) := processAll mirror (s.snapshot :: pending)
  (history ++ view.hostOutput ++ out, mirror)

/-- What a live client does with a snapshot: its view starts again. -/
def restartView {vt : Vt100} (m : Mirror vt) (s : Snapshot) : List TermOp × Mirror vt :=
  let (view, m) := m.startView ⟨s.streamRows, s.streamCols, false⟩
  let (out, m) := m.process s.snapshot
  (view.hostOutput ++ out.host, m)

/-- What a live client writes for child output, with one bell for any number of them. -/
def processLive {vt : Vt100} (m : Mirror vt) (bytes : Bytes) : Bytes × Mirror vt :=
  let (out, m) := m.process bytes
  (render out.host ++ (if 0 < out.bells then ascii "\x07" else []), m)

end G2mirror
