import G2mirror.Archive
import G2mirror.Attach
import G2mirror.ViewClient

/-!
# Clients go live with what belongs together

Both clients wait for a snapshot, ask for the history before it and hold back
the output after it. Each of them is a viewer that starts from a snapshot and a
page fetched for it, and goes live as such viewers do.
-/

namespace G2mirror

open Splice (Launch Viewing)

variable {vt : Vt100}

theorem ok_of_toOption {ε α : Type} {x : Except ε α} {a : α} (h : x.toOption = some a) :
    x = .ok a := by
  cases x with
  | ok b => exact congrArg Except.ok (Option.some.inj h)
  | error e => cases h

/-- A page of history in a terminal: each line starts on a row of its own, unless the line
before continues on it. -/
def pageOps (lines : List PrintedLine) : List TermOp :=
  (List.zipWith (fun continued (line : PrintedLine) =>
    (if continued then [] else [.crlf 1]) ++ (line.data.map TermOp.lineText).toList ++ [.sgrReset])
    (false :: lines.map PrintedLine.wrapped) lines).flatten

/-- What a mirror paints on its host for several chunks, one after the other. -/
def paintedOps (m : Mirror vt) (chunks : List Bytes) : List TermOp :=
  chunks.zipIdx.flatMap fun (chunk, i) => ((m.feed (chunks.take i)).process chunk).1.host

/-- The view that starts with a snapshot in a terminal of `rows` by `cols`: it has the
dimensions of the snapshot. -/
def viewOf (vt : Vt100) (rows cols : ℕ) (s : Snapshot) : Transition × Mirror vt :=
  (Mirror.new vt rows cols).startView ⟨s.streamRows, s.streamCols, false⟩

/-- What a terminal gets when a client goes live: the page from its bottom row on, scrolled
clear of the rows of the view, then the view, then the snapshot and the outputs in it. -/
def liveOps (vt : Vt100) (rows cols : ℕ) (lines : List PrintedLine) (s : Snapshot)
    (outputs : List Bytes) : List TermOp :=
  [.sgrReset, .autowrapOn, .cup (rows - 1) 0] ++ pageOps lines ++
    [.cup (rows - 1) 0, .crlf (min s.streamRows rows)] ++ (viewOf vt rows cols s).1.hostOutput ++
    paintedOps (viewOf vt rows cols s).2 (s.snapshot :: outputs)

/-- The mirror that a client goes live with: it has parsed the snapshot and the outputs. -/
def liveMirror (vt : Vt100) (rows cols : ℕ) (s : Snapshot) (outputs : List Bytes) : Mirror vt :=
  (viewOf vt rows cols s).2.feed (s.snapshot :: outputs)

theorem printHistory_eq (continuation : Bool) (lines : List PrintedLine) :
    printHistory continuation lines = (List.zipWith (fun continued (line : PrintedLine) =>
      (if continued then [] else [.crlf 1]) ++ (line.data.map TermOp.lineText).toList ++
        [.sgrReset]) (continuation :: lines.map PrintedLine.wrapped) lines).flatten := by
  induction lines generalizing continuation with
  | nil => rfl
  | cons line lines ih =>
    rw [printHistory, ih, List.map_cons, List.zipWith_cons_cons, List.flatten_cons]

theorem paintedOps_cons (m : Mirror vt) (chunk : Bytes) (chunks : List Bytes) :
    paintedOps m (chunk :: chunks) =
      (m.process chunk).1.host ++ paintedOps (m.process chunk).2 chunks := by
  rw [paintedOps, List.zipIdx_cons, List.flatMap_cons, List.zipIdx_succ, List.flatMap_map]
  rfl

theorem processAll_eq (m : Mirror vt) (chunks : List Bytes) :
    processAll m chunks = (paintedOps m chunks, m.feed chunks) := by
  induction chunks generalizing m with
  | nil => rfl
  | cons chunk chunks ih =>
    simp only [processAll, ih, paintedOps_cons]
    rfl

/-- Both clients launch what going live is. -/
theorem launchView_eq (vt : Vt100) (rows cols : ℕ) (lines : List PrintedLine) (s : Snapshot)
    (pending : List Bytes) : launchView vt rows cols lines s pending =
      (liveOps vt rows cols lines s pending, liveMirror vt rows cols s pending) := by
  have hprinted : printHistory false lines = pageOps lines := printHistory_eq false lines
  simp only [launchView, processAll_eq, hprinted, liveOps, liveMirror, viewOf]

/-- A history request. -/
def ToSession.isHistory : ToSession → Bool
  | .history .. => true
  | _ => false

/-- A history request. -/
def ViewMessage.isHistory : ViewMessage → Bool
  | .history _ => true
  | _ => false

namespace Attached

/-- What an attach client is waiting for. -/
def spliceMode (a : Attached vt) : Splice.Mode Snapshot Bytes :=
  match a.mode with
  | .awaitSnapshot => .await
  | .fetchingHistory f => .fetching f.shown f.pending f.skipReplies
  | .live _ => .live

/-- The snapshots, outputs and history replies that arrive at an attach client. -/
def arrival (base64 : Base64) (a : Attached vt) :
    Event → Option (Splice.Arrival Snapshot Bytes (List HistoryLine) ToSession)
  | .message (.snapshot data width height historyNext) =>
    match base64.decode data with
    | .error _ => none
    | .ok snapshot =>
      let (streamRows, streamCols) := streamSize height width (a.rows, a.cols)
      some (.snapshot ⟨streamRows, streamCols, snapshot⟩
        (if a.historyOldest < historyNext then some (.history historyNext none) else none))
  | .message (.output data) =>
    match base64.decode data with
    | .error _ => none
    | .ok bytes => some (.output bytes)
  | .message (.historyLines _ _ _ lines) => some (.reply lines)
  | _ => none

/-- The attach client after it has gone live: its terminal shows what goes live, and it has
the mirror of that. -/
def launched (base64 : Base64) (a : Attached vt)
    (l : Launch Snapshot Bytes (List HistoryLine)) : Attached vt :=
  let printed := (l.page.getD []).map fun line => ⟨(base64.decode line.data).toOption, line.wrapped⟩
  { a with
    stdout := a.stdout ++ render (liveOps vt a.rows a.cols printed l.snapshot l.outputs)
    mode := .live (liveMirror vt a.rows a.cols l.snapshot l.outputs) }

/-- What a step comes to for a viewer in this mode: its new mode, the history
requests it makes and how it goes live. -/
structure Splices (base64 : Base64) (a a' : Attached vt)
    (effect : Splice.Effect Snapshot Bytes (List HistoryLine) ToSession) : Prop where
  mode : a'.spliceMode = effect.mode
  requests : a'.sent.filter ToSession.isHistory =
    a.sent.filter ToSession.isHistory ++ effect.asks.toList
  launch : ∀ l, effect.launch = some l → a' = a.launched base64 l

theorem Splices.stay {base64 : Base64} {a a' : Attached vt} {mode : Splice.Mode Snapshot Bytes}
    (hmode : a'.spliceMode = mode)
    (hsent : a'.sent.filter ToSession.isHistory = a.sent.filter ToSession.isHistory) :
    Splices base64 a a' (.stay mode) :=
  ⟨hmode, by simpa [Splice.Effect.stay] using hsent, nofun⟩

theorem onSnapshot_splices (base64 : Base64) (a : Attached vt) (s : Bytes) (rows cols next : ℕ) :
    Splices base64 a (a.onSnapshot base64 s rows cols next) (Splice.arrive a.spliceMode
      (.snapshot ⟨(streamSize rows cols (a.rows, a.cols)).1,
          (streamSize rows cols (a.rows, a.cols)).2, s⟩
        (if a.historyOldest < next then some (.history next none) else none))) := by
  unfold onSnapshot spliceMode
  cases hm : a.mode with
  | awaitSnapshot =>
    by_cases hnext : a.historyOldest < next
    · simp only [hnext, if_true]
      exact ⟨rfl, by simp [send, Splice.arrive, ToSession.isHistory], by rintro _ ⟨⟩⟩
    · simp only [hnext, if_false]
      exact ⟨rfl, by simp [goLive, write, Splice.arrive],
        by rintro _ ⟨⟩; simp [goLive, launched, launchView_eq, write]⟩
  | live mirror => exact .stay rfl rfl
  | fetchingHistory f =>
    by_cases hnext : a.historyOldest < next
    · simp only [hnext, if_true]
      exact ⟨rfl, by simp [send, Splice.arrive, ToSession.isHistory], by rintro _ ⟨⟩⟩
    · simp only [hnext, if_false]
      exact ⟨rfl, by simp [goLive, write, Splice.arrive],
        by rintro _ ⟨⟩; simp [goLive, launched, launchView_eq, write]⟩

@[simp] theorem refresh_mode (a : Attached vt) (input : Bytes) :
    (a.refresh input).mode = a.mode := by
  unfold refresh
  split
  · split <;> rfl
  · rfl

@[simp] theorem refresh_sent (a : Attached vt) (input : Bytes) :
    (a.refresh input).sent = a.sent := by
  unfold refresh
  split
  · split <;> rfl
  · rfl

theorem onKeys_splices (base64 : Base64) (a : Attached vt) (bytes : Bytes) :
    Splices base64 a (a.onKeys base64 bytes) (.stay a.spliceMode) := by
  unfold onKeys
  dsimp only
  refine .stay ?_ ?_
  · unfold spliceMode
    split_ifs <;> simp [send]
  · split_ifs <;> simp [send, ToSession.isHistory]

theorem onWinch_splices (base64 : Base64) (a : Attached vt) (size : Option (ℕ × ℕ)) :
    Splices base64 a (a.onWinch size) (.stay a.spliceMode) := by
  unfold onWinch
  dsimp only
  refine .stay ?_ ?_
  · unfold spliceMode
    cases hm : a.mode with
    | awaitSnapshot => simp [send]
    | fetchingHistory f => simp [send]
    | live mirror => simp [send, write]
  · split <;> simp [send, write, ToSession.isHistory]

/-- A message is handled as what arrives with it asks for. -/
theorem onMessage_splices {base64 : Base64} {a a' : Attached vt} {msg : FromSession}
    (h : a.onMessage base64 msg = .ok a') :
    Splices base64 a a' (Splice.react a.spliceMode (a.arrival base64 (.message msg))) := by
  cases msg with
  | snapshot data width height next =>
    unfold arrival
    cases hdata : base64.decode data with
    | error _ =>
      rw [onMessage_snapshot_error hdata] at h
      simp only [hdata]
      exact Except.ok.inj h ▸ .stay rfl rfl
    | ok snapshot =>
      rw [onMessage_snapshot_ok hdata] at h
      simp only [hdata]
      exact Except.ok.inj h ▸ onSnapshot_splices base64 a snapshot height width next
  | output data =>
    unfold arrival
    cases hdata : base64.decode data with
    | error _ =>
      rw [onMessage_output_error hdata] at h
      simp only [hdata]
      exact Except.ok.inj h ▸ .stay rfl rfl
    | ok bytes =>
      rw [onMessage_output_ok hdata] at h
      obtain rfl := Except.ok.inj h
      simp only [hdata]
      unfold onOutput
      cases hm : a.mode with
      | awaitSnapshot => simpa [spliceMode, hm] using .stay (by simp [spliceMode, hm]) rfl
      | live mirror => simpa [spliceMode, hm] using .stay rfl rfl
      | fetchingHistory f => simpa [spliceMode, hm] using .stay rfl rfl
  | historyLines start oldest next lines =>
    unfold onMessage at h
    unfold arrival spliceMode
    cases hm : a.mode with
    | awaitSnapshot =>
      simp only [hm, Except.ok.injEq] at h ⊢
      exact h ▸ .stay (by simp [spliceMode, hm]) rfl
    | live mirror =>
      simp only [hm, Except.ok.injEq] at h ⊢
      exact h ▸ .stay (by simp [spliceMode, hm]) rfl
    | fetchingHistory f =>
      obtain ⟨shown, pending, skip⟩ := f
      cases skip with
      | zero =>
        simp only [hm, Nat.lt_irrefl, if_false, Except.ok.injEq] at h ⊢
        subst h
        exact ⟨by simp [goLive, hm, spliceMode, Splice.react, Splice.arrive],
          by simp [goLive, hm, write, Splice.react, Splice.arrive],
          by rintro _ ⟨⟩; simp [goLive, launched, launchView_eq, write, hm]⟩
      | succ skip =>
        simp only [hm, Nat.zero_lt_succ, if_true, Except.ok.injEq] at h ⊢
        exact h ▸ .stay rfl rfl
  | title title => exact Except.ok.inj h ▸ .stay rfl rfl
  | exit status => exact Except.ok.inj h ▸ .stay rfl rfl
  | error message =>
    unfold onMessage at h
    cases hm : a.mode with
    | awaitSnapshot => simp only [hm, reduceCtorEq] at h
    | fetchingHistory f => simp only [hm, reduceCtorEq] at h
    | live mirror =>
      simp only [hm, Except.ok.injEq] at h
      exact h ▸ .stay (by simp [spliceMode, hm]) rfl
  | connect c => exact Except.ok.inj h ▸ .stay rfl rfl
  | bell epoch => exact Except.ok.inj h ▸ .stay rfl rfl
  | activity epoch => exact Except.ok.inj h ▸ .stay rfl rfl
  | hostChanged attached => exact Except.ok.inj h ▸ .stay rfl rfl

/-- A round of the client is what its mode requires. -/
theorem step_splices {base64 : Base64} {a a' : Attached vt} {e : Event}
    (h : a.step base64 e = .ok a') :
    Splices base64 a a' (Splice.react a.spliceMode (a.arrival base64 e)) := by
  cases e with
  | message msg =>
    unfold step at h
    match hmsg : a.onMessage base64 msg with
    | .ok a'' =>
      simp only [hmsg, Except.ok.injEq] at h
      exact h ▸ onMessage_splices hmsg
    | .error _ => simp only [hmsg, reduceCtorEq] at h
  | keys bytes =>
    unfold step at h
    dsimp only at h
    split at h
    · cases h
    · exact Except.ok.inj h ▸ onKeys_splices base64 a bytes
  | winch size => exact Except.ok.inj h ▸ onWinch_splices base64 a size
  | readError error => cases h
  | closed => cases h
  | stdinEof => cases h
  | stdinError error => cases h

/-- An attach client is a viewer that starts from a snapshot and its history. -/
def viewer (vt : Vt100) (base64 : Base64) :
    Splice.Viewer (Attached vt) Event Snapshot Bytes (List HistoryLine) ToSession where
  step := fun a e => (a.step base64 e).toOption
  mode := spliceMode
  requests := fun a => a.sent.filter ToSession.isHistory
  arrival := arrival base64
  launched := launched base64
  step_mode := fun h => (step_splices (ok_of_toOption h)).mode
  step_requests := fun h => (step_splices (ok_of_toOption h)).requests
  step_launch := fun h => (step_splices (ok_of_toOption h)).launch _

end Attached

namespace ViewApp

/-- What a viewing client is waiting for, while it is attached. -/
def spliceMode (app : ViewApp vt) : Splice.Mode Snapshot Bytes :=
  match app.mode with
  | .list => .ended
  | .connecting => .ended
  | .awaitSnapshot => .await
  | .fetchingHistory f => .fetching f.shown f.pending f.skipReplies
  | .live _ => .live

/-- What arrives with a message at a viewing client that is attached. An error
ends the attachment unless the client is live. -/
def arrivalOf (app : ViewApp vt) :
    FromServer → Option (Splice.Arrival Snapshot Bytes (List Json) ViewMessage)
  | .snapshot snapshot width height historyNext =>
    let (streamRows, streamCols) := streamSize height width (app.initRows, app.initCols)
    some (.snapshot ⟨streamRows, streamCols, snapshot⟩
      (if app.historyOldest < historyNext then some (.history historyNext) else none))
  | .output bytes => some (.output bytes)
  | .historyLines lines => some (.reply lines)
  | .disconnected _ => some .leave
  | .error _ =>
    match app.mode with
    | .live _ => none
    | _ => some .leave
  | _ => none

/-- What arrives at a viewing client that is attached. A live one is detached by a key. -/
def arrival (crates : ViewCrates) (app : ViewApp vt) :
    Event → Option (Splice.Arrival Snapshot Bytes (List Json) ViewMessage)
  | .text text =>
    match crates.serde.fromStr text with
    | .error _ => none
    | .ok msg => app.arrivalOf (readServer crates msg)
  | .keys bytes =>
    match app.mode with
    | .live _ => if (splitKeys (some 0x04) bytes).2 then some .leave else none
    | _ => none
  | _ => none

/-- The viewing client after it has gone live: it leaves the screen of its list first. -/
def launched (base64 : Base64) (app : ViewApp vt) (l : Launch Snapshot Bytes (List Json)) :
    ViewApp vt :=
  let printed := (l.page.getD []).map (printedLine base64)
  { app with
    stdout := app.stdout ++
      (leaveAlt ++ render (liveOps vt app.rows app.cols printed l.snapshot l.outputs))
    mode := .live (liveMirror vt app.rows app.cols l.snapshot l.outputs)
    status := "" }

/-- What a step comes to for a viewer in this mode. -/
structure Splices (base64 : Base64) (app app' : ViewApp vt)
    (effect : Splice.Effect Snapshot Bytes (List Json) ViewMessage) : Prop where
  mode : app'.spliceMode = effect.mode
  requests : app'.sent.filter ViewMessage.isHistory =
    app.sent.filter ViewMessage.isHistory ++ effect.asks.toList
  launch : ∀ l, effect.launch = some l → app' = app.launched base64 l

theorem Splices.stay {base64 : Base64} {app app' : ViewApp vt} {mode : Splice.Mode Snapshot Bytes}
    (hmode : app'.spliceMode = mode)
    (hsent : app'.sent.filter ViewMessage.isHistory = app.sent.filter ViewMessage.isHistory) :
    Splices base64 app app' (.stay mode) :=
  ⟨hmode, by simpa [Splice.Effect.stay] using hsent, nofun⟩

theorem onSnapshot_splices (base64 : Base64) (app : ViewApp vt) (s : Bytes) (rows cols next : ℕ) :
    Splices base64 app (app.onSnapshot base64 s rows cols next) (Splice.arrive app.spliceMode
      (.snapshot ⟨(streamSize rows cols (app.initRows, app.initCols)).1,
          (streamSize rows cols (app.initRows, app.initCols)).2, s⟩
        (if app.historyOldest < next then some (.history next) else none))) := by
  unfold onSnapshot spliceMode
  cases hm : app.mode with
  | list => exact .stay (by simp [spliceMode, hm]) rfl
  | connecting => exact .stay (by simp [spliceMode, hm]) rfl
  | awaitSnapshot =>
    by_cases hnext : app.historyOldest < next
    · simp only [hnext, if_true]
      exact ⟨rfl, by simp [send, Splice.arrive, ViewMessage.isHistory], by rintro _ ⟨⟩⟩
    · simp only [hnext, if_false]
      exact ⟨rfl, by simp [goLive, write, Splice.arrive],
        by rintro _ ⟨⟩; simp [goLive, launched, launchView_eq, write]⟩
  | live mirror => exact .stay rfl rfl
  | fetchingHistory f =>
    by_cases hnext : app.historyOldest < next
    · simp only [hnext, if_true]
      exact ⟨rfl, by simp [send, Splice.arrive, ViewMessage.isHistory], by rintro _ ⟨⟩⟩
    · simp only [hnext, if_false]
      exact ⟨rfl, by simp [goLive, write, Splice.arrive],
        by rintro _ ⟨⟩; simp [goLive, launched, launchView_eq, write]⟩

@[simp] theorem backToList_spliceMode (app : ViewApp vt) : app.backToList.spliceMode = .ended := rfl

@[simp] theorem backToList_history (app : ViewApp vt) :
    app.backToList.sent.filter ViewMessage.isHistory = app.sent.filter ViewMessage.isHistory := by
  unfold backToList
  split <;> simp [send, write, ViewMessage.isHistory]

/-- A message is handled as what arrives with it asks for, while the client is attached. -/
theorem onMessage_splices (base64 : Base64) (app : ViewApp vt) (msg : FromServer)
    (hattached : app.spliceMode ≠ .ended) :
    Splices base64 app (app.onMessage base64 msg)
      (Splice.react app.spliceMode (app.arrivalOf msg)) := by
  have hover (mode : Splice.Mode Snapshot Bytes) :
      Splice.arrive mode (.leave : Splice.Arrival Snapshot Bytes (List Json) ViewMessage) =
        .stay .ended := by
    cases mode <;> rfl
  cases msg with
  | snapshot s width height next => exact onSnapshot_splices base64 app s height width next
  | output bytes =>
    unfold onMessage spliceMode
    cases hm : app.mode with
    | list => exact .stay (by simp [spliceMode, hm]) rfl
    | connecting => exact .stay (by simp [spliceMode, hm]) rfl
    | awaitSnapshot => exact .stay (by simp [spliceMode, hm]) rfl
    | live mirror => exact .stay rfl rfl
    | fetchingHistory f => exact .stay rfl rfl
  | historyLines lines =>
    unfold onMessage spliceMode
    cases hm : app.mode with
    | list => exact .stay (by simp [spliceMode, hm]) rfl
    | connecting => exact .stay (by simp [spliceMode, hm]) rfl
    | awaitSnapshot => exact .stay (by simp [spliceMode, hm]) rfl
    | live mirror => exact .stay (by simp [spliceMode, hm]) rfl
    | fetchingHistory f =>
      obtain ⟨shown, pending, skip⟩ := f
      cases skip with
      | zero =>
        simp only [Nat.lt_irrefl, if_false]
        exact ⟨by simp [goLive, hm, spliceMode, arrivalOf, Splice.react, Splice.arrive],
          by simp [goLive, hm, write, arrivalOf, Splice.react, Splice.arrive],
          by rintro _ ⟨⟩; simp [goLive, launched, launchView_eq, write, hm]⟩
      | succ skip =>
        simp only [Nat.zero_lt_succ, if_true]
        exact .stay rfl rfl
  | disconnected reason =>
    unfold onMessage
    dsimp only [arrivalOf, Splice.react]
    rw [hover]
    refine .stay rfl ?_
    split_ifs <;> rw [backToList_history]
  | error message =>
    unfold onMessage
    dsimp only [arrivalOf]
    cases hm : app.mode with
    | list => exact absurd (by simp [spliceMode, hm]) hattached
    | live mirror => exact .stay rfl rfl
    | connecting => exact absurd (by simp [spliceMode, hm]) hattached
    | awaitSnapshot =>
      dsimp only [Splice.react]
      rw [hover]
      exact .stay rfl (by rw [backToList_history])
    | fetchingHistory f =>
      dsimp only [Splice.react]
      rw [hover]
      exact .stay rfl (by rw [backToList_history])
  | connect readonly oldest =>
    unfold onMessage
    cases hm : app.mode with
    | list => exact .stay rfl rfl
    | connecting => exact absurd (by simp [spliceMode, hm]) hattached
    | awaitSnapshot => exact .stay rfl rfl
    | live mirror => exact .stay rfl rfl
    | fetchingHistory f => exact .stay rfl rfl
  | title title =>
    unfold onMessage
    dsimp only
    split <;> exact .stay rfl rfl
  | sessions sessions => exact .stay rfl rfl
  | bell socket lastBellAt => exact .stay rfl rfl
  | listTitle socket title => exact .stay rfl rfl
  | exit status => exact .stay rfl rfl
  | other => exact .stay rfl rfl

theorem onKeys_splices (crates : ViewCrates) (app : ViewApp vt) (bytes : Bytes)
    (hattached : app.spliceMode ≠ .ended) :
    Splices crates.base64 app (app.onKeys crates.base64 bytes)
      (Splice.react app.spliceMode (app.arrival crates (.keys bytes))) := by
  unfold onKeys arrival
  cases hm : app.mode with
  | list => exact absurd (by simp [spliceMode, hm]) hattached
  | connecting => exact absurd (by simp [spliceMode, hm]) hattached
  | awaitSnapshot =>
    refine .stay ?_ ?_
    · unfold spliceMode
      split_ifs <;> simp [send, hm]
    · split_ifs <;> simp [send, ViewMessage.isHistory]
  | fetchingHistory f =>
    refine .stay ?_ ?_
    · unfold spliceMode
      split_ifs <;> simp [send, hm]
    · split_ifs <;> simp [send, ViewMessage.isHistory]
  | live mirror =>
    have hlive : app.spliceMode = .live := by simp [spliceMode, hm]
    dsimp only
    cases hdetach : (splitKeys (some 0x04) bytes).2 with
    | true =>
      simp only [if_true, hlive]
      refine .stay rfl ?_
      rw [backToList_history]
      split_ifs <;> simp [send, write, ViewMessage.isHistory]
    | false =>
      simp only [Bool.false_eq_true, if_false, hlive]
      refine .stay ?_ ?_
      · unfold spliceMode
        split_ifs <;> simp [send, write, hm]
      · split_ifs <;> simp [send, write, ViewMessage.isHistory]

theorem onWinch_splices (base64 : Base64) (app : ViewApp vt) (size : Option (ℕ × ℕ)) :
    Splices base64 app (app.onWinch size) (.stay app.spliceMode) := by
  unfold onWinch
  dsimp only
  cases hm : app.mode with
  | list => exact .stay (by simp [spliceMode, hm]) rfl
  | connecting => exact .stay (by simp [spliceMode, hm]) rfl
  | awaitSnapshot => exact .stay (by simp [spliceMode, hm]) rfl
  | fetchingHistory f => exact .stay (by simp [spliceMode, hm]) rfl
  | live mirror => exact .stay (by simp [spliceMode, hm]) rfl

/-- A round of the client while it is attached. -/
def attachedStep (crates : ViewCrates) (app : ViewApp vt) (e : Event) : Option (ViewApp vt) :=
  match app.mode with
  | .list => none
  | .connecting => none
  | _ => app.step crates e

/-- A round of the client while it is attached is what its mode requires. -/
theorem attachedStep_splices {crates : ViewCrates} {app app' : ViewApp vt} {e : Event}
    (h : app.attachedStep crates e = some app') :
    Splices crates.base64 app app' (Splice.react app.spliceMode (app.arrival crates e)) := by
  have hattached : app.spliceMode ≠ .ended ∧ app.step crates e = some app' := by
    unfold attachedStep at h
    unfold spliceMode
    cases hm : app.mode with
    | list => simp [hm] at h
    | connecting => simp [hm] at h
    | awaitSnapshot => exact ⟨nofun, by simpa [hm] using h⟩
    | fetchingHistory f => exact ⟨nofun, by simpa [hm] using h⟩
    | live mirror => exact ⟨nofun, by simpa [hm] using h⟩
  obtain ⟨hattached, hstep⟩ := hattached
  cases e with
  | text text =>
    obtain rfl := Option.some.inj hstep
    unfold onText arrival
    cases hread : crates.serde.fromStr text with
    | error _ =>
      simp only [hread]
      exact .stay rfl rfl
    | ok msg =>
      simp only [hread]
      exact onMessage_splices crates.base64 app (readServer crates msg) hattached
  | keys bytes =>
    unfold step at hstep
    dsimp only at hstep
    split at hstep
    · cases hstep
    · exact Option.some.inj hstep ▸ onKeys_splices crates app bytes hattached
  | winch size => exact Option.some.inj hstep ▸ onWinch_splices crates.base64 app size
  | tick =>
    obtain rfl := Option.some.inj hstep
    unfold onTick
    cases hm : app.mode with
    | list => exact absurd (by simp [spliceMode, hm]) hattached
    | connecting => exact absurd (by simp [spliceMode, hm]) hattached
    | awaitSnapshot => exact .stay rfl rfl
    | fetchingHistory f => exact .stay rfl rfl
    | live mirror => exact .stay rfl rfl

/-- A viewing client that is attached is a viewer that starts from a snapshot and
its history. -/
def viewer (vt : Vt100) (crates : ViewCrates) :
    Splice.Viewer (ViewApp vt) Event Snapshot Bytes (List Json) ViewMessage where
  step := attachedStep crates
  mode := spliceMode
  requests := fun app => app.sent.filter ViewMessage.isHistory
  arrival := arrival crates
  launched := launched crates.base64
  step_mode := fun h => (attachedStep_splices h).mode
  step_requests := fun h => (attachedStep_splices h).requests
  step_launch := fun h => (attachedStep_splices h).launch _

end ViewApp

/-- Base64 as far as one text goes. -/
def helloBase64 : Base64 where
  encode := fun bytes => String.ofList (base64Chars bytes)
  decode := fun text => if text = "SGVsbG8=" then .ok (ascii "Hello") else .error "Invalid padding"

/-- The third-party code of a viewing client, as far as that text goes. -/
def helloCrates : ViewCrates := ⟨sampleSerde, fun _ => [], helloBase64⟩

end G2mirror
