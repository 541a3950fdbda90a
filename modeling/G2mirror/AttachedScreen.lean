import G2mirror.Base64Text
import G2mirror.ClientsAgree
import G2mirror.SeamlessRestart
import G2mirror.SnapshotCrop
import G2mirror.StreamedScreen

/-!
# The session on a client's terminal

A client that goes live starts a view of its own, whose model first holds a crop of a blank screen
and is then shown the snapshot of the session and all that followed. The blank crop leaves nothing
that the snapshot does not set, so from there on the client's model and the session's are in step.
-/

namespace G2mirror

variable {vt : Vt100} {rowPen : Row → CellStyle} {wide : Bytes → Bool}

/-- The active grid of a new emulator, with the cursor hidden or not. -/
def blankCore (vt : Vt100) (rows cols : ℕ) (hidden : Bool) : Core vt.Rest :=
  { vt.blank rows cols with hideCursor := hidden }

/-- A new emulator has a blank screen. -/
theorem blankCore_eq (laws : vt.Paints rowPen) (rows cols : ℕ) (hidden : Bool) :
    blankCore vt rows cols hidden = ⟨List.replicate rows (Row.blank cols), (0, 0), hidden,
      defaultStyle, (0, rows - 1), .default, (vt.blank rows cols).rest⟩ := by
  rw [blankCore, laws.blank rows cols]

/-- The beginning of every snapshot. -/
def snapshotOpening : Bytes :=
  TermOp.clear.bytes ++ (TermOp.syncBegin.bytes ++ TermOp.hideCursor.bytes)

/-- The beginning of every snapshot leaves a blank screen with a hidden cursor. -/
theorem leads_opening (laws : vt.Paints rowPen) {rows cols : ℕ} (len : ℕ) {c : Core vt.Rest}
    (hmargins : c.margins = (0, rows - 1)) (hmodes : c.inputModes = .default)
    (hrest : c.rest = (vt.blank rows cols).rest) :
    Leads (Parser.new vt rows cols len) c snapshotOpening (blankCore vt rows cols true) := by
  let cleared : Core vt.Rest :=
    { c with
      grid := List.replicate rows (Row.blank cols), cursor := (0, 0), pen := defaultStyle }
  have hclear : Leads (Parser.new vt rows cols len) c TermOp.clear.bytes cleared :=
    fun hreached => laws.clear _ (ready_new hmargins hreached)
  have hsync : Leads (Parser.new vt rows cols len) cleared TermOp.syncBegin.bytes cleared :=
    laws.syncBegin.leads hmargins
  have hhide : Leads (Parser.new vt rows cols len) cleared TermOp.hideCursor.bytes
      { cleared with hideCursor := true } := laws.hideCursor.leads hmargins
  have hblank : { cleared with hideCursor := true } = blankCore vt rows cols true := by
    rw [blankCore_eq laws, ← hmargins, ← hmodes, ← hrest]
  exact hblank ▸ hclear.trans (hsync.trans hhide)

/-- What is left of a snapshot after its beginning. -/
theorem render_snapshot_opening (src : Screen) (rows cols : ℕ) :
    ∃ rest, render (renderSnapshot vt src rows cols) = snapshotOpening ++ rest := by
  simp only [renderSnapshot, render_append, render_cons, render_nil, List.append_nil,
    List.append_assoc, snapshotOpening]
  exact ⟨_, rfl⟩

/-- An emulator with nothing on its blank screen shows a snapshot as a new one does. -/
theorem Parser.Same.primed (laws : vt.Paints rowPen) {rows cols len : ℕ} {hidden : Bool}
    {p : Parser vt} (hreached : vt.Reached p)
    (h : p.Same ((Parser.new vt rows cols len).withCore (blankCore vt rows cols hidden)))
    (src : Screen) (len' : ℕ) :
    (p.process (render (renderSnapshot vt src rows cols))).Same
      ((Parser.new vt rows cols len').process (render (renderSnapshot vt src rows cols))) := by
  obtain ⟨rest, hrest⟩ := @render_snapshot_opening vt src rows cols
  have hblank := blankCore_eq laws rows cols
  let e := Parser.new vt rows cols len
  have hopened : (p.process snapshotOpening).Same
      (e.withCore (blankCore vt rows cols true)) := by
    have hleads := leads_opening laws len (c := blankCore vt rows cols hidden)
      (by rw [hblank]) (by rw [hblank]) (by rw [hblank])
    exact (h.process _).trans (hleads (.same hreached h.symm))
  have hnew : ((Parser.new vt rows cols len').process snapshotOpening).Same
      ((Parser.new vt rows cols len').withCore (blankCore vt rows cols true)) := by
    have hfirst := laws.blank rows cols
    exact leads_opening laws len' (c := vt.blank rows cols) (by rw [hfirst]) (by rw [hfirst]) rfl
      (.new rows cols len')
  have hlen : (e.withCore (blankCore vt rows cols true)).Same
      ((Parser.new vt rows cols len').withCore (blankCore vt rows cols true)) :=
    ⟨rfl, rfl, rfl, rfl, rfl⟩
  rw [hrest, Parser.process_append, Parser.process_append]
  exact (hopened.trans (hlen.trans hnew.symm)).process rest

/-- All rows of a new emulator are blank. -/
theorem Parser.visible_new (laws : vt.Paints rowPen) (rows cols len : ℕ) :
    ∀ row ∈ (Parser.new vt rows cols len).screen.visible, row = Row.blank cols := by
  intro row hrow
  have hcore : (Parser.new vt rows cols len).core = _ := laws.blank rows cols
  rw [visible_of_primary rfl rfl, hcore] at hrow
  exact List.eq_of_mem_replicate (List.mem_of_mem_take hrow)

/-- Nothing is said of the rows of a new emulator. -/
theorem Vt100.PaintsCrops.rows_of_new (laws : vt.Paints rowPen) (crops : vt.PaintsCrops wide)
    (rows cols len : ℕ) {width : ℕ} (hwidth : width ≤ cols) :
    ∀ diff ∈ vt.rowsDiff (Parser.new vt rows cols len).screen (blankScreen rows cols) 0 width,
      diff = [] := by
  intro diff hdiff
  have hq : vt.Reached (Parser.new vt rows cols len) := .new rows cols len
  obtain ⟨hvisible, hlength⟩ := crops.rowsLength hq rfl width hwidth
  obtain ⟨k, hk, hget⟩ := List.getElem_of_mem hdiff
  have hshown : k < (Parser.new vt rows cols len).screen.visible.length :=
    (hk.trans_eq hlength).trans_eq hvisible.symm
  have hrow := Parser.visible_new laws rows cols len _ (List.getElem_mem hshown)
  refine (crops.rowsBlank hq rfl width hwidth (List.getElem?_eq_some_iff.mpr ⟨hk, hget⟩)
    (List.getElem?_eq_some_iff.mpr ⟨hshown, hrow⟩)).mpr ?_
  change (List.replicate cols Cell.empty).take width = _
  rw [List.take_replicate, Nat.min_eq_left hwidth]

/-- The snapshot of a new emulator says nothing but its modes, and may place the cursor. -/
theorem render_snapshot_new (laws : vt.Paints rowPen) (crops : vt.PaintsCrops wide)
    (own own' len rows cols : ℕ) :
    let src := (Parser.new vt own own' len).screen
    render (renderSnapshot vt src rows cols) =
      snapshotOpening ++ (vt.inputModeFormatted src.inputModes ++
        (render (placeCursor src (own - rows) rows cols 0) ++ TermOp.syncEnd.bytes)) := by
  intro src
  have hwidth : min cols own' ≤ own' := Nat.min_le_right _ _
  let diffs := (vt.rowsDiff src (blankScreen own own') 0 (min cols own')).drop (own - rows)
  obtain ⟨-, hlength⟩ := crops.rowsLength (.new own own' len) rfl (min cols own') hwidth
  have hfits : diffs.length ≤ rows := by
    have hall : (vt.rowsDiff src (blankScreen own own') 0 (min cols own')).length = own := hlength
    rw [List.length_drop, hall]
    omega
  have hbody : (diffs.zipIdx (own - rows)).flatMap (snapshotRow (own - rows)) = [] := by
    refine List.flatMap_eq_nil_iff.mpr fun line hline => if_neg (not_not.mpr ?_)
    exact crops.rows_of_new laws own own' len hwidth _
      (List.mem_of_mem_drop (List.fst_mem_of_mem_zipIdx hline))
  have hpieces := @render_snapshot_pieces vt src rows cols diffs rfl hfits
  rw [show src.rows = own from rfl, hbody, render_nil, List.nil_append] at hpieces
  rw [hpieces, snapshotOpening]
  simp only [List.append_assoc]

/-- The crop of a blank screen is blank; the cursor may be hidden. -/
theorem leads_blankSnapshot (laws : vt.Paints rowPen) (crops : vt.PaintsCrops wide)
    (own own' len rows cols len' : ℕ) :
    ∃ hidden, Leads (Parser.new vt rows cols len') (vt.blank rows cols)
      (render (renderSnapshot vt (Parser.new vt own own' len).screen rows cols))
      (blankCore vt rows cols hidden) := by
  let q := Parser.new vt own own' len
  let e := Parser.new vt rows cols len'
  have hq : vt.Reached q := .new own own' len
  have hcore : q.core = _ := laws.blank own own'
  have hblank := laws.blank rows cols
  have hshown := blankCore_eq laws rows cols
  have hopening : Leads e (vt.blank rows cols) snapshotOpening (blankCore vt rows cols true) :=
    leads_opening laws len' (by rw [hblank]) (by rw [hblank]) rfl
  have hmodes : Leads e (blankCore vt rows cols true) (vt.inputModeFormatted q.core.inputModes)
      (blankCore vt rows cols true) := by
    intro hreached
    have hset := laws.inputMode hq (e.withCore (blankCore vt rows cols true))
      (ready_new (by rw [hshown]) hreached) (by rw [hshown]; rfl)
    have hsame : { blankCore vt rows cols true with inputModes := q.core.inputModes } =
        blankCore vt rows cols true := by
      rw [hcore, hshown]
    exact hsame ▸ hset
  have hall {hidden : Bool} (hplaced : Leads e (blankCore vt rows cols true)
      (render (placeCursor q.screen (own - rows) rows cols 0)) (blankCore vt rows cols hidden)) :
      Leads e (vt.blank rows cols) (render (renderSnapshot vt q.screen rows cols))
        (blankCore vt rows cols hidden) := by
    have hend : Leads e (blankCore vt rows cols hidden) TermOp.syncEnd.bytes
        (blankCore vt rows cols hidden) := laws.syncEnd.leads (by rw [hshown])
    rw [render_snapshot_new laws crops]
    exact hopening.trans (hmodes.trans (hplaced.trans hend))
  obtain ⟨hinside, houtside⟩ := q.screen.placeCursor_crop rows cols
  by_cases hcursor : q.screen.CursorInside rows cols
  · obtain ⟨-, -, hrow, hcol⟩ := id hcursor
    have hhome : q.screen.cursor = (0, 0) := congrArg Core.cursor hcore
    refine ⟨false, hall ?_⟩
    rw [show own - rows = q.screen.rows - rows from rfl, hinside hcursor, render_cons, render_cons,
      render_nil, List.append_nil]
    rw [hhome] at hrow hcol ⊢
    rw [Nat.zero_sub] at hrow ⊢
    have hplaced : Leads e (blankCore vt rows cols true) (cupBytes 0 0)
        (blankCore vt rows cols true) := by
      intro hreached
      have hset := laws.cup _ (ready_new (by rw [hshown]) hreached) 0 hrow 0 hcol
      have hsame : { blankCore vt rows cols true with cursor := (0, 0) } =
          blankCore vt rows cols true := by
        rw [hshown]
      exact hsame ▸ hset
    have hshow : Leads e (blankCore vt rows cols true) TermOp.showCursor.bytes
        (blankCore vt rows cols false) := laws.showCursor.leads (by rw [hshown])
    exact hplaced.trans hshow
  · refine ⟨true, hall ?_⟩
    rw [show own - rows = q.screen.rows - rows from rfl, houtside hcursor]
    exact .refl e _

/-- The session's view on a client: its model is in step with a device that was primed with the
snapshot of this screen and then fed these differences. -/
structure InStep (view : View) (src : Screen) (fed : List Bytes) (m : Mirror vt) : Prop where
  same : m.parser.Same (Stage.fedDevice vt view src fed)
  bottom : m.parser.AtBottom
  viewing : m.view.isSome = true

theorem fedDevice_append (view : View) (src : Screen) (fed fed' : List Bytes) :
    Stage.fedDevice vt view src (fed ++ fed') =
      fed'.foldl Parser.process (Stage.fedDevice vt view src fed) := by
  rw [Stage.fedDevice, Stage.fedDevice, ← List.foldl_append, List.cons_append]

theorem fedDevice_rows (view : View) (src : Screen) (fed : List Bytes) :
    (Stage.fedDevice vt view src fed).rows = view.rows := by
  induction fed using List.reverseRecOn with
  | nil => exact Parser.process_rows _ _
  | append_singleton fed bytes ih =>
    rw [fedDevice_append]
    exact (Parser.process_rows _ _).trans ih

section InStep

variable {view : View} {src : Screen} {fed : List Bytes} {m : Mirror vt}

/-- Output that the session streamed. -/
theorem InStep.process (h : InStep view src fed m) (hrows : 0 < view.rows) (bytes : Bytes) :
    InStep view src (fed ++ [bytes]) (m.process bytes).2 := by
  have hpositive : 0 < m.parser.rows := by
    rw [h.same.rows, fedDevice_rows]
    exact hrows
  obtain ⟨-, -, hview, hsame, -⟩ := Mirror.process_spec hpositive bytes
  refine ⟨?_, Mirror.process_atBottom hpositive h.bottom bytes, hview ▸ h.viewing⟩
  rw [fedDevice_append]
  exact hsame.trans (h.same.process bytes)

/-- Several chunks of it. -/
theorem InStep.processAll (h : InStep view src fed m) (hrows : 0 < view.rows)
    (pending : List Bytes) : InStep view src (fed ++ pending) (processAll m pending).2 := by
  induction pending generalizing m fed with
  | nil => rwa [List.append_nil]
  | cons bytes pending ih =>
    have hrest := ih (h.process hrows bytes)
    rwa [List.append_assoc] at hrest

/-- A change of the terminal's size leaves the model alone. -/
theorem InStep.hostResized (h : InStep view src fed m) (rows cols : ℕ) :
    InStep view src fed (m.hostResized rows cols).2 := by
  obtain ⟨v, hv⟩ := Option.isSome_iff_exists.mp h.viewing
  rw [Mirror.hostResized_of_some hv]
  exact ⟨h.same, h.bottom, h.viewing⟩

/-- A client that goes live with the snapshot and what was streamed since then is in step. -/
theorem launchView_inStep (laws : vt.Paints rowPen) (crops : vt.PaintsCrops wide) {rows : ℕ}
    (cols : ℕ) (hown : 0 < rows) (hrows : 0 < view.rows) (lines : List PrintedLine)
    (pending : List Bytes) :
    InStep view src pending (launchView vt rows cols lines
      ⟨view.rows, view.cols, render (renderSnapshot vt src view.rows view.cols)⟩ pending).2 := by
  let own : View := ⟨view.rows, view.cols, false⟩
  let started := ((Mirror.new vt rows cols).startView own).2
  let snapshot := render (renderSnapshot vt src view.rows view.cols)
  have hsound := Mirror.new_sound vt cols hown
  have hscreen : ((Mirror.new vt rows cols).flushHistoryForRebuild own.rows).parser.screen =
      (Parser.new vt rows cols stageScrollback).screen :=
    Mirror.flush_screen hsound.rows hsound.bottom own.rows
  have hstarted : started.Sound := hsound.call (c := .startView own) hrows
  obtain ⟨hidden, hblank⟩ := leads_blankSnapshot laws crops rows cols stageScrollback view.rows
    view.cols stageScrollback
  have hblanked : started.parser.Same ((Parser.new vt view.rows view.cols
      stageScrollback).withCore (blankCore vt view.rows view.cols hidden)) := by
    rw [← hscreen] at hblank
    exact hblank (.new view.rows view.cols stageScrollback)
  obtain ⟨-, -, hview, hsame, -⟩ := Mirror.process_spec hstarted.rows snapshot
  have hshown : InStep view src [] (started.process snapshot).2 := by
    refine ⟨?_, Mirror.process_atBottom hstarted.rows hstarted.bottom snapshot, ?_⟩
    · exact hsame.trans (hblanked.primed laws hstarted.reached src 0)
    · rw [hview]
      rfl
  exact hshown.processAll hrows pending

end InStep

/-- The output that a message carries, as a client decodes it. -/
def FromSession.output? (base64 : Base64) : FromSession → Option Bytes
  | .output data => (base64.decode data).toOption
  | _ => none

namespace Attached

/-- The message that a client receives here. -/
def Event.message? : Event → Option FromSession
  | .message msg => some msg
  | _ => none

/-- What a client has received after these events. -/
def received (events : List Event) : List FromSession := events.filterMap Event.message?

/-- One round of a client that has not ended. -/
def next (base64 : Base64) (a : Attached vt) (e : Event) : Option (Attached vt) :=
  (a.step base64 e).toOption

/-- The size of a terminal has rows. -/
theorem hostSize_rows (size : Option (ℕ × ℕ)) : 0 < (hostSize size).1 := by
  unfold hostSize
  split
  · split <;> simp [*]
  · decide

/-- The client holds the snapshot of this screen and what was streamed since then, or shows it. -/
structure Follows (view : View) (src : Screen) (fed : List Bytes) (a : Attached vt) : Prop where
  rows : 0 < a.rows
  asked : a.mode ≠ .awaitSnapshot
  fetching : ∀ f, a.mode = .fetchingHistory f → f.pending = fed ∧
    f.shown = ⟨view.rows, view.cols, render (renderSnapshot vt src view.rows view.cols)⟩
  live : ∀ m, a.mode = .live m → InStep view src fed m

section Follows

variable {base64 : Base64} {view : View} {src : Screen} {fed : List Bytes} {a a' : Attached vt}

/-- Nothing changes but what has nothing to do with the view. -/
theorem Follows.of_mode (h : a.Follows view src fed) (hrows : 0 < a'.rows)
    (hmode : a'.mode = a.mode) : a'.Follows view src fed :=
  ⟨hrows, hmode ▸ h.asked, hmode ▸ h.fetching, hmode ▸ h.live⟩

theorem follows_of_live {m : Mirror vt} (hrows : 0 < a.rows) (hmode : a.mode = .live m)
    (h : InStep view src fed m) : a.Follows view src fed := by
  refine ⟨hrows, fun hm' => (nomatch hmode.symm.trans hm'),
    fun _ hm' => (nomatch hmode.symm.trans hm'), fun m' hm' => ?_⟩
  obtain rfl := AttachMode.live.inj (hmode.symm.trans hm')
  exact h

theorem follows_of_fetching {f : Fetching} (hrows : 0 < a.rows)
    (hmode : a.mode = .fetchingHistory f) (hpending : f.pending = fed)
    (hshown : f.shown =
      ⟨view.rows, view.cols, render (renderSnapshot vt src view.rows view.cols)⟩) :
    a.Follows view src fed := by
  refine ⟨hrows, fun hf' => (nomatch hmode.symm.trans hf'), fun f' hf' => ?_,
    fun _ hf' => (nomatch hmode.symm.trans hf')⟩
  obtain rfl := AttachMode.fetchingHistory.inj (hmode.symm.trans hf')
  exact ⟨hpending, hshown⟩

variable (laws : vt.Paints rowPen) (crops : vt.PaintsCrops wide) (hview : 0 < view.rows)

include laws crops hview in
/-- Going live. -/
theorem Follows.goLive (h : a.Follows view src fed) {f : Fetching}
    (hmode : a.mode = .fetchingHistory f) (base64 : Base64) (lines : List HistoryLine) :
    (a.goLive base64 lines).Follows view src fed := by
  obtain ⟨hpending, hshown⟩ := h.fetching f hmode
  unfold Attached.goLive
  rw [hmode]
  dsimp only
  rw [hpending, hshown]
  have hlaunched : InStep view src fed _ := launchView_inStep laws crops a.cols h.rows hview
    (lines.map fun l => ⟨(base64.decode l.data).toOption, l.wrapped⟩) fed
  exact follows_of_live h.rows rfl hlaunched

include laws crops hview in
/-- A snapshot of the session's screen, to a client that is not live. -/
theorem onSnapshot_follows (hrows : 0 < a.rows) (hcols : 0 < view.cols) (hwaits : a.isLive = false)
    (base64 : Base64) (src : Screen) (next : ℕ) :
    (a.onSnapshot base64 (render (renderSnapshot vt src view.rows view.cols)) view.rows view.cols
      next).Follows view src [] := by
  have hsize (own : ℕ × ℕ) : streamSize view.rows view.cols own = (view.rows, view.cols) :=
    if_neg (by omega)
  have hfetching {f : Fetching} {sent : List ToSession} (hpending : f.pending = [])
      (hshown : f.shown =
        ⟨view.rows, view.cols, render (renderSnapshot vt src view.rows view.cols)⟩) :
      Attached.Follows view src [] { a with mode := .fetchingHistory f, sent := sent } :=
    follows_of_fetching hrows rfl hpending hshown
  unfold onSnapshot
  rw [hsize]
  dsimp only
  cases hmode : a.mode with
  | awaitSnapshot =>
    dsimp only
    split
    · exact hfetching rfl rfl
    · exact (hfetching rfl rfl).goLive laws crops hview rfl base64 []
  | fetchingHistory f =>
    dsimp only
    split
    · exact hfetching rfl rfl
    · exact (hfetching rfl rfl).goLive laws crops hview rfl base64 []
  | live m =>
    rw [isLive_eq_true hmode] at hwaits
    cases hwaits

include hview in
/-- Streamed output. -/
theorem Follows.onOutput (h : a.Follows view src fed) (bytes : Bytes) :
    (a.onOutput bytes).Follows view src (fed ++ [bytes]) := by
  unfold Attached.onOutput
  cases hmode : a.mode with
  | awaitSnapshot => exact absurd hmode h.asked
  | fetchingHistory f =>
    obtain ⟨hpending, hshown⟩ := h.fetching f hmode
    exact follows_of_fetching h.rows rfl (congrArg (· ++ [bytes]) hpending) hshown
  | live m => exact follows_of_live h.rows rfl ((h.live m hmode).process hview bytes)

include laws crops hview in
/-- Every message but a snapshot. -/
theorem Follows.onMessage (h : a.Follows view src fed) {msg : FromSession}
    (hmsg : msg.isSnapshot = false) (hstep : a.onMessage base64 msg = .ok a') :
    a'.Follows view src (fed ++ (msg.output? base64).toList) := by
  have hkeep {b : Attached vt} (hrows : b.rows = a.rows) (hmode : b.mode = a.mode) :
      b.Follows view src (fed ++ []) := by
    rw [List.append_nil]
    exact h.of_mode (hrows ▸ h.rows) hmode
  cases msg with
  | snapshot => cases hmsg
  | output data =>
    cases hdata : base64.decode data with
    | error e =>
      rw [onMessage_output_error hdata] at hstep
      cases hstep
      rw [FromSession.output?, hdata]
      exact hkeep rfl rfl
    | ok bytes =>
      rw [onMessage_output_ok hdata] at hstep
      cases hstep
      rw [FromSession.output?, hdata]
      exact h.onOutput hview bytes
  | historyLines start oldest next lines =>
    unfold Attached.onMessage at hstep
    cases hmode : a.mode with
    | fetchingHistory f =>
      rw [hmode] at hstep
      dsimp only at hstep
      split at hstep
      · cases hstep
        obtain ⟨hpending, hshown⟩ := h.fetching f hmode
        exact follows_of_fetching h.rows rfl (hpending.trans (List.append_nil fed).symm) hshown
      · cases hstep
        exact (List.append_nil fed).symm ▸ h.goLive laws crops hview hmode base64 lines
    | awaitSnapshot => exact absurd hmode h.asked
    | live m =>
      rw [hmode] at hstep
      cases hstep
      exact hkeep rfl rfl
  | error message =>
    unfold Attached.onMessage at hstep
    dsimp only at hstep
    split at hstep
    · cases hstep
      exact hkeep rfl rfl
    · cases hstep
  | _ =>
    cases hstep
    exact hkeep rfl rfl

theorem Follows.onKeys (h : a.Follows view src fed) (base64 : Base64) (bytes : Bytes) :
    (a.onKeys base64 bytes).Follows view src fed := by
  have hrows : (a.onKeys base64 bytes).rows = a.rows :=
    congrArg Prod.fst (onKeys_terminal a base64 bytes)
  have hmode : (a.onKeys base64 bytes).mode = a.mode := by
    unfold Attached.onKeys
    dsimp only
    split_ifs <;> simp [send]
  exact h.of_mode (hrows ▸ h.rows) hmode

theorem Follows.onWinch (h : a.Follows view src fed) (size : Option (ℕ × ℕ)) :
    (a.onWinch size).Follows view src fed := by
  have hrows := hostSize_rows size
  unfold Attached.onWinch
  dsimp only
  cases hmode : a.mode with
  | awaitSnapshot => exact absurd hmode h.asked
  | fetchingHistory f =>
    obtain ⟨hpending, hshown⟩ := h.fetching f hmode
    exact follows_of_fetching hrows rfl hpending hshown
  | live m => exact follows_of_live hrows rfl ((h.live m hmode).hostResized _ _)

include laws crops hview in
/-- Whatever happens to the client but a snapshot. -/
theorem Follows.step (h : a.Follows view src fed) {e : Event}
    (he : ∀ msg, e.message? = some msg → msg.isSnapshot = false)
    (hstep : a.next base64 e = some a') :
    a'.Follows view src (fed ++ (received [e]).filterMap (FromSession.output? base64)) := by
  have hstep' := ok_of_toOption hstep
  have hnothing : fed ++ [] = fed := List.append_nil fed
  cases e with
  | message msg =>
    have hdone : a.onMessage base64 msg = .ok a' := onMessage_of_step hstep'
    have hfed : (received [.message msg]).filterMap (FromSession.output? base64) =
        (msg.output? base64).toList := by
      change [msg].filterMap (FromSession.output? base64) = _
      rw [List.filterMap_cons]
      cases msg.output? base64 <;> rfl
    rw [hfed]
    exact h.onMessage laws crops hview (he msg rfl) hdone
  | keys bytes =>
    unfold Attached.step at hstep'
    dsimp only at hstep'
    split at hstep'
    · cases hstep'
    · cases hstep'
      exact hnothing.symm ▸ h.onKeys base64 bytes
  | winch size =>
    cases hstep'
    exact hnothing.symm ▸ h.onWinch size
  | _ => cases hstep'

include laws crops hview in
theorem Follows.run (h : a.Follows view src fed) {es : List Event}
    (hes : ∀ msg ∈ received es, msg.isSnapshot = false)
    (hrun : Machine.run (next base64) a es = some a') :
    a'.Follows view src (fed ++ (received es).filterMap (FromSession.output? base64)) := by
  induction es generalizing a fed with
  | nil =>
    obtain rfl := Option.some.inj hrun
    exact (List.append_nil fed).symm ▸ h
  | cons e es ih =>
    obtain ⟨a₁, hstep, hrest⟩ := Machine.run_cons_eq_some.mp hrun
    have hsplit : received (e :: es) = received [e] ++ received es := by
      simp only [received, List.filterMap_cons]
      cases e.message? <;> rfl
    rw [hsplit] at hes ⊢
    have he (msg : FromSession) (hmsg : e.message? = some msg) : msg.isSnapshot = false :=
      hes msg (List.mem_append_left _ (by simp [received, hmsg]))
    have hall := ih (h.step laws crops hview he hstep)
      (fun msg hmsg => hes msg (List.mem_append_right _ hmsg)) hrest
    rwa [List.append_assoc, ← List.filterMap_append] at hall

end Follows

section Rows

variable {base64 : Base64} {a a' : Attached vt}

/-- The terminal of a client keeps having rows. -/
theorem next_rows (h : 0 < a.rows) {e : Event} (hstep : a.next base64 e = some a') :
    0 < a'.rows := by
  have hstep' := ok_of_toOption hstep
  cases e with
  | message msg =>
    exact h.trans_eq (congrArg Prod.fst (onMessage_terminal (onMessage_of_step hstep'))).symm
  | keys bytes =>
    rw [onKeys_of_step hstep']
    exact h.trans_eq (congrArg Prod.fst (onKeys_terminal a base64 bytes)).symm
  | winch size =>
    obtain rfl := Except.ok.inj hstep'
    unfold onWinch
    dsimp only
    split <;> exact hostSize_rows size
  | _ => cases hstep'

theorem run_rows (h : 0 < a.rows) {es : List Event}
    (hrun : Machine.run (next base64) a es = some a') : 0 < a'.rows :=
  Machine.run_invariant (I := fun b : Attached vt => 0 < b.rows)
    (fun _ _ _ hb hstep => next_rows hb hstep) h hrun

end Rows

end Attached

theorem exists_live {a : Attached vt} (h : a.isLive = true) : ∃ m, a.mode = .live m := by
  unfold Attached.isLive at h
  split at h
  · rename_i m hm
    exact ⟨m, hm⟩
  · cases h

/-- The last elements of a kind in two ways of splitting a list are the same. -/
theorem eq_of_last {α : Type} {P : α → Prop} {l l' m m' : List α} {x y : α}
    (h : l ++ x :: m = l' ++ y :: m') (hx : P x) (hy : P y) (hm : ∀ z ∈ m, ¬P z)
    (hm' : ∀ z ∈ m', ¬P z) : x = y ∧ m = m' := by
  rcases List.append_eq_append_iff.mp h with ⟨beyond, -, hbeyond⟩ | ⟨beyond, -, hbeyond⟩
  · cases beyond with
    | nil => exact List.cons.inj hbeyond
    | cons z beyond =>
      obtain ⟨-, rfl⟩ := List.cons.inj hbeyond
      exact absurd hy (hm y (List.mem_append_right beyond List.mem_cons_self))
  · cases beyond with
    | nil => exact (List.cons.inj hbeyond).imp Eq.symm Eq.symm
    | cons z beyond =>
      obtain ⟨-, rfl⟩ := List.cons.inj hbeyond
      exact absurd hx (hm' x (List.mem_append_right beyond List.mem_cons_self))

/-- A device that was fed its view's stream is at the bottom of its scrollback. -/
theorem fedDevice_atBottom (view : View) (src : Screen) (fed : List Bytes) :
    (Stage.fedDevice vt view src fed).AtBottom := by
  refine Parser.atBottom_of_offset ?_
  induction fed using List.reverseRecOn with
  | nil => exact Parser.process_offset rfl _
  | append_singleton fed bytes ih =>
    rw [fedDevice_append]
    exact Parser.process_offset ih bytes

/-- The output that a client decodes is what was streamed. -/
theorem outputs_of_stream {base64 : Base64}
    (hbase64 : ∀ bytes, base64.decode (base64.encode bytes) = .ok bytes) {msgs : List FromSession}
    {diffs : List Bytes}
    (h : msgs.filter FromSession.isStream = diffs.map fun d => .output (base64.encode d)) :
    msgs.filterMap (FromSession.output? base64) = diffs := by
  have hkept : msgs.filterMap (FromSession.output? base64) =
      (msgs.filter FromSession.isStream).filterMap (FromSession.output? base64) := by
    rw [List.filterMap_filter]
    refine List.filterMap_congr fun msg _ => ?_
    cases msg <;> rfl
  have hdecoded (d : Bytes) :
      (FromSession.output (base64.encode d)).output? base64 = some d := by
    rw [FromSession.output?, hbase64]
    rfl
  rw [hkept, h, List.filterMap_map]
  exact (List.filterMap_congr fun d _ => hdecoded d).trans List.filterMap_some

/-- On its way to a live client a session loses nothing: a client that was greeted, was not live
when its last snapshot came, and has received all that the session sent it shows the session's
screen, as long as no view was started since that snapshot. -/
theorem attached_terminal_shows_session (laws : vt.Paints rowPen) (crops : vt.PaintsCrops wide)
    (hfaithful : vt.DiffsFaithful) {env : Env} {config : Config} {w : Wrapper vt}
    (hbase64 : ∀ bytes, env.base64.decode (env.base64.encode bytes) = .ok bytes)
    (hrows : 0 < config.size.1) (hcols : 0 < config.size.2) {events : List Event}
    (hsession : Wrapper.session vt env config events = some w) (happlied : w.log.StartsApplied)
    {c : Client} (hc : c ∈ w.viewers) (hviewing : c.isViewing = true)
    (hprimed : w.log.Primed c.id) {greeting : Connect} {size : Option (ℕ × ℕ)} {force : Bool}
    {detachKey : Option UInt8} {es es' : List Attached.Event} {snapshot : FromSession}
    (hreceived : w.log.messagesTo c.id =
      .connect greeting :: Attached.received (es ++ .message snapshot :: es'))
    (hsnapshot : snapshot.isSnapshot = true)
    (hlast : ∀ msg ∈ Attached.received es', msg.isSnapshot = false) {a a' : Attached vt}
    (hbefore : Machine.run (Attached.next env.base64)
      (.start vt (hostSize size).1 (hostSize size).2 force detachKey greeting) es = some a)
    (hwaits : a.isLive = false)
    (hafter : Machine.run (Attached.next env.base64) a (.message snapshot :: es') = some a') :
    ∀ m, a'.mode = .live m → m.parser.screen = w.mirror.parser.screen := by
  have hstage := Wrapper.session_faithful hfaithful hrows hcols hsession
  obtain ⟨view, hview, -, hsync⟩ := Wrapper.session_coherent hsession happlied c hc hviewing
  obtain ⟨src, diffs, earlier, later, next, hmessages, hnone, hstreamed, hcoherent⟩ :=
    hsync.messages hprimed hstage.shows hview
  have hpositive : 0 < view.rows := hcoherent.positive
  let sent : FromSession := .snapshot (env.base64.encode
    (render (renderSnapshot vt src view.rows view.cols))) view.cols view.rows next
  obtain ⟨hsame, hes'⟩ : snapshot = sent ∧ Attached.received es' = later := by
    have hsplit : Attached.received (es ++ .message snapshot :: es') =
        Attached.received es ++ snapshot :: Attached.received es' := List.filterMap_append
    rw [hmessages, hsplit] at hreceived
    have hboth : earlier ++ sent :: later =
        (.connect greeting :: Attached.received es) ++ snapshot :: Attached.received es' :=
      hreceived
    exact eq_of_last (P := fun msg => msg.isSnapshot = true) hboth.symm hsnapshot rfl
      (fun msg hmsg => Bool.eq_false_iff.mp (hlast msg hmsg))
      (fun msg hmsg => Bool.eq_false_iff.mp (hnone msg hmsg))
  obtain ⟨a₁, hshown, hrest⟩ := Machine.run_cons_eq_some.mp hafter
  have hfollows : a₁.Follows view src [] := by
    have hmessage := onMessage_of_step (ok_of_toOption hshown)
    rw [hsame, Attached.onMessage_snapshot_ok (hbase64 _)] at hmessage
    rw [← Except.ok.inj hmessage]
    exact Attached.onSnapshot_follows laws crops hpositive
      (Attached.run_rows (Attached.hostSize_rows size) hbefore) (hstage.view view hview) hwaits
      env.base64 src next
  have hlive := (hfollows.run laws crops hpositive hlast hrest).live
  intro m hm
  have hstep := hlive m hm
  rw [List.nil_append, hes', outputs_of_stream hbase64 hstreamed] at hstep
  exact (hstep.same.screen hstep.bottom (fedDevice_atBottom view src diffs)).trans hcoherent.shown

/-- An attach client comes to a headless session, views it, and the app writes twice. -/
def attachedSession : List Event :=
  Wrapper.joins ⟨1, "g2mirror --attach", 4, 3, none, none, .host, false⟩ ++
    [.viewerMessage 0 (.message .view) fun _ => 0, .output (ascii "ab") ⟨0, 0⟩ ⟨0, 0⟩,
      .output (ascii "\r\ncd") ⟨0, 0⟩ ⟨0, 0⟩]

/-- The greeting of a new headless session that nobody hosts. -/
def hostlessGreeting : Connect :=
  ⟨protocolVersion, 1, "sh", "/", 5, 5, false, ⟨0, 0⟩, none, true, true, none, none⟩

/-- What the client was sent with its last snapshot. -/
def attachedSnapshot : FromSession := .snapshot "G1swbRtbSBtbMkobWz8yMDI2aBtbPzI1bBtbPzIwMjZs" 4 3 0

/-- What came afterwards, while it was also typed on and became larger. -/
def attachedEvents : List Attached.Event :=
  [.message (.output "G1swbRtbSBtbMkobWz8yNWwbWzBtG1sxOzFIYWIbWzE7M0g="), .keys [refreshKey],
    .winch (some (6, 5)),
    .message (.output "G1swbRtbSBtbMkobWz8yNWwbWzBtG1sxOzFIYWIbWzBtG1syOzFIY2QbWzI7M0g=")]

theorem attached_terminal_shows_session_of_output :
    ∃ w ∈ Wrapper.session asciiVt100 base64Env (Wrapper.smallConfig true) attachedSession,
      ∃ a ∈ Machine.run (Attached.next base64Env.base64)
          (.start asciiVt100 3 4 false none hostlessGreeting)
          (.message (.hostChanged true) :: .message attachedSnapshot :: attachedEvents),
        ∃ m, a.mode = .live m ∧ m.parser.screen = w.mirror.parser.screen ∧
          m.parser.screen.visible.map (fun row => (row.record 4).bytes) =
            [ascii "ab", ascii "cd", []] := by
  obtain ⟨w, hsession, happlied, ⟨c, hc, hid, hviewing⟩, hprimed, hreceived, hrows⟩ :
      ∃ w ∈ Wrapper.session asciiVt100 base64Env (Wrapper.smallConfig true) attachedSession,
        w.log.StartsApplied ∧ (∃ c ∈ w.viewers, c.id = 0 ∧ c.isViewing = true) ∧
          w.log.Primed 0 ∧ w.log.messagesTo 0 = .connect hostlessGreeting ::
            Attached.received ([.message (.hostChanged true)] ++
              .message attachedSnapshot :: attachedEvents) ∧
          w.mirror.parser.screen.visible.map (fun row => (row.record 4).bytes) =
            [ascii "ab", ascii "cd", []] := by
    decide +kernel
  obtain ⟨a, hbefore, hwaits, a', hafter, hlive⟩ :
      ∃ a ∈ Machine.run (Attached.next base64Env.base64)
          (Attached.start asciiVt100 3 4 false none hostlessGreeting)
          [.message (.hostChanged true)], a.isLive = false ∧
        ∃ a' ∈ Machine.run (Attached.next base64Env.base64) a
          (.message attachedSnapshot :: attachedEvents), a'.isLive = true := by
    decide +kernel
  obtain ⟨m, hm⟩ := exists_live hlive
  have hshows := @attached_terminal_shows_session asciiVt100 _ _ asciiVt100_paints
    asciiVt100_paintsCrops asciiVt100_diffsFaithful _ _ _ standardBase64_decode_encode (by decide)
    (by decide) _ hsession happlied c hc hviewing (hid ▸ hprimed) hostlessGreeting (some (3, 4))
    false none _ _ attachedSnapshot (hid ▸ hreceived) rfl (by decide) _ _ hbefore hwaits hafter m hm
  obtain ⟨a₁, hfirst, hnothing⟩ := Machine.run_cons_eq_some.mp hbefore
  obtain rfl := Option.some.inj hnothing
  exact ⟨w, hsession, a', Machine.run_cons_eq_some.mpr ⟨a₁, hfirst, hafter⟩, m, hm, hshows,
    hshows ▸ hrows⟩

end G2mirror
