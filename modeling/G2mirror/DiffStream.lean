import G2mirror.ViewTransitions

/-!
# The diff stream within one view

A device is primed with the snapshot and then fed the differences between the
model and the shadow. Three emulators have to agree after every call: the model,
parsed in slices with its scrollback position moved about; the shadow, fed whole
chunks; and the device, which never sees the app's bytes.
-/

namespace G2mirror

variable {vt : Vt100}

namespace Mirror

/-- A call to a mirror. -/
def call (m : Mirror vt) : Call → Mirror vt
  | .process bytes => (m.process bytes).2
  | .startView view => (m.startView view).2
  | .endView => m.endView.2
  | .hostResized rows cols => (m.hostResized rows cols).2

/-- After a harvest the active grid is scrolled to its bottom. -/
theorem harvest_atBottom {m : Mirror vt} (hrows : 0 < m.parser.rows) :
    m.harvest.parser.AtBottom := by
  cases halt : m.parser.alternate with
  | true =>
    rw [harvest_of_alternate halt, Parser.AtBottom, Parser.scrollback, if_pos halt]
  | false =>
    rw [harvest_eq halt hrows]
    exact Parser.atBottom_of_offset rfl

/-- Flushing for a rebuild leaves the active grid at its bottom. -/
theorem flush_atBottom {m : Mirror vt} (hrows : 0 < m.parser.rows) (keepRows : ℕ) :
    (m.flushHistoryForRebuild keepRows).parser.AtBottom := by
  have hparser : (m.flushHistoryForRebuild keepRows).parser = m.harvest.parser := by
    rw [flushHistoryForRebuild]
    change (if m.harvest.parser.alternate = true then m.harvest else _ : Mirror vt).parser = _
    split <;> rfl
  rw [hparser]
  exact harvest_atBottom hrows

/-- Flushing for a rebuild changes nothing that one sees. -/
theorem flush_screen {m : Mirror vt} (hrows : 0 < m.parser.rows) (hbottom : m.parser.AtBottom)
    (keepRows : ℕ) : (m.flushHistoryForRebuild keepRows).parser.screen = m.parser.screen :=
  (m.flushHistoryForRebuild_rebooked keepRows).same.screen (flush_atBottom hrows keepRows) hbottom

/-- However a chunk is sliced, the active grid is at its bottom when the output is made. -/
theorem taken_atBottom {m : Mirror vt} (hrows : 0 < m.parser.rows) (hbottom : m.parser.AtBottom)
    (bytes : Bytes) : (m.taken bytes).parser.AtBottom := by
  have hslices {m : Mirror vt} (hrows : 0 < m.parser.rows) (hbottom : m.parser.AtBottom)
      (slices : List Bytes) : (slices.foldl processSlice m).parser.AtBottom := by
    induction slices generalizing m with
    | nil => exact hbottom
    | cons slice slices ih =>
      have hparsed : 0 < (m.parsed slice).parser.rows := by
        rw [(m.parsed_same slice).rows, Parser.process_rows]
        exact hrows
      refine ih ?_ (harvest_atBottom hparsed)
      rwa [(m.processSlice_sameView slice).rows]
  obtain ⟨title, hdone⟩ := m.taken_eq bytes
  rw [hdone]
  exact hslices hrows hbottom _

/-- The same holds of the mirror after the chunk. -/
theorem process_atBottom {m : Mirror vt} (hrows : 0 < m.parser.rows)
    (hbottom : m.parser.AtBottom) (bytes : Bytes) : (m.process bytes).2.parser.AtBottom := by
  have htaken := taken_atBottom hrows hbottom bytes
  obtain ⟨title, hdone⟩ := m.taken_eq bytes
  obtain ⟨title', shadow, zoneDirty, hend⟩ := m.process_eq bytes
  rw [hdone] at htaken
  rw [hend]
  exact htaken

/-- What sized calls preserve: sizes of at least one row, and an emulator that
can be reached and is scrolled to the bottom of its active grid. -/
structure Sound (m : Mirror vt) : Prop where
  hostRows : 0 < m.hostRows
  rows : 0 < m.parser.rows
  reached : vt.Reached m.parser
  bottom : m.parser.AtBottom

theorem new_sound (vt : Vt100) {hostRows : ℕ} (hostCols : ℕ) (hrows : 0 < hostRows) :
    (Mirror.new vt hostRows hostCols).Sound :=
  ⟨hrows, hrows, .new hostRows hostCols stageScrollback, rfl⟩

theorem Sound.call {m : Mirror vt} (h : m.Sound) {c : Call} (hc : c.Sized) : (m.call c).Sound := by
  have hharvest := m.harvest_rebooked.sameView
  cases c with
  | process bytes =>
    obtain ⟨hhostRows, -, -, hsame, -⟩ := process_spec h.rows bytes
    refine ⟨?_, ?_, .same (.process bytes h.reached) hsame, ?_⟩
    · change 0 < (m.process bytes).2.hostRows
      rw [hhostRows]
      exact h.hostRows
    · change 0 < (m.process bytes).2.parser.rows
      rw [hsame.rows, Parser.process_rows]
      exact h.rows
    · exact process_atBottom h.rows h.bottom bytes
  | startView view =>
    refine ⟨?_, ?_, .process _ (.new view.rows view.cols stageScrollback),
      Parser.atBottom_of_offset (Parser.process_offset rfl _)⟩
    · change 0 < (m.flushHistoryForRebuild view.rows).hostRows
      rw [(m.flushHistoryForRebuild_rebooked view.rows).sameView.hostRows]
      exact h.hostRows
    · change 0 < ((blankParser vt view).process _).rows
      rw [Parser.process_rows]
      exact hc
  | endView =>
    have hrows : 0 < m.harvest.hostRows := by
      rw [hharvest.hostRows]
      exact h.hostRows
    exact ⟨hrows, hrows, .new _ _ stageScrollback, rfl⟩
  | hostResized rows cols =>
    cases hview : m.view with
    | none =>
      have hsized := (m.withHost rows cols).harvest_rebooked
      rw [Mirror.call, hostResized_of_none hview]
      exact ⟨hsized.sameView.hostRows ▸ hc, hc, .setSize rows cols (.same h.reached hsized.same),
        harvest_atBottom (m := m.withHost rows cols) h.rows⟩
    | some v =>
      rw [Mirror.call, hostResized_of_some hview]
      exact ⟨hc, h.rows, h.reached, h.bottom⟩

/-- Every mirror that sized calls lead to is sound. -/
theorem sound_of_calls {hostRows : ℕ} (hostCols : ℕ) (hrows : 0 < hostRows) {calls : List Call}
    (hcalls : ∀ c ∈ calls, c.Sized) :
    (calls.foldl call (Mirror.new vt hostRows hostCols)).Sound := by
  have hfold {m : Mirror vt} (hm : m.Sound) {calls : List Call} (hcalls : ∀ c ∈ calls, c.Sized) :
      (calls.foldl call m).Sound := by
    induction calls generalizing m with
    | nil => exact hm
    | cons c calls ih =>
      exact ih (hm.call (hcalls c List.mem_cons_self)) fun d hd =>
        hcalls d (List.mem_cons_of_mem c hd)
  exact hfold (new_sound vt hostCols hrows) hcalls

end Mirror

/-- The calls within one view. -/
inductive StreamCall
  | process (bytes : Bytes)
  | hostResized (rows cols : ℕ)
  | refreshScrollback

/-- A mirror with a view, and a device that follows it. -/
structure DiffStream (vt : Vt100) where
  mirror : Mirror vt
  device : Parser vt

namespace DiffStream

/-- A view starts; the device is a new emulator of the view's size, fed the snapshot. -/
def start (m : Mirror vt) (view : View) (scrollbackLen : ℕ) : DiffStream vt where
  mirror := (m.startView view).2
  device := (Parser.new vt view.rows view.cols scrollbackLen).process
    ((m.startView view).1.remoteOutput.getD [])

/-- A call; the device is fed the output meant for devices. -/
def step (s : DiffStream vt) : StreamCall → DiffStream vt
  | .process bytes =>
    ⟨(s.mirror.process bytes).2, s.device.process ((s.mirror.process bytes).1.remote.getD [])⟩
  | .hostResized rows cols =>
    ⟨(s.mirror.hostResized rows cols).2,
      s.device.process ((s.mirror.hostResized rows cols).1.remoteOutput.getD [])⟩
  | .refreshScrollback => s

/-- The model, the shadow and the device agree. -/
structure Coherent (rows cols : ℕ) (s : DiffStream vt) : Prop where
  positive : 0 < rows
  size : s.mirror.parser.rows = rows ∧ s.mirror.parser.cols = cols
  reached : vt.Reached s.mirror.parser
  bottom : s.mirror.parser.AtBottom
  viewing : ∃ view, s.mirror.view = some view
  shadow : ∃ shadow, s.mirror.shadow = some shadow ∧ shadow.Same s.mirror.parser ∧
    shadow.offset = 0
  device : vt.Device rows cols s.device
  shown : s.device.screen = s.mirror.parser.screen

/-- A view start leaves all three agreeing. -/
theorem start_coherent {m : Mirror vt} (hm : m.Sound) {view : View} (hview : 0 < view.rows)
    (scrollbackLen : ℕ) : (start m view scrollbackLen).Coherent view.rows view.cols := by
  let fed (len : ℕ) := (Parser.new vt view.rows view.cols len).process (m.snapshot view)
  have hsame (len len' : ℕ) : (fed len).Same (fed len') := by
    have hnew : (Parser.new vt view.rows view.cols len).Same
        (Parser.new vt view.rows view.cols len') := ⟨rfl, rfl, rfl, rfl, rfl⟩
    exact hnew.process _
  have hoffset (len : ℕ) : (fed len).offset = 0 := Parser.process_offset rfl _
  have hbottom (len : ℕ) : (fed len).AtBottom := Parser.atBottom_of_offset (hoffset len)
  refine ⟨hview, ⟨Parser.process_rows _ _, Parser.process_cols _ _⟩,
    .process _ (.new _ _ stageScrollback), hbottom stageScrollback, ⟨view, rfl⟩,
    ⟨fed 0, rfl, hsame 0 stageScrollback, hoffset 0⟩, ?_, ?_⟩
  · exact .snapshot scrollbackLen
      (.same hm.reached (m.flushHistoryForRebuild_rebooked view.rows).same)
      (Mirror.flush_atBottom hm.rows view.rows)
  · exact (hsame scrollbackLen stageScrollback).screen (hbottom _) (hbottom _)

/-- Every call leaves all three agreeing. -/
theorem Coherent.step (laws : vt.DiffsFaithful) {rows cols : ℕ} {s : DiffStream vt}
    (h : s.Coherent rows cols) (c : StreamCall) : (s.step c).Coherent rows cols := by
  obtain ⟨view, hview⟩ := h.viewing
  obtain ⟨shadow, hshadow, hsame, hoffset⟩ := h.shadow
  have hrows : 0 < s.mirror.parser.rows := h.size.1 ▸ h.positive
  cases c with
  | process bytes =>
    obtain ⟨bells, title, hprocess⟩ := Mirror.process_of_view hview hshadow bytes
    obtain ⟨-, -, hviewing, hfed, -⟩ := Mirror.process_spec hrows bytes
    let done := s.mirror.taken bytes
    have hparser : (s.mirror.process bytes).2.parser = done.parser := by rw [hprocess]
    have hbottom : done.parser.AtBottom := Mirror.taken_atBottom hrows h.bottom bytes
    have hreached : vt.Reached done.parser := hparser ▸ .same (.process bytes h.reached) hfed
    have hsize : done.parser.rows = rows ∧ done.parser.cols = cols := by
      rw [← hparser, hfed.rows, hfed.cols, Parser.process_rows, Parser.process_cols]
      exact h.size
    have hprev : shadow.screen = s.device.screen := by
      rw [h.shown, hsame.screen (Parser.atBottom_of_offset hoffset) h.bottom]
    have hdevice : (s.step (.process bytes)).device =
        s.device.process (vt.stateDiff done.parser.screen s.device.screen) := by
      rw [← hprev, DiffStream.step, hprocess]
      rfl
    refine ⟨h.positive, ?_, ?_, ?_, ⟨view, hviewing.trans hview⟩,
      ⟨shadow.process bytes, ?_, ?_, Parser.process_offset hoffset bytes⟩, ?_, ?_⟩
    · rw [DiffStream.step, hparser]
      exact hsize
    · rw [DiffStream.step, hparser]
      exact hreached
    · rw [DiffStream.step, hparser]
      exact hbottom
    · rw [DiffStream.step, hprocess]
    · exact (hsame.process bytes).trans hfed.symm
    · rw [hdevice]
      exact h.device.diff hreached hbottom hsize.1 hsize.2
    · rw [hdevice, laws h.device hreached hbottom hsize.1 hsize.2, DiffStream.step, hparser]
  | hostResized hostRows hostCols =>
    have hnothing : (s.mirror.hostResized hostRows hostCols).1.remoteOutput = none := by
      rw [Mirror.hostResized]
      split <;> rfl
    have hstay : s.step (.hostResized hostRows hostCols) =
        ⟨{ s.mirror.withHost hostRows hostCols with zoneDirty := false }, s.device⟩ := by
      rw [DiffStream.step, hnothing, Mirror.hostResized_of_some hview]
      rfl
    rw [hstay]
    exact ⟨h.positive, h.size, h.reached, h.bottom, h.viewing, h.shadow, h.device, h.shown⟩
  | refreshScrollback => exact h

/-- From every reachable mirror and however a view goes on, a device that was fed
the snapshot and then every difference shows what the model shows, and so does
the shadow. Whenever a screen is rendered or compared, the active grid is
scrolled to its bottom. -/
theorem device_shows_model (laws : vt.DiffsFaithful) {hostRows hostCols : ℕ}
    (hrows : 0 < hostRows) {calls : List Call} (hcalls : ∀ c ∈ calls, c.Sized) {view : View}
    (hview : 0 < view.rows) (scrollbackLen : ℕ) (stream : List StreamCall) :
    let m := calls.foldl Mirror.call (Mirror.new vt hostRows hostCols)
    let s := stream.foldl step (start m view scrollbackLen)
    s.device.screen = s.mirror.parser.screen ∧
      (∃ shadow, s.mirror.shadow = some shadow ∧ shadow.screen = s.mirror.parser.screen) ∧
      (m.flushHistoryForRebuild view.rows).parser.AtBottom ∧ s.mirror.parser.AtBottom ∧
      ∀ bytes, (s.mirror.taken bytes).parser.AtBottom := by
  intro m s
  have hm : m.Sound := Mirror.sound_of_calls hostCols hrows hcalls
  have hfold {s : DiffStream vt} (hs : s.Coherent view.rows view.cols) (stream : List StreamCall) :
      (stream.foldl step s).Coherent view.rows view.cols := by
    induction stream generalizing s with
    | nil => exact hs
    | cons c stream ih => exact ih (hs.step laws c)
  have hs : s.Coherent view.rows view.cols := hfold (start_coherent hm hview scrollbackLen) stream
  obtain ⟨shadow, hshadow, hsame, hoffset⟩ := hs.shadow
  refine ⟨hs.shown, ⟨shadow, hshadow, ?_⟩, Mirror.flush_atBottom hm.rows view.rows, hs.bottom,
    fun bytes => Mirror.taken_atBottom (hs.size.1 ▸ hs.positive) hs.bottom bytes⟩
  exact hsame.screen (Parser.atBottom_of_offset hoffset) hs.bottom

/-- A view that starts over earlier output, with scrolling, an alternate screen
and a host resize in it. -/
theorem device_shows_scrolled_model :
    let m := [Call.process (ascii "a\r\nb")].foldl Mirror.call (Mirror.new asciiVt100 2 4)
    let stream := [.process (ascii "\r\nc\x1b[?1049hx"), .hostResized 3 5,
      .process (ascii "\x1b[?1049ld"), .refreshScrollback]
    let s := stream.foldl step (start m ⟨2, 4, false⟩ 0)
    s.device.screen = s.mirror.parser.screen ∧
      s.device.screen.visible.map (fun row => (row.record 4).bytes) = [ascii "b", ascii "cd"] :=
  ⟨(device_shows_model asciiVt100_diffsFaithful (by decide) (by decide) (by decide) 0 _).1,
    by decide⟩

end DiffStream

end G2mirror
