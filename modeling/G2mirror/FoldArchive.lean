import G2mirror.ViewTransitions
import G2mirror.WrapperSteps

/-!
# The fold

A view that is smaller than the screen keeps its bottom rows. The rows above them go to
the archive when the view starts, after the rows that scrolled off and up to the last one
that shows anything: nothing is lost, and nothing comes twice.
-/

namespace G2mirror

variable {vt : Vt100}

/-- The rows that a snapshot draws, with their numbers on the screen. -/
def snapshotRows (vt : Vt100) (src : Screen) (rows cols : ℕ) : List (Bytes × ℕ) :=
  ((vt.rowsDiff src (blankScreen src.rows src.cols) 0 (min cols src.cols)).zipIdx.drop
    (src.rows - rows)).take rows

/-- A snapshot draws the bottom rows of the screen, each once and in order. -/
theorem snapshotRows_numbers {src : Screen} (rows cols : ℕ)
    (hlength : (vt.rowsDiff src (blankScreen src.rows src.cols) 0 (min cols src.cols)).length =
      src.rows) :
    (snapshotRows vt src rows cols).map Prod.snd =
      (List.range src.rows).drop (src.rows - rows) := by
  have hnumbers : (vt.rowsDiff src (blankScreen src.rows src.cols) 0
      (min cols src.cols)).zipIdx.map Prod.snd = List.range src.rows := by
    rw [List.zipIdx_map_snd, hlength, List.range_eq_range']
  unfold snapshotRows
  rw [List.map_take, List.map_drop, hnumbers, List.take_of_length_le]
  rw [List.length_drop, List.length_range]
  omega

namespace Mirror

/-- The records of all rows of the screen, from its top. -/
def rowRecords (m : Mirror vt) : List HistoryRecord :=
  (List.range m.parser.rows).map fun row =>
    serializeRow (m.parser.withOffset 0).screen row m.parser.cols

variable {m : Mirror vt}

/-- A harvest shows the bottom of the screen again. -/
theorem harvest_parser_eq (halt : m.parser.alternate = false) (hrows : 0 < m.parser.rows) :
    m.harvest.parser = m.parser.withOffset 0 := by
  rw [harvest_eq halt hrows]
  rfl

theorem harvest_droppedRecords (halt : m.parser.alternate = false) (hrows : 0 < m.parser.rows)
    (keepRows : ℕ) :
    m.harvest.droppedRecords keepRows = m.rowRecords.take (m.parser.rows - keepRows) := by
  rw [droppedRecords, harvest_parser_eq halt hrows, rowRecords, ← List.map_take, List.take_range,
    Nat.min_eq_left (Nat.sub_le _ _)]
  rfl

/-- A view start appends what is pending, then the rows above the fold. -/
theorem startView_history_of_primary (halt : m.parser.alternate = false)
    (hrows : 0 < m.parser.rows) (view : View) :
    (m.startView view).2.history = m.history.pushAll (m.harvestRecords ++
      upToLastNonblank (m.rowRecords.take (m.parser.rows - view.rows))) := by
  have hstill : m.harvest.parser.alternate = false := by
    rw [harvest_parser_eq halt hrows]
    exact halt
  rw [startView_history, flushHistoryForRebuild]
  dsimp only
  rw [if_neg (by rw [hstill]; exact Bool.false_ne_true), harvest_droppedRecords halt hrows]
  change m.harvest.history.pushAll _ = _
  rw [harvest_history hrows, ← History.pushAll_append]

/-- The snapshot is one of the bottom of the screen. -/
theorem startView_snapshot (halt : m.parser.alternate = false) (hrows : 0 < m.parser.rows)
    (view : View) :
    (m.startView view).1.remoteOutput = some (render
      (renderSnapshot vt (m.parser.withOffset 0).screen view.rows view.cols)) := by
  have hparser : (m.flushHistoryForRebuild view.rows).parser = m.parser.withOffset 0 := by
    rw [← harvest_parser_eq halt hrows, flushHistoryForRebuild]
    dsimp only
    split_ifs <;> rfl
  change some (render (renderSnapshot vt (m.flushHistoryForRebuild view.rows).parser.screen
    view.rows view.cols)) = _
  rw [hparser]

end Mirror

/-- Applying the transition of a view start changes the mirror no further. -/
theorem Stage.startView_mirror (s : Stage vt) (env : Env) (headless : Bool) (view : View) :
    (s.startView env headless view).2.mirror = (s.mirror.startView view).2 := by
  have hwrite (s : Stage vt) (bytes : Bytes) :
      (s.writeHost env headless bytes).2.mirror = s.mirror := by
    unfold Stage.writeHost
    split_ifs <;> rfl
  have happly (s : Stage vt) (t : Transition) :
      (s.applyTransition env headless t).2.mirror = s.mirror := by
    unfold Stage.applyTransition
    split
    · exact hwrite _ _
    · split
      · rfl
      · exact (hwrite _ _).trans rfl
  exact happly (s.withMirror (s.mirror.startView view).2) (s.mirror.startView view).1

namespace Mirror

/-- Nothing is lost or repeated at the fold. A view that starts on the primary screen splits
the screen's rows into those that it flushes, blank ones, and those that it keeps. It appends
the rows that are pending and the flushed ones, it draws the kept ones, and the snapshot
message says where they begin in the archive's numbering. -/
theorem fold_complete {m : Mirror vt} {view : View} (halt : m.parser.alternate = false)
    (hrows : 0 < m.parser.rows)
    (hdiff : ∀ width, (vt.rowsDiff (m.parser.withOffset 0).screen
      (blankScreen m.parser.rows m.parser.cols) 0 width).length = m.parser.rows) :
    let fold := m.parser.rows - view.rows
    let src := (m.parser.withOffset 0).screen
    ∃ flushed blanks,
      m.rowRecords = flushed ++ blanks ++ m.rowRecords.drop fold ∧
      (flushed ++ blanks).length = fold ∧
      (∀ r ∈ blanks, r.bytes = []) ∧ (∀ r, flushed.getLast? = some r → r.bytes ≠ []) ∧
      (m.startView view).2.history = m.history.pushAll (m.harvestRecords ++ flushed) ∧
      (m.startView view).1.remoteOutput =
        some (render (renderSnapshot vt src view.rows view.cols)) ∧
      (snapshotRows vt src view.rows view.cols).map Prod.snd =
        (List.range m.parser.rows).drop fold ∧
      ∀ (s : Stage vt) (env : Env) (headless : Bool) (data : Bytes), s.mirror = m →
        (s.startView env headless view).2.snapshotMessage env data view.rows view.cols =
          .snapshot (env.base64.encode data) view.cols view.rows
            (m.history.next + m.harvestRecords.length + flushed.length) := by
  intro fold src
  let blank (r : HistoryRecord) : Bool := r.bytes.isEmpty
  have hhistory := startView_history_of_primary halt hrows view
  have hsplit : upToLastNonblank (m.rowRecords.take fold) ++
      (m.rowRecords.take fold).rtakeWhile blank = m.rowRecords.take fold :=
    List.rdropWhile_append_rtakeWhile
  refine ⟨upToLastNonblank (m.rowRecords.take fold), (m.rowRecords.take fold).rtakeWhile blank,
    ?_, ?_, fun r hr => ?_, fun r hr => ?_, hhistory, startView_snapshot halt hrows view,
    snapshotRows_numbers _ _ (hdiff _), fun s env headless data hs => ?_⟩
  · rw [hsplit, List.take_append_drop]
  · rw [hsplit, List.length_take, rowRecords, List.length_map, List.length_range]
    exact Nat.min_eq_left (Nat.sub_le _ _)
  · have hblank : blank r = true := List.mem_rtakeWhile_imp hr
    exact List.isEmpty_iff.mp hblank
  · intro hnil
    have hne : upToLastNonblank (m.rowRecords.take fold) ≠ [] := by
      rintro hflushed
      rw [hflushed] at hr
      cases hr
    rw [List.getLast?_eq_some_getLast hne, Option.some.injEq] at hr
    have hlast := List.rdropWhile_last_not blank _ hne
    exact hlast (List.isEmpty_iff.mpr (hr ▸ hnil))
  · have hnext : (s.startView env headless view).2.mirror.historyExtent.1 =
        m.history.next +
          (m.harvestRecords ++ upToLastNonblank (m.rowRecords.take fold)).length := by
      rw [Stage.startView_mirror, hs, ← History.pushAll_next, ← hhistory]
      rfl
    rw [Stage.snapshotMessage, hnext, List.length_append, Nat.add_assoc]

/-- A screen of four rows, of which a view keeps two. -/
theorem fold_complete_sample :
    ∃ m : Mirror asciiVt100,
      m = ((Mirror.new asciiVt100 4 8).process (ascii "a\r\n\r\nb\r\nc")).2 ∧
      ∃ flushed blanks, m.rowRecords = flushed ++ blanks ++ m.rowRecords.drop 2 ∧
        (flushed ++ blanks).length = 2 ∧
        (m.startView ⟨2, 8, false⟩).2.history =
          m.history.pushAll (m.harvestRecords ++ flushed) := by
  obtain ⟨m, hm, halt, hrows, hvisible⟩ :
      ∃ m : Mirror asciiVt100,
        m = ((Mirror.new asciiVt100 4 8).process (ascii "a\r\n\r\nb\r\nc")).2 ∧
        m.parser.alternate = false ∧ m.parser.rows = 4 ∧
        (m.parser.withOffset 0).screen.visible.length = 4 :=
    ⟨_, rfl, by decide, by decide, by decide⟩
  have hdiff (width : ℕ) : (asciiVt100.rowsDiff (m.parser.withOffset 0).screen
      (blankScreen m.parser.rows m.parser.cols) 0 width).length = m.parser.rows := by
    change (List.map _ _).length = _
    rw [List.length_map, List.length_zipIdx, hvisible, hrows]
  obtain ⟨flushed, blanks, hsplit, hlength, -, -, hhistory, -⟩ :=
    @fold_complete _ m ⟨2, 8, false⟩ halt (by omega) hdiff
  rw [hrows] at hsplit hlength
  exact ⟨m, hm, flushed, blanks, hsplit, hlength, hhistory⟩

end Mirror

end G2mirror
