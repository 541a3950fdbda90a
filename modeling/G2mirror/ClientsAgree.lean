import G2mirror.ServerWire

/-!
# Both clients show the same

`g2mirror --attach` talks to a session itself, `g2mirror-view` through the server. Once both of
them are viewing a session, the same messages, keys and changes of size make them mirror it in the
same way: they go live together, and from there on write the same bytes.
-/

namespace G2mirror

open Json

variable {vt : Vt100}

/-- What happens to both clients: a message of the session, keys, or a change of size. -/
inductive Happening
  | message (msg : FromSession)
  | keys (bytes : Bytes)
  | winch (size : Option (ℕ × ℕ))

namespace Happening

/-- As it happens to an attach client. -/
def attach : Happening → Attached.Event
  | .message msg => .message msg
  | .keys bytes => .keys bytes
  | .winch size => .winch size

/-- As it happens to a viewing client, to which the server relays the lines of the session. -/
def view (fromSession : Serde FromSession) : Happening → ViewApp.Event
  | .message msg => .text (fromSession.text msg)
  | .keys bytes => .keys bytes
  | .winch size => .winch size

/-- Messages are as a wrapper sends them, and nobody detaches. -/
def Steady (detachKey : Option UInt8) : Happening → Prop
  | .message (.snapshot data width height next) =>
    (FromSession.snapshot data width height next).Typed ∧ 0 < width ∧ 0 < height
  | .message msg => msg.Typed
  | .keys bytes => 0x04 ∉ bytes ∧ ∀ k ∈ detachKey, k ∉ bytes
  | .winch _ => True

end Happening

/-- The clients wait for the same, or mirror the session in the same way. -/
inductive SameMode : AttachMode vt → AppMode vt → Prop
  | awaitSnapshot : SameMode .awaitSnapshot .awaitSnapshot
  | fetchingHistory (f : Fetching) : SameMode (.fetchingHistory f) (.fetchingHistory f)
  | live (mirror : Mirror vt) : SameMode (.live mirror) (.live mirror)

theorem SameMode.cases {am : AttachMode vt} {vm : AppMode vt} (h : SameMode am vm) :
    (am = .awaitSnapshot ∧ vm = .awaitSnapshot) ∨
      (∃ f, am = .fetchingHistory f ∧ vm = .fetchingHistory f) ∨
        ∃ mirror, am = .live mirror ∧ vm = .live mirror := by
  cases h with
  | awaitSnapshot => exact .inl ⟨rfl, rfl⟩
  | fetchingHistory f => exact .inr (.inl ⟨f, rfl, rfl⟩)
  | live mirror => exact .inr (.inr ⟨mirror, rfl, rfl⟩)

/-- What a history request asks for. -/
def ToSession.fetch? : ToSession → Option (ℕ × Option ℕ)
  | .history before limit => some (before, limit)
  | _ => none

/-- What a history request asks for; the viewing client names no limit. -/
def ViewMessage.fetch? : ViewMessage → Option (ℕ × Option ℕ)
  | .history before => some (before, none)
  | _ => none

/-- The history that an attach client has asked for, oldest request first. -/
def Attached.fetches (a : Attached vt) : List (ℕ × Option ℕ) := a.sent.filterMap ToSession.fetch?

/-- The history that a viewing client has asked for, oldest request first. -/
def ViewApp.fetches (v : ViewApp vt) : List (ℕ × Option ℕ) := v.sent.filterMap ViewMessage.fetch?

/-- Clients on terminals of one size that view a session in the same way. They have asked for
the same history, but for what the viewing client asked for earlier. -/
structure Twins (earlier : List (ℕ × Option ℕ)) (a : Attached vt) (v : ViewApp vt) : Prop where
  rows : v.rows = a.rows
  cols : v.cols = a.cols
  oldest : v.historyOldest = a.historyOldest
  mode : SameMode a.mode v.mode
  running : v.quit = false ∧ a.detached = false
  fetches : v.fetches = earlier ++ a.fetches

/-- The client mirrors its session. -/
def Attached.isLive (a : Attached vt) : Bool :=
  match a.mode with
  | .live _ => true
  | _ => false

theorem isLive_eq_false {a : Attached vt}
    (h : a.mode = .awaitSnapshot ∨ ∃ f, a.mode = .fetchingHistory f) : a.isLive = false := by
  unfold Attached.isLive
  obtain h | ⟨f, h⟩ := h <;> rw [h]

theorem isLive_eq_true {a : Attached vt} {mirror : Mirror vt} (h : a.mode = .live mirror) :
    a.isLive = true := by
  unfold Attached.isLive
  rw [h]

/-- Titles as they are written. -/
def titleBytes (titles : List String) : Bytes :=
  titles.flatMap fun title => (TermOp.windowTitle (cleanTitle title)).bytes

theorem titleBytes_append (titles titles' : List String) :
    titleBytes (titles ++ titles') = titleBytes titles ++ titleBytes titles' :=
  List.flatMap_append

/-- What the clients write. Before it is live a viewing client keeps to its own screen, while an
attach client sets titles. Then both write the same. -/
inductive Prints (a a' : Attached vt) (v v' : ViewApp vt) : Prop
  | waits (titles : List String) (hbefore : a.isLive = false) (hafter : a'.isLive = false)
      (hattach : a'.stdout = a.stdout ++ titleBytes titles) (hview : v'.stdout = v.stdout)
  | starts (titles : List String) (out : Bytes) (hbefore : a.isLive = false)
      (hafter : a'.isLive = true) (hattach : a'.stdout = a.stdout ++ titleBytes titles ++ out)
      (hview : v'.stdout = v.stdout ++ leaveAlt ++ out)
  | mirrors (out : Bytes) (hbefore : a.isLive = true) (hafter : a'.isLive = true)
      (hattach : a'.stdout = a.stdout ++ out) (hview : v'.stdout = v.stdout ++ out)

variable {a a' a'' : Attached vt} {v v' v'' : ViewApp vt} {earlier : List (ℕ × Option ℕ)}

theorem Prints.trans (h : Prints a a' v v') (h' : Prints a' a'' v' v'') : Prints a a'' v v'' := by
  cases h with
  | waits titles hbefore hafter hattach hview =>
    cases h' with
    | waits titles' hbefore' hafter' hattach' hview' =>
      refine .waits (titles ++ titles') hbefore hafter' ?_ (hview'.trans hview)
      rw [hattach', hattach, titleBytes_append, List.append_assoc]
    | starts titles' out hbefore' hafter' hattach' hview' =>
      refine .starts (titles ++ titles') out hbefore hafter' ?_ (hview'.trans (by rw [hview]))
      rw [hattach', hattach, titleBytes_append, List.append_assoc a.stdout]
    | mirrors out hbefore' => cases hafter.symm.trans hbefore'
  | starts titles out hbefore hafter hattach hview =>
    cases h' with
    | waits titles' hbefore' => cases hafter.symm.trans hbefore'
    | starts titles' out' hbefore' => cases hafter.symm.trans hbefore'
    | mirrors out' hbefore' hafter' hattach' hview' =>
      refine .starts titles (out ++ out') hbefore hafter' ?_ ?_
      · rw [hattach', hattach, List.append_assoc]
      · rw [hview', hview, List.append_assoc]
  | mirrors out hbefore hafter hattach hview =>
    cases h' with
    | waits titles' hbefore' => cases hafter.symm.trans hbefore'
    | starts titles' out' hbefore' => cases hafter.symm.trans hbefore'
    | mirrors out' hbefore' hafter' hattach' hview' =>
      refine .mirrors (out ++ out') hbefore hafter' ?_ ?_
      · rw [hattach', hattach, List.append_assoc]
      · rw [hview', hview, List.append_assoc]

/-- Nothing is written. -/
theorem Prints.nothing (hlive : a'.isLive = a.isLive) (hattach : a'.stdout = a.stdout)
    (hview : v'.stdout = v.stdout) : Prints a a' v v' := by
  cases hbefore : a.isLive with
  | false =>
    exact .waits [] hbefore (hlive.trans hbefore) (hattach.trans (List.append_nil _).symm) hview
  | true =>
    exact .mirrors [] hbefore (hlive.trans hbefore) (hattach.trans (List.append_nil _).symm)
      (hview.trans (List.append_nil _).symm)

section Steps

variable {crates : ViewCrates} {base64 : Base64}

/-- Both go live. -/
theorem goLive_twins (h : Twins earlier a v) {f : Fetching} (ha : a.mode = .fetchingHistory f)
    (hv : v.mode = .fetchingHistory f) (base64 : Base64) (lines : List HistoryLine) :
    Twins earlier (a.goLive base64 lines) (v.goLive base64 (lines.map HistoryLine.toJson)) ∧
      Prints a (a.goLive base64 lines) v (v.goLive base64 (lines.map HistoryLine.toJson)) := by
  have hprinted : (lines.map HistoryLine.toJson).map (printedLine base64) =
      lines.map fun l => ⟨(base64.decode l.data).toOption, l.wrapped⟩ := by
    rw [List.map_map]
    exact List.map_congr_left fun line _ => printedLine_toJson base64 line
  unfold Attached.goLive ViewApp.goLive
  rw [ha, hv]
  dsimp only
  rw [hprinted, h.rows, h.cols]
  generalize launchView vt a.rows a.cols _ f.shown f.pending = launched
  obtain ⟨out, mirror⟩ := launched
  refine ⟨⟨h.rows, h.cols, h.oldest, .live mirror, h.running, h.fetches⟩, ?_⟩
  have hbefore := isLive_eq_false (.inr ⟨f, ha⟩)
  refine .starts [] (render out) hbefore rfl ?_ ?_
  · exact congrArg (· ++ render out) (List.append_nil a.stdout).symm
  · exact (List.append_assoc _ _ _).symm

/-- Both ask for the same history. -/
theorem fetches_history (h : v.fetches = earlier ++ a.fetches) (before : ℕ) :
    (v.send (.history before)).fetches = earlier ++ (a.send (.history before none)).fetches := by
  unfold Attached.fetches ViewApp.fetches at h ⊢
  unfold Attached.send ViewApp.send
  rw [List.filterMap_append, List.filterMap_append, h, List.append_assoc]
  rfl

/-- Both hold what they have been sent until its history is there. -/
theorem fetching_twins (h : Twins earlier a v) (hbefore : a.isLive = false) (f : Fetching)
    (ha' : ∃ sent, a' = { a with mode := .fetchingHistory f, sent := sent })
    (hv' : ∃ sent, v' = { v with mode := .fetchingHistory f, sent := sent })
    (hfetches : v'.fetches = earlier ++ a'.fetches) : Twins earlier a' v' ∧ Prints a a' v v' := by
  obtain ⟨sent, rfl⟩ := ha'
  obtain ⟨sent', rfl⟩ := hv'
  exact ⟨⟨h.rows, h.cols, h.oldest, .fetchingHistory f, h.running, hfetches⟩,
    .nothing hbefore.symm rfl rfl⟩

/-- Without history before the snapshot they need not wait. -/
theorem goLive_at_once (h : Twins earlier a v) (hbefore : a.isLive = false) (f : Fetching)
    (ha' : a' = { a with mode := .fetchingHistory f })
    (hv' : v' = { v with mode := .fetchingHistory f }) (base64 : Base64) :
    Twins earlier (a'.goLive base64 []) (v'.goLive base64 []) ∧
      Prints a (a'.goLive base64 []) v (v'.goLive base64 []) := by
  have hfetches : v'.fetches = earlier ++ a'.fetches := by
    rw [ha', hv']
    exact h.fetches
  obtain ⟨htwins, hprints⟩ := fetching_twins h hbefore f ⟨a.sent, ha'⟩ ⟨v.sent, hv'⟩ hfetches
  have hmode : a'.mode = .fetchingHistory f := by rw [ha']
  have hmode' : v'.mode = .fetchingHistory f := by rw [hv']
  obtain ⟨hlive, hstarts⟩ := goLive_twins htwins hmode hmode' base64 []
  exact ⟨hlive, hprints.trans hstarts⟩

theorem onSnapshot_twins (h : Twins earlier a v) (base64 : Base64) (snapshot : Bytes)
    {rows cols : ℕ} (hrows : 0 < rows) (hcols : 0 < cols) (next : ℕ) :
    Twins earlier (a.onSnapshot base64 snapshot rows cols next)
        (v.onSnapshot base64 snapshot rows cols next) ∧
      Prints a (a.onSnapshot base64 snapshot rows cols next) v
        (v.onSnapshot base64 snapshot rows cols next) := by
  have hsize (own : ℕ × ℕ) : streamSize rows cols own = (rows, cols) :=
    if_neg (by omega)
  have hfetch : v.historyOldest < next ↔ a.historyOldest < next := by rw [h.oldest]
  unfold Attached.onSnapshot ViewApp.onSnapshot
  rw [hsize, hsize]
  simp only [hfetch]
  rcases h.mode.cases with ⟨ha, hv⟩ | ⟨f, ha, hv⟩ | ⟨mirror, ha, hv⟩
  · rw [ha, hv]
    dsimp only
    have hbefore := isLive_eq_false (.inl ha)
    split_ifs
    · exact fetching_twins h hbefore ⟨⟨rows, cols, snapshot⟩, [], 0⟩ ⟨_, rfl⟩ ⟨_, rfl⟩
        (fetches_history h.fetches next)
    · exact goLive_at_once h hbefore ⟨⟨rows, cols, snapshot⟩, [], 0⟩ rfl rfl base64
  · rw [ha, hv]
    dsimp only
    have hbefore := isLive_eq_false (.inr ⟨f, ha⟩)
    split_ifs
    · exact fetching_twins h hbefore ⟨⟨rows, cols, snapshot⟩, [], f.skipReplies + 1⟩ ⟨_, rfl⟩
        ⟨_, rfl⟩ (fetches_history h.fetches next)
    · exact goLive_at_once h hbefore ⟨⟨rows, cols, snapshot⟩, [], f.skipReplies⟩ rfl rfl base64
  · rw [ha, hv]
    dsimp only
    generalize restartView mirror _ = restarted
    obtain ⟨out, mirror'⟩ := restarted
    exact ⟨⟨h.rows, h.cols, h.oldest, .live mirror', h.running, h.fetches⟩,
      .mirrors (render out) (isLive_eq_true ha) rfl rfl rfl⟩

theorem onOutput_twins (h : Twins earlier a v) (base64 : Base64) (bytes : Bytes) :
    Twins earlier (a.onOutput bytes) (v.onMessage base64 (.output bytes)) ∧
      Prints a (a.onOutput bytes) v (v.onMessage base64 (.output bytes)) := by
  unfold Attached.onOutput ViewApp.onMessage
  dsimp only
  rcases h.mode.cases with ⟨ha, hv⟩ | ⟨f, ha, hv⟩ | ⟨mirror, ha, hv⟩
  · rw [ha, hv]
    exact ⟨h, .nothing rfl rfl rfl⟩
  · rw [ha, hv]
    exact fetching_twins h (isLive_eq_false (.inr ⟨f, ha⟩)) _ ⟨a.sent, rfl⟩ ⟨v.sent, rfl⟩ h.fetches
  · rw [ha, hv]
    dsimp only
    generalize processLive mirror bytes = processed
    obtain ⟨out, mirror'⟩ := processed
    exact ⟨⟨h.rows, h.cols, h.oldest, .live mirror', h.running, h.fetches⟩,
      .mirrors out (isLive_eq_true ha) rfl rfl rfl⟩

/-- The reply to a history request. -/
theorem historyLines_twins (h : Twins earlier a v) {start oldest next : ℕ}
    {lines : List HistoryLine}
    (hstep : a.onMessage base64 (.historyLines start oldest next lines) = .ok a') :
    Twins earlier a'
        (v.onMessage base64 ((FromSession.historyLines start oldest next lines).read base64)) ∧
      Prints a a' v
        (v.onMessage base64 ((FromSession.historyLines start oldest next lines).read base64)) := by
  have hsame : Twins earlier a v ∧ Prints a a v v := ⟨h, .nothing rfl rfl rfl⟩
  unfold Attached.onMessage at hstep
  unfold FromSession.read ViewApp.onMessage
  dsimp only at hstep ⊢
  rcases h.mode.cases with ⟨ha, hv⟩ | ⟨f, ha, hv⟩ | ⟨mirror, ha, hv⟩
  · rw [ha] at hstep
    rw [hv]
    exact Except.ok.inj hstep ▸ hsame
  · rw [ha] at hstep
    rw [hv]
    dsimp only at hstep ⊢
    split_ifs at hstep ⊢
    · obtain rfl := Except.ok.inj hstep
      have hlive := isLive_eq_false (.inr ⟨f, ha⟩)
      exact fetching_twins h hlive _ ⟨a.sent, rfl⟩ ⟨v.sent, rfl⟩ h.fetches
    · obtain rfl := Except.ok.inj hstep
      exact goLive_twins h ha hv base64 lines
  · rw [ha] at hstep
    rw [hv]
    exact Except.ok.inj hstep ▸ hsame

/-- A title, which a viewing client writes once it is live. -/
theorem title_twins (h : Twins earlier a v) {title : String}
    (hstep : a.onMessage base64 (.title title) = .ok a') :
    Twins earlier a' (v.onMessage base64 ((FromSession.title title).read base64)) ∧
      Prints a a' v (v.onMessage base64 ((FromSession.title title).read base64)) := by
  obtain rfl := Except.ok.inj hstep
  have htitle : (TermOp.windowTitle (cleanTitle title)).bytes = titleBytes [title] :=
    (List.append_nil _).symm
  unfold FromSession.read ViewApp.onMessage
  dsimp only
  rcases h.mode.cases with ⟨ha, hv⟩ | ⟨f, ha, hv⟩ | ⟨mirror, ha, hv⟩
  · rw [hv]
    have hbefore := isLive_eq_false (.inl ha)
    exact ⟨⟨h.rows, h.cols, h.oldest, h.mode, h.running, h.fetches⟩,
      .waits [title] hbefore hbefore (congrArg (a.stdout ++ ·) htitle) rfl⟩
  · rw [hv]
    have hbefore := isLive_eq_false (.inr ⟨f, ha⟩)
    exact ⟨⟨h.rows, h.cols, h.oldest, h.mode, h.running, h.fetches⟩,
      .waits [title] hbefore hbefore (congrArg (a.stdout ++ ·) htitle) rfl⟩
  · rw [hv]
    have hbefore := isLive_eq_true ha
    exact ⟨⟨h.rows, h.cols, h.oldest, h.mode, h.running, h.fetches⟩,
      .mirrors _ hbefore hbefore rfl rfl⟩

/-- An error ends an attach client that is not live yet. -/
theorem error_twins (h : Twins earlier a v) {message : String}
    (hstep : a.onMessage base64 (.error message) = .ok a') :
    Twins earlier a' (v.onMessage base64 ((FromSession.error message).read base64)) ∧
      Prints a a' v (v.onMessage base64 ((FromSession.error message).read base64)) := by
  unfold Attached.onMessage at hstep
  unfold FromSession.read ViewApp.onMessage
  dsimp only at hstep ⊢
  rcases h.mode.cases with ⟨ha, hv⟩ | ⟨f, ha, hv⟩ | ⟨mirror, ha, hv⟩
  · rw [ha] at hstep
    cases hstep
  · rw [ha] at hstep
    cases hstep
  · rw [ha] at hstep
    rw [hv]
    dsimp only
    obtain rfl := Except.ok.inj hstep
    exact ⟨⟨h.rows, h.cols, h.oldest, hv ▸ .live mirror, h.running, h.fetches⟩,
      .nothing (isLive_eq_true ha).symm rfl rfl⟩

/-- Both handle a message in the same way. -/
theorem onMessage_twins (h : Twins earlier a v) {msg : FromSession}
    (hsteady : (Happening.message msg).Steady a.detachKey)
    (hstep : a.onMessage base64 msg = .ok a') :
    Twins earlier a' (v.onMessage base64 (msg.read base64)) ∧
      Prints a a' v (v.onMessage base64 (msg.read base64)) := by
  have hsame : Twins earlier a v ∧ Prints a a v v := ⟨h, .nothing rfl rfl rfl⟩
  cases msg with
  | connect c =>
    obtain rfl := Except.ok.inj hstep
    rcases h.mode.cases with ⟨-, hv⟩ | ⟨f, -, hv⟩ | ⟨mirror, -, hv⟩ <;>
      simpa [FromSession.read, ViewApp.onMessage, hv] using hsame
  | snapshot data width height next =>
    obtain ⟨-, hwidth, hheight⟩ := hsteady
    cases hdata : base64.decode data with
    | error e =>
      rw [Attached.onMessage_snapshot_error hdata] at hstep
      obtain rfl := Except.ok.inj hstep
      simpa [FromSession.read, hdata, Except.toOption, ViewApp.onMessage] using hsame
    | ok bytes =>
      rw [Attached.onMessage_snapshot_ok hdata] at hstep
      obtain rfl := Except.ok.inj hstep
      simpa [FromSession.read, hdata, Except.toOption, ViewApp.onMessage] using
        onSnapshot_twins h base64 bytes hheight hwidth next
  | output data =>
    cases hdata : base64.decode data with
    | error e =>
      rw [Attached.onMessage_output_error hdata] at hstep
      obtain rfl := Except.ok.inj hstep
      simpa [FromSession.read, hdata, Except.toOption, ViewApp.onMessage] using hsame
    | ok bytes =>
      rw [Attached.onMessage_output_ok hdata] at hstep
      obtain rfl := Except.ok.inj hstep
      simpa [FromSession.read, hdata, Except.toOption] using onOutput_twins h base64 bytes
  | historyLines start oldest next lines => exact historyLines_twins h hstep
  | title title => exact title_twins h hstep
  | exit status =>
    obtain rfl := Except.ok.inj hstep
    exact ⟨⟨h.rows, h.cols, h.oldest, h.mode, h.running, h.fetches⟩, .nothing rfl rfl rfl⟩
  | error message => exact error_twins h hstep
  | bell epoch => exact Except.ok.inj hstep ▸ hsame
  | activity epoch => exact Except.ok.inj hstep ▸ hsame
  | hostChanged attached => exact Except.ok.inj hstep ▸ hsame

theorem splitKeys_of_not_mem {detachKey : Option UInt8} {bytes : Bytes}
    (h : ∀ k ∈ detachKey, k ∉ bytes) : splitKeys detachKey bytes = (bytes, false) := by
  unfold splitKeys
  cases detachKey with
  | none => rfl
  | some k => exact if_neg (h k rfl)

/-- Keys that are not for the client itself are sent, once Ctrl+L has been seen to. -/
theorem onKeys_eq_refresh (base64 : Base64) {bytes : Bytes} (h : ∀ k ∈ a.detachKey, k ∉ bytes) :
    ∃ sent, a.onKeys base64 bytes = { a.refresh bytes with sent := sent } ∧
      sent.filterMap ToSession.fetch? = a.fetches := by
  have hsent : (a.refresh bytes).sent = a.sent := a.refresh_sent bytes
  unfold Attached.onKeys
  rw [splitKeys_of_not_mem h]
  by_cases hnil : bytes = []
  · exact ⟨_, if_pos hnil, congrArg _ hsent⟩
  · refine ⟨_, if_neg hnil, ?_⟩
    rw [List.filterMap_append, hsent]
    exact List.append_nil _

/-- Keys are ignored by a viewing client that is still being attached. -/
theorem onKeys_of_waiting (base64 : Base64) {bytes : Bytes} (hdetach : 0x04 ∉ bytes)
    (hv : v.mode = .awaitSnapshot ∨ ∃ f, v.mode = .fetchingHistory f) :
    v.onKeys base64 bytes = v := by
  unfold ViewApp.onKeys
  obtain hv | ⟨f, hv⟩ := hv <;> rw [hv] <;> exact if_neg hdetach

/-- A live viewing client handles them as an attach client does. -/
theorem onKeys_of_live (base64 : Base64) {bytes : Bytes} (hdetach : 0x04 ∉ bytes)
    {mirror : Mirror vt} (hv : v.mode = .live mirror) :
    ∃ sent, v.onKeys base64 bytes =
      { if refreshKey ∈ bytes then v.write (render mirror.refreshScrollback) else v with
        sent := sent } ∧ sent.filterMap ViewMessage.fetch? = v.fetches := by
  have hsplit : splitKeys (some 4) bytes = (bytes, false) := by
    refine splitKeys_of_not_mem fun k hk => ?_
    obtain rfl := Option.some.inj hk
    exact hdetach
  unfold ViewApp.onKeys
  rw [hv, hsplit]
  dsimp only
  rw [if_neg Bool.false_ne_true]
  have hsent : (if refreshKey ∈ bytes then v.write (render mirror.refreshScrollback) else v).sent =
      v.sent := by
    split <;> rfl
  generalize (if refreshKey ∈ bytes then v.write (render mirror.refreshScrollback) else v) = app
    at hsent ⊢
  split_ifs
  · exact ⟨_, rfl, congrArg _ hsent⟩
  · refine ⟨_, rfl, ?_⟩
    rw [List.filterMap_append, hsent]
    exact List.append_nil _

/-- Keys change nothing but what is sent, and what is drawn again while the clients are live. -/
theorem onKeys_twins (h : Twins earlier a v) (base64 : Base64) {bytes : Bytes}
    (hsteady : (Happening.keys bytes).Steady a.detachKey) :
    Twins earlier (a.onKeys base64 bytes) (v.onKeys base64 bytes) ∧
      Prints a (a.onKeys base64 bytes) v (v.onKeys base64 bytes) := by
  obtain ⟨hdetach, hkey⟩ := hsteady
  obtain ⟨sent, hattach, hsent⟩ := onKeys_eq_refresh base64 hkey
  have hfetches : v.fetches = earlier ++ sent.filterMap ToSession.fetch? := by
    rw [hsent]
    exact h.fetches
  rw [hattach]
  unfold Attached.refresh
  rcases h.mode.cases with ⟨ha, hv⟩ | ⟨f, ha, hv⟩ | ⟨mirror, ha, hv⟩
  · rw [onKeys_of_waiting base64 hdetach (.inl hv), ha]
    exact ⟨⟨h.rows, h.cols, h.oldest, h.mode, h.running, hfetches⟩, .nothing rfl rfl rfl⟩
  · rw [onKeys_of_waiting base64 hdetach (.inr ⟨f, hv⟩), ha]
    exact ⟨⟨h.rows, h.cols, h.oldest, h.mode, h.running, hfetches⟩, .nothing rfl rfl rfl⟩
  · obtain ⟨sent', hview, hsent'⟩ := onKeys_of_live base64 hdetach hv
    have hboth := hsent'.trans hfetches
    rw [hview, ha]
    dsimp only
    have hlive := isLive_eq_true ha
    by_cases hrefresh : refreshKey ∈ bytes
    · rw [if_pos hrefresh, if_pos hrefresh]
      exact ⟨⟨h.rows, h.cols, h.oldest, h.mode, h.running, hboth⟩,
        .mirrors (render mirror.refreshScrollback) hlive hlive rfl rfl⟩
    · rw [if_neg hrefresh, if_neg hrefresh]
      exact ⟨⟨h.rows, h.cols, h.oldest, h.mode, h.running, hboth⟩, .nothing rfl rfl rfl⟩

theorem onWinch_twins (h : Twins earlier a v) (size : Option (ℕ × ℕ)) :
    Twins earlier (a.onWinch size) (v.onWinch size) ∧
      Prints a (a.onWinch size) v (v.onWinch size) := by
  unfold Attached.onWinch ViewApp.onWinch
  dsimp only
  generalize hostSize size = own
  obtain ⟨rows, cols⟩ := own
  dsimp only
  have hfetches : v.fetches =
      earlier ++ (a.sent ++ [ToSession.resize cols rows]).filterMap ToSession.fetch? := by
    rw [List.filterMap_append]
    exact h.fetches.trans (congrArg (earlier ++ ·) (List.append_nil _).symm)
  rcases h.mode.cases with ⟨ha, hv⟩ | ⟨f, ha, hv⟩ | ⟨mirror, ha, hv⟩
  · rw [ha, hv]
    exact ⟨⟨rfl, rfl, h.oldest, .awaitSnapshot, h.running, hfetches⟩,
      .nothing (isLive_eq_false (.inl ha)).symm rfl rfl⟩
  · rw [ha, hv]
    exact ⟨⟨rfl, rfl, h.oldest, .fetchingHistory f, h.running, hfetches⟩,
      .nothing (isLive_eq_false (.inr ⟨f, ha⟩)).symm rfl rfl⟩
  · rw [ha, hv]
    dsimp only
    generalize mirror.hostResized rows cols = resized
    obtain ⟨t, mirror'⟩ := resized
    exact ⟨⟨rfl, rfl, h.oldest, .live mirror', h.running, hfetches⟩,
      .mirrors (render t.hostOutput) (isLive_eq_true ha) rfl rfl rfl⟩

/-- The terminal that a client is on: its size, and the key that detaches from it. -/
def Attached.terminal (a : Attached vt) : ℕ × ℕ × Option UInt8 := (a.rows, a.cols, a.detachKey)

theorem goLive_terminal (a : Attached vt) (base64 : Base64) (lines : List HistoryLine) :
    (a.goLive base64 lines).terminal = a.terminal := by
  unfold Attached.goLive
  split <;> rfl

theorem onSnapshot_terminal (a : Attached vt) (base64 : Base64) (snapshot : Bytes)
    (rows cols next : ℕ) :
    (a.onSnapshot base64 snapshot rows cols next).terminal = a.terminal := by
  unfold Attached.onSnapshot
  dsimp only
  split
  · split_ifs
    · rfl
    · exact goLive_terminal _ base64 []
  · rfl
  · split_ifs
    · rfl
    · exact goLive_terminal _ base64 []

theorem refresh_terminal (a : Attached vt) (input : Bytes) :
    (a.refresh input).terminal = a.terminal := by
  unfold Attached.refresh
  split
  · split <;> rfl
  · rfl

/-- No message changes the terminal. -/
theorem onMessage_terminal {msg : FromSession} (hstep : a.onMessage base64 msg = .ok a') :
    a'.terminal = a.terminal := by
  unfold Attached.onMessage at hstep
  split at hstep
  · split at hstep
    · exact Except.ok.inj hstep ▸ rfl
    · exact Except.ok.inj hstep ▸ onSnapshot_terminal a base64 _ _ _ _
  · split at hstep
    · exact Except.ok.inj hstep ▸ rfl
    · obtain rfl := Except.ok.inj hstep
      unfold Attached.onOutput
      split <;> rfl
  · split at hstep
    · split_ifs at hstep
      · exact Except.ok.inj hstep ▸ rfl
      · exact Except.ok.inj hstep ▸ goLive_terminal a base64 _
    · exact Except.ok.inj hstep ▸ rfl
  · exact Except.ok.inj hstep ▸ rfl
  · exact Except.ok.inj hstep ▸ rfl
  · split at hstep
    · exact Except.ok.inj hstep ▸ rfl
    · cases hstep
  · exact Except.ok.inj hstep ▸ rfl

/-- No key changes it. -/
theorem onKeys_terminal (a : Attached vt) (base64 : Base64) (bytes : Bytes) :
    (a.onKeys base64 bytes).terminal = a.terminal := by
  refine Eq.trans ?_ (refresh_terminal a (splitKeys a.detachKey bytes).1)
  unfold Attached.onKeys
  dsimp only
  split_ifs <;> rfl

/-- What a message comes to in the loop is what handling it comes to. -/
theorem onMessage_of_step {msg : FromSession}
    (hstep : a.step base64 (Happening.message msg).attach = .ok a') :
    a.onMessage base64 msg = .ok a' := by
  unfold Attached.step Happening.attach at hstep
  dsimp only at hstep
  split at hstep
  · rename_i a'' ha''
    rwa [← Except.ok.inj hstep]
  · cases hstep

theorem onKeys_of_step {bytes : Bytes}
    (hstep : a.step base64 (Happening.keys bytes).attach = .ok a') :
    a' = a.onKeys base64 bytes := by
  unfold Attached.step Happening.attach at hstep
  dsimp only at hstep
  split at hstep
  · cases hstep
  · exact (Except.ok.inj hstep).symm

/-- The detach key is fixed. -/
theorem step_detachKey {e : Happening} (hstep : a.step base64 e.attach = .ok a') :
    a'.detachKey = a.detachKey := by
  cases e with
  | message msg =>
    exact congrArg (fun t => t.2.2) (onMessage_terminal (onMessage_of_step hstep))
  | keys bytes =>
    rw [onKeys_of_step hstep]
    exact congrArg (fun t => t.2.2) (onKeys_terminal a base64 bytes)
  | winch size =>
    obtain rfl := Except.ok.inj hstep
    unfold Attached.onWinch
    dsimp only
    split <;> rfl

/-- Whatever happens to both of them, both handle it in the same way. -/
theorem step_twins {fromSession : Serde FromSession}
    (hcrates : crates.serde.limits.Admits u64Max)
    (hfrom : crates.serde.DerivesFrom fromSession) (h : Twins earlier a v) {e : Happening}
    (hsteady : e.Steady a.detachKey) (hstep : a.step crates.base64 e.attach = .ok a') :
    ∃ v', v.step crates (e.view fromSession) = some v' ∧ Twins earlier a' v' ∧
      Prints a a' v v' := by
  cases e with
  | message msg =>
    have htyped : msg.Typed := by
      cases msg with
      | snapshot data width height next => exact hsteady.1
      | _ => exact hsteady
    refine ⟨v.onMessage crates.base64 (msg.read crates.base64), ?_,
      onMessage_twins h hsteady (onMessage_of_step hstep)⟩
    unfold ViewApp.step Happening.view
    dsimp only
    rw [ViewApp.onText_eq, Sent.read_text hcrates hfrom htyped]
  | keys bytes =>
    obtain ⟨htwins, hprints⟩ := onKeys_twins h crates.base64 hsteady
    rw [onKeys_of_step hstep]
    refine ⟨v.onKeys crates.base64 bytes, ?_, htwins, hprints⟩
    unfold ViewApp.step Happening.view
    dsimp only
    rw [htwins.running.1]
    exact if_neg Bool.false_ne_true
  | winch size =>
    obtain rfl := Except.ok.inj hstep
    exact ⟨_, rfl, onWinch_twins h size⟩

end Steps

/-- A step of the attach client. -/
def Happening.stepAttach (base64 : Base64) (a : Attached vt) (e : Happening) :
    Option (Attached vt) :=
  (a.step base64 e.attach).toOption

/-- A step of the viewing client. -/
def Happening.stepView (crates : ViewCrates) (fromSession : Serde FromSession) (v : ViewApp vt)
    (e : Happening) : Option (ViewApp vt) :=
  v.step crates (e.view fromSession)

/-- Twins stay twins. -/
theorem run_twins {crates : ViewCrates} {fromSession : Serde FromSession}
    (hcrates : crates.serde.limits.Admits u64Max)
    (hfrom : crates.serde.DerivesFrom fromSession) {detachKey : Option UInt8}
    {es : List Happening} (hsteady : ∀ e ∈ es, e.Steady detachKey) (h : Twins earlier a v)
    (hkey : a.detachKey = detachKey)
    (hrun : Machine.run (Happening.stepAttach crates.base64) a es = some a') :
    ∃ v', Machine.run (Happening.stepView crates fromSession) v es = some v' ∧ Twins earlier a' v' ∧
      Prints a a' v v' := by
  induction es generalizing a v with
  | nil =>
    obtain rfl := Option.some.inj hrun
    exact ⟨v, rfl, h, .nothing rfl rfl rfl⟩
  | cons e es ih =>
    obtain ⟨a₁, hfirst, hrest⟩ := Machine.run_cons_eq_some.mp hrun
    obtain ⟨he, hes⟩ := List.forall_mem_cons.mp hsteady
    have hstep : a.step crates.base64 e.attach = .ok a₁ := ok_of_toOption hfirst
    obtain ⟨v₁, hstep', htwins, hprints⟩ := step_twins hcrates hfrom h (hkey ▸ he) hstep
    obtain ⟨v', hrun', htwins', hprints'⟩ :=
      ih hes htwins ((step_detachKey hstep).trans hkey) hrest
    exact ⟨v', Machine.run_cons_eq_some.mpr ⟨v₁, hstep', hrun'⟩, htwins', hprints.trans hprints'⟩

/-- Once the session has greeted both, a viewing client and an attach client on terminals of one
size show the session in the same way: whatever comes of it and whatever is typed, they are live
at the same time, with the same mirror, and ask for the same history. Before, the attach client
only writes titles and the viewing client nothing; to go live the viewing client leaves its own
screen, and from there on one of them writes what the other does. -/
theorem clients_agree {crates : ViewCrates} {fromSession : Serde FromSession}
    (hcrates : crates.serde.limits.Admits u64Max)
    (hfrom : crates.serde.DerivesFrom fromSession) {v : ViewApp vt}
    (hconnecting : v.mode = .connecting) (hquit : v.quit = false) {greeting : Connect}
    (hgreeting : greeting.Typed) (force : Bool) {detachKey : Option UInt8} {es : List Happening}
    (hsteady : ∀ e ∈ es, e.Steady detachKey)
    (hrun : Machine.run (Happening.stepAttach crates.base64)
      (.start vt v.rows v.cols force detachKey greeting) es = some a') :
    ∃ v', Machine.run (Happening.stepView crates fromSession) v
        (.message (.connect greeting) :: es) = some v' ∧ Twins v.fetches a' v' ∧
      Prints (.start vt v.rows v.cols force detachKey greeting) a' v v' := by
  have hread : (Sent.line (fromSession.text (.connect greeting))).read crates =
      .connect greeting.readonly greeting.history.oldest := Sent.read_text hcrates hfrom hgreeting
  have hgreeted : Twins v.fetches (.start vt v.rows v.cols force detachKey greeting)
      (v.onText crates (fromSession.text (.connect greeting))) ∧
        (v.onText crates (fromSession.text (.connect greeting))).stdout = v.stdout := by
    rw [ViewApp.onText_eq, hread]
    unfold ViewApp.onMessage
    dsimp only
    rw [hconnecting]
    refine ⟨⟨rfl, rfl, rfl, .awaitSnapshot, ⟨hquit, rfl⟩, ?_⟩, rfl⟩
    unfold ViewApp.fetches ViewApp.send
    rw [List.filterMap_append]
    rfl
  obtain ⟨htwins, hstdout⟩ := hgreeted
  obtain ⟨v', hrun', htwins', hprints⟩ := run_twins hcrates hfrom hsteady htwins rfl hrun
  exact ⟨v', Machine.run_cons_eq_some.mpr ⟨_, rfl, hrun'⟩, htwins',
    (Prints.nothing rfl rfl hstdout).trans hprints⟩

/-- A title, a snapshot with history before it, output, the reply to the history request, Ctrl+L,
a change of size and another title. -/
def viewedSession : List Happening :=
  [.message (.title "zero"), .message (.snapshot "SGVsbG8=" 4 2 3), .message (.output "SGVsbG8="),
    .message (.historyLines 1 1 3 [⟨"SGVsbG8=", 4, false⟩]), .keys [refreshKey],
    .winch (some (6, 3)), .message (.title "one")]

/-- The greeting of a session whose history starts at its second line. -/
def pagedGreeting : Connect :=
  ⟨protocolVersion, 7, "sh", "/", 4, 2, false, ⟨3, 1⟩, none, false, false, none, none⟩

/-- A viewing client that has asked to be connected to a session. -/
def connectingApp : ViewApp asciiVt100 :=
  { ViewApp.start asciiVt100 2 4 false with mode := .connecting }

theorem clients_agree_of_session :
    ∃ a' v', Machine.run (Happening.stepAttach derivedCrates.base64)
        (.start asciiVt100 2 4 false none pagedGreeting) viewedSession = some a' ∧
      Machine.run (Happening.stepView derivedCrates derivedFrom) connectingApp
        (.message (.connect pagedGreeting) :: viewedSession) = some v' ∧
      a'.isLive = true ∧ a'.fetches = [(3, none)] ∧ Twins [] a' v' ∧
      Prints (.start asciiVt100 2 4 false none pagedGreeting) a' connectingApp v' := by
  have hlive : (Machine.run (Happening.stepAttach derivedCrates.base64)
      (.start asciiVt100 2 4 false none pagedGreeting) viewedSession).map
        (fun a => (a.isLive, a.fetches)) = some (true, [(3, none)]) := by
    decide +kernel
  obtain ⟨a', hrun, ha'⟩ := Option.map_eq_some_iff.mp hlive
  obtain ⟨hlives, hfetches⟩ := Prod.mk.inj ha'
  have hgreeting : pagedGreeting.Typed := by
    refine ⟨?_, ?_, ?_, ?_, ?_, ?_, ?_⟩ <;> decide
  have hsteady : ∀ e ∈ viewedSession, e.Steady none := by
    simp [viewedSession, Happening.Steady, FromSession.Typed]
    decide
  obtain ⟨v', hrun', htwins, hprints⟩ := clients_agree derives_derivedSerde.admits
    derivesFrom_derivedFrom (v := connectingApp) rfl rfl hgreeting false hsteady hrun
  exact ⟨a', v', hrun, hrun', hlives, hfetches, htwins, hprints⟩

end G2mirror
