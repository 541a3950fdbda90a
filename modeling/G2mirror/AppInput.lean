import G2mirror.Base64Text
import G2mirror.InputPauses
import G2mirror.WrapperLog

/-!
# What the app is typed

A session writes to its app what is typed on the host's keyboard, at once, and what clients send,
after the pauses they ask for. Whatever happens in between, every byte that is written was typed or
accepted, each goes to the app once, and both keep their order. A read-only session writes nothing
that a client sent.
-/

namespace G2mirror

variable {vt : Vt100}

/-- Where something that is written to the app comes from. -/
inductive InputSource
  | keyboard
  | client (id : ℕ)
  deriving DecidableEq

/-- An entry that writes nothing to the app. -/
def Obs.Untyped : Obs → Prop
  | .ptyWrote .. => False
  | _ => True

theorem routine_untyped : Routine Obs.Untyped :=
  ⟨fun _ _ _ _ => trivial, fun _ _ => trivial⟩

theorem viewing_untyped : Viewing Obs.Untyped :=
  ⟨fun _ _ _ _ _ _ => trivial, fun _ _ _ => trivial, fun _ _ _ => trivial⟩

theorem streaming_untyped : Streaming Obs.Untyped := ⟨fun _ _ _ => trivial, fun _ => trivial⟩

theorem reporting_untyped : Reporting Obs.Untyped := ⟨fun _ _ _ => trivial, fun _ _ _ => trivial⟩

theorem upkeep_untyped (env : Env) (config : Config) :
    Stage.Upkeep env config Obs.Untyped (@Stage.Keeps vt Obs.Untyped) :=
  Stage.upkeep_keeps routine_untyped viewing_untyped env config

/-- What is written to the app here, or would be if the write did not fail. -/
def Obs.appWrite? : Obs → Option Bytes
  | .ptyWrote bytes _ => some bytes
  | _ => none

/-- The writes to the app, oldest first. -/
def Log.appWrites (log : Log) : List Bytes := (log.filterMap Obs.appWrite?).reverse

namespace Log

theorem appWrites_append (log log' : Log) :
    Log.appWrites (log ++ log') = Log.appWrites log' ++ Log.appWrites log := by
  rw [appWrites, List.filterMap_append, List.reverse_append]
  rfl

theorem appWrites_wrote (bytes : Bytes) (ok : Bool) (log : Log) :
    Log.appWrites (.ptyWrote bytes ok :: log) = Log.appWrites log ++ [bytes] :=
  List.reverse_cons

theorem Grows.appWrites {log log' : Log} (h : Log.Grows Obs.Untyped log log') :
    log'.appWrites = log.appWrites := by
  obtain ⟨new, rfl, hnew⟩ := h
  have hnone : Log.appWrites new = [] := by
    refine List.reverse_eq_nil_iff.mpr (List.filterMap_eq_nil_iff.mpr fun o ho => ?_)
    have huntyped := hnew o ho
    cases o with
    | ptyWrote bytes ok => exact huntyped.elim
    | _ => rfl
  rw [appWrites_append, hnone, List.append_nil]

end Log

/-- The bytes of an input, each with the client that it comes from. -/
def tagged (input : ℕ × Bytes) : List (ℕ × UInt8) := input.2.map (input.1, ·)

theorem flatMap_tagged (id : ℕ) (inputs : List Bytes) :
    (inputs.map (id, ·)).flatMap tagged = tagged (id, inputs.flatten) := by
  induction inputs with
  | nil => rfl
  | cons bytes inputs ih =>
    rw [List.map_cons, List.flatMap_cons, ih]
    exact List.map_append.symm

/-- What writes from one source hold. -/
def InputSource.keys : InputSource × Bytes → Bytes
  | (.keyboard, bytes) => bytes
  | (.client _, _) => []

def InputSource.inputs : InputSource × Bytes → List (ℕ × UInt8)
  | (.keyboard, _) => []
  | (.client id, bytes) => tagged (id, bytes)

/-- These writes to the app are the keys and the accepted inputs, apart from what waits: each
write has a source, and the writes of each source make up what came from it. -/
def Accounts (writes : List Bytes) (queue : InputQueue) (keys : Bytes)
    (inputs : List (ℕ × Bytes)) : Prop :=
  ∃ (sourced : List (InputSource × Bytes)) (waiting : List (ℕ × Bytes)),
    sourced.map Prod.snd = writes ∧ waiting.map Prod.snd = queue.queue.map Prod.snd ∧
    (∀ bytes ∈ writes, bytes ≠ []) ∧ sourced.flatMap InputSource.keys = keys ∧
    sourced.flatMap InputSource.inputs ++ waiting.flatMap tagged = inputs.flatMap tagged

namespace Accounts

variable {writes : List Bytes} {queue queue' : InputQueue} {keys : Bytes}
  {inputs : List (ℕ × Bytes)}

theorem typed (h : Accounts writes queue keys inputs) {new : List Bytes}
    (hnew : ∀ bytes ∈ new, bytes ≠ []) :
    Accounts (writes ++ new) queue (keys ++ new.flatten) inputs := by
  obtain ⟨sourced, waiting, rfl, hwaiting, hwrites, rfl, hinputs⟩ := h
  have hkeys : (new.map (InputSource.keyboard, ·)).flatMap InputSource.keys = new.flatten := by
    rw [List.flatMap_map]
    exact List.flatMap_id'
  have hnone : (new.map (InputSource.keyboard, ·)).flatMap InputSource.inputs = [] := by
    apply List.flatMap_eq_nil_iff.mpr
    intro write hwrite
    obtain ⟨bytes, -, rfl⟩ := List.mem_map.mp hwrite
    rfl
  refine ⟨sourced ++ new.map (.keyboard, ·), waiting, ?_, hwaiting,
    List.forall_mem_append.mpr ⟨hwrites, hnew⟩, ?_, ?_⟩
  · rw [List.map_append, List.map_map]
    exact congrArg _ (List.map_id new)
  · rw [List.flatMap_append, hkeys]
  · rw [List.flatMap_append, hnone, List.append_nil]
    exact hinputs

/-- What was accepted waits to be written. -/
theorem pushed (h : Accounts writes queue keys inputs) (id : ℕ) {bytes : Bytes}
    {delays : List InputDelay}
    (horder : InputQueue.delaysInOrder bytes.length 0 delays = true) :
    Accounts writes (queue.push bytes delays) keys (inputs ++ [(id, bytes)]) := by
  obtain ⟨sourced, waiting, hsourced, hwaiting, hwrites, hkeys, hinputs⟩ := h
  have hchunks : ((InputQueue.chunksFrom bytes 0 0 delays).map Prod.snd).flatten = bytes :=
    List.flatMap_def.symm.trans (InputQueue.chunksFrom_bytes horder)
  refine ⟨sourced,
    waiting ++ ((InputQueue.chunksFrom bytes 0 0 delays).map Prod.snd).map (id, ·), hsourced, ?_,
    hwrites, hkeys, ?_⟩
  · rw [List.map_append, List.map_map, hwaiting, InputQueue.push, List.map_append]
    exact congrArg _ (List.map_id _)
  · rw [List.flatMap_append, flatMap_tagged, hchunks, ← List.append_assoc, hinputs,
      List.flatMap_append, List.flatMap_singleton]

/-- Chunks without a byte make no difference. -/
theorem flatMap_inputs (gone : List (ℕ × Bytes)) :
    ((gone.filter fun chunk => chunk.2 ≠ []).map
      fun chunk => (InputSource.client chunk.1, chunk.2)).flatMap InputSource.inputs =
        gone.flatMap tagged := by
  induction gone with
  | nil => rfl
  | cons chunk gone ih =>
    by_cases hempty : chunk.2 = []
    · have hnothing : tagged chunk = [] := by
        rw [tagged, hempty]
        rfl
      rw [List.filter_cons_of_neg (by simp [hempty]), ih, List.flatMap_cons, hnothing,
        List.nil_append]
    · rw [List.filter_cons_of_pos (by simp [hempty]), List.map_cons, List.flatMap_cons, ih]
      rfl

/-- What is written no longer waits. Empty chunks are not written. -/
theorem pumped (h : Accounts writes queue keys inputs) {taken rest : List (ℕ × Bytes)}
    (hqueue : queue.queue = taken ++ rest)
    (hrest : queue'.queue.map Prod.snd = rest.map Prod.snd) :
    Accounts (writes ++ (taken.map Prod.snd).filter (· ≠ [])) queue' keys inputs := by
  obtain ⟨sourced, waiting, rfl, hwaiting, hwrites, rfl, hinputs⟩ := h
  rw [hqueue, List.map_append] at hwaiting
  obtain ⟨gone, left, rfl, hgone, hleft⟩ := List.map_eq_append_iff.mp hwaiting
  have hwritten : ((gone.filter fun chunk => chunk.2 ≠ []).map
      fun chunk => (InputSource.client chunk.1, chunk.2)).map Prod.snd =
        (taken.map Prod.snd).filter (· ≠ []) := by
    rw [← hgone, List.map_map, List.filter_map]
    rfl
  have hnone : ((gone.filter fun chunk => chunk.2 ≠ []).map
      fun chunk => (InputSource.client chunk.1, chunk.2)).flatMap InputSource.keys = [] := by
    apply List.flatMap_eq_nil_iff.mpr
    intro write hwrite
    obtain ⟨chunk, -, rfl⟩ := List.mem_map.mp hwrite
    rfl
  refine ⟨sourced ++ (gone.filter fun chunk => chunk.2 ≠ []).map
    fun chunk => (.client chunk.1, chunk.2), left, ?_, hleft.trans hrest.symm, ?_, ?_, ?_⟩
  · rw [List.map_append, hwritten]
  · refine List.forall_mem_append.mpr ⟨hwrites, ?_⟩
    intro bytes hmem
    exact of_decide_eq_true (List.mem_filter.mp hmem).2
  · rw [List.flatMap_append, hnone, List.append_nil]
  · rw [List.flatMap_append, flatMap_inputs, List.append_assoc, ← List.flatMap_append]
    exact hinputs

end Accounts

/-- A pump writes what it takes from the front of the queue, also if a write fails. -/
theorem InputQueue.pumpLoop_appWrites (env : Env) (now : ℕ → ℕ) (k : ℕ)
    (chunks : List (ℕ × Bytes)) (due : Option ℕ) (log : Log) :
    ∃ taken rest, chunks = taken ++ rest ∧
      (pumpLoop env now k chunks due log).2.1.queue.map Prod.snd = rest.map Prod.snd ∧
      (pumpLoop env now k chunks due log).2.2.appWrites =
        log.appWrites ++ (taken.map Prod.snd).filter (· ≠ []) := by
  induction chunks generalizing k due log with
  | nil => exact ⟨[], [], rfl, rfl, (List.append_nil _).symm⟩
  | cons chunk rest ih =>
    obtain ⟨pause, bytes⟩ := chunk
    unfold pumpLoop
    dsimp only
    split
    · exact ⟨[], (pause, bytes) :: rest, rfl, rfl, (List.append_nil _).symm⟩
    · split
      · rename_i hempty
        obtain ⟨taken, later, rfl, hqueue, hwrites⟩ := ih (k + 1) none log
        refine ⟨(pause, bytes) :: taken, later, rfl, hqueue, ?_⟩
        rw [hwrites, List.map_cons, List.filter_cons_of_neg (by simp [hempty])]
      · rename_i hbytes
        split
        · obtain ⟨taken, later, rfl, hqueue, hwrites⟩ :=
            ih (k + 1) none (.ptyWrote bytes (env.succeeds log) :: log)
          refine ⟨(pause, bytes) :: taken, later, rfl, hqueue, ?_⟩
          rw [hwrites, Log.appWrites_wrote, List.append_assoc, List.map_cons,
            List.filter_cons_of_pos (by simp [hbytes])]
          rfl
        · refine ⟨[(pause, bytes)], rest, rfl, rfl, ?_⟩
          rw [Log.appWrites_wrote, List.map_singleton, List.filter_singleton]
          simp [hbytes]

/-- The keys of an event that are for the app: the hotkey is the wrapper's own. -/
def Event.keys : Event → Bytes
  | .stdin bytes => bytes.filter fun b => b ≠ hotkey
  | _ => []

namespace Wrapper

variable {env : Env} {config : Config} {w w' : Wrapper vt}

/-- The bytes of an input, if it is accepted. -/
def acceptedInput (env : Env) (config : Config) (data : String) (delays : List InputDelay) :
    Option Bytes :=
  match env.base64.decode data with
  | .ok bytes =>
    if config.readonly = false ∧ delays.length ≤ maxInputDelays ∧
        InputQueue.delaysInOrder bytes.length 0 delays = true then some bytes
    else none
  | .error _ => none

/-- The input of a client that is accepted in an event, with the client's id. -/
def accepted (env : Env) (config : Config) (w : Wrapper vt) : Event → List (ℕ × Bytes)
  | .viewerMessage i (.message (.input data delays)) _ =>
    match w.viewers[i]? with
    | some c => (acceptedInput env config data delays).toList.map (c.id, ·)
    | none => []
  | _ => []

/-- The inputs of clients that are accepted in a run, oldest first. -/
def acceptedIn (env : Env) (config : Config) : Wrapper vt → List Event → List (ℕ × Bytes)
  | _, [] => []
  | w, event :: events =>
    w.accepted env config event ++
      match step env config w event with
      | some w' => acceptedIn env config w' events
      | none => []

/-- The writes of a wrapper to its app account for keys and inputs. -/
def AppAccounts (w : Wrapper vt) (keys : Bytes) (inputs : List (ℕ × Bytes)) : Prop :=
  Accounts w.log.appWrites w.inputQueue keys inputs

variable {keys : Bytes} {inputs : List (ℕ × Bytes)}

/-- Nothing was written to the app, and nothing was accepted. -/
theorem AppAccounts.quiet (h : w.AppAccounts keys inputs)
    (hlog : Log.Grows Obs.Untyped w.log w'.log) (hqueue : w'.inputQueue = w.inputQueue) :
    w'.AppAccounts keys inputs := by
  rw [AppAccounts, hlog.appWrites, hqueue]
  exact h

/-- Without a failure, keys go to the app at once. -/
theorem typeKeys_appWrites {headless : Bool} (held bs : Bytes) {s s' : Stage vt}
    (h : typeKeys env headless held bs s = (none, s')) :
    ∃ new : List Bytes, (∀ bytes ∈ new, bytes ≠ []) ∧
      s'.log.appWrites = s.log.appWrites ++ new ∧
      new.flatten = held ++ bs.filter fun b => b ≠ hotkey := by
  have hwrite (s : Stage vt) (bytes : Bytes) : ∃ new : List Bytes, (∀ b ∈ new, b ≠ []) ∧
      (s.writePty env bytes).2.log.appWrites = s.log.appWrites ++ new ∧ new.flatten = bytes := by
    unfold Stage.writePty
    split
    · rename_i hempty
      exact ⟨[], List.forall_mem_nil _, (List.append_nil _).symm, hempty.symm⟩
    · rename_i hbytes
      exact ⟨[bytes], by simpa using hbytes, Log.appWrites_wrote _ _ _, by simp⟩
  induction bs generalizing held s with
  | nil =>
    obtain ⟨new, hnew, hwrites, hflat⟩ := hwrite s held
    rw [typeKeys] at h
    rw [h] at hwrites
    exact ⟨new, hnew, hwrites, by rw [hflat]; simp⟩
  | cons b bs ih =>
    rw [typeKeys] at h
    split at h
    · rename_i hhotkey
      obtain ⟨new, hnew, hwrites, hflat⟩ := hwrite s held
      split at h
      · cases h
      · rename_i t hheld
        rw [hheld] at hwrites
        have htoggled :=
          Stage.toggleSimulated_keeps routine_untyped viewing_untyped t env headless
        split at h
        · cases h
        · rename_i t' htoggle
          rw [htoggle] at htoggled
          obtain ⟨later, hlater, hrest, hflat'⟩ := ih [] h
          refine ⟨new ++ later, List.forall_mem_append.mpr ⟨hnew, hlater⟩, ?_, ?_⟩
          · rw [hrest, htoggled.log.appWrites, hwrites, List.append_assoc]
          · rw [List.flatten_append, hflat, hflat']
            simp [hhotkey]
    · rename_i hkey
      obtain ⟨new, hnew, hwrites, hflat⟩ := ih (held ++ [b]) h
      exact ⟨new, hnew, hwrites, by rw [hflat]; simp [hkey]⟩

/-- The keyboard branch writes the keys. -/
theorem AppAccounts.onStdin (h : w.AppAccounts keys inputs) {bytes : Bytes}
    (hstep : w.onStdin env config bytes = some w') :
    w'.AppAccounts (keys ++ bytes.filter fun b => b ≠ hotkey) inputs := by
  unfold Wrapper.onStdin at hstep
  split at hstep
  · cases hstep
  · rename_i s hkeys
    obtain ⟨new, hnew, hwrites, hflat⟩ := typeKeys_appWrites [] bytes hkeys
    have htyped :
        (w.withStage s).AppAccounts (keys ++ bytes.filter fun b => b ≠ hotkey) inputs := by
      have haccounts := h.typed hnew
      rwa [hflat, List.nil_append, ← hwrites] at haccounts
    split at hstep
    · obtain ⟨t, ht, rfl⟩ := proceed_eq_some.mp hstep
      have hwritten := Stage.writeHost_beside routine_untyped s env config.headless
        (render s.mirror.refreshScrollback)
      rw [ht] at hwritten
      have hlog : Log.Grows Obs.Untyped (w.withStage s).log (w.withStage t).log := hwritten.log
      exact htyped.quiet hlog rfl
    · obtain ⟨t, ht, rfl⟩ := proceed_eq_some.mp hstep
      cases ht
      exact htyped

/-- A pump takes what it writes from the queue. -/
theorem AppAccounts.pump (h : w.AppAccounts keys inputs) (env : Env) (now : ℕ → ℕ) :
    ({ w with
      inputQueue := (w.inputQueue.pump env now w.log).2.1
      log := (w.inputQueue.pump env now w.log).2.2 } : Wrapper vt).AppAccounts keys inputs := by
  obtain ⟨taken, rest, hqueue, hrest, hwrites⟩ :=
    InputQueue.pumpLoop_appWrites env now 0 w.inputQueue.queue w.inputQueue.due w.log
  have haccounts := Accounts.pumped h hqueue hrest
  rw [← hwrites] at haccounts
  exact haccounts

theorem sweep_inputQueue (h : w.sweep env config = some w') : w'.inputQueue = w.inputQueue := by
  obtain ⟨s, -, rfl⟩ := proceed_eq_some.mp h
  rfl

/-- What a viewer's message comes to: what handling it leaves, and then work that writes nothing to
the app. -/
theorem onViewerMessage_handled {i : ℕ} {msg : ToSession} {now : ℕ → ℕ}
    (h : w.onViewerMessage env config i (.message msg) now = some w') :
    ∃ c, w.viewers[i]? = some c ∧
      w'.inputQueue =
        (w.toStage.handleViewerMessage env config w.hostRank msg i c now w.inputQueue).2.2 ∧
      Log.Grows Obs.Untyped
        (w.toStage.handleViewerMessage env config w.hostRank msg i c now w.inputQueue).2.1.log
        w'.log := by
  unfold onViewerMessage at h
  cases hc : w.viewers[i]? with
  | none => rw [hc] at h; cases h
  | some c =>
    rw [hc] at h
    dsimp only at h
    refine ⟨c, rfl, ?_⟩
    generalize w.toStage.handleViewerMessage env config w.hostRank msg i c now w.inputQueue =
      result at h ⊢
    obtain ⟨error, s, queue⟩ := result
    have hdropped (error : String) : Log.Grows Obs.Untyped s.log (dropViewer s env i error).log :=
      (dropViewer_beside routine_untyped s env i error).log
    have hswept := (sweep_keeps (upkeep_untyped env config) h).stage.log
    refine ⟨sweep_inputQueue h, ?_⟩
    cases error with
    | none => exact hswept
    | some error => exact (hdropped error).trans hswept

/-- All that an input can do: it is refused, or it is queued and the queue is pumped. -/
theorem handleInput_cases (s : Stage vt) (env : Env) (config : Config) (hostRank : ℕ)
    (data : String) (delays : List InputDelay) (i : ℕ) (c : Client) (now : ℕ → ℕ)
    (queue : InputQueue) :
    let result := s.handleViewerMessage env config hostRank (.input data delays) i c now queue
    (acceptedInput env config data delays = none ∧ result.2.2 = queue ∧
        Log.Grows Obs.Untyped s.log result.2.1.log) ∨
      ∃ bytes, acceptedInput env config data delays = some bytes ∧
        InputQueue.delaysInOrder bytes.length 0 delays = true ∧
        result.2.2 = ((queue.push bytes delays).pump env now s.log).2.1 ∧
        result.2.1.log = ((queue.push bytes delays).pump env now s.log).2.2 := by
  intro result
  unfold acceptedInput
  cases hdata : env.base64.decode data with
  | error e =>
    refine .inl ⟨rfl, ?_⟩
    unfold result Stage.handleViewerMessage
    dsimp only
    rw [hdata]
    split
    · exact ⟨rfl, .cons trivial⟩
    · exact ⟨rfl, .refl _ _⟩
  | ok bytes =>
    dsimp only
    by_cases haccepted : config.readonly = false ∧ delays.length ≤ maxInputDelays ∧
        InputQueue.delaysInOrder bytes.length 0 delays = true
    · obtain ⟨hreadonly, hfew, horder⟩ := haccepted
      refine .inr ⟨bytes, if_pos ⟨hreadonly, hfew, horder⟩, horder, ?_⟩
      have hresult : result = (((queue.push bytes delays).pump env now s.log).1,
          { s with log := ((queue.push bytes delays).pump env now s.log).2.2 },
          ((queue.push bytes delays).pump env now s.log).2.1) := by
        unfold result Stage.handleViewerMessage
        dsimp only
        rw [hdata, if_neg (Bool.eq_false_iff.mp hreadonly)]
        dsimp only
        rw [if_neg (Nat.not_lt.mpr hfew), if_neg (by simp [horder])]
      rw [hresult]
      exact ⟨rfl, rfl⟩
    · refine .inl ⟨if_neg haccepted, ?_⟩
      unfold result Stage.handleViewerMessage
      dsimp only
      rw [hdata]
      split
      · exact ⟨rfl, .cons trivial⟩
      · rename_i hreadonly
        dsimp only
        split
        · exact ⟨rfl, .refl _ _⟩
        · rename_i hfew
          split
          · exact ⟨rfl, .refl _ _⟩
          · rename_i horder
            refine absurd ⟨Bool.eq_false_iff.mpr hreadonly, Nat.not_lt.mp hfew, ?_⟩ haccepted
            simpa using horder

/-- An input of a client: accepted, it waits and is pumped; refused, nothing of it is written. -/
theorem AppAccounts.onInput (h : w.AppAccounts keys inputs) {i : ℕ} {data : String}
    {delays : List InputDelay} {now : ℕ → ℕ}
    (hstep : w.onViewerMessage env config i (.message (.input data delays)) now = some w') :
    w'.AppAccounts keys (inputs ++ w.accepted env config
      (.viewerMessage i (.message (.input data delays)) now)) := by
  obtain ⟨c, hc, hqueue, hlog⟩ := onViewerMessage_handled hstep
  have htaken : w.accepted env config (.viewerMessage i (.message (.input data delays)) now) =
      (acceptedInput env config data delays).toList.map (c.id, ·) := by
    unfold accepted
    dsimp only
    rw [hc]
  rw [AppAccounts, hlog.appWrites, hqueue, htaken]
  rcases handleInput_cases w.toStage env config w.hostRank data delays i c now w.inputQueue with
    ⟨hrefused, hqueue', hlog'⟩ | ⟨bytes, haccepted, horder, hqueue', hlog'⟩
  · rw [hrefused, hqueue', hlog'.appWrites]
    exact (List.append_nil inputs).symm ▸ h
  · rw [haccepted, hqueue', hlog']
    have hpushed : AppAccounts { w with inputQueue := w.inputQueue.push bytes delays } keys
        (inputs ++ [(c.id, bytes)]) := Accounts.pushed h c.id horder
    exact hpushed.pump env now

/-- Reports do not touch the queue. -/
theorem reports_inputQueue (w : Wrapper vt) (env : Env) (bells : ℕ) (rung wrote : Clock) :
    ((w.reportBells env bells rung).reportActivity env wrote).inputQueue = w.inputQueue := by
  have hbells : (w.reportBells env bells rung).inputQueue = w.inputQueue := by
    unfold reportBells
    split
    · split <;> rfl
    · rfl
  have hactivity (w : Wrapper vt) : (w.reportActivity env wrote).inputQueue = w.inputQueue := by
    unfold reportActivity
    dsimp only
    split <;> rfl
  exact (hactivity _).trans hbells

/-- Output of the app has nothing to do with the queue. -/
theorem onOutput_inputQueue {bytes : Bytes} {rung wrote : Clock}
    (h : w.onOutput env config bytes rung wrote = some w') : w'.inputQueue = w.inputQueue := by
  unfold onOutput at h
  dsimp only at h
  split at h
  · cases h
  · rename_i s _
    have hreports := reports_inputQueue (w.withStage s) env
      (w.mirror.process bytes).1.bells rung wrote
    split at h
    · exact (sweep_inputQueue h).trans hreports
    · cases h
      exact hreports

/-- Whatever a new connection says has nothing to do with the queue. -/
theorem onPendingMessage_inputQueue {i : ℕ} {received : Received}
    (h : w.onPendingMessage env config i received = some w') : w'.inputQueue = w.inputQueue := by
  unfold onPendingMessage at h
  cases hp : w.pendings[i]? with
  | none => rw [hp] at h; cases h
  | some p =>
    rw [hp] at h
    dsimp only at h
    split at h
    · split at h
      · exact (sweep_inputQueue h).trans rfl
      · exact (sweep_inputQueue h).trans rfl
    · split at h
      · split at h <;> cases h <;> rfl
      · cases h
        rfl
    · cases h
      rfl
    · cases h
      rfl

/-- A viewer's message that is no input leaves the queue alone. -/
theorem handleViewerMessage_inputQueue (s : Stage vt) (env : Env) (config : Config)
    (hostRank : ℕ) {msg : ToSession} (hmsg : ∀ data delays, msg ≠ .input data delays) (i : ℕ)
    (c : Client) (now : ℕ → ℕ) (queue : InputQueue) :
    (s.handleViewerMessage env config hostRank msg i c now queue).2.2 = queue := by
  cases msg with
  | input data delays => exact absurd rfl (hmsg data delays)
  | resize width height =>
    unfold Stage.handleViewerMessage
    dsimp only
    split <;> rfl
  | unview =>
    unfold Stage.handleViewerMessage
    dsimp only
    split <;> rfl
  | _ => rfl

/-- Only an input adds to the queue, and only a pump takes from it. -/
theorem step_inputQueue {event : Event} (hevent : event.types = false)
    (h : step env config w event = some w') : w'.inputQueue = w.inputQueue := by
  cases event with
  | stdin bytes => cases hevent
  | inputDue now => cases hevent
  | stdinEof =>
    rw [step] at h
    split at h
    · cases h
      rfl
    · cases h
  | output bytes rung wrote => exact onOutput_inputQueue h
  | bellDue now =>
    rw [step] at h
    split at h <;> cases h <;> rfl
  | winch size =>
    rw [step] at h
    split at h
    · cases h
    · unfold onWinch at h
      dsimp only at h
      split at h
      · cases h
      · exact (sweep_inputQueue h).trans rfl
  | accept size =>
    cases h
    rfl
  | pendingMessage i received => exact onPendingMessage_inputQueue h
  | viewerMessage i received now =>
    cases received with
    | closed =>
      rw [step] at h
      unfold onViewerMessage at h
      cases hc : w.viewers[i]? with
      | none => rw [hc] at h; cases h
      | some c =>
        rw [hc] at h
        exact (sweep_inputQueue h).trans rfl
    | message msg =>
      obtain ⟨c, -, hqueue, -⟩ := onViewerMessage_handled h
      rw [hqueue]
      apply handleViewerMessage_inputQueue
      rintro data delays rfl
      cases hevent
  | monitorMessage received =>
    unfold step at h
    dsimp only at h
    split at h
    · split at h <;> cases h <;> rfl
    · cases h

/-- Events that do not type write nothing to the app. -/
theorem step_untyped {event : Event} (hevent : event.types = false)
    (h : step env config w event = some w') : Log.Grows Obs.Untyped w.log w'.log := by
  by_cases haccept : ∃ size, event = .accept size
  · obtain ⟨size, rfl⟩ := haccept
    cases h
    exact .cons trivial
  · refine (step_grows routine_untyped viewing_untyped (fun _ => streaming_untyped)
      (fun htypes => ?_) reporting_untyped (fun _ _ _ => trivial)
      (fun size heq => haccept ⟨size, heq⟩) h).log
    rw [hevent] at htypes
    cases htypes

/-- Every event accounts for what it writes to the app. -/
theorem AppAccounts.step (h : w.AppAccounts keys inputs) {event : Event}
    (hstep : step env config w event = some w') :
    w'.AppAccounts (keys ++ event.keys) (inputs ++ w.accepted env config event) := by
  have hquiet (htypes : event.types = false) (hkeys : event.keys = [])
      (hinputs : w.accepted env config event = []) :
      w'.AppAccounts (keys ++ event.keys) (inputs ++ w.accepted env config event) := by
    rw [hkeys, hinputs, List.append_nil, List.append_nil]
    exact h.quiet (step_untyped htypes hstep) (step_inputQueue htypes hstep)
  cases event with
  | stdin bytes =>
    rw [Wrapper.step] at hstep
    split at hstep
    · exact (List.append_nil inputs).symm ▸ h.onStdin hstep
    · cases hstep
  | inputDue now =>
    have hpumped := h.pump env now
    rw [Wrapper.step] at hstep
    split at hstep
    · rename_i hdone
      cases hstep
      rw [hdone] at hpumped
      exact (List.append_nil keys).symm ▸ (List.append_nil inputs).symm ▸ hpumped
    · cases hstep
  | viewerMessage i received now =>
    cases received with
    | closed => exact hquiet rfl rfl rfl
    | message msg =>
      cases msg with
      | input data delays => exact (List.append_nil keys).symm ▸ h.onInput hstep
      | _ => exact hquiet rfl rfl rfl
  | _ => exact hquiet rfl rfl rfl

/-- Every run accounts for what it writes to the app. -/
theorem AppAccounts.run (h : w.AppAccounts keys inputs) {events : List Event}
    (hrun : Machine.run (Wrapper.step env config) w events = some w') :
    w'.AppAccounts (keys ++ events.flatMap Event.keys)
      (inputs ++ acceptedIn env config w events) := by
  induction events generalizing w keys inputs with
  | nil =>
    obtain rfl := Option.some.inj hrun
    exact (List.append_nil keys).symm ▸ (List.append_nil inputs).symm ▸ h
  | cons event events ih =>
    obtain ⟨w₁, hstep, hrest⟩ := Machine.run_cons_eq_some.mp hrun
    have hall := ih (h.step hstep) hrest
    rw [List.append_assoc, List.append_assoc] at hall
    rw [acceptedIn, hstep]
    exact hall

/-- A read-only session accepts nothing. -/
theorem acceptedIn_of_readonly (hreadonly : config.readonly = true) (w : Wrapper vt)
    (events : List Event) : acceptedIn env config w events = [] := by
  have hnone (data : String) (delays : List InputDelay) :
      acceptedInput env config data delays = none := by
    unfold acceptedInput
    split
    · exact if_neg fun h => Bool.noConfusion (hreadonly.symm.trans h.1)
    · rfl
  have hstep (w : Wrapper vt) (event : Event) : w.accepted env config event = [] := by
    unfold accepted
    split
    · rw [hnone]
      split <;> rfl
    · rfl
  induction events generalizing w with
  | nil => rfl
  | cons event events ih =>
    rw [acceptedIn, hstep, List.nil_append]
    split
    · exact ih _
    · rfl

theorem start_inputQueue (h : start vt env config = some w) : w.inputQueue = .empty := by
  unfold start at h
  dsimp only at h
  split at h
  · cases h
    rfl
  · split at h
    · cases h
    · cases h
      rfl

/-- Nothing is typed yet. -/
theorem appAccounts_start (h : start vt env config = some w) : w.AppAccounts [] [] := by
  have hlog : Log.Grows Obs.Untyped [] w.log :=
    ⟨w.log, (List.append_nil _).symm, start_log routine_untyped h⟩
  have hqueue := start_inputQueue h
  rw [AppAccounts, hlog.appWrites, hqueue]
  exact ⟨[], [], rfl, rfl, List.forall_mem_nil _, rfl, rfl⟩

end Wrapper

end G2mirror
