import G2mirror.GoingLive

/-!
# Typing on a read-only session

An attach client and a read-only headless session with the messages between
them, which arrive in the order in which they were sent. The session answers
each message of the client in turn: the view with a snapshot, a history request
with its lines, and an input with an error. An error is harmless only to a
client that is live.
-/

namespace G2mirror

variable {vt : Vt100}

/-- The answer of a read-only session to an input. -/
def inputRejected : FromSession := .error "session is read-only"

namespace Attached

/-- What a message from the session means to a client that waits. -/
inductive Kind
  | snapshot
  | history
  | rejection
  | other
  deriving DecidableEq

/-- What a message from the session is. -/
def kind : FromSession → Kind
  | .snapshot .. => .snapshot
  | .historyLines .. => .history
  | .error _ => .rejection
  | _ => .other

/-- What a message of the client is answered with. -/
def awaited : ToSession → List Kind
  | .view => [.snapshot]
  | .history .. => [.history]
  | .input .. => [.rejection]
  | _ => []

/-- A message as the session sends it: the bytes of a snapshot can be decoded. -/
def wellFormed (base64 : Base64) : FromSession → Bool
  | .snapshot data .. => (base64.decode data).toBool
  | _ => true

/-- Whether a read-only session answers a message of a client in this way. -/
def answers (base64 : Base64) : ToSession → List FromSession → Bool
  | .init _, [] => true
  | .view, [.snapshot data width height historyNext] =>
    wellFormed base64 (.snapshot data width height historyNext)
  | .input .., [msg] => msg = inputRejected
  | .history .., [.historyLines ..] => true
  | .resize .., [] => true
  | .unview, [] => true
  | _, _ => false

/-- An attach client and its session. -/
structure Link (vt : Vt100) where
  client : Attached vt
  /-- The event at which the client's loop has returned. -/
  ended : Option Event
  /-- How many of the client's messages the session has handled. -/
  handled : ℕ
  /-- What the session has sent and the client has not read, oldest first. -/
  inbox : List FromSession
  /-- The session has refused the init and closed the connection. -/
  refused : Bool

/-- A step of the client or of the session. -/
inductive Action
  /-- Something that the client waits for besides messages. -/
  | event (e : Event)
  /-- The client reads the next message. -/
  | receive
  /-- The session answers the next message of the client. -/
  | answer (replies : List FromSession)
  | refuse (message : String)
  /-- The session sends something of its own accord, such as output or a title. -/
  | emit (msg : FromSession)

namespace Link

/-- The link after the session's greeting was read. -/
def start (vt : Vt100) (rows cols : ℕ) (force : Bool) (detachKey : Option UInt8)
    (greeting : Connect) : Link vt :=
  ⟨.start vt rows cols force detachKey greeting, none, 0, [], false⟩

/-- A round of the client. -/
def round (base64 : Base64) (s : Link vt) (e : Event) : Link vt :=
  match s.client.step base64 e with
  | .ok client => { s with client := client }
  | .error _ => { s with ended := some e }

/-- What an action comes to, if it is possible. -/
def step (base64 : Base64) (s : Link vt) (action : Action) : Option (Link vt) :=
  if s.ended.isSome then none
  else
    match action with
    | .event (.message _) => none
    | .event e => some (s.round base64 e)
    | .receive =>
      match s.inbox with
      | [] => none
      | msg :: inbox => some ({ s with inbox := inbox }.round base64 (.message msg))
    | .answer replies =>
      match s.client.sent[s.handled]? with
      | none => none
      | some msg =>
        if !s.refused && answers base64 msg replies then
          some { s with handled := s.handled + 1, inbox := s.inbox ++ replies }
        else none
    | .refuse message =>
      match s.client.sent[s.handled]? with
      | some (.init _) => some { s with inbox := s.inbox ++ [.error message], refused := true }
      | _ => none
    | .emit msg =>
      if !s.refused && kind msg ∉ [.rejection, .history] && wellFormed base64 msg then
        some { s with inbox := s.inbox ++ [msg] }
      else none

/-- The client runs, or it has ended because a read has ended, because of the
detach key, or because its init was refused. -/
def EndsRightly (s : Link vt) : Prop :=
  match s.ended with
  | none => True
  | some (.message _) => s.refused = true
  | some (.keys bytes) => (splitKeys s.client.detachKey bytes).2 = true
  | some (.winch _) => False
  | some _ => True

/-- What the client will read before anything else happens, as far as it is known. -/
def stream (s : Link vt) : List Kind :=
  s.inbox.map kind ++ (s.client.sent.drop s.handled).flatMap awaited

/-- The next message is a snapshot that makes the client ask for history. -/
def asksNext (s : Link vt) : Bool :=
  match s.inbox, s.client.mode with
  | _, .live _ => false
  | .snapshot _ _ _ historyNext :: _, _ => s.client.historyOldest < historyNext
  | _, _ => false

/-- The snapshot that makes a client ask for history finds no input unanswered. -/
def Undisturbed (s : Link vt) : Action → Prop
  | .receive => s.asksNext = true → .rejection ∉ s.stream
  | _ => True

instance (s : Link vt) : (action : Action) → Decidable (s.Undisturbed action)
  | .receive => inferInstanceAs (Decidable (s.asksNext = true → .rejection ∉ s.stream))
  | .event _ => isTrue trivial
  | .answer _ => isTrue trivial
  | .refuse _ => isTrue trivial
  | .emit _ => isTrue trivial

end Link

/-- What a client waits for: `none` if it is live, `some 0` for a snapshot, and the
number of history replies up to its own one otherwise. -/
def need (a : Attached vt) : Option ℕ :=
  match a.mode with
  | .live _ => none
  | .awaitSnapshot => some 0
  | .fetchingHistory f => some (f.skipReplies + 1)

/-- A client after a message: what it waits for and what it has sent besides. -/
structure Became (a a' : Attached vt) (waits : Option ℕ) (sent : List ToSession) : Prop where
  need : a'.need = waits
  sent : a'.sent = a.sent ++ sent
  detached : a'.detached = a.detached

theorem onMessage_live (base64 : Base64) (msg : FromSession) {a : Attached vt} (h : a.need = none) :
    ∃ a', a.onMessage base64 msg = .ok a' ∧ Became a a' none [] := by
  cases hm : a.mode with
  | awaitSnapshot => simp [need, hm] at h
  | fetchingHistory f => simp [need, hm] at h
  | live mirror =>
    cases msg with
    | snapshot data width height next =>
      cases hdata : base64.decode data with
      | error e => exact ⟨a, onMessage_snapshot_error hdata, h, by simp, rfl⟩
      | ok bytes =>
        refine ⟨_, onMessage_snapshot_ok hdata, ?_⟩
        simp only [onSnapshot, hm]
        exact ⟨rfl, by simp [write], rfl⟩
    | output data =>
      cases hdata : base64.decode data with
      | error e => exact ⟨a, onMessage_output_error hdata, h, by simp, rfl⟩
      | ok bytes =>
        refine ⟨_, onMessage_output_ok hdata, ?_⟩
        simp only [onOutput, hm]
        exact ⟨rfl, by simp [write], rfl⟩
    | historyLines start oldest next lines =>
      simp only [onMessage, hm]
      exact ⟨a, rfl, h, by simp, rfl⟩
    | error message =>
      simp only [onMessage, hm]
      exact ⟨_, rfl, by simp [need], by simp, rfl⟩
    | title title => exact ⟨_, rfl, by simp [need, write, hm], by simp [write], rfl⟩
    | exit status => exact ⟨_, rfl, by simp [need, hm], by simp, rfl⟩
    | connect c => exact ⟨a, rfl, h, by simp, rfl⟩
    | bell epoch => exact ⟨a, rfl, h, by simp, rfl⟩
    | activity epoch => exact ⟨a, rfl, h, by simp, rfl⟩
    | hostChanged attached => exact ⟨a, rfl, h, by simp, rfl⟩

theorem onMessage_other (base64 : Base64) {msg : FromSession} (a : Attached vt)
    (hkind : kind msg = .other) :
    ∃ a', a.onMessage base64 msg = .ok a' ∧ Became a a' a.need [] := by
  cases msg with
  | output data =>
    cases hdata : base64.decode data with
    | error e => exact ⟨a, onMessage_output_error hdata, rfl, by simp, rfl⟩
    | ok bytes =>
      refine ⟨_, onMessage_output_ok hdata, ?_⟩
      unfold onOutput
      cases hm : a.mode with
      | awaitSnapshot => exact ⟨rfl, by simp, rfl⟩
      | live mirror => exact ⟨by simp [need, hm], by simp [write], rfl⟩
      | fetchingHistory f => exact ⟨by simp [need, hm], by simp, rfl⟩
  | title title => exact ⟨_, rfl, rfl, by simp [write], rfl⟩
  | exit status => exact ⟨_, rfl, rfl, by simp, rfl⟩
  | connect c => exact ⟨a, rfl, rfl, by simp, rfl⟩
  | bell epoch => exact ⟨a, rfl, rfl, by simp, rfl⟩
  | activity epoch => exact ⟨a, rfl, rfl, by simp, rfl⟩
  | hostChanged attached => exact ⟨a, rfl, rfl, by simp, rfl⟩
  | snapshot data width height next => cases hkind
  | historyLines start oldest next lines => cases hkind
  | error message => cases hkind

/-- A snapshot makes a waiting client ask for history, or go live if there is none. -/
theorem onMessage_snapshot {base64 : Base64} {a : Attached vt} {data : String}
    {width height next n : ℕ} (hdata : wellFormed base64 (.snapshot data width height next))
    (hneed : a.need = some n) :
    ∃ a', a.onMessage base64 (.snapshot data width height next) = .ok a' ∧
      if a.historyOldest < next then Became a a' (some (n + 1)) [.history next none]
      else Became a a' none [] := by
  cases hdecode : base64.decode data with
  | error e =>
    simp only [wellFormed, hdecode] at hdata
    cases hdata
  | ok bytes =>
    refine ⟨_, onMessage_snapshot_ok hdecode, ?_⟩
    unfold onSnapshot
    cases hm : a.mode with
    | live mirror => simp [need, hm] at hneed
    | awaitSnapshot =>
      obtain rfl : 0 = n := by simpa [need, hm] using hneed
      split_ifs with hnext
      · simp only [hnext, if_true]
        exact ⟨rfl, rfl, rfl⟩
      · simp only [hnext, if_false]
        exact ⟨rfl, by simp [goLive, write], rfl⟩
    | fetchingHistory f =>
      obtain rfl : f.skipReplies + 1 = n := by simpa [need, hm] using hneed
      split_ifs with hnext
      · exact ⟨rfl, rfl, rfl⟩
      · exact ⟨rfl, by simp [goLive, write], rfl⟩

/-- A history reply brings a client that waits for several closer to going live. -/
theorem onMessage_history (base64 : Base64) {a : Attached vt} {n : ℕ} (start oldest next : ℕ)
    (lines : List HistoryLine) (hneed : a.need = some n) :
    ∃ a', a.onMessage base64 (.historyLines start oldest next lines) = .ok a' ∧
      Became a a' (if n = 0 then some 0 else if n = 1 then none else some (n - 1)) [] := by
  unfold onMessage
  match hm : a.mode with
  | .live mirror => simp [need, hm] at hneed
  | .awaitSnapshot =>
    obtain rfl : 0 = n := by simpa [need, hm] using hneed
    exact ⟨a, rfl, hneed, by simp, rfl⟩
  | .fetchingHistory ⟨shown, pending, 0⟩ =>
    obtain rfl : 1 = n := by simpa [need, hm] using hneed
    refine ⟨_, rfl, ?_, ?_, ?_⟩
    · simp [goLive, hm, need]
    · simp [goLive, hm, write]
    · simp [goLive, hm, write]
  | .fetchingHistory ⟨shown, pending, skip + 1⟩ =>
    obtain rfl : skip + 1 + 1 = n := by simpa [need, hm] using hneed
    exact ⟨_, rfl, by simp [need], by simp, rfl⟩

/-- A message leaves the client attached, unless it is an error that ends it. -/
theorem onMessage_became {base64 : Base64} {a : Attached vt} {msg : FromSession}
    (hmsg : wellFormed base64 msg) :
    (∃ a' waits sent, a.onMessage base64 msg = .ok a' ∧ Became a a' waits sent) ∨
      kind msg = .rejection ∧ a.need ≠ none ∧ ∃ e, a.onMessage base64 msg = .error e := by
  match hneed : a.need with
  | none =>
    obtain ⟨a', hok, hbecame⟩ := onMessage_live base64 msg hneed
    exact .inl ⟨a', _, _, hok, hbecame⟩
  | some n =>
    by_cases hother : kind msg = .other
    · obtain ⟨a', hok, hbecame⟩ := onMessage_other base64 a hother
      exact .inl ⟨a', _, _, hok, hbecame⟩
    cases msg with
    | snapshot data width height next =>
      obtain ⟨a', hok, hbecame⟩ := onMessage_snapshot hmsg hneed
      split_ifs at hbecame
      · exact .inl ⟨a', _, _, hok, hbecame⟩
      · exact .inl ⟨a', _, _, hok, hbecame⟩
    | historyLines start oldest next lines =>
      obtain ⟨a', hok, hbecame⟩ := onMessage_history base64 start oldest next lines hneed
      exact .inl ⟨a', _, _, hok, hbecame⟩
    | error message =>
      refine .inr ⟨rfl, nofun, message, ?_⟩
      unfold onMessage
      cases hm : a.mode with
      | live mirror => simp [need, hm] at hneed
      | awaitSnapshot => rfl
      | fetchingHistory f => rfl
    | _ => exact absurd rfl hother

/-- Keys may be sent, and detach the client. -/
theorem onKeys_keeps (a : Attached vt) (base64 : Base64) (bytes : Bytes) :
    (a.onKeys base64 bytes).need = a.need ∧
      (∃ sent, (a.onKeys base64 bytes).sent = a.sent ++ sent) ∧
      (a.onKeys base64 bytes).detached = (a.detached || (splitKeys a.detachKey bytes).2) := by
  have hdetached (input : Bytes) : (a.refresh input).detached = a.detached := by
    unfold refresh
    split
    · split <;> rfl
    · rfl
  unfold onKeys
  generalize splitKeys a.detachKey bytes = keys
  obtain ⟨input, detach⟩ := keys
  refine ⟨?_, ?_, ?_⟩
  · unfold need
    dsimp only
    split_ifs <;> simp [send]
  · dsimp only
    split_ifs
    · exact ⟨[.unview], by simp [send]⟩
    · exact ⟨[.input (base64.encode input) [], .unview], by simp [send]⟩
    · exact ⟨[], by simp⟩
    · exact ⟨[.input (base64.encode input) []], by simp [send]⟩
  · dsimp only
    cases detach with
    | true => simp [send]
    | false =>
      simp only [Bool.false_eq_true, if_false, Bool.or_false]
      split_ifs
      · exact hdetached input
      · exact hdetached input

theorem onWinch_became (a : Attached vt) (size : Option (ℕ × ℕ)) :
    Became a (a.onWinch size) a.need [.resize (hostSize size).2 (hostSize size).1] := by
  unfold onWinch
  cases hm : a.mode with
  | awaitSnapshot => exact ⟨by simp [need, send, hm], by simp [send], by simp [send]⟩
  | fetchingHistory f => exact ⟨by simp [need, send, hm], by simp [send], by simp [send]⟩
  | live mirror => exact ⟨by simp [need, send, hm], by simp [send, write], by simp [send, write]⟩

/-- The kinds before the first rejection. -/
def ahead (kinds : List Kind) : List Kind := kinds.takeWhile (· ≠ .rejection)

theorem ahead_cons {k : Kind} (hk : k ≠ .rejection) (kinds : List Kind) :
    ahead (k :: kinds) = k :: ahead kinds := by
  simp [ahead, hk]

theorem ahead_eq_self {kinds : List Kind} (h : .rejection ∉ kinds) : ahead kinds = kinds := by
  refine List.takeWhile_eq_self_iff.mpr fun k hk => ?_
  simpa using fun heq : k = .rejection => h (heq ▸ hk)

/-- What comes later is not ahead of anything. -/
theorem ahead_sublist_append (kinds later : List Kind) :
    (ahead kinds).Sublist (ahead (kinds ++ later)) := by
  unfold ahead
  rw [List.takeWhile_append]
  split
  · exact (List.takeWhile_sublist _).trans (List.sublist_append_left _ _)
  · exact .refl _

/-- Something that is no rejection puts nothing back that was ahead. -/
theorem ahead_sublist_insert (kinds later : List Kind) {k : Kind} (hk : k ≠ .rejection) :
    (ahead (kinds ++ later)).Sublist (ahead (kinds ++ k :: later)) := by
  unfold ahead
  rw [List.takeWhile_append, List.takeWhile_append]
  split
  · simp [hk]
  · exact .refl _

/-- Of these kinds, what a client waits for comes before any rejection. -/
def Met : Option ℕ → List Kind → Prop
  | none, _ => True
  | some 0, kinds => .snapshot ∈ ahead kinds
  | some (n + 1), kinds => n + 1 ≤ (ahead kinds).count .history

theorem Met.of_sublist {waits : Option ℕ} {kinds kinds' : List Kind} (h : Met waits kinds)
    (hahead : (ahead kinds).Sublist (ahead kinds')) : Met waits kinds' := by
  match waits with
  | none => trivial
  | some 0 => exact hahead.subset h
  | some (n + 1) => exact Nat.le_trans h (hahead.count_le _)

theorem Met.tail_other {waits : Option ℕ} {kinds : List Kind} (h : Met waits (.other :: kinds)) :
    Met waits kinds := by
  match waits with
  | none => trivial
  | some 0 => simpa [Met, ahead_cons] using h
  | some (n + 1) => simpa [Met, ahead_cons] using h

/-- A waiting client does not meet a rejection. -/
theorem not_met_rejection {n : ℕ} {kinds : List Kind} : ¬Met (some n) (.rejection :: kinds) := by
  cases n with
  | zero => simp [Met, ahead]
  | succ n => simp [Met, ahead]

theorem Met.tail_history {n : ℕ} {kinds : List Kind} (h : Met (some n) (.history :: kinds)) :
    Met (if n = 0 then some 0 else if n = 1 then none else some (n - 1)) kinds := by
  match n with
  | 0 => simpa [Met, ahead_cons] using h
  | 1 => trivial
  | n + 2 => simpa [Met, ahead_cons] using h

/-- If no input is unanswered, the history that a client asks for comes before a rejection. -/
theorem Met.ask {n : ℕ} {kinds : List Kind} (h : Met (some n) (.snapshot :: kinds))
    (hclear : .rejection ∉ kinds) : Met (some (n + 1)) (kinds ++ [.history]) := by
  have hkinds : ahead (kinds ++ [.history]) = kinds ++ [.history] :=
    ahead_eq_self (by simpa using hclear)
  change n + 1 ≤ (ahead (kinds ++ [.history])).count .history
  rw [hkinds, List.count_append]
  cases n with
  | zero => simp
  | succ n =>
    have hcount : n + 1 ≤ kinds.count .history := by
      simpa [Met, ahead_cons, ahead_eq_self hclear] using h
    simpa using hcount

namespace Link

variable {base64 : Base64}

/-- What holds between two steps of a link. -/
structure Sound (base64 : Base64) (s : Link vt) : Prop where
  ends : s.EndsRightly
  waits : s.ended = none → s.refused = false → Met s.client.need s.stream
  attached : s.ended = none → s.client.detached = false
  handled : s.handled ≤ s.client.sent.length
  inbox : ∀ msg ∈ s.inbox, wellFormed base64 msg

/-- What is on its way after the client has sent something. -/
theorem stream_of_sent {s s' : Link vt} {sent : List ToSession}
    (hhandled : s.handled ≤ s.client.sent.length)
    (h : s'.handled = s.handled) (hinbox : s'.inbox = s.inbox)
    (hsent : s'.client.sent = s.client.sent ++ sent) :
    s'.stream = s.stream ++ sent.flatMap awaited := by
  unfold stream
  rw [h, hinbox, hsent, List.drop_append_of_le_length hhandled, List.flatMap_append,
    List.append_assoc]

/-- The client has sent something and waits for the same as before. -/
theorem Sound.of_sent {s : Link vt} {client : Attached vt} {sent : List ToSession}
    (hs : s.Sound base64) (hover : s.ended = none) (hneed : client.need = s.client.need)
    (hsent : client.sent = s.client.sent ++ sent) (hattached : client.detached = false) :
    Sound base64 { s with client := client } where
  ends := by simp [EndsRightly, hover]
  waits := by
    intro _ hrefused
    have hstream := @stream_of_sent _ s { s with client := client } _ hs.handled rfl rfl hsent
    rw [hneed, hstream]
    exact (hs.waits hover hrefused).of_sublist (ahead_sublist_append _ _)
  attached := fun _ => hattached
  handled := by
    have hlen := hs.handled
    simp only [hsent, List.length_append]
    omega
  inbox := hs.inbox

/-- A client that has ended for a good reason stays so. -/
theorem Sound.of_over {s : Link vt} {e : Event} (hs : s.Sound base64)
    (he : EndsRightly { s with ended := some e }) : Sound base64 { s with ended := some e } :=
  ⟨he, nofun, nofun, hs.handled, hs.inbox⟩

/-- Keys, resizes and ends of reads. -/
theorem Sound.round {s : Link vt} {e : Event} (hs : s.Sound base64) (hover : s.ended = none)
    (he : ∀ msg, e ≠ .message msg) : Sound base64 (s.round base64 e) := by
  have hattached := hs.attached hover
  cases e with
  | message msg => exact absurd rfl (he msg)
  | keys bytes =>
    obtain ⟨hneed, ⟨sent, hsent⟩, hdetached⟩ := s.client.onKeys_keeps base64 bytes
    rw [hattached, Bool.false_or] at hdetached
    unfold Link.round Attached.step
    dsimp only
    split
    · rename_i h
      split at h
      · cases h
      · rename_i hkept
        obtain rfl := Except.ok.inj h
        exact hs.of_sent hover hneed hsent (Bool.eq_false_iff.mpr hkept)
    · rename_i h
      split at h
      · rename_i hlost
        exact hs.of_over (hdetached.symm.trans hlost)
      · cases h
  | winch size =>
    obtain ⟨hneed, hsent, hdetached⟩ := s.client.onWinch_became size
    exact hs.of_sent hover hneed hsent (hdetached.trans hattached)
  | readError error => exact hs.of_over trivial
  | closed => exact hs.of_over trivial
  | stdinEof => exact hs.of_over trivial
  | stdinError error => exact hs.of_over trivial

/-- What the client waits for after it has read a message comes before a rejection. -/
theorem met_receive {s : Link vt} {a' : Attached vt} {msg : FromSession}
    {inbox : List FromSession} (hmet : Met s.client.need s.stream) (hinbox : s.inbox = msg :: inbox)
    (hhandled : s.handled ≤ s.client.sent.length) (hmsg : wellFormed base64 msg)
    (hundisturbed : s.Undisturbed .receive) (hok : s.client.onMessage base64 msg = .ok a') :
    Met a'.need (stream { s with client := a', inbox := inbox }) := by
  let later := inbox.map kind ++ (s.client.sent.drop s.handled).flatMap awaited
  have hstream : s.stream = kind msg :: later := by simp [stream, hinbox, later]
  have hnew {waits : Option ℕ} {sent : List ToSession} (hbecame : Became s.client a' waits sent) :
      stream { s with client := a', inbox := inbox } = later ++ sent.flatMap awaited := by
    simp [stream, later, hbecame.sent, List.drop_append_of_le_length hhandled]
  rw [hstream] at hmet
  match hneed : s.client.need with
  | none =>
    obtain ⟨a'', hok', hbecame⟩ := onMessage_live base64 msg hneed
    obtain rfl := Except.ok.inj (hok.symm.trans hok')
    rw [hbecame.need]
    trivial
  | some n =>
    rw [hneed] at hmet
    by_cases hother : kind msg = .other
    · obtain ⟨a'', hok', hbecame⟩ := onMessage_other base64 s.client hother
      obtain rfl := Except.ok.inj (hok.symm.trans hok')
      rw [hnew hbecame, hbecame.need, hneed]
      rw [hother] at hmet
      simpa using hmet.tail_other
    cases msg with
    | snapshot data width height next =>
      obtain ⟨a'', hok', hbecame⟩ := onMessage_snapshot hmsg hneed
      obtain rfl := Except.ok.inj (hok.symm.trans hok')
      split_ifs at hbecame with hnext
      · have hclear : .rejection ∉ s.stream := by
          refine hundisturbed ?_
          unfold asksNext
          cases hm : s.client.mode with
          | live mirror => simp [need, hm] at hneed
          | awaitSnapshot => simpa [hinbox] using hnext
          | fetchingHistory f => simpa [hinbox] using hnext
        rw [hstream] at hclear
        rw [hnew hbecame, hbecame.need]
        exact hmet.ask fun h => hclear (List.mem_cons_of_mem _ h)
      · rw [hbecame.need]
        trivial
    | historyLines start oldest next lines =>
      obtain ⟨a'', hok', hbecame⟩ := onMessage_history base64 start oldest next lines hneed
      obtain rfl := Except.ok.inj (hok.symm.trans hok')
      rw [hnew hbecame, hbecame.need]
      simpa using hmet.tail_history
    | error message => exact absurd hmet not_met_rejection
    | _ => exact absurd rfl hother

/-- A message is read. -/
theorem Sound.receive {s : Link vt} {msg : FromSession} {inbox : List FromSession}
    (hs : s.Sound base64) (hover : s.ended = none) (hinbox : s.inbox = msg :: inbox)
    (hundisturbed : s.Undisturbed .receive) :
    Sound base64 (Link.round base64 { s with inbox := inbox } (.message msg)) := by
  have hmsg := hs.inbox msg (hinbox ▸ List.mem_cons_self)
  have hrest : ∀ m ∈ inbox, wellFormed base64 m :=
    fun m hm => hs.inbox m (hinbox ▸ List.mem_cons_of_mem _ hm)
  unfold Link.round Attached.step
  dsimp only
  rcases onMessage_became hmsg with ⟨a', waits, sent, hok, hbecame⟩ | ⟨hkind, hneed, e, herror⟩
  · rw [hok]
    refine ⟨by simp [EndsRightly, hover], fun _ hrefused => ?_, fun _ => ?_, ?_, hrest⟩
    · exact met_receive (hs.waits hover hrefused) hinbox hs.handled hmsg hundisturbed hok
    · exact hbecame.detached.trans (hs.attached hover)
    · have hlen := hs.handled
      simp only [hbecame.sent, List.length_append]
      omega
  · rw [herror]
    refine ⟨?_, nofun, nofun, hs.handled, hrest⟩
    by_contra hrefused
    have hmet := hs.waits hover (Bool.eq_false_iff.mpr hrefused)
    obtain ⟨n, hn⟩ := Option.ne_none_iff_exists'.mp hneed
    have hstream : s.stream = .rejection :: (inbox.map kind ++
        (s.client.sent.drop s.handled).flatMap awaited) := by
      simp [stream, hinbox, hkind]
    rw [hn, hstream] at hmet
    exact not_met_rejection hmet

/-- A session's answers are of the kinds that are awaited. -/
theorem kinds_of_answers {msg : ToSession} {replies : List FromSession}
    (h : answers base64 msg replies) :
    replies.map kind = awaited msg ∧ ∀ m ∈ replies, wellFormed base64 m := by
  unfold answers at h
  split at h
  · exact ⟨rfl, nofun⟩
  · exact ⟨rfl, by simpa using h⟩
  · obtain rfl := of_decide_eq_true h
    exact ⟨rfl, by simp [inputRejected, wellFormed]⟩
  · exact ⟨rfl, by simp [wellFormed]⟩
  · exact ⟨rfl, nofun⟩
  · exact ⟨rfl, nofun⟩
  · cases h

/-- An answer is what was awaited. -/
theorem Sound.answer {s : Link vt} {msg : ToSession} {replies : List FromSession}
    (hs : s.Sound base64) (hover : s.ended = none) (hmsg : s.client.sent[s.handled]? = some msg)
    (hanswers : answers base64 msg replies) :
    Sound base64 { s with handled := s.handled + 1, inbox := s.inbox ++ replies } := by
  obtain ⟨hkinds, hreplies⟩ := kinds_of_answers hanswers
  obtain ⟨hlt, hget⟩ := List.getElem?_eq_some_iff.mp hmsg
  have hstream : stream { s with handled := s.handled + 1, inbox := s.inbox ++ replies } =
      s.stream := by
    simp [stream, hkinds, List.drop_eq_getElem_cons hlt, hget]
  refine ⟨by simp [EndsRightly, hover], fun _ hrefused => ?_, fun _ => hs.attached hover, hlt, ?_⟩
  · rw [hstream]
    exact hs.waits hover hrefused
  · intro m hm
    rcases List.mem_append.mp hm with hm | hm
    · exact hs.inbox m hm
    · exact hreplies m hm

/-- What a session sends of its own accord keeps nobody waiting. -/
theorem Sound.emit {s : Link vt} {msg : FromSession} (hs : s.Sound base64) (hover : s.ended = none)
    (hkind : kind msg ≠ .rejection) (hmsg : wellFormed base64 msg) :
    Sound base64 { s with inbox := s.inbox ++ [msg] } := by
  refine ⟨by simp [EndsRightly, hover], fun _ hrefused => ?_, fun _ => hs.attached hover,
    hs.handled, ?_⟩
  · refine (hs.waits hover hrefused).of_sublist ?_
    have hinsert := ahead_sublist_insert (s.inbox.map kind)
      ((s.client.sent.drop s.handled).flatMap awaited) hkind
    simpa [stream] using hinsert
  · intro m hm
    rcases List.mem_append.mp hm with hm | hm
    · exact hs.inbox m hm
    · exact List.mem_singleton.mp hm ▸ hmsg

theorem sound_start (rows cols : ℕ) (force : Bool) (detachKey : Option UInt8) (greeting : Connect) :
    Sound base64 (start vt rows cols force detachKey greeting) where
  ends := trivial
  waits := by
    intro _ _
    simp [start, Attached.start, need, stream, Met, ahead, awaited]
  attached := fun _ => rfl
  handled := Nat.zero_le _
  inbox := nofun

/-- Every action whose snapshot finds no input unanswered keeps a link sound. -/
theorem Sound.step {s s' : Link vt} {action : Action} (hs : s.Sound base64)
    (hundisturbed : s.Undisturbed action) (h : s.step base64 action = some s') :
    s'.Sound base64 := by
  unfold Link.step at h
  split at h
  · cases h
  rename_i hover
  rw [Bool.not_eq_true, Option.isSome_eq_false_iff, Option.isNone_iff_eq_none] at hover
  match action with
  | .event e =>
    have hround : (∀ msg, e ≠ .message msg) ∧ s' = s.round base64 e := by
      cases e with
      | message msg => cases h
      | _ => exact ⟨nofun, (Option.some.inj h).symm⟩
    exact hround.2 ▸ hs.round hover hround.1
  | .receive =>
    match hinbox : s.inbox with
    | [] => simp [hinbox] at h
    | msg :: inbox =>
      simp only [hinbox, Option.some.injEq] at h
      exact h ▸ hs.receive hover hinbox hundisturbed
  | .answer replies =>
    dsimp only at h
    match hmsg : s.client.sent[s.handled]? with
    | none => simp [hmsg] at h
    | some msg =>
      simp only [hmsg] at h
      split at h
      · rename_i hanswers
        rw [Bool.and_eq_true] at hanswers
        exact Option.some.inj h ▸ hs.answer hover hmsg hanswers.2
      · cases h
  | .refuse message =>
    dsimp only at h
    split at h
    · obtain rfl := Option.some.inj h
      refine ⟨by simp [EndsRightly, hover], nofun, fun _ => hs.attached hover, hs.handled, ?_⟩
      intro m hm
      rcases List.mem_append.mp hm with hm | hm
      · exact hs.inbox m hm
      · exact List.mem_singleton.mp hm ▸ rfl
    · cases h
  | .emit msg =>
    dsimp only at h
    split at h
    · rename_i hallowed
      simp only [Bool.and_eq_true, decide_eq_true_eq, List.mem_cons, not_or] at hallowed
      exact Option.some.inj h ▸ hs.emit hover hallowed.1.2.1 hallowed.2
    · cases h

end Link

/-- Typing on a read-only session does not end an attach, as long as every snapshot
that makes the client ask for history finds no input unanswered. -/
theorem typing_ends_no_attach (base64 : Base64) (rows cols : ℕ) (force : Bool)
    (detachKey : Option UInt8) (greeting : Connect) (actions : List Action) (s : Link vt)
    (hrun : Machine.run (Link.step base64) (.start vt rows cols force detachKey greeting) actions =
      some s)
    (hundisturbed : Machine.Along (Link.step base64) Link.Undisturbed
      (.start vt rows cols force detachKey greeting) actions) :
    s.EndsRightly :=
  (Machine.run_invariant_along (I := Link.Sound base64) (fun _ _ _ hs hp h => hs.step hp h)
    (Link.sound_start rows cols force detachKey greeting) hundisturbed hrun).ends

/-- The greeting of a read-only headless session with three lines of history. -/
def readonlyGreeting : Connect :=
  ⟨protocolVersion, 1, "sh", "/", 4, 2, true, ⟨3, 0⟩, none, true, true, none, none⟩

/-- The attach client of a read-only headless session. -/
def readonlyLink : Link asciiVt100 := .start asciiVt100 2 4 false none readonlyGreeting

/-- A key that is typed before the snapshot arrives is rejected before the history is there. -/
theorem typing_ends_attach : ∃ s ∈ Machine.run (Link.step helloBase64) readonlyLink
    [.answer [], .event (.keys [0x61]), .answer [.snapshot "SGVsbG8=" 4 2 3], .receive,
      .answer [inputRejected], .receive], ¬s.EndsRightly :=
  ⟨_, rfl, nofun⟩

/-- A key is typed after the client has gone live. -/
def typedLive : List Action :=
  [.answer [], .answer [.snapshot "SGVsbG8=" 4 2 3], .receive, .answer [.historyLines 0 0 3 []],
    .receive, .event (.keys [0x61]), .answer [inputRejected], .receive]

theorem typing_live_ends_no_attach :
    ∃ s ∈ Machine.run (Link.step helloBase64) readonlyLink typedLive, s.EndsRightly := by
  obtain ⟨s, hs⟩ := Option.isSome_iff_exists.mp (show (Machine.run (Link.step helloBase64)
    readonlyLink typedLive).isSome from by decide +kernel)
  exact ⟨s, hs, typing_ends_no_attach helloBase64 2 4 false none readonlyGreeting typedLive s hs
    (by decide +kernel)⟩

end Attached

end G2mirror
