import G2mirror.Protocol
import Mathlib.Data.List.Forall2

/-!
# Clients of the wrapper

`control.rs` and the input queue of `main.rs`: connected clients, the debouncing
of bells, input with pauses, and sends to several clients. What the wrapper does
to the outside world is recorded in a log, newest entry first. Whether an
attempt to write succeeds is up to the environment.
-/

namespace G2mirror

/-- `ClientState`. -/
inductive ClientState
  | awaitingInit
  | ready
  | viewing
  deriving DecidableEq

/-- `Client`, without its stream. -/
structure Client where
  state : ClientState
  device : String
  width : ℕ
  height : ℕ
  /-- Size-precedence rank from the init message: lower wins the size. -/
  sizeRank : ℕ
  role : Role
  /-- Arrival order. -/
  id : ℕ
  /-- Marked when a send fails; swept out of the viewer list at safe points. -/
  dead : Bool
  deriving DecidableEq

namespace Client

/-- `Client::new`. -/
def new (id : ℕ) : Client := ⟨.awaitingInit, "", 0, 0, 0, .viewer, id, false⟩

/-- The client, marked dead. -/
def die (c : Client) : Client := { c with dead := true }

/-- `effective_rank`: host-role clients stand in for the host terminal. -/
def effectiveRank (c : Client) (hostRank : ℕ) : ℕ :=
  match c.role with
  | .host => hostRank
  | .viewer => c.sizeRank

@[simp] theorem die_id (c : Client) : c.die.id = c.id := rfl

@[simp] theorem die_role (c : Client) : c.die.role = c.role := rfl

@[simp] theorem die_state (c : Client) : c.die.state = c.state := rfl

@[simp] theorem die_dead (c : Client) : c.die.dead = true := rfl

end Client

/-- What the wrapper did. -/
inductive Obs
  /-- A message to a client, as the client was then, and whether it went out. -/
  | sent (client : Client) (msg : FromSession) (ok : Bool)
  | hostWrote (bytes : Bytes) (ok : Bool)
  | ptyWrote (bytes : Bytes) (ok : Bool)
  | ptyResized (rows cols : ℕ) (ok : Bool)
  /-- The mirror started a view, and whether its transition could be applied. -/
  | viewStarted (rows cols : ℕ) (applied : Bool)
  /-- The mirror produced output for devices. -/
  | produced (data : Bytes)
  deriving DecidableEq

/-- Everything the wrapper did so far, newest entry first. -/
abbrev Log := List Obs

/-- The environment: whether the attempt at each place of the log succeeds, the
text of its error if not, and the third-party base64 code. -/
structure Env where
  ok : ℕ → Bool
  ioError : ℕ → String
  base64 : Base64

/-- An environment in which only the attempts at these places of the log fail.
Its base64 code only encodes. -/
def Env.failingAt (places : List ℕ) : Env where
  ok := fun i => i ∉ places
  ioError := fun _ => "Broken pipe (os error 32)"
  base64 := ⟨fun bytes => String.ofList (base64Chars bytes), fun _ => .error "Invalid padding"⟩

/-- Whether the next attempt succeeds. -/
def Env.succeeds (env : Env) (log : Log) : Bool := env.ok log.length

/-- The error of the next attempt, if it fails. -/
def Env.failure (env : Env) (log : Log) : Option String :=
  if env.succeeds log then none else some (env.ioError log.length)

/-- `Client::send`, as far as the log goes. -/
def Env.send (env : Env) (client : Client) (msg : FromSession) (log : Log) : Log :=
  .sent client msg (env.succeeds log) :: log

theorem Env.failure_eq_none {env : Env} {log : Log} :
    env.failure log = none ↔ env.succeeds log = true := by
  rw [failure]
  split <;> simp [*]

/-- The clients after a message was sent to some of them: those that were lost
are marked dead. -/
structure Broadcast where
  clients : List Client
  lost : Bool
  log : Log

/-- A loop that sends a message to the clients wanted, by their index and state. -/
def broadcast (env : Env) (msg : FromSession) (wanted : ℕ → Client → Bool) :
    ℕ → List Client → Log → Broadcast
  | _, [], log => ⟨[], false, log⟩
  | i, c :: cs, log =>
    if wanted i c then
      let rest := broadcast env msg wanted (i + 1) cs (env.send c msg log)
      if env.succeeds log then ⟨c :: rest.clients, rest.lost, rest.log⟩
      else ⟨c.die :: rest.clients, true, rest.log⟩
    else
      let rest := broadcast env msg wanted (i + 1) cs log
      ⟨c :: rest.clients, rest.lost, rest.log⟩

/-- The second log continues the first one with such entries. -/
def Log.Grows (P : Obs → Prop) (log log' : Log) : Prop :=
  ∃ new, log' = new ++ log ∧ ∀ o ∈ new, P o

namespace Log

variable {P Q : Obs → Prop}

theorem Grows.refl (P : Obs → Prop) (log : Log) : Grows P log log :=
  ⟨[], rfl, fun _ h => absurd h List.not_mem_nil⟩

theorem Grows.trans {log log' log'' : Log} (h : Grows P log log') (h' : Grows P log' log'') :
    Grows P log log'' := by
  obtain ⟨new, rfl, hnew⟩ := h
  obtain ⟨new', rfl, hnew'⟩ := h'
  refine ⟨new' ++ new, (List.append_assoc _ _ _).symm, fun o ho => ?_⟩
  rcases List.mem_append.mp ho with ho | ho
  · exact hnew' o ho
  · exact hnew o ho

theorem Grows.cons {log : Log} {o : Obs} (h : P o) : Grows P log (o :: log) :=
  ⟨[o], rfl, fun _ ho => List.mem_singleton.mp ho ▸ h⟩

theorem Grows.mono {log log' : Log} (h : Grows P log log') (hPQ : ∀ o, P o → Q o) :
    Grows Q log log' :=
  ⟨h.choose, h.choose_spec.1, fun o ho => hPQ o (h.choose_spec.2 o ho)⟩

/-- Nothing is taken out of a log. -/
theorem Grows.suffix {log log' : Log} (h : Grows P log log') : log <:+ log' :=
  ⟨h.choose, h.choose_spec.1.symm⟩

end Log

/-- The message and its outcome, if this is a message to the client with this id. -/
def Obs.to? (id : ℕ) : Obs → Option (FromSession × Bool)
  | .sent c msg ok => if c.id = id then some (msg, ok) else none
  | _ => none

theorem Obs.to?_eq_some {id : ℕ} {o : Obs} {msg : FromSession} {ok : Bool} :
    o.to? id = some (msg, ok) ↔ ∃ c, o = .sent c msg ok ∧ c.id = id := by
  cases o with
  | sent c msg' ok' =>
    unfold Obs.to?
    by_cases hid : c.id = id
    · simp [hid]
    · simp only [hid, if_false]
      constructor
      · rintro ⟨⟩
      · rintro ⟨d, hd, hid'⟩
        cases hd
        exact absurd hid' hid
  | _ => simp [Obs.to?]

/-- The messages to the client with this id and their outcomes, newest first. -/
def Log.sentTo (id : ℕ) (log : Log) : List (FromSession × Bool) := log.filterMap (Obs.to? id)

@[simp] theorem Log.sentTo_append (id : ℕ) (log log' : Log) :
    Log.sentTo id (log ++ log') = Log.sentTo id log ++ Log.sentTo id log' :=
  List.filterMap_append

/-- An attempt to send this message to a client of this kind. -/
def Obs.Tries (msg : FromSession) (P : Client → Prop) (o : Obs) : Prop :=
  ∃ c ok, P c ∧ o = .sent c msg ok

/-- Messages to other clients are not messages to this one. -/
theorem Log.sentTo_of_tries {msg : FromSession} {P : Client → Prop} {id : ℕ} {new : Log}
    (hid : ∀ c, P c → c.id ≠ id) (hnew : ∀ o ∈ new, o.Tries msg P) : Log.sentTo id new = [] := by
  refine List.filterMap_eq_nil_iff.mpr fun o ho => ?_
  obtain ⟨c, ok, hc, rfl⟩ := hnew o ho
  simp only [Obs.to?, hid c hc, if_false]

/-- A broadcast goes on with the log after its first client. -/
theorem broadcast_cons_log (env : Env) (msg : FromSession) (wanted : ℕ → Client → Bool) (i : ℕ)
    (c : Client) (cs : List Client) (log : Log) :
    (broadcast env msg wanted i (c :: cs) log).log =
      (broadcast env msg wanted (i + 1) cs
        (if wanted i c then env.send c msg log else log)).log := by
  rw [broadcast]
  split
  · dsimp only
    split
    · rfl
    · rfl
  · rfl

/-- What a broadcast adds to the log are attempts to send its message to wanted clients. -/
theorem broadcast_log (env : Env) (msg : FromSession) (wanted : ℕ → Client → Bool) (i : ℕ)
    (cs : List Client) (log : Log) :
    Log.Grows (Obs.Tries msg fun c => c ∈ cs ∧ ∃ k, wanted k c = true) log
      (broadcast env msg wanted i cs log).log := by
  induction cs generalizing i log with
  | nil => exact .refl _ log
  | cons c cs ih =>
    have hrest := fun log => (ih (i + 1) log).mono
      (Q := Obs.Tries msg fun d => d ∈ c :: cs ∧ ∃ k, wanted k d = true) fun o ho => by
        obtain ⟨d, ok, ⟨hd, hwanted⟩, rfl⟩ := ho
        exact ⟨d, ok, ⟨List.mem_cons_of_mem c hd, hwanted⟩, rfl⟩
    rw [broadcast_cons_log]
    split
    · rename_i hwanted
      exact (Log.Grows.cons ⟨c, _, ⟨List.mem_cons_self, i, hwanted⟩, rfl⟩).trans (hrest _)
    · exact hrest log

/-- A broadcast changes no client, except that it marks those dead that it could not reach. -/
theorem broadcast_clients (env : Env) (msg : FromSession) (wanted : ℕ → Client → Bool) (i : ℕ)
    (cs : List Client) (log : Log) :
    List.Forall₂ (fun c c' => c' = c ∨
        c' = c.die ∧ Obs.sent c msg false ∈ (broadcast env msg wanted i cs log).log) cs
      (broadcast env msg wanted i cs log).clients := by
  induction cs generalizing i log with
  | nil => exact .nil
  | cons c cs ih =>
    rw [broadcast]
    split
    · split
      · exact .cons (.inl rfl) (ih (i + 1) _)
      · rename_i hfail
        refine .cons (.inr ⟨rfl, ?_⟩) (ih (i + 1) _)
        apply (broadcast_log env msg wanted (i + 1) cs (env.send c msg log)).suffix.subset
        rw [Env.send, Bool.not_eq_true _ |>.mp hfail]
        exact List.mem_cons_self
    · exact .cons (.inl rfl) (ih (i + 1) log)

/-- The viewers after some of them may have died. -/
def Outlived (cs cs' : List Client) : Prop := List.Forall₂ (fun c c' => c' = c ∨ c' = c.die) cs cs'

theorem Outlived.refl (cs : List Client) : Outlived cs cs :=
  List.forall₂_same.mpr fun _ _ => .inl rfl

/-- Dying takes nobody's place. -/
theorem Outlived.ids {cs cs' : List Client} (h : Outlived cs cs') :
    cs'.map Client.id = cs.map Client.id := by
  induction h with
  | nil => rfl
  | cons hc _ ih =>
    rw [List.map_cons, List.map_cons, ih]
    rcases hc with rfl | rfl
    · rfl
    · rfl

theorem Outlived.length {cs cs' : List Client} (h : Outlived cs cs') : cs'.length = cs.length := by
  rw [← List.length_map (f := Client.id), h.ids, List.length_map]

/-- Nobody comes back to life. -/
theorem Outlived.length_alive_le {cs cs' : List Client} (h : Outlived cs cs') :
    (cs'.filter fun c => !c.dead).length ≤ (cs.filter fun c => !c.dead).length := by
  induction h with
  | nil => rfl
  | @cons c c' cs cs' hc _ ih =>
    rcases hc with rfl | rfl
    · cases hdead : c'.dead <;> simp [hdead, ih]
    · cases hdead : c.dead
      · simpa [hdead] using ih.trans (Nat.le_succ _)
      · simpa [hdead] using ih

/-- Who is alive afterwards is unchanged. -/
theorem Outlived.mem_of_alive {cs cs' : List Client} (h : Outlived cs cs') {c : Client}
    (hc : c ∈ cs') (halive : c.dead = false) : c ∈ cs := by
  induction h with
  | nil => exact hc
  | cons hd _ ih =>
    rcases List.mem_cons.mp hc with rfl | hc
    · rcases hd with rfl | rfl
      · exact List.mem_cons_self
      · cases halive
    · exact List.mem_cons_of_mem _ (ih hc)

/-- If all are alive afterwards, nobody died. -/
theorem Outlived.eq_of_alive {cs cs' : List Client} (h : Outlived cs cs')
    (halive : ∀ c ∈ cs', c.dead = false) : cs' = cs := by
  induction h with
  | nil => rfl
  | cons hd _ ih =>
    rw [ih fun c hc => halive c (List.mem_cons_of_mem _ hc)]
    rcases hd with rfl | rfl
    · rfl
    · cases halive _ List.mem_cons_self

/-- One client died. -/
theorem outlived_modify (cs : List Client) (i : ℕ) : Outlived cs (cs.modify i Client.die) := by
  induction cs generalizing i with
  | nil => rw [List.modify_nil]; exact .nil
  | cons c cs ih =>
    cases i with
    | zero => exact .cons (.inr rfl) (Outlived.refl cs)
    | succ i => exact .cons (.inl rfl) (ih i)

/-- Who was sent a message may have died of it. -/
theorem broadcast_outlived (env : Env) (msg : FromSession) (wanted : ℕ → Client → Bool) (i : ℕ)
    (cs : List Client) (log : Log) : Outlived cs (broadcast env msg wanted i cs log).clients :=
  (broadcast_clients env msg wanted i cs log).imp fun _ _ h => h.imp_right And.left

/-- If a broadcast lost nobody, then it changed no client. -/
theorem clients_of_not_lost {env : Env} {msg : FromSession} {wanted : ℕ → Client → Bool} {i : ℕ}
    {cs : List Client} {log : Log} (h : (broadcast env msg wanted i cs log).lost = false) :
    (broadcast env msg wanted i cs log).clients = cs := by
  induction cs generalizing i log with
  | nil => rfl
  | cons c cs ih =>
    rw [broadcast] at h ⊢
    split at h
    · rename_i hwanted
      split at h
      · rename_i hok
        rw [if_pos hwanted, if_pos hok, ih h]
      · cases h
    · rename_i hwanted
      rw [if_neg hwanted]
      exact congrArg (c :: ·) (ih h)

/-- A client that survives a broadcast was sent its message exactly once if it
was wanted, and else nothing. -/
theorem broadcast_sentTo {env : Env} {msg : FromSession} {wanted : ℕ → Client → Bool} {i k : ℕ}
    {cs : List Client} {log : Log} {c' : Client} (hids : (cs.map Client.id).Nodup)
    (hc' : (broadcast env msg wanted i cs log).clients[k]? = some c') (halive : c'.dead = false) :
    cs[k]? = some c' ∧ ∃ new, (broadcast env msg wanted i cs log).log = new ++ log ∧
      Log.sentTo c'.id new = if wanted (i + k) c' then [(msg, true)] else [] := by
  induction cs generalizing i k log with
  | nil => cases hc'
  | cons c cs ih =>
    rw [List.map_cons, List.nodup_cons] at hids
    have hothers (log : Log) : ∃ new, (broadcast env msg wanted (i + 1) cs log).log = new ++ log ∧
        Log.sentTo c.id new = [] := by
      obtain ⟨new, hnew, htries⟩ := broadcast_log env msg wanted (i + 1) cs log
      refine ⟨new, hnew, Log.sentTo_of_tries (fun d hd hid => hids.1 ?_) htries⟩
      exact hid ▸ List.mem_map_of_mem hd.1
    rw [broadcast] at hc' ⊢
    cases hwanted : wanted i c with
    | false =>
      simp only [hwanted, Bool.false_eq_true, if_false] at hc' ⊢
      cases k with
      | zero =>
        obtain rfl : c = c' := by simpa using hc'
        obtain ⟨new, hnew, hnone⟩ := hothers log
        exact ⟨rfl, new, hnew, by simp [hnone, hwanted]⟩
      | succ k =>
        have hrest := ih hids.2 hc'
        rwa [Nat.add_right_comm] at hrest
    | true =>
      simp only [hwanted, if_true] at hc' ⊢
      cases k with
      | zero =>
        split at hc'
        · rename_i hok
          obtain rfl : c = c' := by simpa using hc'
          obtain ⟨new, hnew, hnone⟩ := hothers (env.send c msg log)
          refine ⟨rfl, new ++ [.sent c msg true], ?_, ?_⟩
          · rw [if_pos hok, hnew, Env.send, hok, List.append_assoc]
            rfl
          · rw [Log.sentTo_append, hnone, Nat.add_zero, hwanted, List.nil_append, if_pos rfl]
            simp [Log.sentTo, Obs.to?]
        · obtain rfl : c.die = c' := by simpa using hc'
          cases halive
      | succ k =>
        have hrest : (broadcast env msg wanted (i + 1) cs (env.send c msg log)).clients[k]? =
            some c' := by
          split at hc' <;> exact hc'
        obtain ⟨hmem, new, hnew, hsent⟩ := ih hids.2 hrest
        have hne : c.id ≠ c'.id := fun h =>
          hids.1 (h ▸ List.mem_map_of_mem (List.mem_of_getElem? hmem))
        refine ⟨hmem, new ++ [.sent c msg (env.succeeds log)], ?_, ?_⟩
        · split <;> rw [hnew, Env.send, List.append_assoc] <;> rfl
        · rw [Log.sentTo_append, hsent, Nat.add_right_comm]
          simp [Log.sentTo, Obs.to?, hne, Nat.add_assoc]

/-- A client that a broadcast wants is sent its message. -/
theorem broadcast_sends (env : Env) (msg : FromSession) {wanted : ℕ → Client → Bool} {i k : ℕ}
    {cs : List Client} (log : Log) {c : Client} (hc : cs[k]? = some c)
    (hwanted : wanted (i + k) c = true) :
    ∃ new ok, (broadcast env msg wanted i cs log).log = new ++ log ∧ .sent c msg ok ∈ new := by
  induction cs generalizing i k log with
  | nil => cases hc
  | cons d cs ih =>
    rw [broadcast_cons_log]
    cases k with
    | zero =>
      obtain rfl : d = c := Option.some.inj hc
      obtain ⟨new, hnew, -⟩ := broadcast_log env msg wanted (i + 1) cs (env.send d msg log)
      rw [Nat.add_zero] at hwanted
      rw [if_pos hwanted, hnew]
      refine ⟨new ++ [.sent d msg (env.succeeds log)], env.succeeds log, ?_, by simp⟩
      rw [Env.send, List.append_assoc]
      rfl
    | succ k =>
      rw [Nat.add_comm k 1, ← Nat.add_assoc] at hwanted
      split
      · obtain ⟨new, ok, hnew, hsent⟩ := ih (env.send d msg log) hc hwanted
        rw [hnew]
        refine ⟨new ++ [.sent d msg (env.succeeds log)], ok, ?_, by simp [hsent]⟩
        rw [Env.send, List.append_assoc]
        rfl
      · exact ih log hc hwanted

/-- `BellDebouncer`, with times in milliseconds. -/
structure BellDebouncer where
  window : ℕ
  lastSent : Option ℕ
  pending : Option ℕ

namespace BellDebouncer

/-- `BellDebouncer::new`. -/
def new (window : ℕ) : BellDebouncer := ⟨window, none, none⟩

/-- `BellDebouncer::on_bell`: report the bell now, or hold it for the trailing edge. -/
def onBell (d : BellDebouncer) (now epoch : ℕ) : Option ℕ × BellDebouncer :=
  match d.lastSent with
  | some sent =>
    if now - sent < d.window then (none, { d with pending := some epoch })
    else (some epoch, { d with lastSent := some now })
  | none => (some epoch, { d with lastSent := some now })

/-- `BellDebouncer::deadline`: when a held bell should be reported. -/
def deadline (d : BellDebouncer) : Option ℕ :=
  d.pending.bind fun _ => d.lastSent.map (· + d.window)

/-- `BellDebouncer::fire`: report the held bell. -/
def fire (d : BellDebouncer) (now : ℕ) : Option ℕ × BellDebouncer :=
  match d.pending with
  | none => (none, d)
  | some epoch => (some epoch, { d with pending := none, lastSent := some now })

end BellDebouncer

/-- `MAX_INPUT_DELAY_MS`: longest pause a client can ask for. -/
def maxInputDelayMs : ℕ := 1000

/-- `MAX_INPUT_DELAYS`: most pauses in one input. -/
def maxInputDelays : ℕ := 32

/-- `InputQueue`: pauses and the bytes to write after them. -/
structure InputQueue where
  queue : List (ℕ × Bytes)
  /-- When the head chunk may be written, if its pause is running. -/
  due : Option ℕ

namespace InputQueue

/-- An empty queue. -/
def empty : InputQueue := ⟨[], none⟩

/-- The chunks of an input from offset `start` on, the first of them after `pause`. -/
def chunksFrom (bytes : Bytes) : ℕ → ℕ → List InputDelay → List (ℕ × Bytes)
  | start, pause, [] => [(pause, bytes.drop start)]
  | start, pause, d :: ds =>
    (pause, (bytes.take d.offset).drop start) ::
      chunksFrom bytes d.offset (min d.ms maxInputDelayMs) ds

/-- `InputQueue::push`. -/
def push (q : InputQueue) (bytes : Bytes) (delays : List InputDelay) : InputQueue :=
  { q with queue := q.queue ++ chunksFrom bytes 0 0 delays }

/-- `InputQueue::deadline`. -/
def deadline (q : InputQueue) : Option ℕ := q.due

/-- The loop of `InputQueue::pump`. The `k`-th look at the clock reads `now k`. -/
def pumpLoop (env : Env) (now : ℕ → ℕ) :
    ℕ → List (ℕ × Bytes) → Option ℕ → Log → Option String × InputQueue × Log
  | _, [], due, log => (none, ⟨[], due⟩, log)
  | k, (pause, bytes) :: rest, due, log =>
    let start := due.getD (now k + pause)
    if now k < start then (none, ⟨(pause, bytes) :: rest, some start⟩, log)
    else if bytes = [] then pumpLoop env now (k + 1) rest none log
    else
      let wrote := Obs.ptyWrote bytes (env.succeeds log) :: log
      match env.failure log with
      | none => pumpLoop env now (k + 1) rest none wrote
      | some error => (some error, ⟨rest, none⟩, wrote)

/-- `InputQueue::pump`: write every chunk whose pause has elapsed and start the next pause. -/
def pump (q : InputQueue) (env : Env) (now : ℕ → ℕ) (log : Log) :
    Option String × InputQueue × Log :=
  pumpLoop env now 0 q.queue q.due log

/-- The check of `handle_viewer_message`: offsets do not decrease and are within the data. -/
def delaysInOrder (length : ℕ) : ℕ → List InputDelay → Bool
  | _, [] => true
  | last, d :: ds => last ≤ d.offset && d.offset ≤ length && delaysInOrder length d.offset ds

end InputQueue

end G2mirror
