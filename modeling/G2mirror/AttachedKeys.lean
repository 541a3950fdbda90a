import G2mirror.AppInput
import G2mirror.AttachedScreen

/-!
# What is typed at an attached terminal

`g2mirror --attach` sends what is typed to the session, up to the key that detaches it, and the
session writes what it is sent to its app. On the way from the one terminal to the other nothing is
lost, changed, repeated or put into another order, however the bytes are cut into pieces and
whatever else happens on both sides.
-/

namespace G2mirror

variable {vt vt' : Vt100}

/-- What the session of this configuration takes from a message for its app. -/
def ToSession.taken (env : Env) (config : Config) : ToSession → Bytes
  | .input data delays => (Wrapper.acceptedInput env config data delays).getD []
  | _ => []

namespace Attached

variable {env : Env} {config : Config} {a a' : Attached vt}

/-- What a session takes from all that the client has sent it. -/
def inputs (env : Env) (config : Config) (a : Attached vt) : Bytes :=
  a.sent.flatMap (ToSession.taken env config)

/-- What is read from the terminal. -/
def Event.typed : Event → Bytes
  | .keys bytes => bytes
  | _ => []

theorem inputs_send (a : Attached vt) (msg : ToSession) :
    (a.send msg).inputs env config = a.inputs env config ++ msg.taken env config := by
  unfold inputs send
  rw [List.flatMap_append, List.flatMap_singleton]

theorem goLive_sent (a : Attached vt) (lines : List HistoryLine) :
    (a.goLive env.base64 lines).sent = a.sent := by
  unfold goLive
  split <;> rfl

/-- A snapshot types nothing. -/
theorem onSnapshot_inputs (a : Attached vt) (snapshot : Bytes) (rows cols next : ℕ) :
    (a.onSnapshot env.base64 snapshot rows cols next).inputs env config = a.inputs env config := by
  have hhistory (mode : AttachMode vt) :
      ({ a with mode := mode }.send (.history next none)).inputs env config =
        a.inputs env config := by
    rw [inputs_send]
    exact List.append_nil _
  have hlive (mode : AttachMode vt) :
      ({ a with mode := mode }.goLive env.base64 []).inputs env config = a.inputs env config := by
    unfold inputs
    rw [goLive_sent]
  unfold onSnapshot
  dsimp only
  split
  · split_ifs
    · exact hhistory _
    · exact hlive _
  · rfl
  · split_ifs
    · exact hhistory _
    · exact hlive _

/-- Whatever the session sends types nothing. -/
theorem onMessage_inputs {msg : FromSession} (h : a.onMessage env.base64 msg = .ok a') :
    a'.inputs env config = a.inputs env config := by
  unfold onMessage at h
  split at h
  · split at h
    · exact Except.ok.inj h ▸ rfl
    · exact Except.ok.inj h ▸ onSnapshot_inputs a _ _ _ _
  · split at h
    · exact Except.ok.inj h ▸ rfl
    · obtain rfl := Except.ok.inj h
      unfold onOutput
      split <;> rfl
  · split at h
    · split at h
      · exact Except.ok.inj h ▸ rfl
      · obtain rfl := Except.ok.inj h
        unfold inputs
        rw [goLive_sent]
    · exact Except.ok.inj h ▸ rfl
  · exact Except.ok.inj h ▸ rfl
  · exact Except.ok.inj h ▸ rfl
  · split at h
    · exact Except.ok.inj h ▸ rfl
    · cases h
  · exact Except.ok.inj h ▸ rfl

/-- Keys are sent up to the one that detaches the client. -/
theorem onKeys_inputs (hbase64 : ∀ bytes, env.base64.decode (env.base64.encode bytes) = .ok bytes)
    (hwritable : config.readonly = false) (a : Attached vt) (bytes : Bytes) :
    (a.onKeys env.base64 bytes).inputs env config =
      a.inputs env config ++ (splitKeys a.detachKey bytes).1 := by
  have hrefresh (input : Bytes) : (a.refresh input).inputs env config = a.inputs env config := by
    unfold refresh
    split
    · split <;> rfl
    · rfl
  unfold onKeys
  dsimp only
  generalize hsplit : splitKeys a.detachKey bytes = keys
  obtain ⟨input, detach⟩ := keys
  have haccepted : Wrapper.acceptedInput env config (env.base64.encode input) [] = some input := by
    unfold Wrapper.acceptedInput
    rw [hbase64]
    exact if_pos ⟨hwritable, by decide, rfl⟩
  have hsent : (if input = [] then a.refresh input
      else (a.refresh input).send (.input (env.base64.encode input) [])).inputs env config =
        a.inputs env config ++ input := by
    split
    · rename_i hnone
      rw [hrefresh, hnone, List.append_nil]
    · rw [inputs_send, hrefresh, ToSession.taken, haccepted]
      rfl
  dsimp only
  split
  · rw [inputs_send]
    exact (List.append_nil _).trans hsent
  · exact hsent

theorem onWinch_inputs (a : Attached vt) (size : Option (ℕ × ℕ)) :
    (a.onWinch size).inputs env config = a.inputs env config := by
  unfold onWinch
  dsimp only
  rw [inputs_send]
  refine (List.append_nil _).trans ?_
  split <;> rfl

/-- A client that has read the key that detaches it goes on no longer. -/
theorem not_mem_of_onKeys {bytes : Bytes} (h : (a.onKeys env.base64 bytes).detached = false) :
    ∀ k ∈ a.detachKey, k ∉ bytes := by
  intro k hk hmem
  have hsplit : splitKeys a.detachKey bytes = (bytes.takeWhile (· ≠ k), true) := by
    rw [Option.mem_def.mp hk]
    exact if_pos hmem
  unfold onKeys at h
  rw [hsplit] at h
  cases h

/-- The client has sent these keys, and none of them detaches it. -/
structure HasTyped (env : Env) (config : Config) (detachKey : Option UInt8) (a : Attached vt)
    (keys : Bytes) : Prop where
  key : a.detachKey = detachKey
  goesOn : ∀ k ∈ detachKey, k ∉ keys
  typed : a.inputs env config = keys

section Run

variable {detachKey : Option UInt8} {keys : Bytes}

theorem HasTyped.next (hbase64 : ∀ bytes, env.base64.decode (env.base64.encode bytes) = .ok bytes)
    (hwritable : config.readonly = false) (h : a.HasTyped env config detachKey keys) {e : Event}
    (hstep : a.next env.base64 e = some a') :
    a'.HasTyped env config detachKey (keys ++ e.typed) := by
  obtain ⟨hkey, hgoes, hinputs⟩ := h
  have hok : a.step env.base64 e = .ok a' := ok_of_toOption hstep
  have hquiet (hdetach : a'.detachKey = a.detachKey)
      (hsame : a'.inputs env config = a.inputs env config) :
      a'.HasTyped env config detachKey (keys ++ []) := by
    rw [List.append_nil]
    exact ⟨hdetach.trans hkey, hgoes, hsame.trans hinputs⟩
  cases e with
  | message msg =>
    unfold Attached.step at hok
    dsimp only at hok
    split at hok
    · rename_i hmessage
      obtain rfl := Except.ok.inj hok
      exact hquiet (congrArg (fun t => t.2.2) (onMessage_terminal hmessage))
        (onMessage_inputs hmessage)
    · cases hok
  | keys bytes =>
    unfold Attached.step at hok
    dsimp only at hok
    split at hok
    · cases hok
    · rename_i hattached
      obtain rfl := Except.ok.inj hok
      have hnone := not_mem_of_onKeys (Bool.eq_false_iff.mpr hattached)
      refine ⟨?_, ?_, ?_⟩
      · exact (congrArg (fun t => t.2.2) (onKeys_terminal a env.base64 bytes)).trans hkey
      · intro k hk hmem
        rcases List.mem_append.mp hmem with hold | hnew
        · exact hgoes k hk hold
        · exact hnone k (hkey ▸ hk) hnew
      · rw [onKeys_inputs hbase64 hwritable, splitKeys_of_not_mem hnone, hinputs]
        rfl
  | winch size =>
    obtain rfl := Except.ok.inj hok
    refine hquiet ?_ (onWinch_inputs a size)
    unfold onWinch
    dsimp only
    split <;> rfl
  | readError error => cases hok
  | closed => cases hok
  | stdinEof => cases hok
  | stdinError error => cases hok

/-- A client sends what is read from its terminal, however it is read. -/
theorem HasTyped.run (hbase64 : ∀ bytes, env.base64.decode (env.base64.encode bytes) = .ok bytes)
    (hwritable : config.readonly = false) (h : a.HasTyped env config detachKey keys)
    {es : List Event} (hrun : Machine.run (Attached.next env.base64) a es = some a') :
    a'.HasTyped env config detachKey (keys ++ es.flatMap Event.typed) := by
  induction es generalizing a keys with
  | nil =>
    obtain rfl := Option.some.inj hrun
    exact (List.append_nil keys).symm ▸ h
  | cons e es ih =>
    obtain ⟨m, hstep, hrest⟩ := Machine.run_cons_eq_some.mp hrun
    have hall := ih (h.next hbase64 hwritable hstep) hrest
    rw [List.append_assoc] at hall
    exact hall

end Run

end Attached

namespace Wrapper

variable {env : Env} {config : Config} {w w₀ w' : Wrapper vt}

/-- The message that the session reads from a client in an event, with the client's id. -/
def heard (w : Wrapper vt) : Event → List (ℕ × ToSession)
  | .viewerMessage i (.message msg) _ => (w.viewers[i]?).toList.map fun c => (c.id, msg)
  | _ => []

/-- The bytes of one client. -/
def bytesOf (id : ℕ) (bytes : List (ℕ × UInt8)) : Bytes :=
  (bytes.filter fun b => b.1 = id).map Prod.snd

end Wrapper

end G2mirror
