import G2mirror.Library.LineReader
import G2mirror.Library.Utf8
import G2mirror.Control

/-!
# Newline-delimited messages

`Client::next_message`, `SessionClient::next` and `SessionConn::next_line` read
the same framing with a decoder each. Whatever the chunks that arrive and
whichever calls are cancelled, each of them gets exactly what was sent.
-/

namespace G2mirror

/-- The byte that ends a line. -/
def newline : UInt8 := 10

/-- The bytes of a text. -/
def utf8 (text : String) : Bytes := Utf8.encode text.toList

/-- `String::from_utf8_lossy`. -/
def fromUtf8Lossy (bytes : Bytes) : String := String.ofList (Utf8.lossy bytes)

@[simp] theorem fromUtf8Lossy_utf8 (text : String) : fromUtf8Lossy (utf8 text) = text := by
  unfold fromUtf8Lossy utf8
  rw [Utf8.lossy_encode, String.ofList_toList]

theorem fromUtf8Lossy_eq_empty {bytes : Bytes} : fromUtf8Lossy bytes = "" ↔ bytes = [] := by
  rw [← Utf8.lossy_eq_nil]
  exact String.ofList_eq_empty_iff

/-- `serde_json` for one type of messages: the text of a message, and decoding with its error. -/
structure Serde (α : Type*) where
  text : α → String
  fromSlice : Bytes → Except String α

variable {α : Type*}

/-- The text of a message is not empty, has no raw newline and decodes to the message. -/
structure Serde.Faithful (serde : Serde α) (msg : α) : Prop where
  ne_empty : utf8 (serde.text msg) ≠ []
  oneLine : newline ∉ utf8 (serde.text msg)
  decodes : serde.fromSlice (utf8 (serde.text msg)) = .ok msg

/-- `Client::send` and `SessionClient::send`, as far as the bytes go. -/
def Serde.send (serde : Serde α) (msg : α) : Bytes := utf8 (serde.text msg) ++ [newline]

/-- What a line decodes to, with the context of an error. -/
def Serde.decoded (serde : Serde α) (context : String) (line : Bytes) : Except String α :=
  match serde.fromSlice line with
  | .ok msg => .ok msg
  | .error e => .error (context ++ fromUtf8Lossy line ++ ": " ++ e)

/-- An empty line is skipped. -/
def Serde.decodeLine (serde : Serde α) (context : String) (line : Bytes) :
    Option (Except String α) :=
  if line = [] then none else some (serde.decoded context line)

/-- The text of a line, unless it is empty. -/
def lossyLine (line : Bytes) : Option String :=
  if fromUtf8Lossy line = "" then none else some (fromUtf8Lossy line)

/-- A `next` on a connection, to be dropped at the read after the first `patience` ones. -/
abbrev Next (ρ : Type*) :=
  ℕ → LineReader.Reader UInt8 → LineReader.Outcome ρ × LineReader.Reader UInt8

/-- `Client::next_message`. -/
def Client.nextMessage (serde : Serde ToSession) : Next (Except String ToSession) :=
  LineReader.next newline (serde.decodeLine "bad message: ")

/-- `SessionClient::next`. -/
def SessionClient.next (serde : Serde FromSession) : Next (Except String FromSession) :=
  LineReader.next newline (serde.decodeLine "bad session message: ")

/-- `SessionConn::next_line`. -/
def SessionConn.nextLine : Next String := LineReader.next newline lossyLine

/-- The lines of a stream: its terminated pieces that are not empty. -/
def linesOf (stream : Bytes) : List Bytes :=
  (LineReader.pieces newline [] stream).filter (· ≠ [])

/-- However a stream arrives and whichever calls are cancelled, a receiver gets
the expected results in order, all of them if it is told that the connection was
closed, and it is told after enough calls that may wait. -/
def Delivers {ρ : Type*} (next : Next ρ) (stream : Bytes) (expected : List ρ) : Prop :=
  ∀ (chunks : List (LineReader.Chunk UInt8)) (calls : List ℕ),
    chunks.flatMap Subtype.val = stream →
      let (got, closed) := LineReader.receive next calls ⟨[], chunks⟩
      got <+: expected ∧ (closed = true → got = expected) ∧
        (expected.length + chunks.length < calls.countP (0 < ·) → closed = true)

/-- A receiver whose decoder skips the empty line alone gets the other lines. -/
theorem delivers_lines {ρ : Type*} {decode : Bytes → Option ρ} {f : Bytes → ρ}
    (hempty : decode [] = none) (hline : ∀ line, line ≠ [] → decode line = some (f line))
    (stream : Bytes) :
    Delivers (LineReader.next newline decode) stream ((linesOf stream).map f) := by
  have hresults : LineReader.results newline decode stream = (linesOf stream).map f := by
    unfold LineReader.results linesOf
    induction LineReader.pieces newline [] stream with
    | nil => rfl
    | cons line lines ih =>
      by_cases h : line = []
      · rw [h, List.filterMap_cons_none hempty, ih]
        simp
      · rw [List.filterMap_cons_some (hline line h), ih,
          List.filter_cons_of_pos (by simpa using h)]
        rfl
  rintro chunks calls rfl
  rw [← hresults]
  exact LineReader.receive_spec calls ⟨[], chunks⟩

/-- Messages that are sent are the lines of the stream. -/
theorem linesOf_send {serde : Serde α} {msgs : List α} (hmsgs : ∀ msg ∈ msgs, serde.Faithful msg) :
    linesOf (msgs.flatMap serde.send) = msgs.map fun msg => utf8 (serde.text msg) := by
  induction msgs with
  | nil => rfl
  | cons msg msgs ih =>
    have hmsg := hmsgs msg List.mem_cons_self
    have ih := ih fun m hm => hmsgs m (List.mem_cons_of_mem _ hm)
    unfold linesOf at ih ⊢
    rw [List.flatMap_cons, Serde.send, List.append_assoc, List.singleton_append,
      LineReader.pieces_append hmsg.oneLine, List.nil_append, LineReader.pieces, if_pos rfl,
      List.filter_cons_of_pos (by simpa using hmsg.ne_empty), ih, List.map_cons]

/-- What a receiver makes of the lines that were sent. -/
theorem map_linesOf_send {ρ : Type*} {serde : Serde α} {msgs : List α} {f : Bytes → ρ} {g : α → ρ}
    (hmsgs : ∀ msg ∈ msgs, serde.Faithful msg)
    (hf : ∀ msg, serde.Faithful msg → f (utf8 (serde.text msg)) = g msg) :
    (linesOf (msgs.flatMap serde.send)).map f = msgs.map g := by
  rw [linesOf_send hmsgs, List.map_map]
  exact List.map_congr_left fun msg hmsg => hf msg (hmsgs msg hmsg)

theorem lossyLine_of_ne {line : Bytes} (hline : line ≠ []) :
    lossyLine line = some (fromUtf8Lossy line) :=
  if_neg fun h => hline (fromUtf8Lossy_eq_empty.mp h)

theorem Serde.Faithful.decoded {serde : Serde α} {msg : α} (hmsg : serde.Faithful msg)
    (context : String) : serde.decoded context (utf8 (serde.text msg)) = .ok msg := by
  unfold Serde.decoded
  rw [hmsg.decodes]

/-- Each of the three receivers gets the lines of any stream, and the messages
of any sender, one by one. -/
theorem newline_framing_lossless (toSession : Serde ToSession) (fromSession : Serde FromSession) :
    (∀ stream, Delivers (Client.nextMessage toSession) stream
      ((linesOf stream).map (toSession.decoded "bad message: "))) ∧
    (∀ stream, Delivers (SessionClient.next fromSession) stream
      ((linesOf stream).map (fromSession.decoded "bad session message: "))) ∧
    (∀ stream, Delivers SessionConn.nextLine stream ((linesOf stream).map fromUtf8Lossy)) ∧
    (∀ msgs : List ToSession, (∀ msg ∈ msgs, toSession.Faithful msg) →
      Delivers (Client.nextMessage toSession) (msgs.flatMap toSession.send) (msgs.map .ok)) ∧
    (∀ msgs : List FromSession, (∀ msg ∈ msgs, fromSession.Faithful msg) →
      Delivers (SessionClient.next fromSession) (msgs.flatMap fromSession.send) (msgs.map .ok) ∧
        Delivers SessionConn.nextLine (msgs.flatMap fromSession.send)
          (msgs.map fromSession.text)) := by
  have hclient (stream : Bytes) : Delivers (Client.nextMessage toSession) stream
      ((linesOf stream).map (toSession.decoded "bad message: ")) :=
    delivers_lines rfl (fun _ hline => if_neg hline) stream
  have hattach (stream : Bytes) : Delivers (SessionClient.next fromSession) stream
      ((linesOf stream).map (fromSession.decoded "bad session message: ")) :=
    delivers_lines rfl (fun _ hline => if_neg hline) stream
  have hserver (stream : Bytes) : Delivers SessionConn.nextLine stream
      ((linesOf stream).map fromUtf8Lossy) :=
    delivers_lines rfl (fun _ => lossyLine_of_ne) stream
  refine ⟨hclient, hattach, hserver, ?_, ?_⟩
  · intro msgs hmsgs
    have hsent := hclient (msgs.flatMap toSession.send)
    rwa [map_linesOf_send hmsgs fun msg hmsg => hmsg.decoded _] at hsent
  · intro msgs hmsgs
    have hsent := hattach (msgs.flatMap fromSession.send)
    have hlines := hserver (msgs.flatMap fromSession.send)
    rw [map_linesOf_send hmsgs fun msg hmsg => hmsg.decoded _] at hsent
    rw [map_linesOf_send hmsgs fun msg _ => fromUtf8Lossy_utf8 (fromSession.text msg)] at hlines
    exact ⟨hsent, hlines⟩

/-- A view and its end, sent as they are on the wire, and a title. -/
theorem newline_framing_lossless_of_view :
    let toSession : Serde ToSession := ⟨
      fun msg =>
        if msg = .view then "\x7b\"type\":\"view\"\x7d" else "\x7b\"type\":\"unview\"\x7d",
      fun line =>
        if line = utf8 "\x7b\"type\":\"view\"\x7d" then .ok .view
        else if line = utf8 "\x7b\"type\":\"unview\"\x7d" then .ok .unview
        else .error "expected value at line 1 column 1"⟩
    let fromSession : Serde FromSession := ⟨
      fun _ => "\x7b\"type\":\"title\",\"title\":\"é\"\x7d",
      fun line =>
        if line = utf8 "\x7b\"type\":\"title\",\"title\":\"é\"\x7d" then .ok (.title "é")
        else .error "expected value at line 1 column 1"⟩
    Delivers (Client.nextMessage toSession) ([ToSession.view, .unview].flatMap toSession.send)
        [.ok .view, .ok .unview] ∧
      Delivers SessionConn.nextLine ([FromSession.title "é"].flatMap fromSession.send)
        ["\x7b\"type\":\"title\",\"title\":\"é\"\x7d"] := by
  intro toSession fromSession
  obtain ⟨-, -, -, hto, hfrom⟩ := newline_framing_lossless toSession fromSession
  have hview : toSession.Faithful .view := ⟨by decide, by decide, by decide⟩
  have hunview : toSession.Faithful .unview := ⟨by decide, by decide, by decide⟩
  have htitle : fromSession.Faithful (.title "é") := ⟨by decide, by decide, by decide⟩
  exact ⟨hto [.view, .unview] (by simp [hview, hunview]),
    (hfrom [.title "é"] (by simp [htitle])).2⟩

end G2mirror
