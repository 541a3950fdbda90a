import Mathlib.Data.List.Basic

/-!
# Reading JSON character by character

A reader that takes one character after the other: its state is the stack of
open arrays and objects together with what is expected next. A text is a value
if the reader ends with one. What is read after a complete value can only be
whitespace.
-/

/-- A JSON value. A number is kept as it is written, and an object with all its
members in order. -/
inductive Json
  | null
  | bool (b : Bool)
  | number (lexeme : List Char)
  | string (text : List Char)
  | array (items : List Json)
  | object (members : List (List Char × Json))

namespace Json

/-- The value of a key. Of several members with the key the last one counts. -/
def get? (key : List Char) : Json → Option Json
  | .object members => (members.reverse.find? (·.1 = key)).map (·.2)
  | _ => none

/-- The text, if the value is a string. -/
def string? : Json → Option (List Char)
  | .string text => some text
  | _ => none

/-- The truth value, if the value is one. -/
def bool? : Json → Option Bool
  | .bool b => some b
  | _ => none

/-- The number, if the value is a natural number up to this maximum, written as one. -/
def nat? (max : ℕ) : Json → Option ℕ
  | .number lexeme =>
    if lexeme.all Char.isDigit then
      let n := lexeme.foldl (fun n c => 10 * n + (c.toNat - '0'.toNat)) 0
      if n ≤ max then some n else none
    else none
  | _ => none

/-- What a reader accepts besides the grammar: how deep values may be nested,
and which numbers are in range. -/
structure Limits where
  depth : ℕ
  inRange : List Char → Bool

/-- An array or an object that is open, with what is in it so far, newest first. -/
inductive Frame
  | array (items : List Json)
  /-- With the key of the member that is being read. -/
  | object (members : List (List Char × Json)) (key : List Char)

/-- Where in a number the reader is. -/
inductive Digits
  | minus
  | zero
  | int
  | point
  | frac
  | e
  | sign
  | exp
  deriving DecidableEq

/-- Where in an escape the reader is. -/
inductive Escape
  | start
  /-- After four digits could follow: those so far, and the high surrogate before them. -/
  | hex (high : Option ℕ) (count value : ℕ)
  /-- The backslash of the low surrogate has to follow. -/
  | lowSlash (high : ℕ)
  /-- The letter of the low surrogate has to follow. -/
  | lowLetter (high : ℕ)
  deriving DecidableEq

/-- A value that is written as a word. -/
inductive Word
  | null
  | true
  | false
  deriving DecidableEq

/-- How a word is written. -/
def Word.chars : Word → List Char
  | .null => ['n', 'u', 'l', 'l']
  | .true => ['t', 'r', 'u', 'e']
  | .false => ['f', 'a', 'l', 's', 'e']

/-- The value of a word. -/
def Word.value : Word → Json
  | .null => .null
  | .true => .bool .true
  | .false => .bool .false

/-- What the reader expects. The text of a string or number comes newest character first. -/
inductive Mode
  | value
  | firstItem
  | firstKey
  | key
  | colon
  /-- A comma, or the end of the innermost array or object. -/
  | after
  | string (isKey : Bool) (text : List Char)
  | escape (isKey : Bool) (text : List Char) (escape : Escape)
  /-- A word of which so many characters were read. -/
  | word (word : Word) (count : ℕ)
  | number (digits : Digits) (lexeme : List Char)
  | done (value : Json)

/-- The state of the reader. -/
structure State where
  stack : List Frame
  mode : Mode

/-- The reader before the first character. -/
def State.start : State := ⟨[], .value⟩

/-- JSON's whitespace. -/
def isSpace (c : Char) : Bool := c = ' ' || c = '\n' || c = '\t' || c = '\r'

/-- A value is complete. -/
def complete (value : Json) : List Frame → State
  | [] => ⟨[], .done value⟩
  | .array items :: stack => ⟨.array (value :: items) :: stack, .after⟩
  | .object members key :: stack => ⟨.object ((key, value) :: members) [] :: stack, .after⟩

/-- A string is complete: a key of the innermost object, or a value. -/
def completeString (isKey : Bool) (text : List Char) (stack : List Frame) : Option State :=
  match isKey, stack with
  | false, _ => some (complete (.string text.reverse) stack)
  | true, .object members _ :: stack => some ⟨.object members text.reverse :: stack, .colon⟩
  | true, _ => none

/-- An array or object begins, unless it is nested too deep. -/
def open? (limits : Limits) (frame : Frame) (mode : Mode) (stack : List Frame) : Option State :=
  if stack.length < limits.depth then some ⟨frame :: stack, mode⟩ else none

/-- A character that may begin a value. -/
def stepValue (limits : Limits) (stack : List Frame) (c : Char) : Option State :=
  match c with
  | '"' => some ⟨stack, .string false []⟩
  | '[' => open? limits (.array []) .firstItem stack
  | '{' => open? limits (.object [] []) .firstKey stack
  | 't' => some ⟨stack, .word .true 1⟩
  | 'f' => some ⟨stack, .word .false 1⟩
  | 'n' => some ⟨stack, .word .null 1⟩
  | '-' => some ⟨stack, .number .minus [c]⟩
  | '0' => some ⟨stack, .number .zero [c]⟩
  | _ => if c.isDigit then some ⟨stack, .number .int [c]⟩ else none

/-- A character after a complete value. -/
def stepAfter (stack : List Frame) (mode : Mode) (c : Char) : Option State :=
  if isSpace c then some ⟨stack, mode⟩
  else
    match mode, stack, c with
    | .after, .array _ :: _, ',' => some ⟨stack, .value⟩
    | .after, .array items :: stack, ']' => some (complete (.array items.reverse) stack)
    | .after, .object _ _ :: _, ',' => some ⟨stack, .key⟩
    | .after, .object members _ :: stack, '}' => some (complete (.object members.reverse) stack)
    | _, _, _ => none

/-- The value of a hexadecimal digit. -/
def hexValue (c : Char) : Option ℕ :=
  if c.isDigit then some (c.toNat - '0'.toNat)
  else if 'a' ≤ c ∧ c ≤ 'f' then some (c.toNat - 'a'.toNat + 10)
  else if 'A' ≤ c ∧ c ≤ 'F' then some (c.toNat - 'A'.toNat + 10)
  else none

/-- Four hexadecimal digits are complete: a character, or half of a surrogate pair. -/
def completeHex (isKey : Bool) (text : List Char) (high : Option ℕ) (n : ℕ) : Option Mode :=
  match high with
  | none =>
    if 0xd800 ≤ n ∧ n < 0xdc00 then some (.escape isKey text (.lowSlash n))
    else if 0xdc00 ≤ n ∧ n < 0xe000 then none
    else some (.string isKey (Char.ofNat n :: text))
  | some high =>
    if 0xdc00 ≤ n ∧ n < 0xe000 then
      some (.string isKey
        (Char.ofNat (0x10000 + (high - 0xd800) * 0x400 + (n - 0xdc00)) :: text))
    else none

/-- A character of an escape. -/
def stepEscape (isKey : Bool) (text : List Char) (escape : Escape) (c : Char) : Option Mode :=
  match escape with
  | .start =>
    match c with
    | '"' | '\\' | '/' => some (.string isKey (c :: text))
    | 'b' => some (.string isKey ('\x08' :: text))
    | 'f' => some (.string isKey ('\x0c' :: text))
    | 'n' => some (.string isKey ('\n' :: text))
    | 'r' => some (.string isKey ('\r' :: text))
    | 't' => some (.string isKey ('\t' :: text))
    | 'u' => some (.escape isKey text (.hex none 0 0))
    | _ => none
  | .hex high count value =>
    match hexValue c with
    | none => none
    | some digit =>
      let n := 16 * value + digit
      if count = 3 then completeHex isKey text high n
      else some (.escape isKey text (.hex high (count + 1) n))
  | .lowSlash high => if c = '\\' then some (.escape isKey text (.lowLetter high)) else none
  | .lowLetter high =>
    if c = 'u' then some (.escape isKey text (.hex (some high) 0 0)) else none

/-- How a number goes on, if it goes on. -/
def stepDigits (digits : Digits) (c : Char) : Option Digits :=
  match digits, c with
  | .minus, '0' => some .zero
  | .zero, '.' | .int, '.' => some .point
  | .zero, 'e' | .zero, 'E' | .int, 'e' | .int, 'E' | .frac, 'e' | .frac, 'E' => some .e
  | .e, '+' | .e, '-' => some .sign
  | .minus, _ | .int, _ => if c.isDigit then some .int else none
  | .point, _ | .frac, _ => if c.isDigit then some .frac else none
  | .e, _ | .sign, _ | .exp, _ => if c.isDigit then some .exp else none
  | .zero, _ => none

/-- Whether a number may end here. -/
def Digits.mayEnd : Digits → Bool
  | .zero | .int | .frac | .exp => true
  | _ => false

/-- The number that ends here, if it may. -/
def completeNumber (limits : Limits) (digits : Digits) (lexeme : List Char) : Option Json :=
  if digits.mayEnd && limits.inRange lexeme.reverse then some (.number lexeme.reverse) else none

/-- One more character. -/
def step (limits : Limits) (s : State) (c : Char) : Option State :=
  match s.mode with
  | .value => if isSpace c then some s else stepValue limits s.stack c
  | .firstItem =>
    if isSpace c then some s
    else
      match c, s.stack with
      | ']', .array _ :: stack => some (complete (.array []) stack)
      | _, _ => stepValue limits s.stack c
  | .firstKey =>
    if isSpace c then some s
    else
      match c, s.stack with
      | '"', stack => some ⟨stack, .string true []⟩
      | '}', .object _ _ :: stack => some (complete (.object []) stack)
      | _, _ => none
  | .key => if isSpace c then some s else if c = '"' then some ⟨s.stack, .string true []⟩ else none
  | .colon => if isSpace c then some s else if c = ':' then some ⟨s.stack, .value⟩ else none
  | .after => stepAfter s.stack .after c
  | .string isKey text =>
    if c = '"' then completeString isKey text s.stack
    else if c = '\\' then some ⟨s.stack, .escape isKey text .start⟩
    else if c.toNat < 0x20 then none
    else some ⟨s.stack, .string isKey (c :: text)⟩
  | .escape isKey text escape => (stepEscape isKey text escape c).map (⟨s.stack, ·⟩)
  | .word word count =>
    if word.chars[count]? ≠ some c then none
    else if count + 1 = word.chars.length then some (complete word.value s.stack)
    else some ⟨s.stack, .word word (count + 1)⟩
  | .number digits lexeme =>
    match stepDigits digits c with
    | some digits => some ⟨s.stack, .number digits (c :: lexeme)⟩
    | none =>
      (completeNumber limits digits lexeme).bind fun value =>
        let after := complete value s.stack
        stepAfter after.stack after.mode c
  | .done value => stepAfter s.stack (.done value) c

/-- The state after these characters. -/
def run (limits : Limits) (s : State) : List Char → Option State
  | [] => some s
  | c :: cs => (step limits s c).bind fun s => run limits s cs

/-- The value that has been read, if it is complete. -/
def State.result (limits : Limits) (s : State) : Option Json :=
  match s.stack, s.mode with
  | [], .done value => some value
  | [], .number digits lexeme => completeNumber limits digits lexeme
  | _, _ => none

/-- The value of a text. -/
def read (limits : Limits) (text : List Char) : Option Json :=
  (run limits .start text).bind (State.result limits)

example :
    ((read ⟨2, fun _ => true⟩ " \x7b\"a\":[-2.5e3, \"\\u00e9\"]\x7d".toList).bind
      (get? ['a'])).isSome = true ∧
    (read ⟨1, fun _ => true⟩ "[[]]".toList).isSome = false := by decide

section Runs

variable {limits : Limits}

/-- Reading goes on where it stopped. -/
theorem run_append (s : State) (cs ds : List Char) :
    run limits s (cs ++ ds) = (run limits s cs).bind fun s' => run limits s' ds := by
  induction cs generalizing s with
  | nil => rfl
  | cons c cs ih =>
    rw [List.cons_append, run, run, Option.bind_assoc]
    congr 1
    funext s'
    exact ih s'

/-- Whitespace before a value is skipped. -/
theorem run_spaces {cs : List Char} (hcs : ∀ c ∈ cs, isSpace c = true) :
    run limits .start cs = some .start := by
  induction cs with
  | nil => rfl
  | cons c cs ih =>
    have hc : step limits .start c = some .start := if_pos (hcs c List.mem_cons_self)
    rw [run, hc]
    exact ih fun d hd => hcs d (List.mem_cons_of_mem c hd)

theorem read_spaces_append {cs : List Char} (hcs : ∀ c ∈ cs, isSpace c = true) (ds : List Char) :
    read limits (cs ++ ds) = read limits ds := by
  unfold read
  rw [run_append, run_spaces hcs, Option.bind_some]

/-- Whitespace is no value. -/
theorem read_spaces {cs : List Char} (hcs : ∀ c ∈ cs, isSpace c = true) :
    read limits cs = none := by
  unfold read
  rw [run_spaces hcs]
  rfl

/-- After a complete value there is only whitespace. -/
theorem run_done {value : Json} {cs : List Char} {s : State}
    (h : run limits ⟨[], .done value⟩ cs = some s) :
    s = ⟨[], .done value⟩ ∧ ∀ c ∈ cs, isSpace c = true := by
  induction cs with
  | nil => exact ⟨(Option.some.inj h).symm, fun _ hc => absurd hc List.not_mem_nil⟩
  | cons c cs ih =>
    by_cases hc : isSpace c = true
    · have hstep : step limits ⟨[], .done value⟩ c = some ⟨[], .done value⟩ := if_pos hc
      rw [run, hstep] at h
      obtain ⟨hs, hcs⟩ := ih h
      exact ⟨hs, List.forall_mem_cons.mpr ⟨hc, hcs⟩⟩
    · have hstep : step limits ⟨[], .done value⟩ c = none := if_neg hc
      rw [run, hstep] at h
      cases h

/-- Whitespace ends a number. -/
theorem stepDigits_space {c : Char} (hc : isSpace c = true) (digits : Digits) :
    stepDigits digits c = none := by
  unfold isSpace at hc
  simp only [Bool.or_eq_true, decide_eq_true_eq] at hc
  rcases hc with ((rfl | rfl) | rfl) | rfl <;> cases digits <;> rfl

/-- Whitespace after a complete value leaves it complete. -/
theorem step_space_of_result {s : State} {value : Json} (h : s.result limits = some value)
    {c : Char} (hc : isSpace c = true) : step limits s c = some ⟨[], .done value⟩ := by
  obtain ⟨stack, mode⟩ := s
  unfold State.result at h
  split at h
  · rename_i hstack hmode
    cases h
    simp only at hstack hmode
    subst hstack hmode
    exact if_pos hc
  · rename_i digits lexeme hstack hmode
    simp only at hstack hmode
    subst hstack hmode
    have hstep : step limits ⟨[], .number digits lexeme⟩ c =
        (completeNumber limits digits lexeme).bind fun value =>
          stepAfter (complete value []).stack (complete value []).mode c := by
      unfold step
      dsimp only
      rw [stepDigits_space hc]
    rw [hstep, h]
    exact if_pos hc
  · cases h

/-- If a text is a value up to some whitespace, nothing but whitespace can
follow, and it is the value of the whole text. -/
theorem read_of_read_append {cs ds : List Char} {c : Char} (hc : isSpace c = true)
    {value value' : Json} (hwhole : read limits (cs ++ c :: ds) = some value)
    (hpart : read limits cs = some value') : value' = value ∧ ∀ d ∈ ds, isSpace d = true := by
  unfold read at hwhole hpart
  obtain ⟨s, hs, hresult⟩ := Option.bind_eq_some_iff.mp hpart
  rw [run_append, hs, Option.bind_some, run, step_space_of_result hresult hc,
    Option.bind_some] at hwhole
  obtain ⟨s', hs', hresult'⟩ := Option.bind_eq_some_iff.mp hwhole
  obtain ⟨rfl, hds⟩ := run_done hs'
  exact ⟨Option.some.inj hresult', hds⟩

/-- A newline completes no value: what is complete after it was complete before. -/
theorem result_of_step_newline {s s' : State} {value : Json}
    (hstep : step limits s '\n' = some s') (h : s'.result limits = some value) :
    s.result limits = some value := by
  obtain ⟨stack, mode⟩ := s
  cases mode with
  | value | firstItem | firstKey | key | colon | after =>
    obtain rfl := Option.some.inj hstep
    exact h
  | done value =>
    obtain rfl := Option.some.inj hstep
    exact h
  | string isKey text => cases hstep
  | escape isKey text escape =>
    have hnone : stepEscape isKey text escape '\n' = none := by cases escape <;> rfl
    unfold step at hstep
    simp only [hnone, Option.map_none] at hstep
    cases hstep
  | word word count =>
    have hnone : word.chars[count]? ≠ some '\n' := by
      intro hnext
      have hmem := List.mem_of_getElem? hnext
      cases word <;> simp [Word.chars] at hmem
    cases (if_pos hnone).symm.trans hstep
  | number digits lexeme =>
    have hspace : isSpace '\n' = true := rfl
    unfold step at hstep
    simp only [stepDigits_space hspace] at hstep
    obtain ⟨number, hnumber, hafter⟩ := Option.bind_eq_some_iff.mp hstep
    obtain rfl := Option.some.inj ((if_pos hspace).symm.trans hafter)
    cases stack with
    | nil =>
      obtain rfl := Option.some.inj h
      exact hnumber
    | cons frame stack => cases frame <;> cases h

/-- Newlines after a value do not matter. -/
theorem read_of_read_newlines {cs : List Char} {n : ℕ} {value : Json}
    (h : read limits (cs ++ List.replicate n '\n') = some value) :
    read limits cs = some value := by
  unfold read at h ⊢
  rw [run_append] at h
  obtain ⟨s', hs', hresult⟩ := Option.bind_eq_some_iff.mp h
  obtain ⟨s, hs, hrun⟩ := Option.bind_eq_some_iff.mp hs'
  rw [hs, Option.bind_some]
  clear hs hs' h
  induction n generalizing s with
  | zero => rwa [Option.some.inj hrun]
  | succ n ih =>
    obtain ⟨s₁, hs₁, hrest⟩ := Option.bind_eq_some_iff.mp hrun
    exact result_of_step_newline hs₁ (ih s₁ hrest)

end Runs

end Json
