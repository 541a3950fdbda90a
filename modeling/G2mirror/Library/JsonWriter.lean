import G2mirror.Library.Json
import Mathlib.Data.Int.Notation

/-!
# Writing JSON

A value is written without whitespace. Strings escape the quote, the backslash and control
characters, and nothing else. The reader gets every value back whose numbers are numerals and
which is not nested too deep.
-/

namespace Json

/-- A hexadecimal digit. -/
def hexDigit (n : ℕ) : Char := "0123456789abcdef".toList.getD n '0'

/-- A character of a string. -/
def escapeChar (c : Char) : List Char :=
  if c = '"' then ['\\', '"']
  else if c = '\\' then ['\\', '\\']
  else if c = '\x08' then ['\\', 'b']
  else if c = '\x0c' then ['\\', 'f']
  else if c = '\n' then ['\\', 'n']
  else if c = '\r' then ['\\', 'r']
  else if c = '\t' then ['\\', 't']
  else if c.toNat < 0x20 then
    ['\\', 'u', '0', '0', hexDigit (c.toNat / 16), hexDigit (c.toNat % 16)]
  else [c]

/-- The text of a string. -/
def writeString (text : List Char) : List Char := '"' :: (text.flatMap escapeChar ++ ['"'])

mutual

/-- The text of a value. -/
def write : Json → List Char
  | .null => Word.null.chars
  | .bool true => Word.true.chars
  | .bool false => Word.false.chars
  | .number lexeme => lexeme
  | .string text => writeString text
  | .array [] => ['[', ']']
  | .array (item :: items) => '[' :: (write item ++ writeItems items)
  | .object [] => ['{', '}']
  | .object (member :: members) => '{' :: (writeMember member ++ writeMembers members)

/-- The items after the first one, and the end of the array. -/
def writeItems : List Json → List Char
  | [] => [']']
  | item :: items => ',' :: (write item ++ writeItems items)

/-- A key with its value. -/
def writeMember : List Char × Json → List Char
  | (key, value) => writeString key ++ ':' :: write value

/-- The members after the first one, and the end of the object. -/
def writeMembers : List (List Char × Json) → List Char
  | [] => ['}']
  | member :: members => ',' :: (writeMember member ++ writeMembers members)

end

/-- How a number begins. -/
def startDigits (c : Char) : Option Digits :=
  if c = '-' then some .minus
  else if c = '0' then some .zero
  else if c.isDigit then some .int
  else none

/-- Where in a number these characters end, if a number begins with them. -/
def numeral : List Char → Option Digits
  | [] => none
  | c :: cs => (startDigits c).bind fun digits => cs.foldlM stepDigits digits

/-- A whole number in the grammar's sense, and in range. -/
def IsNumeral (limits : Limits) (lexeme : List Char) : Prop :=
  (∃ digits, numeral lexeme = some digits ∧ digits.mayEnd = true) ∧ limits.inRange lexeme = true

/-- Values that a reader accepts which allows so many more levels. -/
inductive Fits (limits : Limits) : ℕ → Json → Prop
  | null (levels : ℕ) : Fits limits levels .null
  | bool (levels : ℕ) (b : Bool) : Fits limits levels (.bool b)
  | number (levels : ℕ) {lexeme : List Char} (h : IsNumeral limits lexeme) :
    Fits limits levels (.number lexeme)
  | string (levels : ℕ) (text : List Char) : Fits limits levels (.string text)
  | array {levels : ℕ} {items : List Json} (h : ∀ item ∈ items, Fits limits levels item) :
    Fits limits (levels + 1) (.array items)
  | object {levels : ℕ} {members : List (List Char × Json)}
    (h : ∀ member ∈ members, Fits limits levels member.2) :
    Fits limits (levels + 1) (.object members)

section Strings

variable {limits : Limits}

theorem hexValue_hexDigit {n : ℕ} (hn : n < 16) : hexValue (hexDigit n) = some n := by
  decide +revert

/-- Two hexadecimal digits after two zeros. -/
theorem completeHex_control {c : Char} (hc : c.toNat < 0x20) (isKey : Bool) (text : List Char) :
    completeHex isKey text none (16 * (c.toNat / 16) + c.toNat % 16) =
      some (.string isKey (c :: text)) := by
  have hvalue : 16 * (c.toNat / 16) + c.toNat % 16 = c.toNat := by omega
  rw [hvalue]
  unfold completeHex
  dsimp only
  rw [if_neg (by omega), if_neg (by omega), Char.ofNat_toNat]

/-- The reader takes one character of a string. -/
theorem run_escapeChar (stack : List Frame) (isKey : Bool) (text : List Char) (c : Char)
    (rest : List Char) :
    run limits ⟨stack, .string isKey text⟩ (escapeChar c ++ rest) =
      run limits ⟨stack, .string isKey (c :: text)⟩ rest := by
  unfold escapeChar
  split_ifs with hquote hslash hb hf hn hr ht hcontrol
  · rw [hquote]
    rfl
  · rw [hslash]
    rfl
  · rw [hb]
    rfl
  · rw [hf]
    rfl
  · rw [hn]
    rfl
  · rw [hr]
    rfl
  · rw [ht]
    rfl
  · have hhigh := hexValue_hexDigit (n := c.toNat / 16) (by omega)
    have hlow := hexValue_hexDigit (n := c.toNat % 16) (by omega)
    have hzero : hexValue '0' = some 0 := rfl
    simp only [List.cons_append, List.nil_append, run, step, stepEscape, hhigh, hlow, hzero]
    simp [completeHex_control hcontrol]
  · have hstep : step limits ⟨stack, .string isKey text⟩ c =
        some ⟨stack, .string isKey (c :: text)⟩ := by
      unfold step
      dsimp only
      rw [if_neg hquote, if_neg hslash, if_neg hcontrol]
    rw [List.singleton_append, run, hstep, Option.bind_some]

/-- The reader takes the characters of a string. -/
theorem run_escaped (stack : List Frame) (isKey : Bool) (text cs rest : List Char) :
    run limits ⟨stack, .string isKey text⟩ (cs.flatMap escapeChar ++ rest) =
      run limits ⟨stack, .string isKey (cs.reverse ++ text)⟩ rest := by
  induction cs generalizing text with
  | nil => rfl
  | cons c cs ih =>
    rw [List.flatMap_cons, List.append_assoc, run_escapeChar, ih, List.reverse_cons,
      List.append_assoc]
    rfl

/-- The reader takes a string up to its end. -/
theorem run_string (stack : List Frame) (isKey : Bool) (cs rest : List Char) :
    run limits ⟨stack, .string isKey []⟩ (cs.flatMap escapeChar ++ '"' :: rest) =
      (completeString isKey cs.reverse stack).bind fun s => run limits s rest := by
  rw [run_escaped, List.append_nil]
  rfl

end Strings

section Values

variable {limits : Limits}

/-- After these characters a number cannot go on, and a value in an array or object ends. -/
def Ends (c : Char) : Prop := c = ',' ∨ c = ']' ∨ c = '}'

/-- Characters that bring the reader from expecting a value to having it, up to where a number
turns out to be complete. -/
def Reads (limits : Limits) (stack : List Frame) (cs : List Char) (value : Json) : Prop :=
  ∃ s, run limits ⟨stack, .value⟩ cs = some s ∧
    (∀ c, Ends c → step limits s c = step limits (complete value stack) c) ∧
    (stack = [] → s.result limits = some value)

theorem reads_of_run {stack : List Frame} {cs : List Char} {value : Json}
    (h : run limits ⟨stack, .value⟩ cs = some (complete value stack)) :
    Reads limits stack cs value := by
  refine ⟨complete value stack, h, fun _ _ => rfl, ?_⟩
  rintro rfl
  rfl

/-- What follows a value is read as after the complete value. -/
theorem Reads.run_append {stack : List Frame} {cs : List Char} {value : Json}
    (h : Reads limits stack cs value) {c : Char} (hc : Ends c) (rest : List Char) :
    run limits ⟨stack, .value⟩ (cs ++ c :: rest) =
      run limits (complete value stack) (c :: rest) := by
  obtain ⟨s, hrun, hends, -⟩ := h
  rw [Json.run_append, hrun, Option.bind_some, run, run, hends c hc]

theorem stepDigits_ends {c : Char} (hc : Ends c) (digits : Digits) :
    stepDigits digits c = none := by
  rcases hc with rfl | rfl | rfl <;> cases digits <;> rfl

theorem run_number (stack : List Frame) (digits digits' : Digits) (lexeme cs : List Char)
    (h : cs.foldlM stepDigits digits = some digits') :
    run limits ⟨stack, .number digits lexeme⟩ cs =
      some ⟨stack, .number digits' (cs.reverse ++ lexeme)⟩ := by
  induction cs generalizing digits lexeme with
  | nil =>
    obtain rfl := Option.some.inj h
    rfl
  | cons c cs ih =>
    rw [List.foldlM_cons] at h
    obtain ⟨next, hnext, hrest⟩ := Option.bind_eq_some_iff.mp h
    have hstep : step limits ⟨stack, .number digits lexeme⟩ c =
        some ⟨stack, .number next (c :: lexeme)⟩ := by
      unfold step
      simp only [hnext]
    rw [run, hstep, Option.bind_some, ih next _ hrest, List.reverse_cons, List.append_assoc]
    rfl

/-- What a written value begins with. -/
def Begins (c : Char) : Prop := isSpace c = false ∧ c ≠ ']'

instance (c : Char) : Decidable (Begins c) := inferInstanceAs (Decidable (_ ∧ _))

theorem begins_of_startDigits {c : Char} {digits : Digits} (h : startDigits c = some digits) :
    Begins c := by
  refine ⟨?_, ?_⟩
  · rw [Bool.eq_false_iff]
    intro hspace
    simp only [isSpace, Bool.or_eq_true, decide_eq_true_eq] at hspace
    rcases hspace with ((rfl | rfl) | rfl) | rfl <;> cases h
  · rintro rfl
    cases h

theorem stepValue_digits {c : Char} {digits : Digits} (h : startDigits c = some digits)
    (stack : List Frame) :
    step limits ⟨stack, .value⟩ c = some ⟨stack, .number digits [c]⟩ := by
  have hbegins := begins_of_startDigits h
  unfold startDigits at h
  split_ifs at h with hminus hzero hdigit
  · obtain rfl := Option.some.inj h
    rw [hminus]
    rfl
  · obtain rfl := Option.some.inj h
    rw [hzero]
    rfl
  · obtain rfl := Option.some.inj h
    unfold step stepValue
    simp only [hbegins.1, Bool.false_eq_true, if_false]
    split
    any_goals cases hdigit
    · exact absurd rfl hzero
    · exact if_pos hdigit

/-- Numerals are numbers. -/
theorem reads_number (stack : List Frame) {lexeme : List Char} (h : IsNumeral limits lexeme) :
    Reads limits stack lexeme (.number lexeme) := by
  obtain ⟨⟨digits, hnumeral, hend⟩, hrange⟩ := h
  cases lexeme with
  | nil => cases hnumeral
  | cons c cs =>
    obtain ⟨first, hfirst, hrest⟩ := Option.bind_eq_some_iff.mp hnumeral
    have hlexeme : (cs.reverse ++ [c]).reverse = c :: cs := by simp
    have hcomplete : completeNumber limits digits (cs.reverse ++ [c]) =
        some (.number (c :: cs)) := by
      unfold completeNumber
      rw [hlexeme, hend, hrange]
      rfl
    refine ⟨⟨stack, .number digits (cs.reverse ++ [c])⟩, ?_, ?_, ?_⟩
    · rw [run, stepValue_digits hfirst, Option.bind_some, run_number _ _ _ _ _ hrest]
    · intro d hd
      have hafter : step limits (complete (.number (c :: cs)) stack) d =
          stepAfter (complete (.number (c :: cs)) stack).stack
            (complete (.number (c :: cs)) stack).mode d := by
        cases stack with
        | nil => rfl
        | cons frame stack => cases frame <;> rfl
      rw [hafter]
      unfold step
      simp only [stepDigits_ends hd, hcomplete, Option.bind_some]
    · rintro rfl
      exact hcomplete

theorem write_begins {levels : ℕ} {value : Json} (h : Fits limits levels value) :
    ∃ c cs, write value = c :: cs ∧ Begins c := by
  cases h with
  | null => exact ⟨_, _, by rw [write]; rfl, by decide⟩
  | bool _ b => cases b <;> exact ⟨_, _, by rw [write]; rfl, by decide⟩
  | string => exact ⟨_, _, by rw [write]; rfl, by decide⟩
  | @array _ items =>
    cases items <;> exact ⟨_, _, by rw [write], by decide⟩
  | @object _ members =>
    cases members <;> exact ⟨_, _, by rw [write], by decide⟩
  | @number _ lexeme h =>
    obtain ⟨⟨digits, hnumeral, -⟩, -⟩ := h
    cases lexeme with
    | nil => cases hnumeral
    | cons c cs =>
      obtain ⟨first, hfirst, -⟩ := Option.bind_eq_some_iff.mp hnumeral
      refine ⟨c, cs, by rw [write], ?_⟩
      exact begins_of_startDigits hfirst

/-- Where an item is read that an array begins with, any value is. -/
theorem run_firstItem {c : Char} (hc : Begins c) (items : List Json) (stack : List Frame)
    (cs : List Char) :
    run limits ⟨.array items :: stack, .firstItem⟩ (c :: cs) =
      run limits ⟨.array items :: stack, .value⟩ (c :: cs) := by
  have hstep : step limits ⟨.array items :: stack, .firstItem⟩ c =
      step limits ⟨.array items :: stack, .value⟩ c := by
    unfold step
    simp only [hc.1, Bool.false_eq_true, if_false]
    split
    · exact absurd rfl hc.2
    · rfl
  rw [run, run, hstep]

theorem writeItems_ends (items : List Json) : ∃ c cs, writeItems items = c :: cs ∧ Ends c := by
  cases items with
  | nil => exact ⟨_, _, rfl, .inr (.inl rfl)⟩
  | cons => exact ⟨_, _, by rw [writeItems], .inl rfl⟩

theorem writeMembers_ends (members : List (List Char × Json)) :
    ∃ c cs, writeMembers members = c :: cs ∧ Ends c := by
  cases members with
  | nil => exact ⟨_, _, rfl, .inr (.inr rfl)⟩
  | cons => exact ⟨_, _, by rw [writeMembers], .inl rfl⟩

/-- The items after the first one. -/
theorem run_items (stack : List Frame) (done items : List Json) (rest : List Char)
    (h : ∀ item ∈ items, ∀ done, Reads limits (.array done :: stack) (write item) item) :
    run limits ⟨.array done :: stack, .after⟩ (writeItems items ++ rest) =
      run limits (complete (.array (done.reverse ++ items)) stack) rest := by
  induction items generalizing done with
  | nil =>
    rw [List.append_nil]
    rfl
  | cons item items ih =>
    obtain ⟨hitem, hitems⟩ := List.forall_mem_cons.mp h
    have hcomma : run limits ⟨.array done :: stack, .after⟩
        (writeItems (item :: items) ++ rest) =
          run limits ⟨.array done :: stack, .value⟩ (write item ++ (writeItems items ++ rest)) := by
      rw [writeItems, List.cons_append, List.append_assoc]
      rfl
    obtain ⟨c, cs, hcs, hc⟩ := writeItems_ends items
    have hnext := ih (item :: done) hitems
    rw [hcomma, hcs, List.cons_append, (hitem done).run_append hc]
    rw [hcs, List.cons_append] at hnext
    rw [List.reverse_cons, List.append_assoc] at hnext
    exact hnext

/-- A key, a colon and a value. -/
theorem run_member (stack : List Frame) (done : List (List Char × Json)) (key : List Char)
    (member : List Char × Json) {c : Char} (hc : Ends c) (rest : List Char)
    (h : Reads limits (.object done member.1 :: stack) (write member.2) member.2) :
    run limits ⟨.object done key :: stack, .key⟩ (writeMember member ++ c :: rest) =
      run limits ⟨.object (member :: done) [] :: stack, .after⟩ (c :: rest) := by
  obtain ⟨name, value⟩ := member
  have hquote (cs : List Char) : run limits ⟨.object done key :: stack, .key⟩ ('"' :: cs) =
      run limits ⟨.object done key :: stack, .string true []⟩ cs := rfl
  have hcolon (cs : List Char) : run limits ⟨.object done name :: stack, .colon⟩ (':' :: cs) =
      run limits ⟨.object done name :: stack, .value⟩ cs := rfl
  have htext : writeMember (name, value) ++ c :: rest =
      '"' :: (name.flatMap escapeChar ++ '"' :: ':' :: (write value ++ c :: rest)) := by
    rw [writeMember, writeString]
    simp
  rw [htext, hquote, run_string]
  unfold completeString
  simp only [List.reverse_reverse, Option.bind_some]
  rw [hcolon, h.run_append hc]
  rfl

/-- The members after the first one. -/
theorem run_members (stack : List Frame) (done members : List (List Char × Json))
    (rest : List Char)
    (h : ∀ member ∈ members, ∀ done key,
      Reads limits (.object done key :: stack) (write member.2) member.2) :
    run limits ⟨.object done [] :: stack, .after⟩ (writeMembers members ++ rest) =
      run limits (complete (.object (done.reverse ++ members)) stack) rest := by
  induction members generalizing done with
  | nil =>
    rw [List.append_nil]
    rfl
  | cons member members ih =>
    obtain ⟨hmember, hmembers⟩ := List.forall_mem_cons.mp h
    have hcomma : run limits ⟨.object done [] :: stack, .after⟩
        (writeMembers (member :: members) ++ rest) =
          run limits ⟨.object done [] :: stack, .key⟩
            (writeMember member ++ (writeMembers members ++ rest)) := by
      rw [writeMembers, List.cons_append, List.append_assoc]
      rfl
    obtain ⟨c, cs, hcs, hc⟩ := writeMembers_ends members
    have hnext := ih (member :: done) hmembers
    rw [hcomma, hcs, List.cons_append, run_member _ _ _ _ hc _ (hmember done member.1)]
    rw [hcs, List.cons_append, List.reverse_cons, List.append_assoc] at hnext
    exact hnext

/-- Reading a written value. -/
theorem reads_write {levels : ℕ} {value : Json} (h : Fits limits levels value)
    (stack : List Frame) (hlevels : stack.length + levels ≤ limits.depth) :
    Reads limits stack (write value) value := by
  induction h generalizing stack with
  | null levels =>
    apply reads_of_run
    rw [write]
    rfl
  | bool levels b =>
    apply reads_of_run
    cases b <;> (rw [write]; rfl)
  | number levels h =>
    rw [write]
    exact reads_number stack h
  | string levels text =>
    apply reads_of_run
    have hquote (cs : List Char) : run limits ⟨stack, .value⟩ ('"' :: cs) =
        run limits ⟨stack, .string false []⟩ cs := rfl
    rw [write, writeString, hquote, run_string]
    unfold completeString
    rw [List.reverse_reverse]
    rfl
  | @array levels items h ih =>
    apply reads_of_run
    have hopen (cs : List Char) : run limits ⟨stack, .value⟩ ('[' :: cs) =
        run limits ⟨.array [] :: stack, .firstItem⟩ cs := by
      have hstep : step limits ⟨stack, .value⟩ '[' = some ⟨.array [] :: stack, .firstItem⟩ :=
        if_pos (by omega : stack.length < limits.depth)
      rw [run, hstep, Option.bind_some]
    cases items with
    | nil =>
      rw [write, hopen]
      rfl
    | cons item items =>
      have hreads : ∀ v ∈ item :: items, ∀ done, Reads limits (.array done :: stack) (write v) v :=
        fun v hv done => ih v hv (.array done :: stack) (by rw [List.length_cons]; omega)
      obtain ⟨hitem, hitems⟩ := List.forall_mem_cons.mp hreads
      obtain ⟨c, cs, hcs, hc⟩ := write_begins (h item List.mem_cons_self)
      obtain ⟨d, ds, hds, hd⟩ := writeItems_ends items
      have hrest := run_items stack [item] items [] hitems
      rw [write, hopen, hcs, List.cons_append, run_firstItem hc, ← List.cons_append, ← hcs, hds,
        (hitem []).run_append hd]
      rw [List.append_nil, hds] at hrest
      exact hrest
  | @object levels members h ih =>
    apply reads_of_run
    have hopen (cs : List Char) : run limits ⟨stack, .value⟩ ('{' :: cs) =
        run limits ⟨.object [] [] :: stack, .firstKey⟩ cs := by
      have hstep : step limits ⟨stack, .value⟩ '{' = some ⟨.object [] [] :: stack, .firstKey⟩ :=
        if_pos (by omega : stack.length < limits.depth)
      rw [run, hstep, Option.bind_some]
    cases members with
    | nil =>
      rw [write, hopen]
      rfl
    | cons member members =>
      have hreads : ∀ v ∈ member :: members, ∀ done key,
          Reads limits (.object done key :: stack) (write v.2) v.2 :=
        fun v hv done key => ih v hv (.object done key :: stack) (by rw [List.length_cons]; omega)
      obtain ⟨hmember, hmembers⟩ := List.forall_mem_cons.mp hreads
      have hfirst (cs : List Char) :
          run limits ⟨.object [] [] :: stack, .firstKey⟩ (writeMember member ++ cs) =
            run limits ⟨.object [] [] :: stack, .key⟩ (writeMember member ++ cs) := by
        rw [writeMember, writeString]
        rfl
      obtain ⟨d, ds, hds, hd⟩ := writeMembers_ends members
      have hrest := run_members stack [member] members [] hmembers
      rw [write, hopen, hfirst, hds, run_member _ _ _ _ hd _ (hmember [] member.1)]
      rw [List.append_nil, hds] at hrest
      exact hrest

/-- What is written reads back. -/
theorem read_write {value : Json} (h : Fits limits limits.depth value) :
    read limits (write value) = some value := by
  obtain ⟨s, hrun, -, hresult⟩ := reads_write h [] (by simp)
  unfold read
  rw [State.start, hrun, Option.bind_some]
  exact hresult rfl

end Values

section Numbers

variable {limits : Limits}

/-- A natural number. -/
def ofNat (n : ℕ) : Json := .number (Nat.toDigits 10 n)

/-- An integer. -/
def ofInt (z : ℤ) : Json :=
  .number (if z < 0 then '-' :: Nat.toDigits 10 z.natAbs else Nat.toDigits 10 z.natAbs)

theorem numeral_append {cs : List Char} {digits : Digits} (h : numeral cs = some digits)
    (ds : List Char) : numeral (cs ++ ds) = ds.foldlM stepDigits digits := by
  cases cs with
  | nil => cases h
  | cons c cs =>
    obtain ⟨first, hfirst, hrest⟩ := Option.bind_eq_some_iff.mp h
    rw [List.cons_append, numeral, hfirst, Option.bind_some, List.foldlM_append, hrest]
    rfl

theorem stepDigits_int {c : Char} (hc : c.isDigit = true) : stepDigits .int c = some .int := by
  unfold stepDigits
  split
  any_goals contradiction
  exact if_pos hc

/-- The digits of a positive number. -/
theorem numeral_toDigits {n : ℕ} (hn : 0 < n) : numeral (Nat.toDigits 10 n) = some .int := by
  induction n using Nat.strongRecOn with
  | ind n ih =>
    by_cases hlt : n < 10
    · have hone : ∀ n < 10, 0 < n → numeral [n.digitChar] = some .int := by decide
      rw [Nat.toDigits_of_lt_base hlt]
      exact hone n hlt hn
    · have hdigit : (n % 10).digitChar.isDigit = true := by
        have hmod : n % 10 < 10 := Nat.mod_lt n (by decide)
        generalize n % 10 = d at hmod
        decide +revert
      have hfront := ih (n / 10) (by omega) (by omega)
      rw [Nat.toDigits_of_base_le (by decide) (by omega), numeral_append hfront, List.foldlM_cons,
        stepDigits_int hdigit]
      rfl

/-- Natural numbers are written as numerals. -/
theorem isNumeral_toDigits {n : ℕ} (hrange : limits.inRange (Nat.toDigits 10 n) = true) :
    IsNumeral limits (Nat.toDigits 10 n) := by
  refine ⟨?_, hrange⟩
  by_cases hn : n = 0
  · rw [hn]
    exact ⟨.zero, rfl, rfl⟩
  · exact ⟨.int, numeral_toDigits (Nat.pos_of_ne_zero hn), rfl⟩

/-- A natural number reads back. -/
theorem nat?_ofNat {max n : ℕ} (hn : n ≤ max) : nat? max (ofNat n) = some n := by
  have hall : (Nat.toDigits 10 n).all Char.isDigit = true :=
    List.all_eq_true.mpr fun c hc => Nat.isDigit_of_mem_toDigits (by decide) (by decide) hc
  have hvalue : (Nat.toDigits 10 n).foldl (fun n c => 10 * n + (c.toNat - '0'.toNat)) 0 = n := by
    rw [← Nat.ofDigitChars_eq_foldl, Nat.ofDigitChars_ten_toDigits]
  unfold nat? ofNat
  dsimp only
  rw [if_pos hall, hvalue]
  exact if_pos hn

end Numbers

section Lines

variable {limits : Limits}

/-- A character that is no control character. -/
def Printable (c : Char) : Prop := 0x20 ≤ c.toNat

instance (c : Char) : Decidable (Printable c) := inferInstanceAs (Decidable (_ ≤ _))

theorem printable_escapeChar (c : Char) : ∀ d ∈ escapeChar c, Printable d := by
  have hhex {n : ℕ} (hn : n < 16) : Printable (hexDigit n) := by decide +revert
  unfold escapeChar
  split_ifs with hquote hslash hb hf hn hr ht hcontrol
  any_goals simp [Printable]
  · exact ⟨hhex (by omega), hhex (by omega)⟩
  · omega

/-- A numeral has only digits, signs, a point and an `e`. -/
theorem printable_numeral {lexeme : List Char} (h : IsNumeral limits lexeme) :
    ∀ c ∈ lexeme, Printable c := by
  have hdigit {c : Char} (hc : c.isDigit = true) : Printable c := by
    rw [Char.isDigit_iff_toNat] at hc
    exact Nat.le_trans (by decide) hc.1
  have hstep {digits digits' : Digits} {c : Char} (h : stepDigits digits c = some digits') :
      Printable c := by
    unfold stepDigits at h
    split at h
    any_goals decide
    any_goals (split_ifs at h with hc; exact hdigit hc)
    cases h
  have hrest {digits digits' : Digits} {cs : List Char}
      (h : cs.foldlM stepDigits digits = some digits') : ∀ c ∈ cs, Printable c := by
    induction cs generalizing digits with
    | nil => exact List.forall_mem_nil _
    | cons c cs ih =>
      rw [List.foldlM_cons] at h
      obtain ⟨next, hnext, hcs⟩ := Option.bind_eq_some_iff.mp h
      exact List.forall_mem_cons.mpr ⟨hstep hnext, ih hcs⟩
  obtain ⟨⟨digits, hnumeral, -⟩, -⟩ := h
  cases lexeme with
  | nil => cases hnumeral
  | cons c cs =>
    obtain ⟨first, hfirst, hcs⟩ := Option.bind_eq_some_iff.mp hnumeral
    refine List.forall_mem_cons.mpr ⟨?_, hrest hcs⟩
    unfold startDigits at hfirst
    split_ifs at hfirst with hminus hzero hc
    · rw [hminus]
      decide
    · rw [hzero]
      decide
    · exact hdigit hc

theorem printable_writeString (text : List Char) : ∀ c ∈ writeString text, Printable c := by
  have hquote : Printable '"' := by decide
  rw [writeString, List.forall_mem_cons, List.forall_mem_append, List.forall_mem_flatMap]
  exact ⟨hquote, fun c _ => printable_escapeChar c, by simpa using hquote⟩

/-- No control character is written, and in particular no newline. -/
theorem printable_write {levels : ℕ} {value : Json} (h : Fits limits levels value) :
    ∀ c ∈ write value, Printable c := by
  induction h with
  | null =>
    rw [write]
    simp [Word.chars, Printable]
  | bool levels b =>
    cases b <;> (rw [write]; simp [Word.chars, Printable])
  | number levels h =>
    rw [write]
    exact printable_numeral h
  | string levels text =>
    rw [write]
    exact printable_writeString text
  | @array levels items h ih =>
    have hitems (items : List Json) (h : ∀ item ∈ items, ∀ c ∈ write item, Printable c) :
        ∀ c ∈ writeItems items, Printable c := by
      induction items with
      | nil => simp [writeItems, Printable]
      | cons item items ihitems =>
        obtain ⟨hitem, hrest⟩ := List.forall_mem_cons.mp h
        rw [writeItems, List.forall_mem_cons, List.forall_mem_append]
        exact ⟨by decide, hitem, ihitems hrest⟩
    cases items with
    | nil =>
      rw [write]
      simp [Printable]
    | cons item items =>
      obtain ⟨hitem, hrest⟩ := List.forall_mem_cons.mp ih
      rw [write, List.forall_mem_cons, List.forall_mem_append]
      exact ⟨by decide, hitem, hitems items hrest⟩
  | @object levels members h ih =>
    have hmember (member : List Char × Json) (h : ∀ c ∈ write member.2, Printable c) :
        ∀ c ∈ writeMember member, Printable c := by
      rw [writeMember, List.forall_mem_append, List.forall_mem_cons]
      exact ⟨printable_writeString _, by decide, h⟩
    have hmembers (members : List (List Char × Json))
        (h : ∀ member ∈ members, ∀ c ∈ write member.2, Printable c) :
        ∀ c ∈ writeMembers members, Printable c := by
      induction members with
      | nil => simp [writeMembers, Printable]
      | cons member members ihmembers =>
        obtain ⟨hone, hrest⟩ := List.forall_mem_cons.mp h
        rw [writeMembers, List.forall_mem_cons, List.forall_mem_append]
        exact ⟨by decide, hmember member hone, ihmembers hrest⟩
    cases members with
    | nil =>
      rw [write]
      simp [Printable]
    | cons member members =>
      obtain ⟨hone, hrest⟩ := List.forall_mem_cons.mp ih
      rw [write, List.forall_mem_cons, List.forall_mem_append]
      exact ⟨by decide, hmember member hone, hmembers members hrest⟩

end Lines

end Json
