import G2mirror.Library.Json
import G2mirror.Library.Utf8

/-!
# The written form of JSON

A text is taken apart into strings and single bytes, these into tokens without
whitespace, and a reader turns the tokens into a document that keeps every
string and scalar as it is written. A document changes at one place when the
tokens do.
-/

namespace JsonText

/-- The quotation mark. -/
def quote : UInt8 := 0x22

/-- The backslash. -/
def backslash : UInt8 := 0x5c

/-- A string, with what is between its quotes as it is written, or another byte. -/
inductive Lexeme
  | string (raw : List UInt8)
  | byte (b : UInt8)
  deriving DecidableEq

/-- How a lexeme is written. -/
def Lexeme.bytes : Lexeme → List UInt8
  | .string raw => quote :: (raw ++ [quote])
  | .byte b => [b]

/-- How lexemes are written. -/
def written (us : List Lexeme) : List UInt8 := us.flatMap Lexeme.bytes

/-- Where a byte is with respect to strings. -/
inductive Quoting
  | code
  | string
  /-- After a backslash in a string. -/
  | escape
  deriving DecidableEq

/-- Where the byte after this one is. -/
def Quoting.next : Quoting → UInt8 → Quoting
  | .code, b => if b = quote then .string else .code
  | .string, b => if b = quote then .code else if b = backslash then .escape else .string
  | .escape, _ => .string

/-- The bytes end inside of a string that started before them, and leave it nowhere. -/
def inside : Quoting → List UInt8 → Bool
  | q, [] => q = .string
  | q, b :: bs => q.next b ≠ .code && inside (q.next b) bs

/-- The rest of an open string, and the lexemes after it. -/
def lexFrom : Quoting → List UInt8 → Option (List UInt8 × List Lexeme)
  | .code, [] => some ([], [])
  | .string, [] | .escape, [] => none
  | .code, b :: bs =>
    if b = quote then (lexFrom .string bs).map fun found => ([], .string found.1 :: found.2)
    else (lexFrom .code bs).map fun found => ([], .byte b :: found.2)
  | .string, b :: bs =>
    if b = quote then (lexFrom .code bs).map fun found => ([], found.2)
    else (lexFrom (Quoting.string.next b) bs).map fun found => (b :: found.1, found.2)
  | .escape, b :: bs => (lexFrom .string bs).map fun found => (b :: found.1, found.2)

/-- The lexemes of a text whose strings are all closed. -/
def lex (text : List UInt8) : Option (List Lexeme) := (lexFrom .code text).map (·.2)

/-- The lexeme is taken for itself wherever it is written outside of strings. -/
def Lexeme.Closed : Lexeme → Prop
  | .string raw => inside .string raw = true
  | .byte b => b ≠ quote

/-- What is enclosed in brackets or braces. -/
inductive Bracket
  | array
  | object
  deriving DecidableEq

/-- What a text consists of, but for whitespace. -/
inductive Token
  | opens (b : Bracket)
  | closes (b : Bracket)
  | comma
  | colon
  | string (raw : List UInt8)
  /-- A number or a word. -/
  | scalar (raw : List UInt8)
  deriving DecidableEq

/-- The tokens of one byte. -/
def punct? (b : UInt8) : Option Token :=
  if b = 0x5b then some (.opens .array)
  else if b = 0x5d then some (.closes .array)
  else if b = 0x7b then some (.opens .object)
  else if b = 0x7d then some (.closes .object)
  else if b = 0x2c then some .comma
  else if b = 0x3a then some .colon
  else none

/-- JSON's whitespace. -/
def isSpace (b : UInt8) : Bool := b = 0x20 || b = 0x0a || b = 0x09 || b = 0x0d

/-- A scalar ends, if there is one. -/
def flush : List UInt8 → List Token
  | [] => []
  | raw => [.scalar raw]

/-- The tokens of lexemes, after the bytes of a scalar. -/
def tokens (pending : List UInt8) : List Lexeme → List Token
  | [] => flush pending
  | .string raw :: us => flush pending ++ .string raw :: tokens [] us
  | .byte b :: us =>
    match punct? b with
    | some t => flush pending ++ t :: tokens [] us
    | none => if isSpace b then flush pending ++ tokens [] us else tokens (pending ++ [b]) us

/-- The token that a lexeme is by itself. -/
def Lexeme.token? : Lexeme → Option Token
  | .string raw => some (.string raw)
  | .byte b => punct? b

/-- A byte of whitespace. -/
def Lexeme.isSpace : Lexeme → Bool
  | .string _ => false
  | .byte b => JsonText.isSpace b

/-- How deep the next token is, while the depth stays between two bounds. -/
def shift (lo hi depth : ℕ) : Token → Option ℕ
  | .opens _ => if depth < hi then some (depth + 1) else none
  | .closes _ => if lo < depth then some (depth - 1) else none
  | _ => some depth

/-- The depth after tokens. -/
def levels (lo hi depth : ℕ) (ts : List Token) : Option ℕ := ts.foldlM (shift lo hi) depth

/-- The depth after a lexeme. -/
def lexShift (lo hi depth : ℕ) (u : Lexeme) : Option ℕ :=
  match u.token? with
  | some t => shift lo hi depth t
  | none => some depth

/-- The depth after lexemes. -/
def lexLevels (lo hi depth : ℕ) (us : List Lexeme) : Option ℕ := us.foldlM (lexShift lo hi) depth

/-- A document: strings and scalars are kept as they are written. -/
inductive Doc
  | scalar (raw : List UInt8)
  | string (raw : List UInt8)
  | array (items : List Doc)
  | object (members : List (List UInt8 × Doc))

/-- An array or an object that is open, with what is in it so far, newest first. -/
inductive Frame
  | array (items : List Doc)
  /-- With the key of the member that is being read. -/
  | object (members : List (List UInt8 × Doc)) (key : List UInt8)

/-- What the reader expects. -/
inductive Mode
  | value
  | firstItem
  | firstKey
  | key
  | colon
  /-- A comma, or the end of the innermost array or object. -/
  | after
  | done (doc : Doc)

/-- The state of the reader. -/
structure State where
  stack : List Frame
  mode : Mode

/-- The reader before the first token. -/
def State.start : State := ⟨[], .value⟩

/-- The character with the number of a byte. -/
def char (b : UInt8) : Char := Char.ofNat b.toNat

/-- Numbers, as the grammar has them. -/
def isNumber : List UInt8 → Bool
  | [] => false
  | b :: bs =>
    let first : Option Json.Digits :=
      if char b = '-' then some .minus else Json.stepDigits .minus (char b)
    (first.bind fun first => bs.foldlM (fun d b => Json.stepDigits d (char b)) first).any
      Json.Digits.mayEnd

/-- Numbers and the three words. -/
def isScalar (raw : List UInt8) : Bool :=
  raw.map char ∈ [Json.Word.null, .true, .false].map Json.Word.chars || isNumber raw

/-- Hexadecimal digits. -/
def isHex (b : UInt8) : Bool := (Json.hexValue (char b)).isSome

/-- What may stand between the quotes of a string: no control character, and only known
escapes. Surrogates are not checked, as not every string is decoded. -/
def isString : List UInt8 → Bool
  | [] => true
  | b :: bs =>
    if b = backslash then
      match bs with
      | 0x75 :: b1 :: b2 :: b3 :: b4 :: rest =>
        isHex b1 && isHex b2 && isHex b3 && isHex b4 && isString rest
      | e :: rest => (char e ∈ ['"', '\\', '/', 'b', 'f', 'n', 'r', 't']) && isString rest
      | [] => false
    else 0x20 ≤ b && isString bs

/-- A value is complete. -/
def complete (doc : Doc) : List Frame → State
  | [] => ⟨[], .done doc⟩
  | .array items :: stack => ⟨.array (doc :: items) :: stack, .after⟩
  | .object members key :: stack => ⟨.object ((key, doc) :: members) [] :: stack, .after⟩

/-- The innermost array or object ends. -/
def close : Bracket → List Frame → Option State
  | .array, .array items :: stack => some (complete (.array items.reverse) stack)
  | .object, .object members _ :: stack => some (complete (.object members.reverse) stack)
  | _, _ => none

/-- What is open before anything is read. -/
def Bracket.opened : Bracket → List Frame → State
  | .array, stack => ⟨.array [] :: stack, .firstItem⟩
  | .object, stack => ⟨.object [] [] :: stack, .firstKey⟩

/-- A token that begins a value. Values are nested up to a limit. -/
def begin (limit : ℕ) (stack : List Frame) : Token → Option State
  | .string raw => if isString raw then some (complete (.string raw) stack) else none
  | .scalar raw => if isScalar raw then some (complete (.scalar raw) stack) else none
  | .opens b => if stack.length < limit then some (b.opened stack) else none
  | _ => none

/-- A key of the innermost object. -/
def setKey (raw : List UInt8) : List Frame → Option State
  | .object members _ :: stack =>
    if isString raw then some ⟨.object members raw :: stack, .colon⟩ else none
  | _ => none

/-- A comma in the innermost array or object. -/
def separate : List Frame → Option State
  | .array items :: stack => some ⟨.array items :: stack, .value⟩
  | .object members key :: stack => some ⟨.object members key :: stack, .key⟩
  | [] => none

/-- One more token. -/
def step (limit : ℕ) (s : State) (t : Token) : Option State :=
  match s.mode with
  | .value => begin limit s.stack t
  | .firstItem =>
    match t with
    | .closes b => close b s.stack
    | _ => begin limit s.stack t
  | .firstKey =>
    match t with
    | .closes b => close b s.stack
    | .string raw => setKey raw s.stack
    | _ => none
  | .key =>
    match t with
    | .string raw => setKey raw s.stack
    | _ => none
  | .colon => if t = .colon then some ⟨s.stack, .value⟩ else none
  | .after =>
    match t with
    | .comma => separate s.stack
    | .closes b => close b s.stack
    | _ => none
  | .done _ => none

/-- The state after these tokens. -/
def run (limit : ℕ) (s : State) (ts : List Token) : Option State := ts.foldlM (step limit) s

/-- The document of tokens. -/
def readTokens (limit : ℕ) (ts : List Token) : Option Doc :=
  (run limit .start ts).bind fun s =>
    match s.mode with
    | .done doc => some doc
    | _ => none

/-- The document of a text. -/
def read (limit : ℕ) (text : List UInt8) : Option Doc :=
  (lex text).bind fun us => readTokens limit (tokens [] us)

example : (read 2 (Utf8.encode " \x7b\"a\": [1, true, \"\\ud800\"]\x7d ".toList)).isSome = true ∧
    (read 1 (Utf8.encode "\x7b\"a\": [1]\x7d".toList)).isSome = false ∧
    (read 2 (Utf8.encode "[1,]".toList)).isSome = false := by decide +kernel

section Lexing

variable {us vs : List Lexeme}

@[simp] theorem written_nil : written [] = [] := rfl

@[simp] theorem written_append (us vs : List Lexeme) :
    written (us ++ vs) = written us ++ written vs :=
  List.flatMap_append

@[simp] theorem written_cons (u : Lexeme) (us : List Lexeme) :
    written (u :: us) = u.bytes ++ written us := rfl

/-- The rest of a string and what follows it. -/
theorem lexFrom_string {q : Quoting} (hq : q ≠ .code) {raw : List UInt8}
    (hraw : inside q raw = true) (rest : List UInt8) :
    lexFrom q (raw ++ quote :: rest) = (lexFrom .code rest).map fun found => (raw, found.2) := by
  induction raw generalizing q with
  | nil =>
    obtain rfl : q = .string := by simpa [inside] using hraw
    rw [List.nil_append, lexFrom, if_pos rfl]
  | cons b raw ih =>
    rw [inside, Bool.and_eq_true, decide_eq_true_eq] at hraw
    obtain ⟨hb, hraw⟩ := hraw
    cases q with
    | code => exact absurd rfl hq
    | string =>
      have hquote : b ≠ quote := fun h => hb (if_pos h)
      rw [List.cons_append, lexFrom, if_neg hquote, ih hb hraw, Option.map_map]
      rfl
    | escape =>
      have hfound := ih (by decide : Quoting.string ≠ .code) hraw
      rw [List.cons_append, lexFrom, hfound, Option.map_map]
      rfl

/-- Closed lexemes are found where they are written. -/
theorem lexFrom_written (hus : ∀ u ∈ us, u.Closed) :
    lexFrom .code (written us) = some ([], us) := by
  induction us with
  | nil => rfl
  | cons u us ih =>
    obtain ⟨hu, hrest⟩ := List.forall_mem_cons.mp hus
    cases u with
    | string raw =>
      have hwritten : written (.string raw :: us) = quote :: (raw ++ quote :: written us) := by
        simp [Lexeme.bytes]
      rw [hwritten, lexFrom, if_pos rfl, lexFrom_string (by decide) hu, ih hrest]
      rfl
    | byte b =>
      rw [written_cons, Lexeme.bytes, List.singleton_append, lexFrom, if_neg hu, ih hrest]
      rfl

/-- What is found is closed, and it is what is written. -/
theorem lexFrom_eq_some {q : Quoting} {text raw : List UInt8}
    (h : lexFrom q text = some (raw, us)) :
    (∀ u ∈ us, u.Closed) ∧
      if q = .code then text = written us
      else inside q raw ∧ text = raw ++ quote :: written us := by
  induction text generalizing q raw us with
  | nil =>
    cases q with
    | code =>
      obtain ⟨rfl, rfl⟩ := Prod.mk.inj (Option.some.inj h)
      exact ⟨List.forall_mem_nil _, rfl⟩
    | string => cases h
    | escape => cases h
  | cons b text ih =>
    cases q with
    | code =>
      rw [lexFrom] at h
      split_ifs at h with hb
      · obtain ⟨⟨raw', us'⟩, hfound, hsome⟩ := Option.map_eq_some_iff.mp h
        obtain ⟨-, rfl⟩ := Prod.mk.inj hsome
        obtain ⟨hclosed, hinside, rfl⟩ := ih hfound
        refine ⟨List.forall_mem_cons.mpr ⟨hinside, hclosed⟩, ?_⟩
        simp [Lexeme.bytes, hb]
      · obtain ⟨⟨raw', us'⟩, hfound, hsome⟩ := Option.map_eq_some_iff.mp h
        obtain ⟨-, rfl⟩ := Prod.mk.inj hsome
        obtain ⟨hclosed, rfl⟩ := ih hfound
        exact ⟨List.forall_mem_cons.mpr ⟨hb, hclosed⟩, rfl⟩
    | string =>
      rw [lexFrom] at h
      split_ifs at h with hb
      · obtain ⟨⟨raw', us'⟩, hfound, hsome⟩ := Option.map_eq_some_iff.mp h
        obtain ⟨rfl, rfl⟩ := Prod.mk.inj hsome
        obtain ⟨hclosed, rfl⟩ := ih hfound
        exact ⟨hclosed, rfl, by rw [hb, List.nil_append]⟩
      · obtain ⟨⟨raw', us'⟩, hfound, hsome⟩ := Option.map_eq_some_iff.mp h
        obtain ⟨rfl, rfl⟩ := Prod.mk.inj hsome
        have hnext : Quoting.string.next b ≠ .code := by
          change (if b = quote then Quoting.code
            else if b = backslash then .escape else .string) ≠ _
          rw [if_neg hb]
          split_ifs <;> decide
        have hinner := ih hfound
        rw [if_neg hnext] at hinner
        obtain ⟨hclosed, hinside, rfl⟩ := hinner
        refine ⟨hclosed, ?_, rfl⟩
        rw [inside, hinside, Bool.and_true]
        exact decide_eq_true hnext
    | escape =>
      rw [lexFrom] at h
      obtain ⟨⟨raw', us'⟩, hfound, hsome⟩ := Option.map_eq_some_iff.mp h
      obtain ⟨rfl, rfl⟩ := Prod.mk.inj hsome
      obtain ⟨hclosed, hinside, rfl⟩ := ih hfound
      exact ⟨hclosed, hinside, rfl⟩

/-- A text with closed strings is what its lexemes write. -/
theorem lex_eq_some_iff {text : List UInt8} :
    lex text = some us ↔ (∀ u ∈ us, u.Closed) ∧ text = written us := by
  constructor
  · intro h
    obtain ⟨⟨raw, us'⟩, hfound, rfl⟩ := Option.map_eq_some_iff.mp h
    exact lexFrom_eq_some hfound
  · rintro ⟨hus, rfl⟩
    unfold lex
    rw [lexFrom_written hus]
    rfl

/-- Where the byte after the rest of a string is: at the closing quote. -/
theorem foldl_next_inside {q : Quoting} {raw : List UInt8} (h : inside q raw = true) :
    raw.foldl Quoting.next q = .string := by
  induction raw generalizing q with
  | nil => simpa [inside] using h
  | cons b raw ih =>
    rw [inside, Bool.and_eq_true] at h
    exact ih h.2

/-- After closed lexemes no string is open. -/
theorem foldl_next_written (hus : ∀ u ∈ us, u.Closed) :
    (written us).foldl Quoting.next .code = .code := by
  induction us with
  | nil => rfl
  | cons u us ih =>
    obtain ⟨hu, hrest⟩ := List.forall_mem_cons.mp hus
    have hnext : u.bytes.foldl Quoting.next .code = .code := by
      cases u with
      | string raw =>
        have hopen : Quoting.code.next quote = .string := rfl
        rw [Lexeme.bytes, List.foldl_cons, hopen, List.foldl_append, foldl_next_inside hu]
        rfl
      | byte b => exact if_neg hu
    rw [written_cons, List.foldl_append, hnext]
    exact ih hrest

end Lexing

section Tokens

variable {us vs : List Lexeme} {pending : List UInt8} {lo hi depth : ℕ}

/-- A lexeme that is a token ends the scalar before it. -/
theorem tokens_token {u : Lexeme} {t : Token} (hu : u.token? = some t) :
    tokens pending (u :: us) = flush pending ++ t :: tokens [] us := by
  cases u with
  | string raw =>
    obtain rfl := Option.some.inj hu
    rfl
  | byte b =>
    have hpunct : punct? b = some t := hu
    rw [tokens, hpunct]

theorem punct?_of_isSpace {b : UInt8} (h : isSpace b = true) : punct? b = none := by
  unfold isSpace at h
  simp only [Bool.or_eq_true, decide_eq_true_eq] at h
  rcases h with ((rfl | rfl) | rfl) | rfl <;> rfl

/-- So does whitespace. -/
theorem tokens_space {u : Lexeme} (hu : u.isSpace = true) :
    tokens pending (u :: us) = flush pending ++ tokens [] us := by
  cases u with
  | string raw => cases hu
  | byte b =>
    have hspace : isSpace b = true := hu
    rw [tokens, punct?_of_isSpace hspace]
    exact if_pos hspace

/-- Another byte belongs to a scalar. -/
theorem tokens_scalar {b : UInt8} (hpunct : punct? b = none) (hspace : isSpace b = false) :
    tokens pending (.byte b :: us) = tokens (pending ++ [b]) us := by
  rw [tokens, hpunct]
  exact if_neg (by rw [hspace]; decide)

/-- The three kinds of lexemes. -/
theorem Lexeme.kinds (u : Lexeme) :
    (∃ t, u.token? = some t) ∨ u.isSpace = true ∨
      ∃ b, u = .byte b ∧ punct? b = none ∧ JsonText.isSpace b = false := by
  cases u with
  | string raw => exact .inl ⟨_, rfl⟩
  | byte b =>
    rcases hpunct : punct? b with _ | t
    · cases hspace : JsonText.isSpace b with
      | true => exact .inr (.inl hspace)
      | false => exact .inr (.inr ⟨b, rfl, hpunct, hspace⟩)
    · exact .inl ⟨t, hpunct⟩

/-- What ends a scalar separates the tokens before it from those after it. -/
theorem tokens_append {u : Lexeme} (hu : u.token? ≠ none ∨ u.isSpace = true) :
    tokens pending (vs ++ u :: us) = tokens pending vs ++ tokens [] (u :: us) := by
  induction vs generalizing pending with
  | nil =>
    rw [List.nil_append, tokens]
    rcases hu with htoken | hspace
    · obtain ⟨t, ht⟩ := Option.ne_none_iff_exists'.mp htoken
      rw [tokens_token ht, tokens_token ht]
      rfl
    · rw [tokens_space hspace, tokens_space hspace]
      rfl
  | cons v vs ih =>
    rw [List.cons_append]
    rcases v.kinds with ⟨t, ht⟩ | hspace | ⟨b, rfl, hpunct, hspace⟩
    · rw [tokens_token ht, tokens_token ht, ih, List.append_assoc, List.cons_append]
    · rw [tokens_space hspace, tokens_space hspace, ih, List.append_assoc]
    · rw [tokens_scalar hpunct hspace, tokens_scalar hpunct hspace, ih]

theorem tokens_append_token {u : Lexeme} {t : Token} (hu : u.token? = some t) :
    tokens pending (vs ++ u :: us) = tokens pending vs ++ t :: tokens [] us := by
  rw [tokens_append (.inl (by rw [hu]; exact Option.some_ne_none t)), tokens_token hu]
  rfl

/-- Whitespace is no token. -/
theorem tokens_spaces (hvs : ∀ v ∈ vs, v.isSpace = true) : tokens [] (vs ++ us) = tokens [] us := by
  induction vs with
  | nil => rfl
  | cons v vs ih =>
    obtain ⟨hv, hrest⟩ := List.forall_mem_cons.mp hvs
    rw [List.cons_append, tokens_space hv, ih hrest]
    rfl

theorem tokens_append_spaces (hvs : ∀ v ∈ vs, v.isSpace = true) :
    tokens pending (us ++ vs) = tokens pending us := by
  cases vs with
  | nil => rw [List.append_nil]
  | cons v vs =>
    obtain ⟨hv, hrest⟩ := List.forall_mem_cons.mp hvs
    have hnone := @tokens_spaces [] vs hrest
    rw [List.append_nil] at hnone
    rw [tokens_append (.inr hv), tokens_space hv, hnone]
    exact List.append_nil _

/-- A token that is not in the first part is in the second one. -/
theorem append_split {α : Type*} {xs ys before after : List α} {a : α} (ha : a ∉ xs)
    (h : xs ++ ys = before ++ a :: after) :
    ∃ middle, before = xs ++ middle ∧ ys = middle ++ a :: after := by
  rcases List.append_eq_append_iff.mp h with ⟨middle, hbefore, hys⟩ | ⟨middle, hxs, hafter⟩
  · exact ⟨middle, hbefore, hys⟩
  · cases middle with
    | nil => exact ⟨[], by rw [hxs, List.append_nil, List.append_nil], hafter.symm⟩
    | cons c middle =>
      obtain ⟨rfl, -⟩ := List.cons.inj hafter
      exact absurd (hxs ▸ List.mem_append_right before List.mem_cons_self) ha

theorem notMem_flush {t : Token} (ht : ∀ raw, t ≠ .scalar raw) (pending : List UInt8) :
    t ∉ flush pending := by
  cases pending with
  | nil => exact List.not_mem_nil
  | cons b pending => exact fun h => ht _ (List.mem_singleton.mp h)

/-- A token other than a scalar comes from one lexeme. -/
theorem exists_lexeme {t : Token} (ht : ∀ raw, t ≠ .scalar raw) {before after : List Token}
    (h : tokens pending us = before ++ t :: after) :
    ∃ vs u ws, us = vs ++ u :: ws ∧ u.token? = some t ∧ tokens pending vs = before ∧
      tokens [] ws = after := by
  induction us generalizing pending before with
  | nil =>
    have hmem : t ∈ flush pending := by
      rw [show flush pending = before ++ t :: after from h]
      exact List.mem_append_right before List.mem_cons_self
    exact absurd hmem (notMem_flush ht pending)
  | cons u us ih =>
    rcases u.kinds with ⟨t', ht'⟩ | hspace | ⟨b, rfl, hpunct, hspace⟩
    · rw [tokens_token ht'] at h
      obtain ⟨middle, rfl, hmiddle⟩ := append_split (notMem_flush ht pending) h
      cases middle with
      | nil =>
        obtain ⟨rfl, hafter⟩ := List.cons.inj hmiddle
        exact ⟨[], u, us, rfl, ht', (List.append_nil _).symm, hafter⟩
      | cons t'' middle =>
        obtain ⟨rfl, hrest⟩ := List.cons.inj hmiddle
        obtain ⟨vs, v, ws, rfl, hv, hvs, hws⟩ := ih hrest
        exact ⟨u :: vs, v, ws, rfl, hv, by rw [tokens_token ht', hvs], hws⟩
    · rw [tokens_space hspace] at h
      obtain ⟨middle, rfl, hmiddle⟩ := append_split (notMem_flush ht pending) h
      obtain ⟨vs, v, ws, rfl, hv, hvs, hws⟩ := ih hmiddle
      exact ⟨u :: vs, v, ws, rfl, hv, by rw [tokens_space hspace, hvs], hws⟩
    · rw [tokens_scalar hpunct hspace] at h
      obtain ⟨vs, v, ws, rfl, hv, hvs, hws⟩ := ih h
      exact ⟨.byte b :: vs, v, ws, rfl, hv, by rw [tokens_scalar hpunct hspace, hvs], hws⟩

/-- The bytes of a scalar that has begun end up in one. -/
theorem exists_scalar_of_pending {b : UInt8} (hb : b ∈ pending) (us : List Lexeme) :
    ∃ raw, Token.scalar raw ∈ tokens pending us ∧ b ∈ raw := by
  have hflush {pending : List UInt8} (hb : b ∈ pending) (ts : List Token) :
      ∃ raw, Token.scalar raw ∈ flush pending ++ ts ∧ b ∈ raw := by
    cases pending with
    | nil => cases hb
    | cons c pending => exact ⟨_, List.mem_append_left _ (List.mem_singleton.mpr rfl), hb⟩
  induction us generalizing pending with
  | nil =>
    obtain ⟨raw, hraw, hmem⟩ := hflush hb []
    rw [List.append_nil] at hraw
    exact ⟨raw, hraw, hmem⟩
  | cons u us ih =>
    rcases u.kinds with ⟨t, ht⟩ | hspace | ⟨c, rfl, hpunct, hspace⟩
    · rw [tokens_token ht]
      exact hflush hb _
    · rw [tokens_space hspace]
      exact hflush hb _
    · rw [tokens_scalar hpunct hspace]
      exact ih (List.mem_append_left _ hb)

/-- A byte that is neither a token nor whitespace is part of a scalar. -/
theorem exists_scalar {b : UInt8} (hb : Lexeme.byte b ∈ us) (hpunct : punct? b = none)
    (hspace : isSpace b = false) : ∃ raw, Token.scalar raw ∈ tokens pending us ∧ b ∈ raw := by
  induction us generalizing pending with
  | nil => cases hb
  | cons u us ih =>
    rcases List.mem_cons.mp hb with rfl | hmem
    · rw [tokens_scalar hpunct hspace]
      exact exists_scalar_of_pending (List.mem_append_right _ (List.mem_singleton.mpr rfl)) us
    rcases u.kinds with ⟨t, ht⟩ | hspace' | ⟨c, rfl, hpunct', hspace'⟩
    · obtain ⟨raw, hraw, hmem'⟩ := @ih [] hmem
      rw [tokens_token ht]
      exact ⟨raw, List.mem_append_right _ (List.mem_cons_of_mem t hraw), hmem'⟩
    · obtain ⟨raw, hraw, hmem'⟩ := @ih [] hmem
      rw [tokens_space hspace']
      exact ⟨raw, List.mem_append_right _ hraw, hmem'⟩
    · rw [tokens_scalar hpunct' hspace']
      exact ih hmem

/-- Where there is no token there is only whitespace. -/
theorem spaces_of_tokens_eq_nil (h : tokens [] us = []) : ∀ u ∈ us, u.isSpace = true := by
  intro u hu
  rcases u.kinds with ⟨t, ht⟩ | hspace | ⟨b, rfl, hpunct, hspace⟩
  · obtain ⟨before, after, rfl⟩ := List.append_of_mem hu
    rw [tokens_append_token ht] at h
    cases (List.append_eq_nil_iff.mp h).2
  · exact hspace
  · obtain ⟨raw, hraw, -⟩ := @exists_scalar us [] b hu hpunct hspace
    rw [h] at hraw
    cases hraw

theorem lexShift_of_token {u : Lexeme} {t : Token} (hu : u.token? = some t) :
    lexShift lo hi depth u = shift lo hi depth t := by
  unfold lexShift
  rw [hu]

theorem lexShift_of_none {u : Lexeme} (hu : u.token? = none) :
    lexShift lo hi depth u = some depth := by
  unfold lexShift
  rw [hu]

theorem token?_of_isSpace {u : Lexeme} (hu : u.isSpace = true) : u.token? = none := by
  cases u with
  | string raw => cases hu
  | byte b => exact punct?_of_isSpace hu

theorem levels_flush (pending : List UInt8) (ts : List Token) :
    levels lo hi depth (flush pending ++ ts) = levels lo hi depth ts := by
  cases pending <;> rfl

/-- The tokens are as deep as the lexemes. -/
theorem levels_tokens (pending : List UInt8) (us : List Lexeme) :
    levels lo hi depth (tokens pending us) = lexLevels lo hi depth us := by
  induction us generalizing pending depth with
  | nil =>
    have hnil := @levels_flush lo hi depth pending []
    rw [List.append_nil] at hnil
    exact hnil
  | cons u us ih =>
    rw [lexLevels, List.foldlM_cons]
    rcases u.kinds with ⟨t, ht⟩ | hspace | ⟨b, rfl, hpunct, hspace⟩
    · rw [tokens_token ht, levels_flush, levels, List.foldlM_cons, lexShift_of_token ht]
      congr 1
      funext depth
      exact ih []
    · rw [tokens_space hspace, levels_flush, ih, lexShift_of_none (token?_of_isSpace hspace)]
      rfl
    · have hnone : (Lexeme.byte b).token? = none := hpunct
      rw [tokens_scalar hpunct hspace, ih, lexShift_of_none hnone]
      rfl

end Tokens

section Plain

theorem toNat_char (b : UInt8) : (char b).toNat = b.toNat := by
  have hlt := b.toNat_lt
  have hvalid : b.toNat.isValidChar := .inl (by omega)
  unfold char Char.ofNat
  rw [dif_pos hvalid]
  rfl

/-- A character that numbers and words are written with. -/
def Plain (c : Char) : Prop := 0x20 < c.toNat ∧ c.toNat < 0x80 ∧ c.toNat ≠ 0x2f

instance (c : Char) : Decidable (Plain c) := inferInstanceAs (Decidable (_ ∧ _ ∧ _))

theorem plain_of_isDigit {c : Char} (h : c.isDigit = true) : Plain c := by
  unfold Char.isDigit at h
  rw [Bool.and_eq_true, decide_eq_true_eq, decide_eq_true_eq] at h
  obtain ⟨hlow, hhigh⟩ := h
  have hlow' : '0'.toNat ≤ c.toNat := hlow
  have hhigh' : c.toNat ≤ '9'.toNat := hhigh
  simp at hlow' hhigh'
  unfold Plain
  omega

theorem plain_of_stepDigits {d d' : Json.Digits} {c : Char} (h : Json.stepDigits d c = some d') :
    Plain c := by
  unfold Json.stepDigits at h
  split at h
  any_goals decide
  any_goals exact plain_of_isDigit (Option.ite_none_right_eq_some.mp h).1
  cases h

theorem plain_of_isNumber {raw : List UInt8} (h : isNumber raw = true) :
    ∀ b ∈ raw, Plain (char b) := by
  have hrest {bs : List UInt8} {d d' : Json.Digits}
      (h : bs.foldlM (fun d b => Json.stepDigits d (char b)) d = some d') :
      ∀ b ∈ bs, Plain (char b) := by
    induction bs generalizing d with
    | nil => exact List.forall_mem_nil _
    | cons b bs ih =>
      obtain ⟨next, hnext, hfold⟩ := Option.bind_eq_some_iff.mp h
      exact List.forall_mem_cons.mpr ⟨plain_of_stepDigits hnext, ih hfold⟩
  cases raw with
  | nil => exact List.forall_mem_nil _
  | cons b bs =>
    unfold isNumber at h
    dsimp only at h
    obtain ⟨d, hd⟩ : ∃ d, ((if char b = '-' then some Json.Digits.minus
        else Json.stepDigits .minus (char b)).bind fun first =>
          bs.foldlM (fun d b => Json.stepDigits d (char b)) first) = some d := by
      refine Option.ne_none_iff_exists'.mp fun hnone => ?_
      rw [hnone] at h
      cases h
    obtain ⟨first, hfirst, hfold⟩ := Option.bind_eq_some_iff.mp hd
    refine List.forall_mem_cons.mpr ⟨?_, hrest hfold⟩
    split_ifs at hfirst with hminus
    · rw [hminus]
      decide
    · exact plain_of_stepDigits hfirst

/-- Scalars are written with visible characters of ASCII, and without slashes. -/
theorem plain_of_isScalar {raw : List UInt8} (h : isScalar raw = true) :
    ∀ b ∈ raw, 0x20 < b.toNat ∧ b.toNat < 0x80 ∧ b ≠ 0x2f := by
  intro b hb
  have hplain : Plain (char b) := by
    rcases Bool.or_eq_true_iff.mp h with hword | hnumber
    · have hwords : ([Json.Word.null, .true, .false].map Json.Word.chars).all (fun cs =>
          cs.all fun c => Plain c) = true := by decide
      have hletters := List.all_eq_true.mp hwords _ (of_decide_eq_true hword)
      exact of_decide_eq_true (List.all_eq_true.mp hletters _ (List.mem_map_of_mem hb))
    · exact plain_of_isNumber hnumber b hb
  unfold Plain at hplain
  rw [toNat_char] at hplain
  refine ⟨hplain.1, hplain.2.1, ?_⟩
  rintro rfl
  exact hplain.2.2 rfl

/-- Strings are written without control characters. -/
theorem printable_of_isString {raw : List UInt8} (h : isString raw = true) :
    ∀ b ∈ raw, 0x20 ≤ b.toNat := by
  have hhex {b : UInt8} (h : isHex b = true) : 0x20 ≤ b.toNat := by
    unfold isHex Json.hexValue at h
    rw [← toNat_char]
    split_ifs at h with hdigit hlower hupper
    · exact Nat.le_of_lt (plain_of_isDigit hdigit).1
    · have hlow : 'a'.toNat ≤ (char b).toNat := hlower.1
      exact Nat.le_trans (by decide) hlow
    · have hlow : 'A'.toNat ≤ (char b).toNat := hupper.1
      exact Nat.le_trans (by decide) hlow
    · cases h
  have hbackslash : 0x20 ≤ backslash.toNat := by decide
  fun_induction isString raw with
  | case1 => exact List.forall_mem_nil _
  | case2 b1 b2 b3 b4 rest ih =>
    simp only [Bool.and_eq_true] at h
    obtain ⟨⟨⟨⟨h1, h2⟩, h3⟩, h4⟩, hrest⟩ := h
    simp only [List.forall_mem_cons]
    exact ⟨hbackslash, by decide, hhex h1, hhex h2, hhex h3, hhex h4, ih hrest⟩
  | case3 e rest _ ih =>
    rw [Bool.and_eq_true, decide_eq_true_eq] at h
    have hescapes : ['"', '\\', '/', 'b', 'f', 'n', 'r', 't'].all (0x20 ≤ ·.toNat) = true := by
      decide
    have hletter := of_decide_eq_true (List.all_eq_true.mp hescapes _ h.1)
    rw [toNat_char] at hletter
    simp only [List.forall_mem_cons]
    exact ⟨hbackslash, hletter, ih h.2⟩
  | case4 => cases h
  | case5 b bs _ ih =>
    rw [Bool.and_eq_true, decide_eq_true_eq] at h
    exact List.forall_mem_cons.mpr ⟨h.1, ih h.2⟩

end Plain

end JsonText
