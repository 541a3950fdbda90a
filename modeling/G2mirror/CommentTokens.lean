import G2mirror.CommentStripping

/-!
# What a comment is

A text with comments is code, strings and comments, one after the other: `//` begins
a comment that ends before the next newline and `/*` one that ends with the next `*/`,
but not in a string, and a string ends with the next quote that no backslash escapes.
Stripping blanks the comments of this reading and nothing else.
-/

namespace G2mirror

open JsonText (quote backslash)

/-- A part of a text with comments. -/
inductive TextToken
  | code (b : UInt8)
  /-- With its quotes, if it ends. -/
  | string (raw : Bytes)
  | comment (text : Bytes)
  deriving DecidableEq

namespace TextToken

/-- The text of a part. -/
def bytes : TextToken → Bytes
  | .code b => [b]
  | .string raw => raw
  | .comment text => text

/-- A byte of a comment, blanked. -/
def blank (b : UInt8) : UInt8 := if b = 0x0a then b else 0x20

/-- The text of a part, blanked if it is a comment. -/
def blanked : TextToken → Bytes
  | .comment text => text.map blank
  | token => token.bytes

/-- Whether this is a comment. -/
def isComment : TextToken → Bool
  | .comment _ => true
  | _ => false

end TextToken

/-- What is up to the closing quote of a string, and what is after it. -/
def closeString : Bytes → Bytes × Bytes
  | [] => ([], [])
  | [b] => ([b], [])
  | b :: c :: bs =>
    if b = backslash then
      let (raw, rest) := closeString bs
      (b :: c :: raw, rest)
    else if b = quote then ([b], c :: bs)
    else
      let (raw, rest) := closeString (c :: bs)
      (b :: raw, rest)

/-- What is up to the first `*/`, and what is after it. -/
def closeComment : Bytes → Bytes × Bytes
  | [] => ([], [])
  | [b] => ([b], [])
  | b :: c :: bs =>
    if b = 0x2a ∧ c = 0x2f then ([b, c], bs)
    else
      let (text, rest) := closeComment (c :: bs)
      (b :: text, rest)

/-- The first part of a text that begins with this byte, and what is after it. -/
def firstToken (b : UInt8) (bs : Bytes) : TextToken × Bytes :=
  if b = 0x2f ∧ bs.head? = some 0x2f then
    (.comment (b :: bs.takeWhile (· ≠ 0x0a)), bs.dropWhile (· ≠ 0x0a))
  else if b = 0x2f ∧ bs.head? = some 0x2a then
    (.comment (b :: 0x2a :: (closeComment bs.tail).1), (closeComment bs.tail).2)
  else if b = quote then
    (.string (b :: (closeString bs).1), (closeString bs).2)
  else (.code b, bs)

theorem closeString_append (bs : Bytes) : (closeString bs).1 ++ (closeString bs).2 = bs := by
  fun_induction closeString bs with
  | case1 => rfl
  | case2 => rfl
  | case3 c bs raw rest h ih =>
    rw [h] at ih
    rw [List.cons_append, List.cons_append, ih]
  | case4 => rfl
  | case5 b c bs _ _ raw rest h ih =>
    rw [h] at ih
    rw [List.cons_append, ih]

theorem closeComment_append (bs : Bytes) : (closeComment bs).1 ++ (closeComment bs).2 = bs := by
  fun_induction closeComment bs with
  | case1 => rfl
  | case2 => rfl
  | case3 => rfl
  | case4 b c bs _ text rest h ih =>
    rw [h] at ih
    rw [List.cons_append, ih]

/-- The first part and what is after it are the text. -/
theorem firstToken_append (b : UInt8) (bs : Bytes) :
    (firstToken b bs).1.bytes ++ (firstToken b bs).2 = b :: bs := by
  unfold firstToken
  split_ifs with h h' h''
  · rw [TextToken.bytes, List.cons_append, List.takeWhile_append_dropWhile]
  · obtain ⟨bs, rfl⟩ := List.head?_eq_some_iff.mp h'.2
    rw [TextToken.bytes, List.cons_append, List.cons_append, List.tail_cons, closeComment_append]
  · rw [TextToken.bytes, List.cons_append, closeString_append]
  · rfl

theorem length_firstToken (b : UInt8) (bs : Bytes) :
    (firstToken b bs).2.length < (b :: bs).length := by
  have hlength := congrArg List.length (firstToken_append b bs)
  have hpos : 0 < (firstToken b bs).1.bytes.length := by
    unfold firstToken
    split_ifs <;> exact Nat.succ_pos _
  rw [List.length_append] at hlength
  omega

/-- The parts of a text. -/
def textTokens : Bytes → List TextToken
  | [] => []
  | b :: bs => (firstToken b bs).1 :: textTokens (firstToken b bs).2
termination_by bs => bs.length
decreasing_by exact length_firstToken b bs

theorem tokens_bytes (bs : Bytes) : (textTokens bs).flatMap TextToken.bytes = bs := by
  fun_induction textTokens bs with
  | case1 => rfl
  | case2 b bs ih => rw [List.flatMap_cons, ih, firstToken_append]

example : textTokens (Utf8.encode "\"\\\"//\"/*/*/a/".toList) =
    [.string (Utf8.encode "\"\\\"//\"".toList), .comment (Utf8.encode "/*/*/".toList),
      .code 0x61, .code 0x2f] := by decide +kernel

section Stripping

/-- A byte of code that begins no comment. -/
theorem stripStep_plain {b : UInt8} {next : Option UInt8} (hline : ¬ (b = 0x2f ∧ next = some 0x2f))
    (hblock : ¬ (b = 0x2f ∧ next = some 0x2a)) :
    stripStep .code b next = (if b = quote then .string else .code, b) := by
  simp only [stripStep]
  rw [if_neg hline, if_neg hblock]

theorem strip_line (bs : Bytes) :
    strip .line bs =
      (bs.takeWhile (· ≠ 0x0a)).map TextToken.blank ++ strip .code (bs.dropWhile (· ≠ 0x0a)) := by
  induction bs with
  | nil => rfl
  | cons b bs ih =>
    by_cases hb : b = 0x0a
    · subst hb
      rfl
    · have hstep : stripStep .line b bs.head? = (.line, 0x20) := if_neg hb
      have hkeep : decide (b ≠ 0x0a) = true := decide_eq_true hb
      have hblank : TextToken.blank b = 0x20 := if_neg hb
      rw [strip, hstep, ih, List.takeWhile_cons, List.dropWhile_cons, if_pos hkeep, if_pos hkeep,
        List.map_cons, hblank]
      rfl

/-- A byte of a comment that does not end there. -/
theorem stripStep_block {b : UInt8} {next : Option UInt8}
    (hopen : ¬ (b = 0x2a ∧ next = some 0x2f)) :
    stripStep .block b next = (.block, TextToken.blank b) := if_neg hopen

theorem strip_block (bs : Bytes) :
    strip .block bs =
      (closeComment bs).1.map TextToken.blank ++ strip .code (closeComment bs).2 := by
  fun_induction closeComment bs with
  | case1 => rfl
  | case2 b =>
    have hstep : stripStep .block b none = (.block, TextToken.blank b) := stripStep_block (by simp)
    exact congrArg (· :: []) (congrArg Prod.snd hstep)
  | case3 b c bs h =>
    obtain ⟨rfl, rfl⟩ := h
    rfl
  | case4 b c bs hopen text rest h ih =>
    have hstep : stripStep .block b (some c) = (.block, TextToken.blank b) :=
      stripStep_block fun h => hopen ⟨h.1, Option.some.inj h.2⟩
    rw [h] at ih
    rw [strip, List.head?_cons, hstep, ih]
    rfl

theorem strip_close (bs : Bytes) :
    strip .string bs = (closeString bs).1 ++ strip .code (closeString bs).2 := by
  fun_induction closeString bs with
  | case1 => rfl
  | case2 b => rfl
  | case3 c bs raw rest h ih =>
    rw [h] at ih
    change backslash :: c :: strip .string bs = _
    rw [ih]
    rfl
  | case4 c bs hne =>
    have hstep : stripStep .string quote (some c) = (.code, quote) := rfl
    rw [strip, List.head?_cons, hstep]
    rfl
  | case5 b c bs hne hne' raw rest h ih =>
    have hmode : (if b = backslash then StripMode.escape
        else if b = quote then .code else .string) = .string := by
      rw [if_neg hne, if_neg hne']
    have hstep : stripStep .string b (some c) = (.string, b) := congrArg (·, b) hmode
    rw [h] at ih
    rw [strip, List.head?_cons, hstep, ih]
    rfl

/-- Blanks are code. -/
theorem stripStep_blank (b : UInt8) (next : Option UInt8) :
    stripStep .code (TextToken.blank b) next = (.code, TextToken.blank b) := by
  unfold TextToken.blank
  split_ifs with hb
  · subst hb
    rfl
  · rfl

/-- The first part of a text is blanked if it is a comment, and stripping goes on in code. -/
theorem strip_firstToken (b : UInt8) (bs : Bytes) :
    strip .code (b :: bs) = (firstToken b bs).1.blanked ++ strip .code (firstToken b bs).2 := by
  unfold firstToken
  split_ifs with h h' h''
  · obtain rfl := h.1
    have hstep : stripStep .code 0x2f bs.head? = (.line, 0x20) := if_pos h
    rw [strip, hstep, strip_line]
    rfl
  · obtain rfl := h'.1
    obtain ⟨bs, rfl⟩ := List.head?_eq_some_iff.mp h'.2
    change 0x20 :: 0x20 :: strip .block bs = _
    rw [strip_block]
    rfl
  · have hmode : stripStep .code b bs.head? = (.string, b) := by
      rw [stripStep_plain h h', if_pos h'']
    rw [strip, hmode, strip_close]
    rfl
  · have hmode : stripStep .code b bs.head? = (.code, b) := by
      rw [stripStep_plain h h', if_neg h'']
    rw [strip, hmode]
    rfl

theorem strip_tokens (bs : Bytes) : strip .code bs = (textTokens bs).flatMap TextToken.blanked := by
  fun_induction textTokens bs with
  | case1 => rfl
  | case2 b bs ih => rw [strip_firstToken, ih, List.flatMap_cons]

end Stripping

/-- Where the loop is in the stripped text: it has no comments. -/
def StripMode.stripped : StripMode → StripMode
  | .string => .string
  | .escape => .escape
  | _ => .code

/-- Stripping looks at a stripped text as it looked at the text, but for the comments. -/
theorem stripStep_stripped (mode : StripMode) (b : UInt8) (next next' : Option UInt8)
    (hnext : next' = next ∨ next' = some 0x20) :
    stripStep mode.stripped (stripStep mode b next).2 next' =
      ((stripStep mode b next).1.stripped, (stripStep mode b next).2) := by
  cases mode with
  | string =>
    refine congrArg (·, b) ?_
    change (if b = backslash then StripMode.escape else if b = quote then .code else .string) =
      StripMode.stripped (if b = backslash then .escape else if b = quote then .code else .string)
    split_ifs <;> rfl
  | escape => rfl
  | code =>
    have hkeeps (c : UInt8) (hc : c ≠ 0x20) (hne : ¬ (b = 0x2f ∧ next = some c)) :
        ¬ (b = 0x2f ∧ next' = some c) := by
      rintro ⟨hb, rfl⟩
      rcases hnext with rfl | hspace
      · exact hne ⟨hb, rfl⟩
      · exact hc (Option.some.inj hspace)
    by_cases hline : b = 0x2f ∧ next = some 0x2f
    · have hstep : stripStep .code b next = (.line, 0x20) := if_pos hline
      rw [hstep]
      rfl
    · by_cases hblock : b = 0x2f ∧ next = some 0x2a
      · have hstep : stripStep .code b next = (.blockStart, 0x20) := by
          simp only [stripStep]
          rw [if_neg hline, if_pos hblock]
        rw [hstep]
        rfl
      · have hplain := stripStep_plain (hkeeps _ (by decide) hline) (hkeeps _ (by decide) hblock)
        rw [stripStep_plain hline hblock]
        refine hplain.trans (congrArg (·, b) ?_)
        split_ifs <;> rfl
  | line =>
    by_cases hb : b = 0x0a
    · subst hb
      rfl
    · have hstep : stripStep .line b next = (.line, 0x20) := if_neg hb
      rw [hstep]
      rfl
  | blockStart | blockEnd => rfl
  | block =>
    by_cases hends : b = 0x2a ∧ next = some 0x2f
    · have hstep : stripStep .block b next = (.blockEnd, 0x20) := if_pos hends
      rw [hstep]
      rfl
    · rw [stripStep_block hends]
      exact stripStep_blank b next'

/-- What the stripped text begins with. -/
theorem head_strip (mode : StripMode) (bs : Bytes) :
    (strip mode bs).head? = bs.head? ∨ (strip mode bs).head? = some 0x20 := by
  cases bs with
  | nil => exact .inl rfl
  | cons b bs =>
    rcases stripStep_out mode b bs.head? with h | h
    · exact .inl (congrArg some h)
    · exact .inr (congrArg some h)

theorem strip_stripped (mode : StripMode) (bs : Bytes) :
    strip mode.stripped (strip mode bs) = strip mode bs := by
  induction bs generalizing mode with
  | nil => rfl
  | cons b bs ih =>
    rw [strip, strip, stripStep_stripped mode b bs.head? _ (head_strip _ bs), ih]

/-- `strip_comments` succeeds on every text, keeps its length, blanks the bytes of its
comments but for newlines and keeps all others. Stripping once more changes nothing, and
neither does stripping a text without comments. -/
theorem strip_comments_exact (text : List Char) :
    ∃ out, stripComments (Utf8.encode text) = .ok out ∧
      (∃ stripped, out = Utf8.encode stripped) ∧ out.length = (Utf8.encode text).length ∧
      (textTokens (Utf8.encode text)).flatMap TextToken.bytes = Utf8.encode text ∧
      (textTokens (Utf8.encode text)).flatMap TextToken.blanked = out ∧
      stripComments out = .ok out ∧
      ((∀ token ∈ textTokens (Utf8.encode text), token.isComment = false) →
        out = Utf8.encode text) := by
  let input := Utf8.encode text
  obtain ⟨stripped, hstripped⟩ := exists_stripped text
  have hout : strip .code (Utf8.encode stripped) = Utf8.encode stripped := by
    rw [← hstripped]
    exact strip_stripped .code input
  refine ⟨strip .code input, stripComments_encode text, ⟨stripped, hstripped⟩,
    length_strip .code input, tokens_bytes input, (strip_tokens input).symm, ?_, fun hnone => ?_⟩
  · rw [hstripped, stripComments_encode, hout]
  · have hsame : ∀ token ∈ textTokens input, token.blanked = token.bytes := by
      intro token htoken
      have hcode := hnone token htoken
      cases token with
      | code | string => rfl
      | comment => cases hcode
    calc
      strip .code input = (textTokens input).flatMap TextToken.blanked := strip_tokens input
      _ = (textTokens input).flatMap TextToken.bytes := List.flatMap_congr hsame
      _ = input := tokens_bytes input

end G2mirror
