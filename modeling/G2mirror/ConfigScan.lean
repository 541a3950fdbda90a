import G2mirror.CommentStripping
import G2mirror.Library.JsonSplice

/-!
# Finding the array in the text

The loops that look for the key and for the closing bracket go over the bytes of
the stripped text. Here they are followed string by string and byte by byte.
-/

namespace G2mirror

open JsonText (Lexeme quote backslash written inside lexLevels lexShift)

section Slices

variable {front back : Bytes} {x : UInt8}

theorem getElem?_at (front : Bytes) (x : UInt8) (back : Bytes) :
    (front ++ x :: back)[front.length]? = some x := by simp

/-- A byte of ASCII begins a character. -/
theorem isCharBoundary_at (hx : x.toNat < 0x80) :
    isCharBoundary (front ++ x :: back) front.length = true := by
  have hcontinues : Utf8.continues x = false := by
    unfold Utf8.continues
    rw [Bool.and_eq_false_iff, decide_eq_false_iff_not]
    exact .inl (by omega)
  unfold isCharBoundary
  rw [getElem?_at]
  dsimp only
  rw [hcontinues, Bool.not_false, Bool.or_true]

/-- After a byte of ASCII a character begins. -/
theorem isCharBoundary_after {text : List Char} (htext : Utf8.encode text = front ++ x :: back)
    (hx : x.toNat < 0x80) : isCharBoundary (front ++ x :: back) (front.length + 1) = true := by
  obtain ⟨-, -, after, -, -, -, hafter⟩ := Utf8.encode_eq_append hx htext
  unfold isCharBoundary
  cases back with
  | nil =>
    rw [List.getElem?_eq_none (by simp)]
    simp
  | cons b back =>
    have hget : (front ++ x :: b :: back)[front.length + 1]? = some b := by simp
    rw [hget]
    dsimp only
    rw [Utf8.continues_head hafter, Bool.not_false, Bool.or_true]

/-- A slice between two boundaries. -/
theorem slice_eq {bytes middle : Bytes} (hbytes : bytes = front ++ (middle ++ back))
    (hstart : isCharBoundary bytes front.length = true)
    (hstop : isCharBoundary bytes (front.length + middle.length) = true) :
    slice bytes front.length (front.length + middle.length) = .ok middle := by
  unfold slice
  rw [if_pos ⟨Nat.le_add_right _ _, hstart, hstop⟩, hbytes, List.drop_left,
    Nat.add_sub_cancel_left, List.take_left]

end Slices

/-- `skip_string` stops behind the closing quote. -/
theorem stringLength_inside : (raw : Bytes) → inside .string raw = true → (rest : Bytes) →
    stringLength (raw ++ quote :: rest) = raw.length + 1
  | [], _, [] => rfl
  | [], _, _ :: _ => rfl
  | [b], h, rest => by
    rw [inside, Bool.and_eq_true, decide_eq_true_eq] at h
    have hquote : b ≠ quote := fun hb => h.1 (if_pos hb)
    have hbackslash : b ≠ backslash := by
      rintro rfl
      cases h.2
    have hrest : stringLength (quote :: rest) = 1 := stringLength_inside [] rfl rest
    change stringLength (b :: quote :: rest) = 2
    rw [stringLength, if_neg hbackslash, if_neg hquote, hrest]
  | b :: c :: raw, h, rest => by
    rw [inside, Bool.and_eq_true, decide_eq_true_eq] at h
    obtain ⟨hb, hraw⟩ := h
    have hquote : b ≠ quote := fun hb' => hb (if_pos hb')
    change stringLength (b :: c :: (raw ++ quote :: rest)) = _
    rw [stringLength]
    by_cases hbackslash : b = backslash
    · rw [if_pos hbackslash]
      rw [hbackslash, inside, Bool.and_eq_true] at hraw
      rw [stringLength_inside raw hraw.2 rest, List.length_cons, List.length_cons]
      omega
    · have hnext : JsonText.Quoting.string.next b = .string :=
        (if_neg hquote).trans (if_neg hbackslash)
      rw [hnext] at hraw
      have hrest := stringLength_inside (c :: raw) hraw rest
      rw [List.cons_append] at hrest
      rw [if_neg hbackslash, if_neg hquote, hrest, List.length_cons (a := b)]
      omega

theorem skipString_at (front : Bytes) {raw : Bytes} (hraw : inside .string raw = true)
    (rest : Bytes) :
    skipString (front ++ quote :: (raw ++ quote :: rest)) front.length =
      front.length + (raw.length + 2) := by
  have hdrop : (front ++ quote :: (raw ++ quote :: rest)).drop (front.length + 1) =
      raw ++ quote :: rest := by
    have hlength : front.length + 1 = (front ++ [quote]).length := by simp
    rw [List.append_cons, hlength, List.drop_left]
  unfold skipString
  rw [hdrop, stringLength_inside raw hraw rest]
  omega

/-- What `skip_whitespace` passes. -/
def isBlank : Lexeme → Bool
  | .string _ => false
  | .byte b => isAsciiWhitespace b

theorem takeWhile_written (us : List Lexeme) :
    (written us).takeWhile isAsciiWhitespace = written (us.takeWhile isBlank) := by
  induction us with
  | nil => rfl
  | cons u us ih =>
    cases u with
    | string raw => rfl
    | byte b =>
      change (b :: written us).takeWhile isAsciiWhitespace = _
      rw [List.takeWhile_cons, List.takeWhile_cons, ih]
      change _ = written (if isAsciiWhitespace b = true then _ else _)
      split_ifs <;> rfl

theorem skipWhitespace_at (front : Bytes) (us : List Lexeme) :
    skipWhitespace (front ++ written us) front.length =
      (front ++ written (us.takeWhile isBlank)).length := by
  unfold skipWhitespace
  rw [List.drop_left, takeWhile_written, List.length_append]

/-- The key between its quotes. -/
def authTokensKey : Bytes := utf8 "auth_tokens"

/-- The lexemes after the colon of the key at depth one. -/
def keyAt (key : Bytes) (limit : ℕ) : ℕ → List Lexeme → Option (List Lexeme)
  | _, [] => none
  | depth, .string raw :: us =>
    if depth = 1 ∧ raw = key ∧ (us.dropWhile isBlank).head? = some (.byte 0x3a) then
      some (us.dropWhile isBlank).tail
    else keyAt key limit depth us
  | depth, .byte b :: us =>
    (lexShift 0 limit depth (.byte b)).bind fun depth => keyAt key limit depth us

theorem i32_of_lt {n : ℕ} (h : n < 2 ^ 31) : i32 n = n := by
  unfold i32
  rw [Int.bmod_def]
  omega

/-- The byte a lexeme begins with. -/
theorem head?_written {us : List Lexeme} {b : UInt8} (hb : b ≠ quote) :
    (written us).head? = some b ↔ us.head? = some (.byte b) := by
  cases us with
  | nil => exact iff_of_false nofun nofun
  | cons u us =>
    cases u with
    | string raw =>
      refine iff_of_false (fun h => hb (Option.some.inj h).symm) nofun
    | byte c =>
      change some c = some b ↔ some (Lexeme.byte c) = some (.byte b)
      rw [Option.some_inj, Option.some_inj, Lexeme.byte.injEq]

theorem lexShift_opens {b : UInt8} (hb : b = 0x7b ∨ b = 0x5b) (lo hi depth : ℕ) :
    lexShift lo hi depth (.byte b) = if depth < hi then some (depth + 1) else none := by
  rcases hb with rfl | rfl <;> rfl

theorem lexShift_closes {b : UInt8} (hb : b = 0x7d ∨ b = 0x5d) (lo hi depth : ℕ) :
    lexShift lo hi depth (.byte b) = if lo < depth then some (depth - 1) else none := by
  rcases hb with rfl | rfl <;> rfl

theorem lexShift_other {b : UInt8} (hopens : ¬ (b = 0x7b ∨ b = 0x5b))
    (hcloses : ¬ (b = 0x7d ∨ b = 0x5d)) (lo hi depth : ℕ) :
    lexShift lo hi depth (.byte b) = some depth := by
  rw [not_or] at hopens hcloses
  have htoken : (Lexeme.byte b).token? =
      if b = 0x2c then some .comma else if b = 0x3a then some .colon else none := by
    change JsonText.punct? b = _
    unfold JsonText.punct?
    rw [if_neg hopens.2, if_neg hcloses.2, if_neg hopens.1, if_neg hcloses.1]
  unfold lexShift
  rw [htoken]
  split_ifs <;> rfl

theorem quotedAuthTokensKey_eq :
    quotedAuthTokensKey = (Lexeme.string authTokensKey).bytes := by decide

theorem string_bytes_inj {raw raw' : Bytes} :
    (Lexeme.string raw).bytes = (Lexeme.string raw').bytes ↔ raw = raw' := by
  unfold Lexeme.bytes
  rw [List.cons_inj_right, List.append_left_inj]

/-- A string is a slice of the text. -/
theorem slice_lexeme {text : List Char} {front : Bytes} {raw : Bytes} {us : List Lexeme}
    (htext : Utf8.encode text = front ++ written (.string raw :: us)) :
    slice (front ++ written (.string raw :: us)) front.length
      (front ++ (Lexeme.string raw).bytes).length = .ok (Lexeme.string raw).bytes := by
  have hascii : quote.toNat < 0x80 := by decide
  have hclose : front ++ written (.string raw :: us) =
      (front ++ quote :: raw) ++ quote :: written us := by simp [Lexeme.bytes]
  have hstop := isCharBoundary_after (htext.trans hclose) hascii
  have hlength : (front ++ quote :: raw).length + 1 =
      front.length + (Lexeme.string raw).bytes.length := by simp [Lexeme.bytes, Nat.add_assoc]
  rw [← hclose, hlength] at hstop
  rw [List.length_append]
  exact slice_eq rfl (isCharBoundary_at hascii) hstop

/-- A byte after whitespace. -/
theorem byte_at_iff (front : Bytes) (us : List Lexeme) {b : UInt8} (hb : b ≠ quote) :
    (front ++ written us)[skipWhitespace (front ++ written us) front.length]? = some b ↔
      (us.dropWhile isBlank).head? = some (.byte b) := by
  have hus : written us = written (us.takeWhile isBlank) ++ written (us.dropWhile isBlank) := by
    rw [← JsonText.written_append, List.takeWhile_append_dropWhile]
  rw [skipWhitespace_at, ← head?_written hb, hus, ← List.append_assoc,
    List.getElem?_append_right (Nat.le_refl _), Nat.sub_self, List.head?_eq_getElem?]

/-- The index after this colon. -/
theorem skipWhitespace_colon (front : Bytes) (u : Lexeme) {us : List Lexeme}
    (hcolon : (us.dropWhile isBlank).head? = some (.byte 0x3a)) :
    skipWhitespace (front ++ written (u :: us)) (front ++ u.bytes).length + 1 =
      (front ++ written (u :: us)).length - (written (us.dropWhile isBlank).tail).length := by
  have hsplit : front ++ written (u :: us) = (front ++ u.bytes) ++ written us := by
    rw [JsonText.written_cons, List.append_assoc]
  obtain ⟨rest, hrest⟩ := List.head?_eq_some_iff.mp hcolon
  have hus : written us = written (us.takeWhile isBlank) ++ 0x3a :: written rest := by
    have hsame := congrArg written (@List.takeWhile_append_dropWhile _ isBlank us)
    rw [JsonText.written_append, hrest] at hsame
    exact hsame.symm
  rw [hsplit, skipWhitespace_at, hrest, hus]
  simp only [List.length_append, List.length_cons, List.tail_cons]
  omega

/-- The first loop finds the key that is found lexeme by lexeme. -/
theorem afterKey_written {limit : ℕ} (hlimit : limit < 2 ^ 31) {text : List Char}
    {us : List Lexeme} (hus : ∀ u ∈ us, u.Closed) {front : Bytes}
    (htext : Utf8.encode text = front ++ written us) {depth : ℕ} (hdepth : depth ≤ limit)
    (hlevels : ∃ e, lexLevels 0 limit depth us = some e) {fuel : ℕ} (hfuel : us.length < fuel) :
    afterKey (front ++ written us) fuel front.length depth =
      .ok ((keyAt authTokensKey limit depth us).map fun rest =>
        (front ++ written us).length - (written rest).length) := by
  induction us generalizing front depth fuel with
  | nil =>
    obtain ⟨fuel, rfl⟩ := Nat.exists_eq_succ_of_ne_zero (Nat.ne_of_gt hfuel)
    simp [afterKey, keyAt]
  | cons u us ih =>
    obtain ⟨hu, hclosed⟩ := List.forall_mem_cons.mp hus
    obtain ⟨fuel, rfl⟩ := Nat.exists_eq_succ_of_ne_zero (Nat.ne_of_gt (Nat.zero_lt_of_lt hfuel))
    rw [List.length_cons, Nat.succ_eq_add_one, Nat.add_lt_add_iff_right] at hfuel
    obtain ⟨e, he⟩ := hlevels
    rw [lexLevels, List.foldlM_cons] at he
    obtain ⟨depth', hshift, hrest⟩ := Option.bind_eq_some_iff.mp he
    have hsplit : front ++ written (u :: us) = (front ++ u.bytes) ++ written us := by
      rw [JsonText.written_cons, List.append_assoc]
    rw [hsplit] at htext
    cases u with
    | string raw =>
      obtain rfl := Option.some.inj hshift
      have hnext := ih hclosed htext hdepth ⟨e, hrest⟩ hfuel
      rw [← hsplit] at hnext htext
      have hbytes : front ++ written (.string raw :: us) =
          front ++ quote :: (raw ++ quote :: written us) := by simp [Lexeme.bytes]
      have hget : (front ++ written (.string raw :: us))[front.length]? = some quote := by
        rw [hbytes]
        exact getElem?_at _ _ _
      have hskip : skipString (front ++ written (.string raw :: us)) front.length =
          (front ++ (Lexeme.string raw).bytes).length := by
        rw [hbytes, skipString_at front hu]
        simp [Lexeme.bytes]
      have hquote : quote = 0x22 := rfl
      rw [afterKey, hget]
      dsimp only
      rw [if_pos hquote, hskip, keyAt]
      by_cases hone : depth = 1
      · subst hone
        have hcast : ((1 : ℕ) : ℤ) = 1 := rfl
        rw [if_pos hcast, slice_lexeme htext]
        dsimp only
        have hkey : (Lexeme.string raw).bytes = quotedAuthTokensKey ↔ raw = authTokensKey := by
          rw [quotedAuthTokensKey_eq, string_bytes_inj]
        have hcolon := byte_at_iff (front ++ (Lexeme.string raw).bytes) us (b := 0x3a) (by decide)
        rw [List.append_assoc, ← JsonText.written_cons] at hcolon
        have hfound := and_congr hkey hcolon
        by_cases h : raw = authTokensKey ∧ (us.dropWhile isBlank).head? = some (.byte 0x3a)
        · rw [if_pos (hfound.mpr h), if_pos ⟨rfl, h⟩, Option.map_some]
          congr 2
          exact skipWhitespace_colon front (.string raw) h.2
        · rw [if_neg (mt hfound.mp h), if_neg fun h' => h h'.2]
          exact hnext
      · have hdeep : (depth : ℤ) ≠ 1 := by omega
        rw [if_neg hdeep, if_neg fun h => hone h.1]
        exact hnext
    | byte b =>
      have hquote : b ≠ 0x22 := hu
      have hget : (front ++ written (.byte b :: us))[front.length]? = some b :=
        getElem?_at front b (written us)
      have hlength : (front ++ (Lexeme.byte b).bytes).length = front.length + 1 := by
        simp [Lexeme.bytes]
      have hnext (hdepth' : depth' ≤ limit) := ih hclosed htext hdepth' ⟨e, hrest⟩ hfuel
      rw [← hsplit, hlength] at hnext
      rw [afterKey, hget]
      dsimp only
      rw [if_neg hquote, keyAt, hshift, Option.bind_some]
      by_cases hopens : b = 0x7b ∨ b = 0x5b
      · rw [lexShift_opens hopens] at hshift
        obtain ⟨hroom, hsome⟩ := Option.ite_none_right_eq_some.mp hshift
        obtain rfl := Option.some.inj hsome
        have hi32 : i32 ((depth : ℤ) + 1) = ((depth + 1 : ℕ) : ℤ) :=
          i32_of_lt (by omega : depth + 1 < 2 ^ 31)
        rw [if_pos hopens, hi32]
        exact hnext (by omega)
      · by_cases hcloses : b = 0x7d ∨ b = 0x5d
        · rw [lexShift_closes hcloses] at hshift
          obtain ⟨hpos, hsome⟩ := Option.ite_none_right_eq_some.mp hshift
          obtain rfl := Option.some.inj hsome
          have hcast : (depth : ℤ) - 1 = ((depth - 1 : ℕ) : ℤ) := by omega
          have hi32 : i32 ((depth : ℤ) - 1) = ((depth - 1 : ℕ) : ℤ) := by
            rw [hcast]
            exact i32_of_lt (by omega)
          rw [if_neg hopens, if_pos hcloses, hi32]
          exact hnext (by omega)
        · rw [lexShift_other hopens hcloses] at hshift
          obtain rfl := Option.some.inj hshift
          rw [if_neg hopens, if_neg hcloses]
          exact hnext hdepth

/-- What is found is the key at depth one, with a colon after it. -/
theorem keyAt_eq_some {key : Bytes} {limit depth : ℕ} {us rest : List Lexeme}
    (h : keyAt key limit depth us = some rest) :
    ∃ before blanks, us = before ++ .string key :: (blanks ++ .byte 0x3a :: rest) ∧
      lexLevels 0 limit depth before = some 1 ∧ ∀ u ∈ blanks, isBlank u = true := by
  induction us generalizing depth with
  | nil => cases h
  | cons u us ih =>
    -- What is found further on is found behind this lexeme.
    have hlater {depth' : ℕ} (hshift : lexShift 0 limit depth u = some depth')
        (h : keyAt key limit depth' us = some rest) :
        ∃ before blanks, u :: us = before ++ .string key :: (blanks ++ .byte 0x3a :: rest) ∧
          lexLevels 0 limit depth before = some 1 ∧ ∀ u ∈ blanks, isBlank u = true := by
      obtain ⟨before, blanks, rfl, hlevels, hblanks⟩ := ih h
      refine ⟨u :: before, blanks, rfl, ?_, hblanks⟩
      rw [lexLevels, List.foldlM_cons, hshift]
      exact hlevels
    cases u with
    | string raw =>
      rw [keyAt] at h
      split_ifs at h with hfound
      · obtain ⟨rfl, rfl, hcolon⟩ := hfound
        obtain ⟨rest', hrest⟩ := List.head?_eq_some_iff.mp hcolon
        obtain rfl : rest' = rest := by
          rw [hrest] at h
          exact Option.some.inj h
        refine ⟨[], us.takeWhile isBlank, ?_, rfl, fun u hu => List.mem_takeWhile_imp hu⟩
        rw [List.nil_append, ← hrest, List.takeWhile_append_dropWhile]
      · exact hlater rfl h
    | byte b =>
      obtain ⟨depth', hshift, hrest⟩ := Option.bind_eq_some_iff.mp h
      exact hlater hshift hrest

/-- Such a key is found, or one before it is. -/
theorem keyAt_ne_none {key : Bytes} {limit depth : ℕ} {before blanks rest : List Lexeme}
    (hlevels : lexLevels 0 limit depth before = some 1) (hblanks : ∀ u ∈ blanks, isBlank u = true) :
    keyAt key limit depth (before ++ .string key :: (blanks ++ .byte 0x3a :: rest)) ≠ none := by
  induction before generalizing depth with
  | nil =>
    obtain rfl := Option.some.inj hlevels
    have hdrop : (blanks ++ .byte 0x3a :: rest).dropWhile isBlank = .byte 0x3a :: rest := by
      rw [List.dropWhile_append_of_pos hblanks]
      rfl
    rw [List.nil_append, keyAt, hdrop, if_pos ⟨rfl, rfl, rfl⟩]
    exact Option.some_ne_none _
  | cons u before ih =>
    rw [lexLevels, List.foldlM_cons] at hlevels
    obtain ⟨depth', hshift, hrest⟩ := Option.bind_eq_some_iff.mp hlevels
    rw [List.cons_append]
    cases u with
    | string raw =>
      obtain rfl := Option.some.inj hshift
      rw [keyAt]
      split_ifs
      · exact Option.some_ne_none _
      · exact ih hrest
    | byte b =>
      rw [keyAt, hshift]
      exact ih hrest

/-- The second loop finds the bracket that closes what is open around these lexemes. -/
theorem closing_written {limit : ℕ} (hlimit : limit < 2 ^ 31) {us : List Lexeme}
    (hus : ∀ u ∈ us, u.Closed) {front back : Bytes} {close : UInt8}
    (hclose : close = 0x5d ∨ close = 0x7d) {depth : ℕ} (hlow : 2 ≤ depth) (hdepth : depth ≤ limit)
    (hlevels : lexLevels 2 limit depth us = some 2) {fuel : ℕ} (hfuel : us.length < fuel) :
    closing (front ++ (written us ++ close :: back)) fuel front.length ((depth : ℤ) - 1) =
      .ok (front ++ written us).length := by
  induction us generalizing front depth fuel with
  | nil =>
    obtain ⟨fuel, rfl⟩ := Nat.exists_eq_succ_of_ne_zero (Nat.ne_of_gt hfuel)
    obtain rfl := Option.some.inj hlevels
    have hget : (front ++ close :: back)[front.length]? = some close := getElem?_at _ _ _
    rw [JsonText.written_nil, List.nil_append, List.append_nil, closing, hget]
    rcases hclose with rfl | rfl <;> rfl
  | cons u us ih =>
    obtain ⟨hu, hclosed⟩ := List.forall_mem_cons.mp hus
    obtain ⟨fuel, rfl⟩ := Nat.exists_eq_succ_of_ne_zero (Nat.ne_of_gt (Nat.zero_lt_of_lt hfuel))
    rw [List.length_cons, Nat.succ_eq_add_one, Nat.add_lt_add_iff_right] at hfuel
    rw [lexLevels, List.foldlM_cons] at hlevels
    obtain ⟨depth', hshift, hrest⟩ := Option.bind_eq_some_iff.mp hlevels
    have hsplit : front ++ (written (u :: us) ++ close :: back) =
        (front ++ u.bytes) ++ (written us ++ close :: back) := by
      rw [JsonText.written_cons, List.append_assoc, List.append_assoc]
    have hend : front ++ written (u :: us) = (front ++ u.bytes) ++ written us := by
      rw [JsonText.written_cons, List.append_assoc]
    have hnext (hlow : 2 ≤ depth') (hdepth : depth' ≤ limit) :=
      @ih hclosed (front ++ u.bytes) depth' hlow hdepth hrest fuel hfuel
    rw [← hsplit, ← hend] at hnext
    cases u with
    | string raw =>
      obtain rfl := Option.some.inj hshift
      have hbytes : front ++ (written (.string raw :: us) ++ close :: back) =
          front ++ quote :: (raw ++ quote :: (written us ++ close :: back)) := by
        simp [Lexeme.bytes]
      have hskip : skipString (front ++ (written (.string raw :: us) ++ close :: back))
          front.length = (front ++ (Lexeme.string raw).bytes).length := by
        rw [hbytes, skipString_at front hu]
        simp [Lexeme.bytes]
      have hget : (front ++ (written (.string raw :: us) ++ close :: back))[front.length]? =
          some quote := by
        rw [hbytes]
        exact getElem?_at _ _ _
      have hquote : quote = 0x22 := rfl
      rw [closing, hget]
      dsimp only
      rw [if_pos hquote, hskip]
      exact hnext hlow hdepth
    | byte b =>
      have hquote : b ≠ 0x22 := hu
      have hget : (front ++ (written (.byte b :: us) ++ close :: back))[front.length]? = some b :=
        getElem?_at front b _
      have hlength : (front ++ (Lexeme.byte b).bytes).length = front.length + 1 := by
        simp [Lexeme.bytes]
      rw [hlength] at hnext
      rw [closing, hget]
      dsimp only
      rw [if_neg hquote]
      by_cases hopens : b = 0x7b ∨ b = 0x5b
      · rw [lexShift_opens hopens] at hshift
        obtain ⟨hroom, hsome⟩ := Option.ite_none_right_eq_some.mp hshift
        obtain rfl := Option.some.inj hsome
        have hcast : (depth : ℤ) - 1 + 1 = ((depth : ℕ) : ℤ) := by omega
        have hi32 : i32 ((depth : ℤ) - 1 + 1) = ((depth + 1 : ℕ) : ℤ) - 1 := by
          rw [hcast, i32_of_lt (by omega)]
          omega
        rw [if_pos hopens.symm, hi32]
        exact hnext (by omega) (by omega)
      · by_cases hcloses : b = 0x7d ∨ b = 0x5d
        · rw [lexShift_closes hcloses] at hshift
          obtain ⟨hpos, hsome⟩ := Option.ite_none_right_eq_some.mp hshift
          obtain rfl := Option.some.inj hsome
          have hcast : (depth : ℤ) - 1 - 1 = ((depth - 2 : ℕ) : ℤ) := by omega
          have hi32 : i32 ((depth : ℤ) - 1 - 1) = ((depth - 1 : ℕ) : ℤ) - 1 := by
            rw [hcast, i32_of_lt (by omega)]
            omega
          have hopen : ((depth - 1 : ℕ) : ℤ) - 1 ≠ 0 := by omega
          rw [if_neg fun h => hopens h.symm, if_pos hcloses.symm, hi32, if_neg hopen]
          exact hnext (by omega) (by omega)
        · rw [lexShift_other hopens hcloses] at hshift
          obtain rfl := Option.some.inj hshift
          rw [if_neg fun h => hopens h.symm, if_neg fun h => hcloses h.symm]
          exact hnext hlow hdepth

/-- Whitespace between lexemes is whitespace of the text. -/
theorem exists_whitespace {us : List Lexeme} (hus : ∀ u ∈ us, u.isSpace = true) :
    ∃ chars, written us = Utf8.encode chars ∧ ∀ c ∈ chars, isWhitespace c = true := by
  induction us with
  | nil => exact ⟨[], rfl, List.forall_mem_nil _⟩
  | cons u us ih =>
    obtain ⟨hu, hspaces⟩ := List.forall_mem_cons.mp hus
    obtain ⟨chars, hchars, hwhite⟩ := ih hspaces
    cases u with
    | string raw => cases hu
    | byte b =>
      have hspace : JsonText.isSpace b = true := hu
      unfold JsonText.isSpace at hspace
      simp only [Bool.or_eq_true, decide_eq_true_eq] at hspace
      have hcons (c : Char) (hc : String.utf8EncodeChar c = [b]) (hw : isWhitespace c = true) :
          ∃ chars, written (.byte b :: us) = Utf8.encode chars ∧
            ∀ c ∈ chars, isWhitespace c = true := by
        refine ⟨c :: chars, ?_, List.forall_mem_cons.mpr ⟨hw, hwhite⟩⟩
        rw [JsonText.written_cons, hchars, Utf8.encode, Utf8.encode, List.flatMap_cons, hc]
        rfl
      rcases hspace with ((rfl | rfl) | rfl) | rfl
      · exact hcons ' ' rfl rfl
      · exact hcons '\n' rfl rfl
      · exact hcons '\t' rfl rfl
      · exact hcons '\r' rfl rfl

theorem encode_injective {chars chars' : List Char}
    (h : Utf8.encode chars = Utf8.encode chars') : chars = chars' := by
  rw [← Utf8.lossy_encode chars, h, Utf8.lossy_encode]

/-- Nothing is visible in whitespace. -/
theorem rfindVisible_spaces {us : List Lexeme} (hus : ∀ u ∈ us, u.isSpace = true) :
    rfindVisible (written us) = none := by
  obtain ⟨chars, hchars, hwhite⟩ := exists_whitespace hus
  have hdrop : chars.rdropWhile isWhitespace = [] := List.rdropWhile_eq_nil_iff.mpr hwhite
  unfold rfindVisible
  rw [hchars, Utf8.lossy_encode, hdrop]
  rfl

/-- The last visible character before whitespace. -/
theorem rfindVisible_eq {text : List Char} {front : Bytes} {x : UInt8} {us : List Lexeme}
    (hus : ∀ u ∈ us, u.isSpace = true) (hlow : 0x20 < x.toNat) (hhigh : x.toNat < 0x80)
    (htext : Utf8.encode text = front ++ x :: written us) :
    rfindVisible (front ++ x :: written us) = some front.length := by
  obtain ⟨before, c, after, rfl, hbefore, hc, hafter⟩ := Utf8.encode_eq_append hhigh htext
  obtain ⟨chars, hchars, hwhite⟩ := exists_whitespace hus
  obtain rfl := encode_injective (hafter.trans hchars)
  have hvisible : isWhitespace c = false := by
    have hvalue : c.toNat = x.toNat :=
      Utf8.toNat_eq_of_mem_encodeChar hhigh (hc ▸ List.mem_singleton.mpr rfl)
    unfold isWhitespace
    rw [hvalue]
    simp only [Bool.or_eq_false_iff, Bool.and_eq_false_iff, decide_eq_false_iff_not]
    omega
  have hupTo : (before ++ c :: after).rdropWhile isWhitespace = before ++ [c] := by
    rw [List.append_cons]
    unfold List.rdropWhile
    rw [List.reverse_append, List.dropWhile_append_of_pos fun d hd =>
      hwhite d (List.mem_reverse.mp hd), List.reverse_append, List.reverse_singleton,
      List.singleton_append, List.dropWhile_cons_of_neg (by rw [hvisible]; decide),
      List.reverse_cons, List.reverse_reverse]
  unfold rfindVisible
  rw [← htext, Utf8.lossy_encode, hupTo]
  dsimp only
  rw [if_neg (List.append_ne_nil_of_right_ne_nil _ (List.cons_ne_nil _ _)),
    List.dropLast_concat, hbefore]

/-- A document's lexeme ends with a visible byte, unless it is whitespace. -/
theorem exists_last_byte {us : List Lexeme} {u : Lexeme} (hu : u.Plain)
    (hspace : u.isSpace = false) :
    ∃ front x, written (us ++ [u]) = front ++ [x] ∧ 0x20 < x.toNat ∧ x.toNat < 0x80 ∧
      x ≠ 0x2f := by
  cases u with
  | string raw =>
    refine ⟨written us ++ quote :: raw, quote, ?_, by decide, by decide, by decide⟩
    simp [Lexeme.bytes]
  | byte b =>
    obtain ⟨hhigh, hslash, hkind⟩ := hu
    have hvisible : ¬ JsonText.isSpace b = true := fun h => by
      cases (show JsonText.isSpace b = false from hspace).symm.trans h
    refine ⟨written us, b, ?_, hkind.resolve_left hvisible, hhigh, hslash⟩
    simp [Lexeme.bytes]

end G2mirror
