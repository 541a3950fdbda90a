import Mathlib.Data.List.Basic

/-!
# Decoding of UTF-8

Bytes decode to text by replacing every longest part that starts a character but
does not complete one. Encoded text decodes to itself, and only the empty
sequence decodes to the empty text.
-/

namespace Utf8

/-- The bytes of a text. -/
def encode (text : List Char) : List UInt8 := text.flatMap String.utf8EncodeChar

theorem encode_append (front back : List Char) :
    encode (front ++ back) = encode front ++ encode back :=
  List.flatMap_append

/-- What stands for bytes that are not a character. -/
def replacement : Char := Char.ofNat 0xFFFD

/-- A byte that continues a character. -/
def continues (b : UInt8) : Bool := 0x80 ≤ b.toNat && b.toNat < 0xC0

/-- A byte that starts a character of several bytes, and a second byte that goes
with it: no overlong form, no surrogate, nothing above the last character. -/
def starts (a b : UInt8) : Bool :=
  let (a, b) := (a.toNat, b.toNat)
  0xC2 ≤ a && a < 0xF5 && (if a = 0xE0 then 0xA0 else if a = 0xF0 then 0x90 else 0x80) ≤ b &&
    b < (if a = 0xED then 0xA0 else if a = 0xF4 then 0x90 else 0xC0)

/-- The character with these lowest six bits. -/
def character (high : ℕ) (b : UInt8) : Char := Char.ofNat (high * 64 + b.toNat % 64)

/-- The text that bytes decode to. -/
def lossy : List UInt8 → List Char
  | [] => []
  | a :: rest =>
    if a.toNat < 0x80 then Char.ofNat a.toNat :: lossy rest
    else
      match rest with
      | [] => [replacement]
      | b :: rest' =>
        if !starts a b then replacement :: lossy (b :: rest')
        else if a.toNat < 0xE0 then character (a.toNat % 32) b :: lossy rest'
        else
          match rest' with
          | [] => [replacement]
          | c :: rest'' =>
            if !continues c then replacement :: lossy (c :: rest'')
            else if a.toNat < 0xF0 then
              character (a.toNat % 16 * 64 + b.toNat % 64) c :: lossy rest''
            else
              match rest'' with
              | [] => [replacement]
              | d :: rest''' =>
                if !continues d then replacement :: lossy (d :: rest''')
                else
                  character ((a.toNat % 8 * 64 + b.toNat % 64) * 64 + c.toNat % 64) d ::
                    lossy rest'''

example : lossy [0x68, 0xC3, 0xA9, 0xE2, 0x82, 0x21, 0xFF] =
    ['h', 'é', replacement, '!', replacement] := by decide

/-- The value of a byte of an encoded character. -/
theorem toNat_ofNat {n : ℕ} (h : n < 256) : (UInt8.ofNat n).toNat = n := by
  rw [UInt8.toNat_ofNat']
  omega

section Sequences

variable {a b c d : UInt8} (rest : List UInt8)

theorem lossy_one (ha : a.toNat < 0x80) :
    lossy (a :: rest) = Char.ofNat a.toNat :: lossy rest := by
  rw [lossy.eq_def]
  exact if_pos ha

theorem lossy_two (hstarts : starts a b = true) (ha : ¬ a.toNat < 0x80) (hlead : a.toNat < 0xE0) :
    lossy (a :: b :: rest) = character (a.toNat % 32) b :: lossy rest := by
  rw [lossy.eq_def]
  simp only [ha, hstarts, hlead, if_true, if_false, Bool.not_true, Bool.false_eq_true]

theorem lossy_three (hstarts : starts a b = true) (ha : ¬ a.toNat < 0xE0)
    (hlead : a.toNat < 0xF0) (hc : continues c = true) :
    lossy (a :: b :: c :: rest) =
      character (a.toNat % 16 * 64 + b.toNat % 64) c :: lossy rest := by
  have hmulti : ¬ a.toNat < 0x80 := by omega
  rw [lossy.eq_def]
  simp only [hmulti, ha, hstarts, hlead, hc, if_true, if_false, Bool.not_true,
    Bool.false_eq_true]

theorem lossy_four (hstarts : starts a b = true) (ha : ¬ a.toNat < 0xF0)
    (hc : continues c = true) (hd : continues d = true) :
    lossy (a :: b :: c :: d :: rest) =
      character ((a.toNat % 8 * 64 + b.toNat % 64) * 64 + c.toNat % 64) d :: lossy rest := by
  have hmulti : ¬ a.toNat < 0x80 := by omega
  have hlong : ¬ a.toNat < 0xE0 := by omega
  rw [lossy.eq_def]
  simp only [hmulti, hlong, ha, hstarts, hc, hd, if_false, Bool.not_true, Bool.false_eq_true]

end Sequences

/-- A byte with the continuation mark continues a character. -/
theorem continues_ofNat (n : ℕ) : continues (UInt8.ofNat (n % 64 + 128)) = true := by
  unfold continues
  rw [toNat_ofNat (by omega)]
  simp only [Bool.and_eq_true, decide_eq_true_eq]
  omega

/-- The tests on the first two bytes, in terms of their values. -/
theorem starts_ofNat {m n : ℕ} (hm : m < 256) (hn : n < 256) (hlead : 0xC2 ≤ m ∧ m < 0xF5)
    (hlow : (if m = 0xE0 then 0xA0 else if m = 0xF0 then 0x90 else 0x80) ≤ n)
    (hhigh : n < if m = 0xED then 0xA0 else if m = 0xF4 then 0x90 else 0xC0) :
    starts (UInt8.ofNat m) (UInt8.ofNat n) = true := by
  unfold starts
  rw [toNat_ofNat hm, toNat_ofNat hn]
  simp only [Bool.and_eq_true, decide_eq_true_eq]
  exact ⟨⟨hlead, hlow⟩, hhigh⟩

/-- An encoded character decodes to itself. -/
theorem lossy_encodeChar (c : Char) (rest : List UInt8) :
    lossy (String.utf8EncodeChar c ++ rest) = c :: lossy rest := by
  have hvalid : c.val.toNat < 0xD800 ∨ 0xDFFF < c.val.toNat ∧ c.val.toNat < 0x110000 := c.valid
  have hc : Char.ofNat c.val.toNat = c := Char.ofNat_toNat c
  unfold String.utf8EncodeChar
  dsimp only
  generalize c.val.toNat = v at hvalid hc ⊢
  have hlast : (UInt8.ofNat (v % 64 + 128)).toNat = v % 64 + 128 := toNat_ofNat (by omega)
  have hmiddle : (UInt8.ofNat (v / 64 % 64 + 128)).toNat = v / 64 % 64 + 128 :=
    toNat_ofNat (by omega)
  split_ifs with h1 h2 h3
  · have ha := toNat_ofNat (n := v) (by omega)
    rw [List.cons_append, List.nil_append, lossy_one rest (by omega), ha, hc]
  · have ha := toNat_ofNat (n := v / 64 % 32 + 192) (by omega)
    have hstarts := starts_ofNat (m := v / 64 % 32 + 192) (n := v % 64 + 128)
      (by omega) (by omega) (by omega) (by split_ifs <;> omega) (by split_ifs <;> omega)
    rw [List.cons_append, List.cons_append, List.nil_append,
      lossy_two rest hstarts (by omega) (by omega), ha, character, hlast, ← hc]
    congr 2
    omega
  · have ha := toNat_ofNat (n := v / 4096 % 16 + 224) (by omega)
    have hstarts := starts_ofNat (m := v / 4096 % 16 + 224) (n := v / 64 % 64 + 128)
      (by omega) (by omega) (by omega) (by split_ifs <;> omega) (by split_ifs <;> omega)
    simp only [List.cons_append, List.nil_append]
    rw [lossy_three rest hstarts (by omega) (by omega) (continues_ofNat v), ha, character, hlast,
      hmiddle, ← hc]
    congr 2
    omega
  · have ha := toNat_ofNat (n := v / 262144 % 8 + 240) (by omega)
    have hb := toNat_ofNat (n := v / 4096 % 64 + 128) (by omega)
    have hstarts := starts_ofNat (m := v / 262144 % 8 + 240) (n := v / 4096 % 64 + 128)
      (by omega) (by omega) (by omega) (by split_ifs <;> omega) (by split_ifs <;> omega)
    simp only [List.cons_append, List.nil_append]
    rw [lossy_four rest hstarts (by omega) (continues_ofNat (v / 64)) (continues_ofNat v), ha, hb,
      character, hlast, hmiddle, ← hc]
    congr 2
    omega

/-- Encoded text decodes to itself, whatever follows. -/
theorem lossy_encode_append (text : List Char) (rest : List UInt8) :
    lossy (encode text ++ rest) = text ++ lossy rest := by
  induction text with
  | nil => rfl
  | cons c text ih =>
    unfold encode at ih ⊢
    rw [List.flatMap_cons, List.append_assoc, lossy_encodeChar, ih, List.cons_append]

/-- Encoded text decodes to itself. -/
theorem lossy_encode (text : List Char) : lossy (encode text) = text := by
  have hall := lossy_encode_append text []
  have hnil : lossy [] = [] := rfl
  rwa [hnil, List.append_nil, List.append_nil] at hall

/-- The text that bytes encode, if they encode one. -/
def decode? (bytes : List UInt8) : Option (List Char) :=
  if encode (lossy bytes) = bytes then some (lossy bytes) else none

@[simp] theorem decode?_encode (text : List Char) : decode? (encode text) = some text := by
  unfold decode?
  rw [lossy_encode, if_pos rfl]

/-- Something decodes to something. -/
theorem lossy_eq_nil {bytes : List UInt8} : lossy bytes = [] ↔ bytes = [] := by
  constructor
  · intro h
    cases bytes with
    | nil => rfl
    | cons a rest =>
      rw [lossy.eq_def] at h
      dsimp only at h
      repeat' split at h
      all_goals cases h
  · rintro rfl
    rfl

section Splitting

/-- A byte of ASCII is in the encoding of its own character only. -/
theorem toNat_eq_of_mem_encodeChar {b : UInt8} (hb : b.toNat < 0x80) {c : Char}
    (h : b ∈ String.utf8EncodeChar c) : c.val.toNat = b.toNat := by
  unfold String.utf8EncodeChar at h
  dsimp only at h
  have hhigh (n : ℕ) (hlow : 0x80 ≤ n) (hn : n < 256) : b ≠ UInt8.ofNat n := by
    rintro rfl
    rw [toNat_ofNat hn] at hb
    omega
  split_ifs at h
  · rw [List.mem_singleton.mp h, toNat_ofNat (by omega)]
  all_goals
    simp only [List.mem_cons, List.not_mem_nil, or_false] at h
  · rcases h with h | h
    all_goals exact absurd h (hhigh _ (by omega) (by omega))
  · rcases h with h | h | h
    all_goals exact absurd h (hhigh _ (by omega) (by omega))
  · rcases h with h | h | h | h
    all_goals exact absurd h (hhigh _ (by omega) (by omega))

/-- An ASCII character is encoded as its byte. -/
theorem encodeChar_ascii {b : UInt8} (hb : b.toNat < 0x80) {c : Char}
    (h : c.val.toNat = b.toNat) : String.utf8EncodeChar c = [b] := by
  unfold String.utf8EncodeChar
  dsimp only
  rw [if_pos (by omega), h, UInt8.ofNat_toNat]

/-- Text of ASCII is encoded byte by byte. -/
theorem encode_ascii {text : List Char} (h : ∀ c ∈ text, c.toNat < 0x80) :
    encode text = text.map fun c => c.toNat.toUInt8 := by
  induction text with
  | nil => rfl
  | cons c text ih =>
    obtain ⟨hc, htext⟩ := List.forall_mem_cons.mp h
    have hbyte : c.toNat.toUInt8.toNat = c.toNat := toNat_ofNat (by omega)
    have hone := encodeChar_ascii (b := c.toNat.toUInt8) (by omega) (c := c) hbyte.symm
    have hrest := ih htext
    unfold encode at hrest ⊢
    rw [List.flatMap_cons, hone, hrest, List.map_cons, List.singleton_append]

theorem encode_eq_nil {text : List Char} : encode text = [] ↔ text = [] := by
  rw [← lossy_eq_nil, lossy_encode]

/-- What comes before the first separator goes to the first part. -/
theorem splitOn_append_of_notMem {b : UInt8} {front : List UInt8} (hfront : b ∉ front)
    (rest : List UInt8) :
    (front ++ rest).splitOn b = (rest.splitOn b).modifyHead (front ++ ·) := by
  induction front with
  | nil => exact (congrFun List.modifyHead_id _).symm
  | cons a front ih =>
    rw [List.mem_cons, not_or] at hfront
    rw [List.cons_append, List.splitOn_cons_eq_if_modifyHead,
      if_neg (mt beq_iff_eq.mp (Ne.symm hfront.1)), ih hfront.2, List.modifyHead_modifyHead]
    rfl

/-- Encoded text is split at an ASCII byte where the text is split at its character. -/
theorem splitOn_encode {b : UInt8} (hb : b.toNat < 0x80) (sep : Char)
    (hsep : sep.val.toNat = b.toNat) (text : List Char) :
    (encode text).splitOn b = (text.splitOn sep).map encode := by
  induction text with
  | nil => rfl
  | cons c text ih =>
    unfold encode at ih ⊢
    rw [List.flatMap_cons, List.splitOn_cons_eq_if_modifyHead]
    by_cases hc : c = sep
    · rw [if_pos (beq_iff_eq.mpr hc), hc, encodeChar_ascii hb hsep, List.singleton_append,
        List.splitOn_cons_eq_if_modifyHead, if_pos (beq_self_eq_true b), ih]
      rfl
    · have hnot : b ∉ String.utf8EncodeChar c := by
        intro hmem
        have hvalue := (toNat_eq_of_mem_encodeChar hb hmem).trans hsep.symm
        exact hc (Char.ext (UInt32.toNat_inj.mp hvalue))
      rw [if_neg (mt beq_iff_eq.mp hc), splitOn_append_of_notMem hnot, ih]
      cases text.splitOn sep <;> rfl

/-- Encoded text is taken apart at a byte of ASCII where the text is taken apart at its
character. -/
theorem encode_eq_append {x : UInt8} (hx : x.toNat < 0x80) {text : List Char}
    {front back : List UInt8} (h : encode text = front ++ x :: back) :
    ∃ before c after, text = before ++ c :: after ∧ encode before = front ∧
      String.utf8EncodeChar c = [x] ∧ encode after = back := by
  induction text generalizing front with
  | nil => cases front <;> cases h
  | cons c text ih =>
    have hsplit : String.utf8EncodeChar c ++ encode text = front ++ x :: back := h
    rcases List.append_eq_append_iff.mp hsplit with ⟨rest, rfl, hrest⟩ | ⟨rest, hc, hrest⟩
    · obtain ⟨before, d, after, rfl, hbefore, hd, hafter⟩ := ih hrest
      refine ⟨c :: before, d, after, rfl, ?_, hd, hafter⟩
      rw [← hbefore]
      rfl
    · cases rest with
      | nil =>
        obtain ⟨before, d, after, rfl, hbefore, hd, hafter⟩ := @ih [] hrest.symm
        rw [List.append_nil] at hc
        refine ⟨c :: before, d, after, rfl, ?_, hd, hafter⟩
        rw [← hc, encode, List.flatMap_cons]
        exact (congrArg _ hbefore).trans (List.append_nil _)
      | cons y rest =>
        obtain ⟨rfl, hback⟩ := List.cons.inj hrest
        have hmem : x ∈ String.utf8EncodeChar c := hc ▸ List.mem_append_right _ List.mem_cons_self
        have hone := encodeChar_ascii hx (toNat_eq_of_mem_encodeChar hx hmem)
        rw [hone] at hc
        cases front with
        | nil =>
          obtain ⟨-, rfl⟩ := List.cons.inj hc
          exact ⟨[], c, text, rfl, rfl, hone, hback.symm⟩
        | cons a front =>
          obtain ⟨-, hnil⟩ := List.cons.inj hc
          cases front <;> cases hnil

/-- No text begins within a character. -/
theorem continues_head {b : UInt8} {text : List Char} {back : List UInt8}
    (h : encode text = b :: back) : continues b = false := by
  have hhigh {m : ℕ} (hm : m < 256) (hlead : m < 0x80 ∨ 0xC0 ≤ m) :
      continues (UInt8.ofNat m) = false := by
    unfold continues
    rw [toNat_ofNat hm, Bool.and_eq_false_iff, decide_eq_false_iff_not, decide_eq_false_iff_not]
    omega
  cases text with
  | nil => cases h
  | cons c text =>
    have hvalid : c.val.toNat < 0xD800 ∨ 0xDFFF < c.val.toNat ∧ c.val.toNat < 0x110000 := c.valid
    have hsplit : String.utf8EncodeChar c ++ encode text = b :: back := h
    unfold String.utf8EncodeChar at hsplit
    dsimp only at hsplit
    split_ifs at hsplit
    all_goals
      rw [← (List.cons.inj hsplit).1]
      exact hhigh (by omega) (by omega)

end Splitting

end Utf8
