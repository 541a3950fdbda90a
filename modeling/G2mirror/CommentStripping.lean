import G2mirror.ConfigText

/-!
# Stripped comments

Stripping keeps the length of a text, and what is text of a document in the stripped
text is the same in the original. A text without comments that is put between two
bytes of code does not change how the rest is stripped.
-/

namespace G2mirror

open JsonText (Lexeme Quoting quote backslash written inside)

/-- What is a string in the text is one in the stripped text. -/
def StripMode.quoting : StripMode → Quoting
  | .string => .string
  | .escape => .escape
  | _ => .code

theorem stripStep_quoting (mode : StripMode) (b : UInt8) (next : Option UInt8) :
    (stripStep mode b next).1.quoting = mode.quoting.next (stripStep mode b next).2 := by
  have hspace : Quoting.code.next 0x20 = .code := rfl
  have hnewline : Quoting.code.next 0x0a = .code := rfl
  cases mode with
  | string =>
    change StripMode.quoting (if b = backslash then _ else if b = quote then _ else _) =
      if b = quote then _ else if b = backslash then _ else _
    have hne : backslash ≠ quote := by decide
    split_ifs with h h' h'
    · exact absurd (h.symm.trans h') hne
    · rfl
    · rfl
    · rfl
  | escape => rfl
  | code =>
    simp only [stripStep]
    split_ifs with h h' h''
    · exact hspace.symm
    · exact hspace.symm
    · rw [h'']
      rfl
    · exact (if_neg h'').symm
  | line =>
    simp only [stripStep]
    split_ifs with h
    · rw [h]
      exact hnewline.symm
    · exact hspace.symm
  | blockStart => exact hspace.symm
  | block =>
    simp only [stripStep]
    split_ifs with h h'
    · exact hspace.symm
    · rw [h']
      exact hnewline.symm
    · exact hspace.symm
  | blockEnd => exact hspace.symm

theorem length_strip (mode : StripMode) (bs : Bytes) : (strip mode bs).length = bs.length := by
  induction bs generalizing mode with
  | nil => rfl
  | cons b bs ih => rw [strip, List.length_cons, List.length_cons, ih]

/-- Stripping goes on at a byte in a mode that does not depend on what comes after it. -/
theorem strip_append (mode : StripMode) (front : Bytes) (x : UInt8) :
    ∃ stripped mode', stripped.length = front.length ∧
      mode'.quoting = stripped.foldl Quoting.next mode.quoting ∧
      ∀ back, strip mode (front ++ x :: back) = stripped ++ strip mode' (x :: back) := by
  induction front generalizing mode with
  | nil => exact ⟨[], mode, rfl, rfl, fun _ => rfl⟩
  | cons a front ih =>
    set next := (front ++ [x]).head? with hnext
    obtain ⟨stripped, mode', hlength, hquoting, hback⟩ := ih (stripStep mode a next).1
    refine ⟨(stripStep mode a next).2 :: stripped, mode', by simp [hlength], ?_, fun back => ?_⟩
    · rw [hquoting, stripStep_quoting, List.foldl_cons]
    · have hhead : (front ++ x :: back).head? = next := by
        rw [hnext]
        cases front <;> rfl
      rw [List.cons_append, strip, hhead, hback, List.cons_append]

/-- No comment begins without a slash. -/
theorem stripStep_code {b : UInt8} (hb : b ≠ 0x2f) (next : Option UInt8) :
    stripStep .code b next = (if b = quote then .string else .code, b) := by
  simp only [stripStep]
  rw [if_neg fun h => hb h.1, if_neg fun h => hb h.1]

/-- A byte of code that is visible in the stripped text stands in the text, and no comment
begins with it. -/
theorem stripStep_visible {mode : StripMode} {x out : UInt8} {next : Option UInt8}
    (hout : (stripStep mode x next).2 = out) (hspace : out ≠ 0x20) (hnewline : out ≠ 0x0a)
    (hslash : out ≠ 0x2f) (hcode : (stripStep mode x next).1.quoting = .code) :
    out = x ∧ ∀ next', stripStep mode x next' = (.code, x) := by
  subst hout
  cases mode with
  | string =>
    have hmode : (stripStep .string x next).1 =
        if x = backslash then .escape else if x = quote then .code else .string := rfl
    rw [hmode] at hcode
    split_ifs at hcode with h h'
    · cases hcode
    · refine ⟨rfl, fun next' => ?_⟩
      simp only [stripStep]
      rw [if_neg h, if_pos h']
    · cases hcode
  | escape => cases hcode
  | code =>
    have hx : x ≠ 0x2f := by
      rintro rfl
      simp only [stripStep] at hspace hslash
      split_ifs at hspace hslash
      · exact hspace rfl
      · exact hspace rfl
      all_goals exact hslash rfl
    rw [stripStep_code hx] at hcode ⊢
    split_ifs at hcode ⊢ with hquote
    · cases hcode
    · refine ⟨rfl, fun next' => ?_⟩
      rw [stripStep_code hx, if_neg hquote]
  | line =>
    simp only [stripStep] at hspace hnewline
    split_ifs at hspace hnewline with h
    · exact absurd h hnewline
    · exact absurd rfl hspace
  | blockStart => exact absurd rfl hspace
  | block =>
    simp only [stripStep] at hspace hnewline
    split_ifs at hspace hnewline with h h'
    · exact absurd rfl hspace
    · exact absurd h' hnewline
    · exact absurd rfl hspace
  | blockEnd => exact absurd rfl hspace

/-- The rest of a string is not stripped. -/
theorem strip_string {mode : StripMode} (hmode : mode.quoting ≠ .code) {raw : Bytes}
    (hraw : inside mode.quoting raw = true) (rest : Bytes) :
    strip mode (raw ++ quote :: rest) = raw ++ quote :: strip .code rest := by
  induction raw generalizing mode with
  | nil =>
    obtain rfl : mode = .string := by
      cases mode with
      | string => rfl
      | escape => cases hraw
      | code | line | blockStart | block | blockEnd => exact absurd rfl hmode
    rfl
  | cons b raw ih =>
    rw [inside, Bool.and_eq_true, decide_eq_true_eq] at hraw
    obtain ⟨hb, hraw⟩ := hraw
    have hkept : (stripStep mode b (raw ++ quote :: rest).head?).2 = b := by
      cases mode with
      | string | escape => rfl
      | code | line | blockStart | block | blockEnd => exact absurd rfl hmode
    have hquoting := stripStep_quoting mode b (raw ++ quote :: rest).head?
    rw [hkept] at hquoting
    rw [List.cons_append, strip, hkept, ih (by rwa [hquoting]) (by rwa [hquoting]),
      List.cons_append]

/-- Text without comments is not stripped. -/
theorem strip_written {us : List Lexeme} (hclosed : ∀ u ∈ us, u.Closed)
    (hslash : ∀ u ∈ us, u ≠ .byte 0x2f) (rest : Bytes) :
    strip .code (written us ++ rest) = written us ++ strip .code rest := by
  induction us with
  | nil => rfl
  | cons u us ih =>
    obtain ⟨hu, hclosed⟩ := List.forall_mem_cons.mp hclosed
    obtain ⟨hne, hslash⟩ := List.forall_mem_cons.mp hslash
    have hrest := ih hclosed hslash
    cases u with
    | string raw =>
      have hmode (next : Option UInt8) : stripStep .code quote next = (.string, quote) :=
        stripStep_code (by decide) next
      have hsplit : written (.string raw :: us) ++ rest =
          quote :: (raw ++ quote :: (written us ++ rest)) := by
        simp [Lexeme.bytes]
      have hsplit' : written (.string raw :: us) ++ strip .code rest =
          quote :: (raw ++ quote :: (written us ++ strip .code rest)) := by
        simp [Lexeme.bytes]
      rw [hsplit, hsplit', strip, hmode, ← hrest]
      exact congrArg _ (@strip_string .string (by decide) raw hu _)
    | byte b =>
      have hb : b ≠ 0x2f := fun h => hne (by rw [h])
      have hquote : b ≠ quote := hu
      have hmode (next : Option UInt8) : stripStep .code b next = (.code, b) := by
        rw [stripStep_code hb, if_neg hquote]
      change strip .code (b :: (written us ++ rest)) = b :: (written us ++ _)
      rw [strip, hmode, hrest]

/-- Behind a visible byte of code the text can be taken apart, and text without comments can be
put there. -/
theorem strip_insert {text front back : Bytes} {x : UInt8} {us : List Lexeme}
    (hstrip : strip .code text = front ++ x :: back) (hus : ∀ u ∈ us, u.Closed)
    (hwritten : written us = front ++ [x]) (hspace : x ≠ 0x20) (hnewline : x ≠ 0x0a)
    (hslash : x ≠ 0x2f) :
    ∃ front' back', text = front' ++ x :: back' ∧ front'.length = front.length ∧
      back = strip .code back' ∧ ∀ vs : List Lexeme, (∀ v ∈ vs, v.Closed) →
        (∀ v ∈ vs, v ≠ .byte 0x2f) →
          strip .code (front' ++ x :: (written vs ++ back')) =
            front ++ x :: (written vs ++ back) := by
  have hlength := length_strip .code text
  rw [hstrip, List.length_append, List.length_cons] at hlength
  obtain ⟨y, back', hdrop⟩ : ∃ y back', text.drop front.length = y :: back' := by
    cases hdrop : text.drop front.length with
    | nil =>
      have hnil := List.drop_eq_nil_iff.mp hdrop
      omega
    | cons y back' => exact ⟨y, back', rfl⟩
  have htext : text = text.take front.length ++ y :: back' := by
    rw [← hdrop, List.take_append_drop]
  obtain ⟨stripped, mode, hsame, hquoting, hback⟩ := strip_append .code (text.take front.length) y
  rw [htext, hback, strip] at hstrip
  rw [List.length_take_of_le (by omega)] at hsame
  obtain ⟨rfl, hrest⟩ := List.append_inj hstrip hsame
  obtain ⟨hout, hafter⟩ := List.cons.inj hrest
  have hcode : (stripStep mode y back'.head?).1.quoting = .code := by
    have hfold := JsonText.foldl_next_written hus
    rw [hwritten, List.foldl_append] at hfold
    rw [stripStep_quoting, hout, hquoting]
    exact hfold
  obtain ⟨rfl, hstep⟩ := stripStep_visible hout hspace hnewline hslash hcode
  rw [hstep] at hafter
  refine ⟨_, back', htext, List.length_take_of_le (by omega), hafter.symm, fun vs hvs hne => ?_⟩
  rw [hback, strip, hstep, strip_written hvs hne, hafter]

section Utf8

/-- What becomes of the mode at a byte of a longer character. -/
def StripMode.afterHigh : StripMode → StripMode
  | .escape => .string
  | .blockStart => .block
  | mode => mode

/-- The byte that is written for such a byte. -/
def StripMode.forHigh (mode : StripMode) (b : UInt8) : UInt8 :=
  match mode with
  | .code | .string | .escape => b
  | _ => 0x20

theorem stripStep_high {mode : StripMode} (hmode : mode ≠ .blockEnd) {b : UInt8}
    (hb : 0x80 ≤ b.toNat) (next : Option UInt8) :
    stripStep mode b next = (mode.afterHigh, mode.forHigh b) := by
  have hne {c : UInt8} (hc : c.toNat < 0x80) : b ≠ c := by
    rintro rfl
    omega
  have hquote : b ≠ quote := hne (by decide)
  cases mode with
  | string =>
    simp only [stripStep]
    rw [if_neg (hne (by decide)), if_neg hquote]
    rfl
  | escape => rfl
  | code =>
    rw [stripStep_code (hne (by decide)), if_neg hquote]
    rfl
  | line =>
    simp only [stripStep]
    rw [if_neg (hne (by decide))]
    rfl
  | blockStart => rfl
  | block =>
    simp only [stripStep]
    rw [if_neg fun h => hne (by decide) h.1, if_neg (hne (by decide))]
    rfl
  | blockEnd => exact absurd rfl hmode

/-- A longer character is kept, or becomes spaces. -/
theorem strip_high {mode : StripMode} (hmode : mode ≠ .blockEnd) {high : Bytes}
    (hhigh : ∀ b ∈ high, 0x80 ≤ b.toNat) (rest : Bytes) :
    ∃ mode', mode' ≠ .blockEnd ∧
      (strip mode (high ++ rest) = high ++ strip mode' rest ∨
        strip mode (high ++ rest) = List.replicate high.length 0x20 ++ strip mode' rest) := by
  have hkeeps {mode : StripMode} {high : Bytes} (h : mode = .code ∨ mode = .string)
      (hhigh : ∀ b ∈ high, 0x80 ≤ b.toNat) :
      strip mode (high ++ rest) = high ++ strip mode rest := by
    induction high with
    | nil => rfl
    | cons b high ih =>
      obtain ⟨hb, hhigh⟩ := List.forall_mem_cons.mp hhigh
      have hmode : mode ≠ .blockEnd := by rcases h with rfl | rfl <;> nofun
      rw [List.cons_append, strip, stripStep_high hmode hb]
      rcases h with rfl | rfl <;> exact congrArg _ (ih hhigh)
  have hblanks {mode : StripMode} {high : Bytes} (h : mode = .line ∨ mode = .block)
      (hhigh : ∀ b ∈ high, 0x80 ≤ b.toNat) :
      strip mode (high ++ rest) = List.replicate high.length 0x20 ++ strip mode rest := by
    induction high with
    | nil => rfl
    | cons b high ih =>
      obtain ⟨hb, hhigh⟩ := List.forall_mem_cons.mp hhigh
      have hmode : mode ≠ .blockEnd := by rcases h with rfl | rfl <;> nofun
      rw [List.cons_append, strip, stripStep_high hmode hb]
      rcases h with rfl | rfl <;> exact congrArg _ (ih hhigh)
  cases mode with
  | code => exact ⟨.code, nofun, .inl (hkeeps (.inl rfl) hhigh)⟩
  | string => exact ⟨.string, nofun, .inl (hkeeps (.inr rfl) hhigh)⟩
  | line => exact ⟨.line, nofun, .inr (hblanks (.inl rfl) hhigh)⟩
  | block => exact ⟨.block, nofun, .inr (hblanks (.inr rfl) hhigh)⟩
  | escape =>
    cases high with
    | nil => exact ⟨.escape, nofun, .inl rfl⟩
    | cons b high =>
      obtain ⟨hb, hhigh⟩ := List.forall_mem_cons.mp hhigh
      refine ⟨.string, nofun, .inl ?_⟩
      rw [List.cons_append, strip, stripStep_high hmode hb]
      exact congrArg _ (hkeeps (.inr rfl) hhigh)
  | blockStart =>
    cases high with
    | nil => exact ⟨.blockStart, nofun, .inl rfl⟩
    | cons b high =>
      obtain ⟨hb, hhigh⟩ := List.forall_mem_cons.mp hhigh
      refine ⟨.block, nofun, .inr ?_⟩
      rw [List.cons_append, strip, stripStep_high hmode hb]
      exact congrArg _ (hblanks (.inr rfl) hhigh)
  | blockEnd => exact absurd rfl hmode

/-- A byte is kept or blanked. -/
theorem stripStep_out (mode : StripMode) (b : UInt8) (next : Option UInt8) :
    (stripStep mode b next).2 = b ∨ (stripStep mode b next).2 = 0x20 := by
  cases mode with
  | string | escape => exact .inl rfl
  | code =>
    simp only [stripStep]
    split_ifs
    · exact .inr rfl
    · exact .inr rfl
    all_goals exact .inl rfl
  | line =>
    simp only [stripStep]
    split_ifs
    · exact .inl rfl
    · exact .inr rfl
  | blockStart | blockEnd => exact .inr rfl
  | block =>
    simp only [stripStep]
    split_ifs
    · exact .inr rfl
    · exact .inl rfl
    · exact .inr rfl

/-- A comment ends with a slash. -/
theorem next_of_blockEnd {mode : StripMode} {b : UInt8} {next : Option UInt8}
    (h : (stripStep mode b next).1 = .blockEnd) : next = some 0x2f := by
  cases mode with
  | string =>
    simp only [stripStep] at h
    split_ifs at h
  | escape | blockStart | blockEnd => cases h
  | code =>
    simp only [stripStep] at h
    split_ifs at h
  | line =>
    simp only [stripStep] at h
    split_ifs at h
  | block =>
    simp only [stripStep] at h
    split_ifs at h with hends
    exact hends.2

/-- Stripped text is text. -/
theorem strip_encode (text : List Char) {mode : StripMode}
    (hmode : mode = .blockEnd → (Utf8.encode text).head? = some 0x2f) :
    ∃ stripped, strip mode (Utf8.encode text) = Utf8.encode stripped := by
  induction text generalizing mode with
  | nil => exact ⟨[], rfl⟩
  | cons c text ih =>
    have hsplit : Utf8.encode (c :: text) = String.utf8EncodeChar c ++ Utf8.encode text := rfl
    rw [hsplit] at hmode ⊢
    by_cases hascii : ∃ b ∈ String.utf8EncodeChar c, b.toNat < 0x80
    · obtain ⟨b, hb, hlow⟩ := hascii
      have hone := Utf8.encodeChar_ascii hlow (Utf8.toNat_eq_of_mem_encodeChar hlow hb)
      obtain ⟨stripped, hstripped⟩ := @ih (stripStep mode b (Utf8.encode text).head?).1
        next_of_blockEnd
      rw [hone, List.singleton_append, strip, hstripped]
      rcases stripStep_out mode b (Utf8.encode text).head? with hout | hout
      · refine ⟨c :: stripped, ?_⟩
        rw [hout, Utf8.encode, Utf8.encode, List.flatMap_cons, hone]
        rfl
      · refine ⟨' ' :: stripped, ?_⟩
        rw [hout]
        rfl
    · have hhigh : ∀ b ∈ String.utf8EncodeChar c, 0x80 ≤ b.toNat := by
        intro b hb
        by_contra hlow
        exact hascii ⟨b, hb, by omega⟩
      have hne : mode ≠ .blockEnd := by
        intro hend
        have hhead := hmode hend
        cases hbytes : String.utf8EncodeChar c with
        | nil => simp at hbytes
        | cons b bytes =>
          rw [hbytes] at hhead hhigh
          obtain rfl := Option.some.inj hhead
          exact absurd (hhigh _ List.mem_cons_self) (by decide)
      obtain ⟨mode', hmode', hstrip⟩ := strip_high hne hhigh (Utf8.encode text)
      obtain ⟨stripped, hstripped⟩ := @ih mode' fun h => absurd h hmode'
      rw [hstripped] at hstrip
      rcases hstrip with hkept | hblank
      · exact ⟨c :: stripped, hkept⟩
      · refine ⟨List.replicate (String.utf8EncodeChar c).length ' ' ++ stripped, ?_⟩
        have hspaces (count : ℕ) :
            Utf8.encode (List.replicate count ' ') = List.replicate count 0x20 := by
          induction count with
          | zero => rfl
          | succ count ih => exact congrArg (List.cons 0x20) ih
        rw [hblank, Utf8.encode_append, hspaces]

theorem exists_stripped (text : List Char) :
    ∃ stripped, strip .code (Utf8.encode text) = Utf8.encode stripped := strip_encode text nofun

theorem stripComments_encode (text : List Char) :
    stripComments (Utf8.encode text) = .ok (strip .code (Utf8.encode text)) := by
  obtain ⟨stripped, hstripped⟩ := exists_stripped text
  unfold stripComments
  dsimp only
  rw [hstripped, Utf8.decode?_encode]
  rfl

end Utf8

end G2mirror
