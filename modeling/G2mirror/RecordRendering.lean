import G2mirror.SoftWrap
import G2mirror.Library.Utf8

/-!
# Rendering archived lines

A record is text and SGR sequences. Rendered from default attributes on a fresh row it gives
back the cells of the row that it was made of, up to the last one that shows anything.
-/

namespace G2mirror

/-! ### SGR parameters -/

/-- A colour among the sixteen basic ones, by its code. -/
def basicColor (base code : ℕ) : Option Color :=
  if 30 + base ≤ code ∧ code < 38 + base then some (.idx (UInt8.ofNat (code - (30 + base))))
  else if 90 + base ≤ code ∧ code < 98 + base then some (.idx (UInt8.ofNat (code - (82 + base))))
  else none

namespace CellStyle

/-- Select a colour. -/
def withColor (s : CellStyle) (background : Bool) (color : Color) : CellStyle :=
  if background then { s with bg := color } else { s with fg := color }

/-- The attributes after a code without arguments. -/
def applyCode (s : CellStyle) (code : ℕ) : CellStyle :=
  if code = 0 then defaultStyle
  else if code = 1 then { s with bold := true }
  else if code = 2 then { s with dim := true }
  else if code = 3 then { s with italic := true }
  else if code = 4 then { s with underline := true }
  else if code = 7 then { s with inverse := true }
  else (basicColor 0 code).elim ((basicColor 10 code).elim s (s.withColor true)) (s.withColor false)

/-- The attributes after several codes. 38 and 48 take a colour's index or its components. -/
def applyCodes (s : CellStyle) : List ℕ → CellStyle
  | [] => s
  | 38 :: 5 :: i :: codes => (s.withColor false (.idx (UInt8.ofNat i))).applyCodes codes
  | 48 :: 5 :: i :: codes => (s.withColor true (.idx (UInt8.ofNat i))).applyCodes codes
  | 38 :: 2 :: r :: g :: b :: codes =>
    (s.withColor false (.rgb (UInt8.ofNat r) (UInt8.ofNat g) (UInt8.ofNat b))).applyCodes codes
  | 48 :: 2 :: r :: g :: b :: codes =>
    (s.withColor true (.rgb (UInt8.ofNat r) (UInt8.ofNat g) (UInt8.ofNat b))).applyCodes codes
  | code :: codes => (s.applyCode code).applyCodes codes

/-- The codes of a colour. -/
def colorCodes (color : Color) (background : Bool) : List ℕ :=
  let base := if background then 10 else 0
  match color with
  | .default => []
  | .idx i =>
    if i < 8 then [30 + base + i.toNat]
    else if i < 16 then [82 + base + i.toNat]
    else [38 + base, 5, i.toNat]
  | .rgb r g b => [38 + base, 2, r.toNat, g.toNat, b.toNat]

/-- The code of an attribute that is set. -/
def flagCode (flag : Bool) (code : ℕ) : List ℕ := if flag then [code] else []

/-- The codes of a style, but for the reset. -/
def codes (s : CellStyle) : List ℕ :=
  flagCode s.bold 1 ++ flagCode s.dim 2 ++ flagCode s.italic 3 ++ flagCode s.underline 4 ++
    flagCode s.inverse 7 ++ colorCodes s.fg false ++ colorCodes s.bg true

theorem applyCodes_cons (s : CellStyle) {code : ℕ} (hfg : code ≠ 38) (hbg : code ≠ 48)
    (codes : List ℕ) : s.applyCodes (code :: codes) = (s.applyCode code).applyCodes codes := by
  rw [applyCodes]
  all_goals
    intros
    omega

/-- The codes of basic colours are no others. -/
theorem applyCode_basic (s : CellStyle) {code : ℕ} (hcode : 30 ≤ code) :
    s.applyCode code = (basicColor 0 code).elim ((basicColor 10 code).elim s (s.withColor true))
      (s.withColor false) := by
  rw [applyCode, if_neg (by omega), if_neg (by omega), if_neg (by omega), if_neg (by omega),
    if_neg (by omega), if_neg (by omega)]

theorem applyCodes_foreground (s : CellStyle) {code : ℕ} {color : Color}
    (hcode : 30 ≤ code ∧ code ≠ 38 ∧ code ≠ 48) (hcolor : basicColor 0 code = some color)
    (codes : List ℕ) :
    s.applyCodes (code :: codes) = (s.withColor false color).applyCodes codes := by
  rw [applyCodes_cons s hcode.2.1 hcode.2.2, applyCode_basic s hcode.1, hcolor,
    Option.elim_some]

theorem applyCodes_background (s : CellStyle) {code : ℕ} {color : Color}
    (hcode : 30 ≤ code ∧ code ≠ 38 ∧ code ≠ 48) (hforeground : basicColor 0 code = none)
    (hcolor : basicColor 10 code = some color) (codes : List ℕ) :
    s.applyCodes (code :: codes) = (s.withColor true color).applyCodes codes := by
  rw [applyCodes_cons s hcode.2.1 hcode.2.2, applyCode_basic s hcode.1, hforeground, hcolor,
    Option.elim_none, Option.elim_some]

theorem basicColor_low {base code : ℕ} (h : 30 + base ≤ code ∧ code < 38 + base) :
    basicColor base code = some (.idx (UInt8.ofNat (code - (30 + base)))) := if_pos h

theorem basicColor_high {base code : ℕ} (h : 90 + base ≤ code ∧ code < 98 + base) :
    basicColor base code = some (.idx (UInt8.ofNat (code - (82 + base)))) := by
  rw [basicColor, if_neg (by omega), if_pos h]

theorem basicColor_none {base code : ℕ} (hlow : ¬(30 + base ≤ code ∧ code < 38 + base))
    (hhigh : ¬(90 + base ≤ code ∧ code < 98 + base)) : basicColor base code = none := by
  rw [basicColor, if_neg hlow, if_neg hhigh]

/-- The codes of a colour select it. -/
theorem applyCodes_colorCodes (s : CellStyle) (color : Color) (background : Bool)
    (hdefault : (if background then s.bg else s.fg) = .default) (codes : List ℕ) :
    s.applyCodes (colorCodes color background ++ codes) =
      (s.withColor background color).applyCodes codes := by
  cases color with
  | default =>
    have hsame : s.withColor background .default = s := by
      obtain ⟨fg, bg, bold, dim, italic, underline, inverse⟩ := s
      cases background with
      | false => obtain rfl : fg = .default := hdefault; rfl
      | true => obtain rfl : bg = .default := hdefault; rfl
    rw [hsame]
    rfl
  | rgb r g b => cases background <;> simp [colorCodes, applyCodes]
  | idx i =>
    have hbyte : UInt8.ofNat i.toNat = i := UInt8.ofNat_toNat
    by_cases hlow : i.toNat < 8
    · have hcodes : colorCodes (.idx i) background =
          [30 + (if background then 10 else 0) + i.toNat] := if_pos (UInt8.lt_iff_toNat_lt.mpr hlow)
      rw [hcodes]
      cases background with
      | false =>
        have hcolor : basicColor 0 (30 + 0 + i.toNat) = some (.idx i) := by
          rw [basicColor_low (by omega), Nat.add_sub_cancel_left, hbyte]
        exact applyCodes_foreground s (by omega) hcolor codes
      | true =>
        have hcolor : basicColor 10 (30 + 10 + i.toNat) = some (.idx i) := by
          rw [basicColor_low (by omega), Nat.add_sub_cancel_left, hbyte]
        exact applyCodes_background s (by omega) (basicColor_none (by omega) (by omega)) hcolor
          codes
    · by_cases hhigh : i.toNat < 16
      · have hcodes : colorCodes (.idx i) background =
            [82 + (if background then 10 else 0) + i.toNat] := by
          rw [colorCodes, if_neg fun h => hlow (UInt8.lt_iff_toNat_lt.mp h),
            if_pos (UInt8.lt_iff_toNat_lt.mpr hhigh)]
        rw [hcodes]
        cases background with
        | false =>
          have hcolor : basicColor 0 (82 + 0 + i.toNat) = some (.idx i) := by
            rw [basicColor_high (by omega), Nat.add_sub_cancel_left, hbyte]
          exact applyCodes_foreground s (by omega) hcolor codes
        | true =>
          have hcolor : basicColor 10 (82 + 10 + i.toNat) = some (.idx i) := by
            rw [basicColor_high (by omega), Nat.add_sub_cancel_left, hbyte]
          exact applyCodes_background s (by omega) (basicColor_none (by omega) (by omega)) hcolor
            codes
      · have hcodes : colorCodes (.idx i) background =
            [38 + (if background then 10 else 0), 5, i.toNat] := by
          rw [colorCodes, if_neg fun h => hlow (UInt8.lt_iff_toNat_lt.mp h),
            if_neg fun h => hhigh (UInt8.lt_iff_toNat_lt.mp h)]
        rw [hcodes]
        cases background <;> simp [applyCodes]

/-- The code of an attribute sets it. -/
theorem applyCodes_flag (s : CellStyle) (flag : Bool) {code : ℕ} (hcode : code < 30)
    (codes : List ℕ) : s.applyCodes (flagCode flag code ++ codes) =
      (if flag then s.applyCode code else s).applyCodes codes := by
  cases flag with
  | false => rfl
  | true => exact applyCodes_cons s (by omega) (by omega) codes

/-- After a reset the codes of a style select it, whatever was selected before. -/
theorem applyCodes_codes (s style : CellStyle) : s.applyCodes (0 :: style.codes) = style := by
  obtain ⟨fg, bg, bold, dim, italic, underline, inverse⟩ := style
  have hflags (s : CellStyle) (codes : List ℕ) : s.applyCodes (0 :: (flagCode bold 1 ++
      flagCode dim 2 ++ flagCode italic 3 ++ flagCode underline 4 ++ flagCode inverse 7 ++ codes)) =
      applyCodes ⟨.default, .default, bold, dim, italic, underline, inverse⟩ codes := by
    simp only [List.append_assoc]
    rw [applyCodes_cons s (by omega) (by omega), applyCodes_flag _ _ (by omega),
      applyCodes_flag _ _ (by omega), applyCodes_flag _ _ (by omega),
      applyCodes_flag _ _ (by omega), applyCodes_flag _ _ (by omega)]
    cases bold <;> cases dim <;> cases italic <;> cases underline <;> cases inverse <;> rfl
  have hbg := applyCodes_colorCodes ⟨fg, .default, bold, dim, italic, underline, inverse⟩ bg true
    rfl []
  rw [codes, List.append_assoc, hflags, applyCodes_colorCodes _ fg false rfl]
  rwa [List.append_nil] at hbg

end CellStyle

/-! ### Rendering -/

/-- The codes that parameters stand for. -/
def sgrCodes (number : ℕ) : List Char → List ℕ
  | [] => [number]
  | c :: cs =>
    if c = ';' then number :: sgrCodes 0 cs else sgrCodes (10 * number + (c.toNat - '0'.toNat)) cs

/-- The attributes after a sequence: only SGR sequences change them. -/
def CellStyle.afterSequence (s : CellStyle) : List Char → CellStyle
  | '[' :: params => s.applyCodes (sgrCodes 0 params)
  | _ => s

/-- A row on which text is printed: its cells so far, the last one first, the attributes, and
the sequence that is not complete yet. -/
structure Rendering where
  printed : List Cell
  pen : CellStyle
  sequence : Option (List Char)

namespace Rendering

/-- A fresh row. -/
def start : Rendering := ⟨[], defaultStyle, none⟩

/-- A character without a width combines with the last cell that holds one. -/
def combine (mark : Bytes) : List Cell → List Cell
  | [] => []
  | cell :: cells =>
    if cell.wideContinuation then cell :: combine mark cells
    else { cell with contents := cell.contents ++ mark } :: cells

/-- Print a character that takes this many columns. -/
def print (r : Rendering) (c : Char) (columns : ℕ) : Rendering :=
  let bytes := Utf8.encode [c]
  { r with
    printed :=
      if columns = 0 then combine bytes r.printed
      else if columns = 1 then ⟨bytes, false, r.pen⟩ :: r.printed
      else ⟨[], true, defaultStyle⟩ :: ⟨bytes, false, r.pen⟩ :: r.printed }

/-- Read a character. -/
def read (columns : Char → ℕ) (r : Rendering) (c : Char) : Rendering :=
  match r.sequence with
  | none => if c = '\x1b' then { r with sequence := some [] } else r.print c (columns c)
  | some seen =>
    if c = 'm' then { r with pen := r.pen.afterSequence seen, sequence := none }
    else { r with sequence := some (seen ++ [c]) }

/-- The row after everything was printed: nothing if a sequence is left open or the
characters do not fit. -/
def row (r : Rendering) (width : ℕ) : Option (List Cell) :=
  if r.sequence = none ∧ r.printed.length ≤ width then
    some (r.printed.reverse ++ List.replicate (width - r.printed.length) Cell.empty)
  else none

end Rendering

/-- What a record shows on a fresh row of this width. -/
def renderRecord (columns : Char → ℕ) (width : ℕ) (bytes : Bytes) : Option (List Cell) :=
  ((Utf8.lossy bytes).foldl (Rendering.read columns) .start).row width

/-! ### The sequences of a record -/

/-- A code after another one. -/
def codeText (code : ℕ) : List Char := ';' :: Nat.toDigits 10 code

/-- The sequence that selects a style, as text. -/
def sgrText (style : CellStyle) : List Char :=
  '\x1b' :: '[' :: '0' :: (style.codes.flatMap codeText ++ ['m'])

/-- What codes are written with: digits and semicolons. -/
theorem mem_codeText {codes : List ℕ} {c : Char} (h : c ∈ codes.flatMap codeText) :
    c = ';' ∨ c.isDigit = true := by
  obtain ⟨code, -, hc⟩ := List.mem_flatMap.mp h
  rcases List.mem_cons.mp hc with rfl | hc
  · exact .inl rfl
  · exact .inr (Nat.isDigit_of_mem_toDigits (by decide) (by decide) hc)

theorem toNat_lt_of_isDigit {c : Char} (h : c.isDigit = true) : c.toNat < 0x80 := by
  have hbound : c.toNat ≤ 57 := (Char.isDigit_iff_toNat.mp h).2
  omega

theorem decimal_eq_encode (n : ℕ) : decimal n = Utf8.encode (Nat.toDigits 10 n) := by
  rw [Utf8.encode_ascii fun c hc =>
    toNat_lt_of_isDigit (Nat.isDigit_of_mem_toDigits (by decide) (by decide) hc)]
  rfl

theorem encode_codeText (code : ℕ) : Utf8.encode (codeText code) = ascii ";" ++ decimal code := by
  have hsemi : Utf8.encode [';'] = ascii ";" := by decide
  rw [decimal_eq_encode, ← hsemi, ← Utf8.encode_append]
  rfl

theorem encode_codes (codes : List ℕ) :
    Utf8.encode (codes.flatMap codeText) = codes.flatMap fun k => ascii ";" ++ decimal k := by
  induction codes with
  | nil => rfl
  | cons code codes ih =>
    rw [List.flatMap_cons, List.flatMap_cons, Utf8.encode_append, encode_codeText, ih]

theorem emitColor_eq (color : Color) (background : Bool) :
    emitColor color background =
      (CellStyle.colorCodes color background).flatMap fun k => ascii ";" ++ decimal k := by
  have hindexed : ascii ";5;" = ascii ";" ++ decimal 5 ++ ascii ";" := by decide
  have hdirect : ascii ";2;" = ascii ";" ++ decimal 2 ++ ascii ";" := by decide
  unfold emitColor CellStyle.colorCodes
  cases color with
  | default => rfl
  | idx i =>
    dsimp only
    split_ifs
    all_goals simp [hindexed]
  | rgb r g b => simp [hdirect]

/-- `emit_sgr` writes the codes of the style. -/
theorem emitSgr_eq (style : CellStyle) : emitSgr style = Utf8.encode (sgrText style) := by
  have hstart : Utf8.encode ['\x1b', '[', '0'] = ascii "\x1b[0" := by decide
  have hstop : Utf8.encode ['m'] = ascii "m" := by decide
  have hflag (flag : Bool) (code : ℕ) {text : Bytes} (htext : ascii ";" ++ decimal code = text) :
      (CellStyle.flagCode flag code).flatMap (fun k => ascii ";" ++ decimal k) =
        if flag then text else [] := by
    cases flag with
    | false => rfl
    | true => exact (List.flatMap_singleton ..).trans htext
  have htext : sgrText style =
      ['\x1b', '[', '0'] ++ (style.codes.flatMap codeText ++ ['m']) := rfl
  rw [htext, Utf8.encode_append, Utf8.encode_append, hstart, hstop, encode_codes, emitSgr,
    emitColor_eq, emitColor_eq, CellStyle.codes]
  simp only [List.flatMap_append, List.append_assoc]
  rw [hflag style.bold 1 rfl, hflag style.dim 2 rfl, hflag style.italic 3 rfl,
    hflag style.underline 4 rfl, hflag style.inverse 7 rfl]
  rfl

/-- Codes are read as they are written. -/
theorem sgrCodes_codeText (number : ℕ) (codes : List ℕ) :
    sgrCodes number (codes.flatMap codeText) = number :: codes := by
  have hdigits (number : ℕ) {digits : List Char} (h : ∀ c ∈ digits, c.isDigit = true)
      (rest : List Char) : sgrCodes number (digits ++ rest) =
        sgrCodes (digits.foldl (fun n c => 10 * n + (c.toNat - '0'.toNat)) number) rest := by
    induction digits generalizing number with
    | nil => rfl
    | cons c digits ih =>
      obtain ⟨hc, hrest⟩ := List.forall_mem_cons.mp h
      have hsemi : c ≠ ';' := by
        rintro rfl
        cases hc
      rw [List.cons_append, sgrCodes, if_neg hsemi, ih _ hrest, List.foldl_cons]
  induction codes generalizing number with
  | nil => rfl
  | cons code codes ih =>
    have hvalue : (Nat.toDigits 10 code).foldl (fun n c => 10 * n + (c.toNat - '0'.toNat)) 0 =
        code := by
      rw [← Nat.ofDigitChars_eq_foldl, Nat.ofDigitChars_ten_toDigits]
    rw [List.flatMap_cons, codeText, List.cons_append, sgrCodes, if_pos rfl,
      hdigits 0 (fun c hc => Nat.isDigit_of_mem_toDigits (by decide) (by decide) hc), hvalue, ih]

/-- Reading the sequence that selects a style selects it. -/
theorem read_sgrText (columns : Char → ℕ) (printed : List Cell) (pen style : CellStyle) :
    (sgrText style).foldl (Rendering.read columns) ⟨printed, pen, none⟩ =
      ⟨printed, style, none⟩ := by
  have hparams (seen : List Char) {params : List Char} (h : ∀ c ∈ params, c ≠ 'm') :
      params.foldl (Rendering.read columns) ⟨printed, pen, some seen⟩ =
        ⟨printed, pen, some (seen ++ params)⟩ := by
    induction params generalizing seen with
    | nil => rw [List.append_nil]; rfl
    | cons c params ih =>
      obtain ⟨hc, hrest⟩ := List.forall_mem_cons.mp h
      have hstep : Rendering.read columns ⟨printed, pen, some seen⟩ c =
          ⟨printed, pen, some (seen ++ [c])⟩ := if_neg hc
      rw [List.foldl_cons, hstep, ih _ hrest, List.append_assoc, List.singleton_append]
  have hstart : Rendering.read columns ⟨printed, pen, none⟩ '\x1b' =
      ⟨printed, pen, some []⟩ := rfl
  have hnone : ∀ c ∈ '[' :: '0' :: style.codes.flatMap codeText, c ≠ 'm' := by
    intro c hc
    rcases List.mem_cons.mp hc with rfl | hc
    · decide
    · rcases List.mem_cons.mp hc with rfl | hc
      · decide
      · rintro rfl
        rcases mem_codeText hc with h | h
        · cases h
        · cases h
  have hfinal : Rendering.read columns
      ⟨printed, pen, some ([] ++ '[' :: '0' :: style.codes.flatMap codeText)⟩ 'm' =
        ⟨printed, pen.afterSequence ('[' :: '0' :: style.codes.flatMap codeText), none⟩ := rfl
  have hcodes : sgrCodes 0 ('0' :: style.codes.flatMap codeText) = 0 :: style.codes := by
    have hzero : sgrCodes 0 ('0' :: style.codes.flatMap codeText) =
        sgrCodes 0 (style.codes.flatMap codeText) := rfl
    rw [hzero, sgrCodes_codeText]
  have hpen : pen.afterSequence ('[' :: '0' :: style.codes.flatMap codeText) = style := by
    change pen.applyCodes (sgrCodes 0 ('0' :: style.codes.flatMap codeText)) = style
    rw [hcodes, CellStyle.applyCodes_codes]
  have hsplit : sgrText style =
      '\x1b' :: (('[' :: '0' :: style.codes.flatMap codeText) ++ ['m']) := rfl
  rw [hsplit, List.foldl_cons, hstart, List.foldl_append, hparams [] hnone, List.foldl_cons,
    List.foldl_nil, hfinal, hpen]

/-! ### The cells of a row -/

/-- A character with what combines with it, as it is printed in a style. -/
structure Grapheme (columns : Char → ℕ) where
  base : Char
  marks : List Char
  style : CellStyle
  takes : columns base = 1 ∨ columns base = 2
  combines : ∀ c ∈ marks, columns c = 0
  printable : '\x1b' ∉ base :: marks

/-- What a row is made of: characters, and cells in which nothing was printed. -/
inductive Piece (columns : Char → ℕ)
  | grapheme (g : Grapheme columns)
  | empty (style : CellStyle)

/-- A cell as a renderer prints it: where nothing was printed, a space. -/
def Cell.asSpace (c : Cell) : Cell :=
  if c.contents = [] ∧ c.wideContinuation = false then { c with contents := ascii " " } else c

/-- A cell of which nothing is seen: it holds nothing or an unstyled space, and it shows the
default background. -/
structure Cell.ShowsNothing (c : Cell) : Prop where
  contents : c.contents = [] ∨ c.contents = ascii " " ∧ c.style = defaultStyle
  background : c.style.bg = .default
  inverse : c.style.inverse = false

theorem Cell.showsNothing_of_invisible {c : Cell} (h : c.isVisible = false) : c.ShowsNothing := by
  rw [Cell.isVisible, Bool.or_eq_false_iff] at h
  obtain ⟨hprinted, hblank⟩ := h
  cases hcontents : c.contents with
  | nil =>
    have hnone : c.hasContents = false := by rw [Cell.hasContents, hcontents]; rfl
    rw [hnone, Bool.not_false, Bool.true_and, Bool.not_eq_false', CellStyle.blankIsInvisible,
      Bool.and_eq_true, decide_eq_true_eq, Bool.not_eq_true'] at hblank
    exact ⟨.inl hcontents, hblank.1, hblank.2⟩
  | cons b bs =>
    have hsome : c.hasContents = true := by rw [Cell.hasContents, hcontents]; rfl
    rw [hsome, Bool.true_and, Bool.not_eq_false', Bool.and_eq_true, decide_eq_true_eq,
      decide_eq_true_eq] at hprinted
    obtain ⟨hspace, hstyle⟩ := hprinted
    exact ⟨.inr ⟨hspace, hstyle⟩, by rw [hstyle]; rfl, by rw [hstyle]; rfl⟩

namespace Piece

variable {columns : Char → ℕ}

/-- The cell that holds the character. -/
def first : Piece columns → Cell
  | .grapheme g => ⟨Utf8.encode (g.base :: g.marks), false, g.style⟩
  | .empty style => ⟨[], false, style⟩

/-- The cell that continues it, if it takes two columns. -/
def rest : Piece columns → List Cell
  | .grapheme g => if columns g.base = 2 then [⟨[], true, defaultStyle⟩] else []
  | .empty _ => []

/-- The cells of a piece. -/
def cells (p : Piece columns) : List Cell := p.first :: p.rest

/-- The cells of a piece as they are rendered. -/
def shown (p : Piece columns) : List Cell := p.cells.map Cell.asSpace

/-- The text that is printed for a piece. -/
def text : Piece columns → List Char
  | .grapheme g => g.base :: g.marks
  | .empty _ => [' ']

/-- The style of a piece. -/
def style (p : Piece columns) : CellStyle := p.first.style

theorem rest_invisible (p : Piece columns) : ∀ c ∈ p.rest, c.isVisible = false := by
  intro c hc
  cases p with
  | empty style => cases hc
  | grapheme g =>
    rw [rest] at hc
    split_ifs at hc
    · obtain rfl := List.mem_singleton.mp hc
      rfl
    · cases hc

theorem encode_cons_ne_nil (c : Char) (cs : List Char) : Utf8.encode (c :: cs) ≠ [] :=
  fun h => by cases Utf8.encode_eq_nil.mp h

/-- What is rendered are the text and the style of the piece. -/
theorem shown_eq (p : Piece columns) :
    p.shown = ⟨Utf8.encode p.text, false, p.style⟩ :: p.rest := by
  cases p with
  | empty style => rfl
  | grapheme g =>
    have hfirst : (first (.grapheme g)).asSpace = first (.grapheme g) :=
      if_neg fun h => encode_cons_ne_nil _ _ h.1
    have hrest : (rest (.grapheme g)).map Cell.asSpace = rest (.grapheme g) := by
      rw [rest]
      split_ifs <;> rfl
    rw [shown, cells, List.map_cons, hfirst, hrest]
    rfl

/-- A space takes one column, so it stands for a cell in which nothing was printed. -/
def glyph (hspace : columns ' ' = 1) : Piece columns → Glyph
  | .grapheme g =>
    { text := Utf8.encode (g.base :: g.marks)
      style := g.style
      wide := columns g.base = 2
      nonempty := encode_cons_ne_nil _ _
      printable := by
        intro hmem
        obtain ⟨c, hc, hb⟩ := List.mem_flatMap.mp hmem
        have hescape := Utf8.toNat_eq_of_mem_encodeChar (by decide) hb
        have heq : c = '\x1b' := Char.ext (UInt32.toNat_inj.mp hescape)
        exact g.printable (heq ▸ hc)
      narrow := by
        intro h
        have htext : g.base :: g.marks = [' '] := by
          have hdecoded := congrArg Utf8.lossy h
          have hspace : Utf8.lossy (ascii " ") = [' '] := by decide
          rwa [Utf8.lossy_encode, hspace] at hdecoded
        rw [(List.cons.inj htext).1, hspace]
        rfl }
  | .empty style =>
    { text := ascii " "
      style := style
      wide := false
      nonempty := by decide
      printable := by decide
      narrow := fun _ => rfl }

theorem glyph_style (hspace : columns ' ' = 1) (p : Piece columns) :
    (p.glyph hspace).style = p.style := by
  cases p <;> rfl

theorem glyph_text (hspace : columns ' ' = 1) (p : Piece columns) :
    (p.glyph hspace).text = Utf8.encode p.text := by
  cases p <;> rfl

/-- A piece is rendered like its character. -/
theorem shown_glyph (hspace : columns ' ' = 1) (p : Piece columns) :
    p.shown = (p.glyph hspace).cells := by
  rw [shown_eq]
  cases p with
  | empty style => rfl
  | grapheme g =>
    unfold Glyph.cells
    simp only [glyph, decide_eq_true_eq]
    rfl

/-- What combines goes to the last cell that does not continue another one. -/
theorem read_marks {marks : List Char} (hmarks : ∀ c ∈ marks, columns c = 0)
    (hescape : '\x1b' ∉ marks) {continues : List Cell}
    (hcontinues : ∀ c ∈ continues, c.wideContinuation = true) (held : Bytes) (style pen : CellStyle)
    (printed : List Cell) :
    marks.foldl (Rendering.read columns) ⟨continues ++ ⟨held, false, style⟩ :: printed, pen, none⟩ =
      ⟨continues ++ ⟨held ++ Utf8.encode marks, false, style⟩ :: printed, pen, none⟩ := by
  have hcombine (held mark : Bytes) :
      Rendering.combine mark (continues ++ ⟨held, false, style⟩ :: printed) =
        continues ++ ⟨held ++ mark, false, style⟩ :: printed := by
    induction continues with
    | nil => rfl
    | cons c continues ih =>
      obtain ⟨hc, hrest⟩ := List.forall_mem_cons.mp hcontinues
      rw [List.cons_append, Rendering.combine, if_pos hc, ih hrest]
      rfl
  induction marks generalizing held with
  | nil => rw [show Utf8.encode [] = [] from rfl, List.append_nil]; rfl
  | cons c marks ih =>
    obtain ⟨hc, hrest⟩ := List.forall_mem_cons.mp hmarks
    obtain ⟨hne, hrest'⟩ := List.ne_and_not_mem_of_not_mem_cons hescape
    have hstep : Rendering.read columns
        ⟨continues ++ ⟨held, false, style⟩ :: printed, pen, none⟩ c =
          ⟨continues ++ ⟨held ++ Utf8.encode [c], false, style⟩ :: printed, pen, none⟩ := by
      simp only [Rendering.read, if_neg hne.symm, Rendering.print, hc, if_true, hcombine]
    rw [List.foldl_cons, hstep, ih hrest hrest', List.append_assoc, ← Utf8.encode_append,
      List.singleton_append]

/-- Reading the text of a piece in its style prints its cells. -/
theorem read_text (hspace : columns ' ' = 1) (p : Piece columns) (printed : List Cell) :
    p.text.foldl (Rendering.read columns) ⟨printed, p.style, none⟩ =
      ⟨p.shown.reverse ++ printed, p.style, none⟩ := by
  rw [shown_eq, List.reverse_cons, List.append_assoc, List.singleton_append]
  cases p with
  | empty style =>
    change Rendering.read columns ⟨printed, style, none⟩ ' ' = _
    simp only [Rendering.read, Rendering.print, hspace]
    rfl
  | grapheme g =>
    obtain ⟨hne, hmarks⟩ := List.ne_and_not_mem_of_not_mem_cons g.printable
    have hbase : Rendering.read columns ⟨printed, g.style, none⟩ g.base =
        ⟨(rest (.grapheme g)).reverse ++ (⟨Utf8.encode [g.base], false, g.style⟩ : Cell) :: printed,
          g.style, none⟩ := by
      simp only [Rendering.read, if_neg hne.symm, Rendering.print, rest]
      rcases g.takes with hone | htwo
      · rw [hone]
        rfl
      · rw [htwo]
        rfl
    have hcontinues : ∀ c ∈ (rest (.grapheme g)).reverse, Cell.wideContinuation c = true := by
      intro c hc
      rw [List.mem_reverse, rest] at hc
      split_ifs at hc
      · obtain rfl := List.mem_singleton.mp hc
        rfl
      · cases hc
    change (g.base :: g.marks).foldl _ (⟨printed, g.style, none⟩ : Rendering) = _
    rw [List.foldl_cons, hbase, read_marks g.combines hmarks hcontinues, ← Utf8.encode_append]
    rfl

/-- What the loop emits for pieces prints the cells of those that it gets to. -/
theorem read_emission (hspace : columns ' ' = 1) (pieces : List (Piece columns)) (len : ℕ)
    (pen : CellStyle) (printed : List Cell) :
    ∃ pen', (Utf8.lossy (emission len pen (pieces.map (glyph hspace)))).foldl
      (Rendering.read columns) ⟨printed, pen, none⟩ =
        ⟨(cellsOf (reached len pen (pieces.map (glyph hspace)))).reverse ++ printed, pen',
          none⟩ := by
  induction pieces generalizing len pen printed with
  | nil => exact ⟨pen, rfl⟩
  | cons p pieces ih =>
    let new := (p.glyph hspace).emits pen
    have hemits (bytes : Bytes) (printed : List Cell) :
        (Utf8.lossy (new ++ bytes)).foldl (Rendering.read columns) ⟨printed, pen, none⟩ =
          (Utf8.lossy bytes).foldl (Rendering.read columns)
            ⟨p.shown.reverse ++ printed, p.style, none⟩ := by
      have hselect : (if p.style ≠ pen then sgrText p.style else []).foldl (Rendering.read columns)
          ⟨printed, pen, none⟩ = ⟨printed, p.style, none⟩ := by
        split_ifs with hchanged
        · exact read_sgrText columns printed pen p.style
        · rw [not_not.mp hchanged]
          rfl
      have hnew : new =
          Utf8.encode ((if p.style ≠ pen then sgrText p.style else []) ++ p.text) := by
        rw [Utf8.encode_append, ← glyph_text hspace]
        simp only [new, Glyph.emits, glyph_style]
        split_ifs
        · rw [emitSgr_eq]
        · rfl
      rw [hnew, Utf8.lossy_encode_append, List.foldl_append, List.foldl_append, hselect,
        read_text hspace]
    have hreached : cellsOf (reached len pen ((p :: pieces).map (glyph hspace))) =
        p.shown ++ cellsOf (if maxLineBytes ≤ len + new.length then []
          else reached (len + new.length) p.style (pieces.map (glyph hspace))) := by
      rw [List.map_cons, reached, ← glyph_style hspace p, shown_glyph hspace p]
      rfl
    rw [hreached, List.reverse_append, List.append_assoc, List.map_cons, emission]
    change ∃ pen', (Utf8.lossy (new ++ _)).foldl _ _ = _
    rw [hemits]
    split_ifs with hcap
    · exact ⟨p.style, rfl⟩
    · rw [glyph_style]
      exact ih _ _ _

/-- The row that pieces make up. -/
def rowOf (pieces : List (Piece columns)) (wrapped : Bool) : Row := ⟨pieces.flatMap cells, wrapped⟩

/-- The loop does not tell a cell in which nothing was printed from a space. -/
theorem emitCells_asSpace (bytes : Bytes) (pen : CellStyle) (cells : List Cell) :
    emitCells bytes pen (cells.map Cell.asSpace) = emitCells bytes pen cells := by
  induction cells generalizing bytes pen with
  | nil => rfl
  | cons c cells ih =>
    by_cases hblank : c.contents = [] ∧ c.wideContinuation = false
    · have hspace : c.asSpace = { c with contents := ascii " " } := if_pos hblank
      have hnone : c.hasContents = false := by rw [Cell.hasContents, hblank.1]; rfl
      rw [List.map_cons, hspace, emitCells, emitCells]
      simp only [hblank.2, hnone, ih, Bool.false_eq_true, if_false, ite_self]
    · have hsame : c.asSpace = c := if_neg hblank
      rw [List.map_cons, hsame, emitCells, emitCells]
      simp only [ih]

theorem cellsOf_glyphs (hspace : columns ' ' = 1) (pieces : List (Piece columns)) :
    cellsOf (pieces.map (glyph hspace)) = pieces.flatMap shown := by
  rw [cellsOf, List.flatMap_map]
  exact List.flatMap_congr fun p _ => (shown_glyph hspace p).symm

/-- The record of a row that ends with a visible piece, but for what is not seen. -/
theorem record_rowOf (hspace : columns ' ' = 1) {init hidden : List (Piece columns)}
    {last : Piece columns} (hlast : last.first.isVisible = true)
    (hhidden : ∀ p ∈ hidden, p.first.isVisible = false) (wrapped : Bool) {width : ℕ}
    (hwidth : (rowOf (init ++ last :: hidden) wrapped).cells.length = width) :
    ((rowOf (init ++ last :: hidden) wrapped).record width).bytes =
      emission 0 defaultStyle ((init ++ [last]).map (glyph hspace)) := by
  have hcells : (rowOf (init ++ last :: hidden) wrapped).cells =
      init.flatMap cells ++ last.first :: (last.rest ++ hidden.flatMap cells) := by
    rw [rowOf, List.flatMap_append, List.flatMap_cons, cells, List.cons_append]
  have hrest : ∀ c ∈ last.rest ++ hidden.flatMap cells, c.isVisible = false := by
    refine List.forall_mem_append.mpr ⟨last.rest_invisible, fun c hc => ?_⟩
    obtain ⟨p, hp, hc⟩ := List.mem_flatMap.mp hc
    rcases List.mem_cons.mp hc with rfl | hc
    · exact hhidden p hp
    · exact p.rest_invisible c hc
  have hspaces : (init.flatMap cells ++ [last.first]).map Cell.asSpace =
      cellsOf (init.map (glyph hspace)) ++
        [⟨(last.glyph hspace).text, false, (last.glyph hspace).style⟩] := by
    have hfirst : last.first.asSpace = ⟨Utf8.encode last.text, false, last.style⟩ :=
      (List.cons.inj last.shown_eq).1
    rw [List.map_append, List.map_cons, hfirst, glyph_text, glyph_style, cellsOf_glyphs,
      List.map_flatMap]
    rfl
  rw [record_of_visible hcells hwidth hlast hrest, ← emitCells_asSpace, hspaces, emitCells_eq,
    List.nil_append, List.map_append]
  rfl

/-- A record below the cap was not cut. -/
theorem uncut_of_length {len : ℕ} {pen : CellStyle} {gs : List Glyph}
    (h : len + (emission len pen gs).length < maxLineBytes) : Uncut len pen gs := by
  induction gs generalizing len pen with
  | nil => trivial
  | cons g gs ih =>
    rw [emission, List.length_append] at h
    have hroom : ¬maxLineBytes ≤ len + (g.emits pen).length := by omega
    rw [if_neg hroom] at h
    exact .inr ⟨by omega, ih (by omega)⟩

/-- The record of a row of any characters and empty cells renders back to the row: on a fresh
row as wide as it was, its text and SGR sequences print whole pieces of it, with their styles
and with spaces for empty cells. Of a record below the cap the rest shows nothing. -/
theorem record_renders_back (hspace : columns ' ' = 1) (pieces : List (Piece columns))
    (wrapped : Bool) {width : ℕ} (hwidth : (rowOf pieces wrapped).cells.length = width) :
    ∃ kept cut, pieces = kept ++ cut ∧
      renderRecord columns width ((rowOf pieces wrapped).record width).bytes =
        some (kept.flatMap shown ++
          List.replicate (width - (kept.flatMap shown).length) Cell.empty) ∧
      (((rowOf pieces wrapped).record width).bytes.length < maxLineBytes →
        ∀ p ∈ cut, ∀ c ∈ p.cells, c.ShowsNothing) := by
  have hnothing {hidden : List (Piece columns)} (h : ∀ p ∈ hidden, p.first.isVisible = false) :
      ∀ p ∈ hidden, ∀ c ∈ p.cells, c.ShowsNothing := by
    intro p hp c hc
    rcases List.mem_cons.mp hc with rfl | hc
    · exact Cell.showsNothing_of_invisible (h p hp)
    · exact Cell.showsNothing_of_invisible (p.rest_invisible c hc)
  let unseen (p : Piece columns) : Bool := !p.first.isVisible
  have hsplit : pieces.rdropWhile unseen ++ pieces.rtakeWhile unseen = pieces :=
    List.rdropWhile_append_rtakeWhile
  have hhidden : ∀ p ∈ pieces.rtakeWhile unseen, p.first.isVisible = false := by
    intro p hp
    have hunseen : unseen p = true := List.mem_rtakeWhile_imp hp
    simpa [unseen] using hunseen
  rcases List.eq_nil_or_concat (pieces.rdropWhile unseen) with hnil | ⟨init, last, hlast⟩
  · rw [hnil, List.nil_append] at hsplit
    rw [hsplit] at hhidden
    have hinvisible : ∀ c ∈ (rowOf pieces wrapped).cells, c.isVisible = false := by
      intro c hc
      obtain ⟨p, hp, hc⟩ := List.mem_flatMap.mp hc
      rcases List.mem_cons.mp hc with rfl | hc
      · exact hhidden p hp
      · exact p.rest_invisible c hc
    rw [record_of_invisible hwidth hinvisible]
    exact ⟨[], pieces, rfl, rfl, fun _ => hnothing hhidden⟩
  · rw [List.concat_eq_append] at hlast
    have hvisible : last.first.isVisible = true := by
      have hne : pieces.rdropWhile unseen ≠ [] := by simp [hlast]
      have hnot := List.rdropWhile_last_not unseen pieces hne
      have hgetLast : (pieces.rdropWhile unseen).getLast hne = last := by
        simp only [hlast, List.getLast_append_singleton]
      rw [hgetLast] at hnot
      simpa [unseen] using hnot
    set hidden := pieces.rtakeWhile unseen
    have hpieces : pieces = init ++ last :: hidden := by
      rw [← hsplit, hlast, List.append_assoc, List.singleton_append]
    have hbytes : ((rowOf pieces wrapped).record width).bytes =
        emission 0 defaultStyle ((init ++ [last]).map (glyph hspace)) := by
      rw [hpieces] at hwidth ⊢
      exact record_rowOf hspace hvisible hhidden wrapped hwidth
    obtain ⟨rest, hprefix⟩ :=
      reached_of_glyphs 0 defaultStyle ((init ++ [last]).map (glyph hspace))
    obtain ⟨kept, beyond, hkept, hreached, hrest⟩ := List.map_eq_append_iff.mp hprefix.symm
    obtain ⟨pen, hread⟩ := read_emission hspace (init ++ [last]) 0 defaultStyle []
    rw [← hreached, cellsOf_glyphs, List.append_nil] at hread
    refine ⟨kept, beyond ++ hidden, ?_, ?_, fun hcap => ?_⟩
    · rw [← List.append_assoc, ← hkept, hpieces, List.append_assoc, List.singleton_append]
    · have hlength : (kept.flatMap shown).length ≤ width := by
        have hshown (ps : List (Piece columns)) :
            (ps.flatMap shown).length = (ps.flatMap cells).length := by
          rw [List.length_flatMap, List.length_flatMap]
          exact congrArg List.sum (List.map_congr_left fun p _ => List.length_map _)
        have htotal : (rowOf pieces wrapped).cells =
            kept.flatMap cells ++ (beyond ++ hidden).flatMap cells := by
          rw [← List.flatMap_append, ← List.append_assoc, ← hkept, List.append_assoc,
            List.singleton_append, ← hpieces]
          rfl
        rw [htotal, List.length_append] at hwidth
        rw [hshown]
        omega
      rw [hbytes, renderRecord, Rendering.start, hread, Rendering.row, List.length_reverse,
        if_pos ⟨rfl, hlength⟩, List.reverse_reverse]
    · have huncut : Uncut 0 defaultStyle ((init ++ [last]).map (glyph hspace)) :=
        uncut_of_length (by rw [← hbytes, Nat.zero_add]; exact hcap)
      have hall := (reached_eq_iff _ _ _).mpr huncut
      have hnone : beyond = [] := by
        rw [← hreached, hkept, List.map_append] at hall
        exact List.map_eq_nil_iff.mp (List.append_right_eq_self.mp hall.symm)
      rw [hnone, List.nil_append]
      exact hnothing hhidden

/-- Widths of some characters: a combining accent, a double-width character, others. -/
def sampleColumns (c : Char) : ℕ := if c.toNat = 0x301 then 0 else if c.toNat = 0x6f22 then 2 else 1

/-- A bold red letter with an accent, an inverse blank, a double-width character on a
background of its own, an underlined blank and a space. -/
def sample : List (Piece sampleColumns) :=
  [.grapheme ⟨'e', [Char.ofNat 0x301], ⟨.idx 1, .default, true, false, false, false, false⟩,
      .inl (by decide), by simp [sampleColumns], by decide⟩,
    .empty ⟨.default, .default, false, false, false, false, true⟩,
    .grapheme ⟨Char.ofNat 0x6f22, [], ⟨.idx 200, .rgb 1 2 3, false, true, true, false, false⟩,
      .inr (by decide), by simp, by decide⟩,
    .empty ⟨.default, .default, false, false, false, true, false⟩,
    .grapheme ⟨' ', [], defaultStyle, .inl (by decide), by simp, by decide⟩]

theorem sample_renders_back :
    ∃ kept cut, sample = kept ++ cut ∧
      renderRecord sampleColumns 6 ((rowOf sample false).record 6).bytes =
        some (kept.flatMap shown ++ List.replicate (6 - (kept.flatMap shown).length) Cell.empty) ∧
      ∀ p ∈ cut, ∀ c ∈ p.cells, c.ShowsNothing := by
  obtain ⟨kept, cut, hsplit, hrender, hrest⟩ :=
    record_renders_back (by decide : sampleColumns ' ' = 1) sample false
      (by decide : (rowOf sample false).cells.length = 6)
  exact ⟨kept, cut, hsplit, hrender, hrest (by decide)⟩

end Piece

end G2mirror
