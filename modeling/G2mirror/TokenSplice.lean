import G2mirror.ConfigScan

/-!
# Adding a token to the configuration

A token that is put into the text of the config is one more token of the parsed
config, and nothing else changes: the text before and after it is kept byte for
byte, and so is what it means.
-/

namespace G2mirror

open JsonText (Lexeme Token Doc Quoting quote written inside lexLevels tokens readTokens)

section Slots

variable {slots slots' : Slots} {f : ConfigField} {v v' : Doc}

/-- Another member does not touch a field that is there. -/
theorem addMember_of_isSome {member : Bytes × Doc} (hset : (slots f).isSome = true)
    (h : addMember slots member = some slots') :
    slots' f = slots f ∧
      addMember (Function.update slots f (some v')) member =
        some (Function.update slots' f (some v')) := by
  obtain ⟨name, hname, hadd⟩ := Option.bind_eq_some_iff.mp h
  unfold addMember
  rw [hname, Option.bind_some]
  cases hfind : ConfigField.all.find? (·.name = name) with
  | none =>
    rw [hfind] at hadd
    obtain rfl := Option.some.inj hadd
    exact ⟨rfl, rfl⟩
  | some g =>
    rw [hfind] at hadd
    dsimp only at hadd ⊢
    obtain ⟨hfree, hsome⟩ := Option.ite_none_left_eq_some.mp hadd
    obtain rfl := Option.some.inj hsome
    have hne : f ≠ g := by
      rintro rfl
      exact hfree hset
    rw [Function.update_of_ne hne, Function.update_of_ne hne.symm, if_neg hfree,
      Function.update_comm hne]
    exact ⟨rfl, rfl⟩

theorem addMembers_of_isSome {members : List (Bytes × Doc)} (hset : (slots f).isSome = true)
    (h : members.foldlM addMember slots = some slots') :
    slots' f = slots f ∧
      members.foldlM addMember (Function.update slots f (some v')) =
        some (Function.update slots' f (some v')) := by
  induction members generalizing slots with
  | nil =>
    obtain rfl := Option.some.inj h
    exact ⟨rfl, rfl⟩
  | cons member members ih =>
    rw [List.foldlM_cons] at h
    obtain ⟨next, hnext, hrest⟩ := Option.bind_eq_some_iff.mp h
    obtain ⟨hsame, hupdated⟩ := @addMember_of_isSome _ _ _ v' _ hset hnext
    obtain ⟨hsame', hupdated'⟩ := ih (by rwa [hsame]) hrest
    refine ⟨hsame'.trans hsame, ?_⟩
    rw [List.foldlM_cons, hupdated]
    exact hupdated'

/-- A field has the value of its member, and changes with it. -/
theorem slots_of_member {key : Bytes} (hkey : stringText key = some f.name)
    (hfind : ConfigField.all.find? (·.name = f.name) = some f) {front back : List (Bytes × Doc)}
    (h : (front ++ (key, v) :: back).foldlM addMember slots = some slots') :
    slots' f = some v ∧
      (front ++ (key, v') :: back).foldlM addMember slots =
        some (Function.update slots' f (some v')) := by
  rw [List.foldlM_append] at h ⊢
  obtain ⟨before, hbefore, hrest⟩ := Option.bind_eq_some_iff.mp h
  rw [List.foldlM_cons] at hrest
  obtain ⟨next, hnext, hback⟩ := Option.bind_eq_some_iff.mp hrest
  have hadd (v : Doc) : addMember before (key, v) =
      if (before f).isSome then none else some (Function.update before f (some v)) := by
    unfold addMember
    rw [hkey, Option.bind_some]
    dsimp only
    rw [hfind]
  rw [hadd] at hnext
  obtain ⟨hfree, hsome⟩ := Option.ite_none_left_eq_some.mp hnext
  obtain rfl := Option.some.inj hsome
  have hset : (Function.update before f (some v) f).isSome = true := by
    rw [Function.update_self]
    rfl
  obtain ⟨hsame, hupdated⟩ := @addMembers_of_isSome _ _ _ v' _ hset hback
  rw [Function.update_self] at hsame
  rw [Function.update_idem] at hupdated
  refine ⟨hsame, ?_⟩
  rw [hbefore]
  change ((key, v') :: back).foldlM addMember before = _
  rw [List.foldlM_cons, hadd, if_neg hfree]
  exact hupdated

end Slots

/-- One more item in the array is one more token. -/
theorem ConfigFormat.build_append (fmt : ConfigFormat) {slots : Slots} {config : ConfigFile}
    {items : List Doc} {item : Doc} {token : TokenConfig} (h : fmt.build slots = some config)
    (hitems : slots .authTokens = some (.array items)) (hitem : fmt.token item = some token) :
    fmt.build (Function.update slots .authTokens (some (.array (items ++ [item])))) =
      some { config with authTokens := config.authTokens ++ [token] } := by
  unfold build at h ⊢
  obtain ⟨listenAddr, hlisten, h⟩ := Option.bind_eq_some_iff.mp h
  obtain ⟨port, hport, h⟩ := Option.bind_eq_some_iff.mp h
  obtain ⟨serverName, hname, h⟩ := Option.bind_eq_some_iff.mp h
  obtain ⟨authTokens, htokens, h⟩ := Option.bind_eq_some_iff.mp h
  obtain ⟨sizePrecedence, hsize, h⟩ := Option.bind_eq_some_iff.mp h
  obtain ⟨launch, hlaunch, h⟩ := Option.bind_eq_some_iff.mp h
  obtain ⟨authTokenHash, hhash, h⟩ := Option.bind_eq_some_iff.mp h
  obtain ⟨readonly, hreadonly, h⟩ := Option.bind_eq_some_iff.mp h
  obtain rfl := Option.some.inj h
  rw [hitems] at htokens
  have hall : items.mapM fmt.token = some authTokens := htokens
  have happend : withDefault (some (.array (items ++ [item]))) [] fmt.tokens =
      some (authTokens ++ [token]) := by
    change (items ++ [item]).mapM fmt.token = _
    rw [List.mapM_append, hall, List.mapM_cons, hitem]
    rfl
  have hother {g : ConfigField} (hg : g ≠ .authTokens) (slot : Option Doc) :
      Function.update slots .authTokens slot g = slots g := Function.update_of_ne hg _ _
  rw [@hother .listenAddr (by decide), @hother .port (by decide), @hother .serverName (by decide),
    @hother .sizePrecedence (by decide), @hother .launch (by decide),
    @hother .authTokenHash (by decide), @hother .readonly (by decide), Function.update_self,
    hlisten, hport, hname, hsize, hlaunch, hhash, hreadonly, happend]
  rfl

section Entries

/-- A newline with the indentation after it. -/
def indentLexeme (u : Lexeme) : List Lexeme :=
  if u = .byte 0x0a then .byte 0x0a :: List.replicate 4 (.byte 0x20) else [u]

/-- Indentation is no token. -/
theorem tokens_indent (pending : Bytes) (us : List Lexeme) :
    tokens pending (us.flatMap indentLexeme) = tokens pending us := by
  induction us generalizing pending with
  | nil => rfl
  | cons u us ih =>
    rw [List.flatMap_cons]
    unfold indentLexeme
    split_ifs with hnewline
    · rw [hnewline, List.cons_append, JsonText.tokens_space rfl, JsonText.tokens_space rfl,
        JsonText.tokens_spaces fun v hv => by rw [List.eq_of_mem_replicate hv]; rfl, ← ih]
      rfl
    · rw [List.singleton_append]
      rcases u.kinds with ⟨t, ht⟩ | hspace | ⟨b, rfl, hpunct, hspace⟩
      · rw [JsonText.tokens_token ht, JsonText.tokens_token ht, ← ih]
        rfl
      · rw [JsonText.tokens_space hspace, JsonText.tokens_space hspace, ← ih]
        rfl
      · rw [JsonText.tokens_scalar hpunct hspace, JsonText.tokens_scalar hpunct hspace, ← ih]
        rfl

/-- A newline byte with the indentation after it. -/
def indentByte (b : UInt8) : Bytes := if b = 0x0a then 0x0a :: List.replicate 4 0x20 else [b]

theorem flatMap_indentByte {bs : Bytes} (h : 0x0a ∉ bs) : bs.flatMap indentByte = bs := by
  induction bs with
  | nil => rfl
  | cons b bs ih =>
    rw [List.mem_cons, not_or] at h
    rw [List.flatMap_cons, indentByte, if_neg (Ne.symm h.1), ih h.2]
    rfl

/-- Indented text is encoded as indented bytes. -/
theorem encode_indent (text : List Char) :
    Utf8.encode (indent text) = (Utf8.encode text).flatMap indentByte := by
  induction text with
  | nil => rfl
  | cons c text ih =>
    have hrest : Utf8.encode (c :: text) = String.utf8EncodeChar c ++ Utf8.encode text := rfl
    have hindent : indent (c :: text) =
        (if c = '\n' then '\n' :: List.replicate 4 ' ' else [c]) ++ indent text := rfl
    rw [hrest, hindent, Utf8.encode_append, ih, List.flatMap_append]
    congr 1
    split_ifs with hnewline
    · rw [hnewline]
      rfl
    · have hnone : 0x0a ∉ String.utf8EncodeChar c := by
        intro hmem
        have hvalue := Utf8.toNat_eq_of_mem_encodeChar (by decide) hmem
        exact hnewline (Char.ext (UInt32.toNat_inj.mp hvalue))
      rw [flatMap_indentByte hnone]
      exact List.append_nil _

/-- Indented lexemes are written as indented bytes, as no string contains a newline. -/
theorem written_indent {us : List Lexeme} (hus : ∀ u ∈ us, u.Plain) :
    written (us.flatMap indentLexeme) = (written us).flatMap indentByte := by
  induction us with
  | nil => rfl
  | cons u us ih =>
    obtain ⟨hu, hplain⟩ := List.forall_mem_cons.mp hus
    rw [List.flatMap_cons, JsonText.written_append, ih hplain, JsonText.written_cons,
      List.flatMap_append]
    congr 1
    unfold indentLexeme
    split_ifs with hnewline
    · rw [hnewline]
      rfl
    · have hnone : 0x0a ∉ u.bytes := by
        cases u with
        | string raw =>
          intro hmem
          rcases List.mem_cons.mp hmem with hquote | hmem
          · exact absurd hquote (by decide)
          rcases List.mem_append.mp hmem with hraw | hquote
          · exact absurd (hu _ hraw) (by decide)
          · exact absurd (List.mem_singleton.mp hquote) (by decide)
        | byte b =>
          intro hmem
          rw [List.mem_singleton.mp hmem] at hnewline
          exact hnewline rfl
      rw [flatMap_indentByte hnone]
      simp [written]

/-- The lexemes of an indented document. -/
theorem exists_indented {limit : ℕ} {text : List Char} {doc : Doc}
    (h : JsonText.read limit (Utf8.encode text) = some doc) :
    ∃ us : List Lexeme, Utf8.encode (indent text) = written us ∧ (∀ u ∈ us, u.Closed) ∧
      (∀ u ∈ us, u ≠ .byte 0x2f) ∧ readTokens limit (tokens [] us) = some doc := by
  obtain ⟨us, hlex, hread⟩ := Option.bind_eq_some_iff.mp h
  obtain ⟨hclosed, hwritten⟩ := JsonText.lex_eq_some_iff.mp hlex
  have hplain := JsonText.plain_of_readTokens hread
  have hmem {P : Lexeme → Prop} (hspace : P (.byte 0x20)) (hnewline : P (.byte 0x0a))
      (h : ∀ u ∈ us, P u) : ∀ u ∈ us.flatMap indentLexeme, P u := by
    intro u hu
    obtain ⟨v, hv, huv⟩ := List.mem_flatMap.mp hu
    unfold indentLexeme at huv
    split_ifs at huv
    · rcases List.mem_cons.mp huv with rfl | hrest
      · exact hnewline
      · rw [List.eq_of_mem_replicate hrest]
        exact hspace
    · rw [List.mem_singleton.mp huv]
      exact h v hv
  refine ⟨us.flatMap indentLexeme, ?_, hmem ?_ ?_ hclosed, hmem (by decide) (by decide) ?_, ?_⟩
  · rw [encode_indent, hwritten, written_indent hplain]
  · exact (by decide : (0x20 : UInt8) ≠ quote)
  · exact (by decide : (0x0a : UInt8) ≠ quote)
  · rintro _ hu rfl
    exact (hplain _ hu).2.1 rfl
  · rw [tokens_indent]
    exact hread

end Entries

section Members

variable {limit : ℕ} {us rest : List Lexeme} {doc : Doc} {key : Bytes}

/-- Whitespace of a document is whitespace for the loops. -/
theorem isBlank_of_isSpace {u : Lexeme} (hu : u.isSpace = true) : isBlank u = true := by
  cases u with
  | string raw => cases hu
  | byte b =>
    have hspace : JsonText.isSpace b = true := hu
    unfold JsonText.isSpace at hspace
    simp only [Bool.or_eq_true, decide_eq_true_eq] at hspace
    rcases hspace with ((rfl | rfl) | rfl) | rfl <;> rfl

/-- In a document it is the other way round, too. -/
theorem isSpace_of_isBlank {u : Lexeme} (hplain : u.Plain) (hu : isBlank u = true) :
    u.isSpace = true := by
  cases u with
  | string raw => cases hu
  | byte b =>
    refine hplain.2.2.resolve_right fun hvisible => ?_
    have hblank : isAsciiWhitespace b = true := hu
    unfold isAsciiWhitespace at hblank
    simp only [Bool.or_eq_true, decide_eq_true_eq] at hblank
    rcases hblank with (((rfl | rfl) | rfl) | rfl) | rfl <;> exact absurd hvisible (by decide)

/-- Strings are written with quotes. -/
theorem punct?_ne_string (b : UInt8) (raw : Bytes) : JsonText.punct? b ≠ some (.string raw) := by
  unfold JsonText.punct?
  split_ifs <;> nofun

theorem eq_string_of_token {u : Lexeme} {raw : Bytes} (h : u.token? = some (.string raw)) :
    u = .string raw := by
  cases u with
  | string raw' => rw [Token.string.inj (Option.some.inj h)]
  | byte b => exact absurd h (punct?_ne_string b raw)

/-- How a bracket, a comma or a colon is written. -/
def punctByte : Token → UInt8
  | .opens .array => 0x5b
  | .closes .array => 0x5d
  | .opens .object => 0x7b
  | .closes .object => 0x7d
  | .comma => 0x2c
  | _ => 0x3a

theorem eq_punctByte {b : UInt8} {t : Token} (h : JsonText.punct? b = some t) :
    b = punctByte t := by
  unfold JsonText.punct? at h
  split_ifs at h with h1 h2 h3 h4 h5 h6
  all_goals
    rw [← Option.some.inj h]
    assumption

theorem eq_byte_of_token {u : Lexeme} {t : Token} (ht : ∀ raw, t ≠ .string raw)
    (h : u.token? = some t) : u = .byte (punctByte t) := by
  cases u with
  | string raw => exact absurd (Option.some.inj h).symm (ht raw)
  | byte b => rw [eq_punctByte h]

/-- A document's string and colon at depth one, as lexemes. -/
theorem exists_lexemes_of_member {v : Doc} {members : List (Bytes × Doc)}
    (hread : readTokens limit (tokens [] us) = some (.object members))
    (hmem : (key, v) ∈ members) :
    ∃ before blanks rest, us = before ++ .string key :: (blanks ++ .byte 0x3a :: rest) ∧
      lexLevels 0 limit 0 before = some 1 ∧ ∀ u ∈ blanks, isBlank u = true := by
  obtain ⟨before, after, htokens, hlevels⟩ := JsonText.memberAt_of_mem hread hmem
  obtain ⟨vs, u, ws, rfl, hu, hvs, hws⟩ := JsonText.exists_lexeme (by nofun) htokens
  obtain rfl := eq_string_of_token hu
  obtain ⟨blanks, u, rest, rfl, hu, hblanks, -⟩ := @JsonText.exists_lexeme _ _ .colon nofun [] _ hws
  obtain rfl := eq_byte_of_token (by nofun) hu
  refine ⟨vs, blanks, rest, rfl, ?_, fun u hu => ?_⟩
  · rw [← JsonText.levels_tokens [], hvs, hlevels]
  · exact isBlank_of_isSpace (JsonText.spaces_of_tokens_eq_nil hblanks u hu)

/-- The tokens around the key that is found. -/
theorem tokens_of_keyAt (hplain : ∀ u ∈ us, u.Plain) (h : keyAt key limit 0 us = some rest) :
    ∃ front blanks, us = front ++ .string key :: (blanks ++ .byte 0x3a :: rest) ∧
      JsonText.levels 0 limit 0 (tokens [] front) = some 1 ∧
      (∀ u ∈ blanks, u.isSpace = true) := by
  obtain ⟨front, blanks, rfl, hlevels, hblanks⟩ := keyAt_eq_some h
  refine ⟨front, blanks, rfl, ?_, fun u hu => ?_⟩
  · rw [JsonText.levels_tokens, hlevels]
  · refine isSpace_of_isBlank (hplain u ?_) (hblanks u hu)
    simp [hu]

theorem tokens_member {front blanks rest : List Lexeme} (hblanks : ∀ u ∈ blanks, u.isSpace = true) :
    tokens [] (front ++ .string key :: (blanks ++ .byte 0x3a :: rest)) =
      tokens [] front ++ .string key :: .colon :: tokens [] rest := by
  have hcolon : (Lexeme.byte 0x3a).token? = some .colon := rfl
  rw [JsonText.tokens_append_token rfl, JsonText.tokens_spaces hblanks,
    JsonText.tokens_token hcolon]
  rfl

/-- The value begins with a bracket in the tokens if it does in the text. -/
theorem opens_iff (hplain : ∀ u ∈ rest, u.Plain) :
    (tokens [] rest).head? = some (.opens .array) ↔
      (rest.dropWhile isBlank).head? = some (.byte 0x5b) := by
  have hblanks : ∀ u ∈ rest.takeWhile isBlank, u.isSpace = true := fun u hu =>
    isSpace_of_isBlank (hplain u ((List.takeWhile_prefix _).subset hu)) (List.mem_takeWhile_imp hu)
  constructor
  · intro h
    obtain ⟨after, hafter⟩ := List.head?_eq_some_iff.mp h
    obtain ⟨vs, u, ws, rfl, hu, hvs, -⟩ :=
      @JsonText.exists_lexeme _ _ (.opens .array) nofun [] _ hafter
    obtain rfl := eq_byte_of_token (by nofun) hu
    have hspaces := JsonText.spaces_of_tokens_eq_nil hvs
    rw [List.dropWhile_append_of_pos fun v hv => isBlank_of_isSpace (hspaces v hv)]
    rfl
  · intro h
    obtain ⟨after, hafter⟩ := List.head?_eq_some_iff.mp h
    have hopens : (Lexeme.byte 0x5b).token? = some (.opens .array) := rfl
    rw [← @List.takeWhile_append_dropWhile _ isBlank rest, JsonText.tokens_spaces hblanks,
      hafter, JsonText.tokens_token hopens]
    rfl

/-- The array of the key, as lexemes: another item in it is another item of the document. -/
theorem array_of_keyAt (hplain : ∀ u ∈ us, u.Plain)
    (hread : readTokens limit (tokens [] us) = some doc) (hkey : keyAt key limit 0 us = some rest)
    (hopens : (rest.dropWhile isBlank).head? = some (.byte 0x5b)) :
    ∃ head inner after front items back, us = head ++ .byte 0x5b :: (inner ++ .byte 0x5d :: after) ∧
      rest.dropWhile isBlank = .byte 0x5b :: (inner ++ .byte 0x5d :: after) ∧
      lexLevels 2 limit 2 inner = some 2 ∧ doc = .object (front ++ (key, .array items) :: back) ∧
      ∀ {depth ts item vs}, readTokens depth ts = some item → depth + 2 ≤ limit →
        tokens [] vs = (if tokens [] inner = [] then ts else tokens [] inner ++ .comma :: ts) →
        readTokens limit (tokens [] (head ++ .byte 0x5b :: (vs ++ .byte 0x5d :: after))) =
          some (.object (front ++ (key, .array (items ++ [item])) :: back)) := by
  obtain ⟨before, blanks, rfl, hlevels, hblanks⟩ := tokens_of_keyAt hplain hkey
  obtain ⟨rest', hrest'⟩ := List.head?_eq_some_iff.mp hopens
  obtain ⟨spaces, hspaces, rfl⟩ : ∃ spaces : List Lexeme, (∀ u ∈ spaces, u.isSpace = true) ∧
      rest = spaces ++ .byte 0x5b :: rest' := by
    refine ⟨rest.takeWhile isBlank, fun u hu => ?_, ?_⟩
    · refine isSpace_of_isBlank (hplain u ?_) (List.mem_takeWhile_imp hu)
      have hmem := (List.takeWhile_prefix isBlank).subset hu
      simp [hmem]
    · rw [← hrest', List.takeWhile_append_dropWhile]
  have hbracket : (Lexeme.byte 0x5b).token? = some (.opens .array) := rfl
  have hclosing : (Lexeme.byte 0x5d).token? = some (.closes .array) := rfl
  have htokens (ws : List Lexeme) :
      tokens [] (before ++ .string key :: (blanks ++ .byte 0x3a :: (spaces ++ .byte 0x5b :: ws))) =
        tokens [] before ++ .string key :: .colon :: .opens .array :: tokens [] ws := by
    rw [tokens_member hblanks, JsonText.tokens_spaces hspaces, JsonText.tokens_token hbracket]
    rfl
  rw [htokens] at hread
  obtain ⟨front, items, back, body, closed, rfl, hbody, hinner, hinsert⟩ :=
    JsonText.read_insert hread hlevels
  obtain ⟨inner, u, after, rfl, hu, rfl, rfl⟩ := JsonText.exists_lexeme (by nofun) hbody
  obtain rfl := eq_byte_of_token (by nofun) hu
  refine ⟨before ++ .string key :: (blanks ++ .byte 0x3a :: spaces), inner, after, front, items,
    back, by simp [punctByte], hrest', ?_, rfl, ?_⟩
  · rw [← JsonText.levels_tokens [], hinner]
  · intro depth ts item vs hts hdepth hvs
    have hnew := hinsert hts hdepth
    rw [← hvs, ← JsonText.tokens_append_token hclosing, ← htokens] at hnew
    rw [← hnew]
    simp

end Members

/-- A text is taken apart where its stripped form is, behind a visible byte, and text without
comments can be put there. -/
theorem splice_text {text : List Char} {us vs : List Lexeme} {front : Bytes} {x : UInt8}
    (hstrip : strip .code (Utf8.encode text) = written (us ++ vs)) (hus : ∀ u ∈ us, u.Closed)
    (hwritten : written us = front ++ [x]) (hlow : 0x20 < x.toNat) (hhigh : x.toNat < 0x80)
    (hslash : x ≠ 0x2f) :
    ∃ before after, Utf8.encode text = before ++ after ∧
      slice (Utf8.encode text) 0 (written us).length = .ok before ∧
      slice (Utf8.encode text) (written us).length (Utf8.encode text).length = .ok after ∧
      ∀ (ws : List Lexeme) (inserted : List Char), (∀ w ∈ ws, w.Closed) →
        (∀ w ∈ ws, w ≠ .byte 0x2f) → written ws = Utf8.encode inserted →
          (∃ text', before ++ written ws ++ after = Utf8.encode text') ∧
            strip .code (before ++ written ws ++ after) = written (us ++ (ws ++ vs)) := by
  have hspace : x ≠ 0x20 := by
    rintro rfl
    exact absurd hlow (by decide)
  have hnewline : x ≠ 0x0a := by
    rintro rfl
    exact absurd hlow (by decide)
  rw [JsonText.written_append, hwritten, List.append_assoc, List.singleton_append] at hstrip
  obtain ⟨front', back', htext, hlength, hback, hinsert⟩ :=
    strip_insert hstrip hus hwritten hspace hnewline hslash
  obtain ⟨chars, c, chars', rfl, hfront, hc, hback'⟩ := Utf8.encode_eq_append hhigh htext
  have hend : (written us).length = (front' ++ [x]).length := by
    rw [hwritten, List.length_append, List.length_append, hlength]
  have hsplit : Utf8.encode (chars ++ c :: chars') = (front' ++ [x]) ++ back' := by
    rw [htext, List.append_assoc]
    rfl
  have hboundary : isCharBoundary (Utf8.encode (chars ++ c :: chars')) (front' ++ [x]).length := by
    have hafter := isCharBoundary_after htext hhigh
    rw [← htext] at hafter
    rwa [List.length_append]
  have hstart : isCharBoundary (Utf8.encode (chars ++ c :: chars')) 0 = true := by
    unfold isCharBoundary
    cases hbytes : Utf8.encode (chars ++ c :: chars') <;> rfl
  have hstop : isCharBoundary (Utf8.encode (chars ++ c :: chars'))
      (Utf8.encode (chars ++ c :: chars')).length = true := by
    unfold isCharBoundary
    rw [List.getElem?_eq_none (Nat.le_refl _)]
    exact decide_eq_true rfl
  refine ⟨front' ++ [x], back', hsplit, ?_, ?_, fun ws inserted hws hne hinserted => ⟨?_, ?_⟩⟩
  · rw [hend]
    have hslice := @slice_eq [] back' _ (front' ++ [x]) hsplit hstart
    rw [List.length_nil, Nat.zero_add] at hslice
    exact hslice hboundary
  · rw [hend]
    have hslice := @slice_eq (front' ++ [x]) [] _ back' (by rw [List.append_nil, hsplit]) hboundary
    rw [← List.length_append, ← hsplit] at hslice
    exact hslice hstop
  · refine ⟨chars ++ [c] ++ inserted ++ chars', ?_⟩
    have hlast : Utf8.encode [c] = [x] := by
      rw [← hc]
      exact List.append_nil _
    rw [Utf8.encode_append, Utf8.encode_append, Utf8.encode_append, hfront, hlast, hinserted,
      hback']
  · rw [List.append_assoc, List.append_assoc, List.singleton_append, hinsert ws hws hne,
      JsonText.written_append, JsonText.written_append, hwritten, List.append_assoc,
      List.singleton_append]

section Accepted

variable {fmt : ConfigFormat} {text : List Char} {config : ConfigFile} {us : List Lexeme}
  {doc : Doc}

/-- What the parser accepts are the lexemes of a document with the fields of the config. -/
theorem parseConfig_eq_some_iff :
    fmt.parseConfig (Utf8.encode text) = .ok (some config) ↔
      ∃ us doc slots, strip .code (Utf8.encode text) = written us ∧ (∀ u ∈ us, u.Closed) ∧
        readTokens fmt.maxDepth (tokens [] us) = some doc ∧ slotsOf doc = some slots ∧
          fmt.build slots = some config := by
  unfold ConfigFormat.parseConfig
  rw [stripComments_encode]
  dsimp only
  rw [Except.ok.injEq]
  constructor
  · intro h
    obtain ⟨slots, hslots, hbuild⟩ := Option.bind_eq_some_iff.mp h
    obtain ⟨doc, hread, hslots⟩ := Option.bind_eq_some_iff.mp hslots
    obtain ⟨us, hlex, hread⟩ := Option.bind_eq_some_iff.mp hread
    obtain ⟨hclosed, hwritten⟩ := JsonText.lex_eq_some_iff.mp hlex
    exact ⟨us, doc, slots, hwritten, hclosed, hread, hslots, hbuild⟩
  · rintro ⟨us, doc, slots, hwritten, hclosed, hread, hslots, hbuild⟩
    have hlex := JsonText.lex_eq_some_iff.mpr ⟨hclosed, hwritten⟩
    unfold JsonText.read
    rw [hlex, Option.bind_some, hread, Option.bind_some, hslots, Option.bind_some, hbuild]

theorem length_le_written (us : List Lexeme) : us.length ≤ (written us).length := by
  induction us with
  | nil => exact Nat.le_refl _
  | cons u us ih =>
    have hpos : 0 < u.bytes.length := by cases u <;> exact Nat.succ_pos _
    rw [JsonText.written_cons, List.length_append, List.length_cons]
    omega

/-- In a document the first loop finds what is found lexeme by lexeme. -/
theorem afterKey_document (hlimit : fmt.maxDepth < 2 ^ 31)
    (hstrip : strip .code (Utf8.encode text) = written us) (hclosed : ∀ u ∈ us, u.Closed)
    (hread : readTokens fmt.maxDepth (tokens [] us) = some doc) :
    afterKey (written us) ((written us).length + 1) 0 0 =
      .ok ((keyAt authTokensKey fmt.maxDepth 0 us).map fun rest =>
        (written us).length - (written rest).length) := by
  obtain ⟨stack, hrun⟩ := JsonText.readTokens_eq_some_iff.mp hread
  have hlevels := JsonText.run_levels hrun
  rw [JsonText.levels_tokens] at hlevels
  obtain ⟨stripped, hstripped⟩ := exists_stripped text
  have hlength := length_le_written us
  exact @afterKey_written _ hlimit stripped us hclosed [] (hstripped.symm.trans hstrip) 0
    (Nat.zero_le _) ⟨_, hlevels⟩ _ (by omega)

/-- Without the key there is no splice. -/
theorem insertTokenText_none (hlimit : fmt.maxDepth < 2 ^ 31)
    (hstrip : strip .code (Utf8.encode text) = written us) (hclosed : ∀ u ∈ us, u.Closed)
    (hread : readTokens fmt.maxDepth (tokens [] us) = some doc)
    (hkey : keyAt authTokensKey fmt.maxDepth 0 us = none) (token : TokenConfig) :
    insertTokenText fmt (Utf8.encode text) token = .ok none := by
  have hafter := afterKey_document hlimit hstrip hclosed hread
  rw [hkey] at hafter
  unfold insertTokenText
  rw [stripComments_encode, hstrip]
  change (afterKey _ _ 0 0).bind _ = _
  rw [hafter]
  rfl

/-- The first loop ends before the value of the key. -/
theorem start_of_keyAt {rest : List Lexeme}
    (hkey : keyAt authTokensKey fmt.maxDepth 0 us = some rest) :
    ∃ head, us = head ++ rest ∧ (written us).length - (written rest).length =
      (written head).length := by
  obtain ⟨before, blanks, rfl, -, -⟩ := keyAt_eq_some hkey
  refine ⟨before ++ .string authTokensKey :: (blanks ++ [.byte 0x3a]), by simp, ?_⟩
  simp only [JsonText.written_append, JsonText.written_cons, JsonText.written_nil,
    List.length_append, List.length_nil]
  omega

/-- Where the value is no array there is no splice. -/
theorem insertTokenText_other (hlimit : fmt.maxDepth < 2 ^ 31)
    (hstrip : strip .code (Utf8.encode text) = written us) (hclosed : ∀ u ∈ us, u.Closed)
    (hread : readTokens fmt.maxDepth (tokens [] us) = some doc) {rest : List Lexeme}
    (hkey : keyAt authTokensKey fmt.maxDepth 0 us = some rest)
    (hother : (rest.dropWhile isBlank).head? ≠ some (.byte 0x5b)) (token : TokenConfig) :
    insertTokenText fmt (Utf8.encode text) token = .ok none := by
  have hafter := afterKey_document hlimit hstrip hclosed hread
  obtain ⟨head, rfl, hlength⟩ := start_of_keyAt hkey
  rw [hkey, Option.map_some, hlength] at hafter
  have hbyte := byte_at_iff (written head) rest (b := 0x5b) (by decide)
  rw [← JsonText.written_append] at hbyte
  unfold insertTokenText
  rw [stripComments_encode, hstrip]
  change (afterKey _ _ 0 0).bind _ = _
  rw [hafter]
  exact if_pos (mt hbyte.mp hother)

/-- The second loop finds the end of the array. -/
theorem closing_array (hlimit : fmt.maxDepth < 2 ^ 31) (hdepth : 2 ≤ fmt.maxDepth)
    {head inner after : List Lexeme} (hclosed : ∀ u ∈ inner, u.Closed)
    (hlevels : lexLevels 2 fmt.maxDepth 2 inner = some 2)
    (hus : us = head ++ .byte 0x5b :: (inner ++ .byte 0x5d :: after)) :
    closing (written us) ((written us).length + 1) (written head).length 0 =
      .ok ((written head).length + 1 + (written inner).length) := by
  have hopen : written us =
      written head ++ 0x5b :: (written inner ++ 0x5d :: written after) := by
    rw [hus]
    simp [Lexeme.bytes]
  have hfront : written us =
      (written head ++ [0x5b]) ++ (written inner ++ 0x5d :: written after) := by
    rw [hopen, List.append_cons]
  have hget : (written us)[(written head).length]? = some 0x5b := by
    rw [hopen]
    exact getElem?_at _ _ _
  have hlength : inner.length < (written us).length := by
    have hinner := length_le_written inner
    rw [hopen, List.length_append, List.length_cons, List.length_append, List.length_cons]
    omega
  have hloop := @closing_written _ hlimit inner hclosed (written head ++ [0x5b]) (written after)
    0x5d (.inl rfl) 2 (Nat.le_refl 2) hdepth hlevels _ hlength
  rw [← hfront, List.length_append, List.length_append] at hloop
  have hquote : (0x5b : UInt8) ≠ 0x22 := by decide
  have hi32 : i32 (0 + 1) = ((2 : ℕ) : ℤ) - 1 := rfl
  rw [List.length_append] at hloop
  rw [closing, hget]
  dsimp only
  rw [if_neg hquote, if_pos (.inl rfl), hi32]
  exact hloop

/-- With an array there is a splice where the text can be taken apart. -/
theorem insertTokenText_array (hlimit : fmt.maxDepth < 2 ^ 31) (hdepth : 2 ≤ fmt.maxDepth)
    (hstrip : strip .code (Utf8.encode text) = written us) (hclosed : ∀ u ∈ us, u.Closed)
    (hread : readTokens fmt.maxDepth (tokens [] us) = some doc) {rest : List Lexeme}
    (hkey : keyAt authTokensKey fmt.maxDepth 0 us = some rest) {head inner after : List Lexeme}
    (hus : us = head ++ .byte 0x5b :: (inner ++ .byte 0x5d :: after))
    (hrest : rest.dropWhile isBlank = .byte 0x5b :: (inner ++ .byte 0x5d :: after))
    (hlevels : lexLevels 2 fmt.maxDepth 2 inner = some 2) {token : TokenConfig} {pretty : String}
    (hpretty : fmt.pretty token = .ok pretty) {splice : ℕ × Bytes} {before back : Bytes}
    (hsplice : splicePoint (written head).length (written inner)
      (Utf8.encode (indent pretty.toList)) = splice)
    (hbefore : slice (Utf8.encode text) 0 splice.1 = .ok before)
    (hback : slice (Utf8.encode text) splice.1 (Utf8.encode text).length = .ok back) :
    insertTokenText fmt (Utf8.encode text) token = .ok (some (before ++ splice.2 ++ back)) := by
  have hafter := afterKey_document hlimit hstrip hclosed hread
  obtain ⟨front, hfront, hlength⟩ := start_of_keyAt hkey
  rw [hkey, Option.map_some, hlength] at hafter
  -- The bracket is behind the whitespace after the colon.
  have hblanks : rest = rest.takeWhile isBlank ++ .byte 0x5b :: (inner ++ .byte 0x5d :: after) := by
    rw [← hrest, List.takeWhile_append_dropWhile]
  have hhead : head = front ++ rest.takeWhile isBlank := by
    rw [hblanks, ← List.append_assoc, hus] at hfront
    exact List.append_cancel_right hfront
  have hstart : skipWhitespace (written us) (written front).length = (written head).length := by
    rw [hfront, JsonText.written_append, skipWhitespace_at, hhead, JsonText.written_append]
  have hopen : written us =
      written head ++ 0x5b :: (written inner ++ 0x5d :: written after) := by
    rw [hus]
    simp [Lexeme.bytes]
  have hget : (written us)[(written head).length]? = some 0x5b := by
    rw [hopen]
    exact getElem?_at _ _ _
  have hclose := closing_array hlimit hdepth (fun u hu => hclosed u (by simp [hus, hu])) hlevels hus
  -- Between the brackets is a slice of the stripped text.
  have hinner : slice (written us) ((written head).length + 1)
      ((written head).length + 1 + (written inner).length) = .ok (written inner) := by
    obtain ⟨stripped, hstripped⟩ := exists_stripped text
    have htext : Utf8.encode stripped =
        written head ++ 0x5b :: (written inner ++ 0x5d :: written after) := by
      rw [← hstripped, hstrip, hopen]
    have hafterBracket := isCharBoundary_after htext (by decide)
    have hend := @isCharBoundary_at (written head ++ 0x5b :: written inner) (written after) 0x5d
      (by decide)
    have hlast : (written head ++ 0x5b :: written inner).length =
        (written head).length + 1 + (written inner).length := by
      rw [List.length_append, List.length_cons]
      omega
    have hsame : (written head ++ 0x5b :: written inner) ++ 0x5d :: written after = written us := by
      rw [hopen, List.append_assoc, List.cons_append]
    rw [← hopen] at hafterBracket
    rw [hlast, hsame] at hend
    have hslice := @slice_eq (written head ++ [0x5b]) (0x5d :: written after) (written us)
      (written inner) (by rw [hopen, List.append_cons])
    rw [List.length_append] at hslice
    exact hslice hafterBracket hend
  unfold insertTokenText
  rw [stripComments_encode, hstrip]
  change (afterKey _ _ 0 0).bind _ = _
  rw [hafter]
  dsimp only [Except.bind]
  rw [hstart, if_neg (not_not.mpr hget), hclose, hpretty]
  change (slice (written us) _ _).bind _ = _
  rw [hinner]
  dsimp only [Except.bind]
  rw [hsplice, hbefore, hback]
  rfl

end Accepted

section Places

/-- Bytes outside of strings. -/
def layout (text : String) : List Lexeme := (utf8 text).map .byte

theorem written_layout (text : String) : written (layout text) = utf8 text := by
  have hbytes (bs : Bytes) : written (bs.map Lexeme.byte) = bs := by
    induction bs with
    | nil => rfl
    | cons b bs ih =>
      rw [List.map_cons, JsonText.written_cons, ih]
      rfl
  exact hbytes _

theorem written_between (opening ending : String) (us : List Lexeme) :
    written (layout opening ++ us ++ layout ending) =
      utf8 opening ++ written us ++ utf8 ending := by
  rw [JsonText.written_append, JsonText.written_append, written_layout, written_layout]

/-- A text without strings and comments. -/
def IsLayout (text : String) : Prop := ∀ b ∈ utf8 text, b ≠ quote ∧ b ≠ 0x2f

instance (text : String) : Decidable (IsLayout text) := List.decidableBAll _ (utf8 text)

theorem layout_closed {text : String} (h : IsLayout text) :
    ∀ u ∈ layout text, u.Closed ∧ u ≠ .byte 0x2f := by
  intro u hu
  obtain ⟨b, hb, rfl⟩ := List.mem_map.mp hu
  obtain ⟨hquote, hslash⟩ := h b hb
  exact ⟨hquote, fun hbyte => hslash (Lexeme.byte.inj hbyte)⟩

variable {head inner after : List Lexeme}

/-- In an empty array the entry is put behind the bracket. -/
theorem place_empty (head : List Lexeme) (hinner : ∀ u ∈ inner, u.isSpace = true) :
    (∀ entry, splicePoint (written head).length (written inner) entry =
      ((written (head ++ [.byte 0x5b])).length, utf8 "\n    " ++ entry ++ utf8 "\n  ")) ∧
    ∀ ue, tokens [] (layout "\n    " ++ ue ++ layout "\n  " ++ inner) = tokens [] ue := by
  constructor
  · intro entry
    unfold splicePoint
    rw [rfindVisible_spaces hinner, JsonText.written_append, List.length_append]
    rfl
  · intro ue
    have hfirst : ∀ u ∈ layout "\n    ", u.isSpace = true := by decide
    have hlast : ∀ u ∈ layout "\n  ", u.isSpace = true := by decide
    rw [List.append_assoc, List.append_assoc, JsonText.tokens_spaces hfirst]
    refine JsonText.tokens_append_spaces fun u hu => ?_
    exact (List.mem_append.mp hu).elim (hlast u) (hinner u)

/-- Else it is put behind the last item. -/
theorem place_last {stripped : List Char} {core spaces : List Lexeme} {u : Lexeme}
    (htext : Utf8.encode stripped =
      written (head ++ .byte 0x5b :: (core ++ u :: spaces ++ .byte 0x5d :: after)))
    (hspaces : ∀ v ∈ spaces, v.isSpace = true) {front : Bytes} {x : UInt8}
    (hlast : written (core ++ [u]) = front ++ [x]) (hlow : 0x20 < x.toNat)
    (hhigh : x.toNat < 0x80) :
    (∀ entry, splicePoint (written head).length (written (core ++ u :: spaces)) entry =
      ((written (head ++ .byte 0x5b :: (core ++ [u]))).length,
        utf8 ",\n    " ++ entry ++ utf8 "")) ∧
    ∀ ue, tokens [] (core ++ [u] ++ (layout ",\n    " ++ ue ++ layout "" ++ spaces)) =
      tokens [] (core ++ u :: spaces) ++ .comma :: tokens [] ue := by
  have hinner : written (core ++ u :: spaces) = front ++ x :: written spaces := by
    rw [List.append_cons, JsonText.written_append, hlast, List.append_assoc]
    rfl
  constructor
  · intro entry
    -- The text between the brackets is text.
    obtain ⟨chars, hchars⟩ : ∃ chars, Utf8.encode chars = front ++ x :: written spaces := by
      have hopen : Utf8.encode stripped = written head ++
          0x5b :: (written (core ++ u :: spaces) ++ 0x5d :: written after) := by
        rw [htext]
        simp [Lexeme.bytes]
      obtain ⟨-, -, behind, -, -, -, hbehind⟩ := Utf8.encode_eq_append (by decide) hopen
      obtain ⟨chars, -, -, -, hchars, -, -⟩ := Utf8.encode_eq_append (by decide) hbehind
      exact ⟨chars, hchars.trans hinner⟩
    have hempty : utf8 "" = [] := rfl
    unfold splicePoint
    rw [hinner, rfindVisible_eq hspaces hlow hhigh hchars, hempty, List.append_nil,
      JsonText.written_append, JsonText.written_cons, hlast]
    simp only [Lexeme.bytes, List.length_append, List.length_cons, List.length_nil]
    congr 1
    omega
  · intro ue
    have hcomma : (Lexeme.byte 0x2c).token? = some .comma := rfl
    have hblanks : ∀ v ∈ layout "\n    ", v.isSpace = true := by decide
    have hlayout : layout ",\n    " = .byte 0x2c :: layout "\n    " := by decide
    have hempty : layout "" = [] := rfl
    have hcore : core ++ u :: spaces = core ++ [u] ++ spaces := List.append_cons _ _ _
    rw [hlayout, hempty, List.append_nil, List.cons_append, List.cons_append,
      JsonText.tokens_append_token hcomma, List.append_assoc, JsonText.tokens_spaces hblanks,
      JsonText.tokens_append_spaces hspaces, hcore, JsonText.tokens_append_spaces hspaces]

/-- The place of an entry among the items, and the tokens with it. -/
theorem exists_place {stripped : List Char}
    (htext : Utf8.encode stripped =
      written (head ++ .byte 0x5b :: (inner ++ .byte 0x5d :: after)))
    (hplain : ∀ u ∈ inner, u.Plain) :
    ∃ core spaces front x opening ending, inner = core ++ spaces ∧
      written (head ++ .byte 0x5b :: core) = front ++ [x] ∧
      (0x20 < x.toNat ∧ x.toNat < 0x80 ∧ x ≠ 0x2f) ∧ IsLayout opening ∧ IsLayout ending ∧
      (∀ entry, splicePoint (written head).length (written inner) entry =
        ((written (head ++ .byte 0x5b :: core)).length,
          utf8 opening ++ entry ++ utf8 ending)) ∧
      ∀ ue, tokens [] (core ++ (layout opening ++ ue ++ layout ending ++ spaces)) =
        if tokens [] inner = [] then tokens [] ue
        else tokens [] inner ++ .comma :: tokens [] ue := by
  rcases List.eq_nil_or_concat (inner.rdropWhile Lexeme.isSpace) with hnil | ⟨core, u, hcore⟩
  · have hspaces := List.rdropWhile_eq_nil_iff.mp hnil
    have hnone := @JsonText.tokens_spaces [] inner hspaces
    rw [List.append_nil] at hnone
    obtain ⟨hpoint, htokens⟩ := place_empty head hspaces
    refine ⟨[], inner, written head, 0x5b, _, _, rfl, ?_, by decide, by decide, by decide, hpoint,
      fun ue => ?_⟩
    · rw [JsonText.written_append]
      rfl
    · have hempty : tokens [] inner = [] := hnone
      rw [if_pos hempty]
      exact htokens ue
  · have hsplit : inner = core ++ u :: inner.rtakeWhile Lexeme.isSpace := by
      have hsame := @List.rdropWhile_append_rtakeWhile _ Lexeme.isSpace inner
      rw [hcore, List.concat_eq_append, List.append_assoc] at hsame
      exact hsame.symm
    have hspaces : ∀ v ∈ inner.rtakeWhile Lexeme.isSpace, v.isSpace = true := fun v hv =>
      List.mem_rtakeWhile_imp hv
    have hvisible : u.isSpace = false := by
      have hlast := List.rdropWhile_last_not Lexeme.isSpace inner
        (by rw [hcore, List.concat_eq_append]; exact List.append_ne_nil_of_right_ne_nil _ nofun)
      simpa [hcore] using hlast
    generalize inner.rtakeWhile Lexeme.isSpace = spaces at hsplit hspaces
    subst hsplit
    obtain ⟨front, x, hlast, hlow, hhigh, hslash⟩ :=
      @exists_last_byte core u (hplain u (by simp)) hvisible
    obtain ⟨hpoint, htokens⟩ := place_last htext hspaces hlast hlow hhigh
    have hne : tokens [] (core ++ u :: spaces) ≠ [] := by
      intro hnil
      have hspace := JsonText.spaces_of_tokens_eq_nil hnil u (by simp)
      rw [hvisible] at hspace
      cases hspace
    refine ⟨core ++ [u], spaces, written head ++ 0x5b :: front, x, _, _, ?_, ?_,
      ⟨hlow, hhigh, hslash⟩, by decide, by decide, hpoint, fun ue => ?_⟩
    · rw [List.append_cons]
    · rw [JsonText.written_append, JsonText.written_cons, hlast, List.append_assoc]
      rfl
    · rw [if_neg hne]
      exact htokens ue

end Places

/-- The token as it is read back: without a grant nothing is written for it. -/
def TokenConfig.reparsed (token : TokenConfig) : TokenConfig :=
  { token with launch := if token.launch.isNone then .flag false else token.launch }

namespace ConfigFormat

/-- The written token is read as this token. A token contains filters, and these their rules. -/
def PrettyReads (fmt : ConfigFormat) (token : TokenConfig) : Prop :=
  ∃ pretty doc, fmt.pretty token = .ok pretty ∧ JsonText.read 3 (utf8 pretty) = some doc ∧
    fmt.token doc = some token.reparsed

/-- The text has a literal `auth_tokens` array at its top level. -/
def HasTokensArray (fmt : ConfigFormat) (text : Bytes) : Prop :=
  ∃ stripped members items, stripComments text = .ok stripped ∧
    JsonText.read fmt.maxDepth stripped = some (.object members) ∧
      (authTokensKey, .array items) ∈ members

end ConfigFormat

section Tokens

variable {fmt : ConfigFormat} {text : List Char} {us : List Lexeme} {slots : Slots}

theorem stringText_authTokens : stringText authTokensKey = some ConfigField.authTokens.name := by
  decide +kernel

theorem find_authTokens :
    ConfigField.all.find? (·.name = ConfigField.authTokens.name) = some .authTokens := by decide

/-- The array of the config is found by the first loop. -/
theorem keyAt_of_hasTokensArray (hstrip : strip .code (Utf8.encode text) = written us)
    (hclosed : ∀ u ∈ us, u.Closed) {doc : Doc}
    (hread : readTokens fmt.maxDepth (tokens [] us) = some doc) (hslots : slotsOf doc = some slots)
    (harray : fmt.HasTokensArray (Utf8.encode text)) :
    ∃ rest, keyAt authTokensKey fmt.maxDepth 0 us = some rest ∧
      (rest.dropWhile isBlank).head? = some (.byte 0x5b) := by
  obtain ⟨stripped, members, items, hstripped, hmembers, hmem⟩ := harray
  obtain rfl := Except.ok.inj ((stripComments_encode text).symm.trans hstripped)
  have hdocument : JsonText.read fmt.maxDepth (strip .code (Utf8.encode text)) = some doc := by
    unfold JsonText.read
    rw [JsonText.lex_eq_some_iff.mpr ⟨hclosed, hstrip⟩, Option.bind_some, hread]
  obtain rfl := Option.some.inj (hdocument.symm.trans hmembers)
  have hplain := JsonText.plain_of_readTokens hread
  obtain ⟨rest, hkey⟩ : ∃ rest, keyAt authTokensKey fmt.maxDepth 0 us = some rest := by
    obtain ⟨before, blanks, rest, rfl, hlevels, hblanks⟩ := exists_lexemes_of_member hread hmem
    exact Option.ne_none_iff_exists'.mp (keyAt_ne_none hlevels hblanks)
  refine ⟨rest, hkey, ?_⟩
  obtain ⟨before, blanks, rfl, hlevels, hblanks⟩ := tokens_of_keyAt hplain hkey
  rw [tokens_member hblanks] at hread
  obtain ⟨front, v, back, hdoc, hkind⟩ := JsonText.read_member hread hlevels
  obtain rfl := Doc.object.inj hdoc
  -- The field is there once, so that this member is the array.
  obtain ⟨front', back', hsplit⟩ := List.append_of_mem hmem
  have hvalue := (@slots_of_member _ _ _ _ v _ stringText_authTokens find_authTokens _ _ hslots).1
  rw [hsplit] at hslots
  have harray := (@slots_of_member _ _ _ _ v _ stringText_authTokens find_authTokens _ _ hslots).1
  obtain rfl := Option.some.inj (hvalue.symm.trans harray)
  exact (opens_iff fun u hu => hplain u (by simp [hu])).mp (hkind.mp rfl)

/-- The token in the array that is found. -/
theorem splice_array {config : ConfigFile} (hdepth : 5 ≤ fmt.maxDepth)
    (hlimit : fmt.maxDepth < 2 ^ 31)
    (hstrip : strip .code (Utf8.encode text) = written us) (hclosed : ∀ u ∈ us, u.Closed)
    {doc : Doc} (hread : readTokens fmt.maxDepth (tokens [] us) = some doc)
    (hslots : slotsOf doc = some slots) (hbuild : fmt.build slots = some config)
    {rest : List Lexeme} (hkey : keyAt authTokensKey fmt.maxDepth 0 us = some rest)
    (hopens : (rest.dropWhile isBlank).head? = some (.byte 0x5b)) {token : TokenConfig}
    (hpretty : fmt.PrettyReads token) :
    ∃ before insert after, Utf8.encode text = before ++ after ∧
      insertTokenText fmt (Utf8.encode text) token = .ok (some (before ++ insert ++ after)) ∧
      fmt.parseConfig (before ++ insert ++ after) =
        .ok (some { config with authTokens := config.authTokens ++ [token.reparsed] }) := by
  have hplain := JsonText.plain_of_readTokens hread
  obtain ⟨head, inner, after, front, items, back, hus, hrest, hlevels, rfl, hinsert⟩ :=
    array_of_keyAt hplain hread hkey hopens
  obtain ⟨pretty, item, hpretty, hitem, htoken⟩ := hpretty
  obtain ⟨ue, hentry, hentryClosed, hentrySlash, hentryRead⟩ := exists_indented hitem
  obtain ⟨stripped, hstripped⟩ := exists_stripped text
  obtain ⟨core, spaces, written', x, opening, ending, rfl, hlast, ⟨hlow, hhigh, hslash⟩, hopening,
      hending, hpoint, htokens⟩ := @exists_place _ _ _ stripped
    (by rw [← hstripped, hstrip, hus]) fun u hu => hplain u (by simp [hus, hu])
  -- The text is taken apart at the place.
  have hsplit : us = (head ++ .byte 0x5b :: core) ++ (spaces ++ .byte 0x5d :: after) := by
    rw [hus]
    simp
  rw [hsplit] at hstrip
  obtain ⟨before, behind, htext, hbefore, hbehind, hparts⟩ := splice_text hstrip
    (fun u hu => hclosed u (by rw [hsplit]; exact List.mem_append_left _ hu)) hlast hlow hhigh
    hslash
  rw [← hsplit] at hstrip
  have hinserted : written (layout opening ++ ue ++ layout ending) =
      Utf8.encode (opening.toList ++ indent pretty.toList ++ ending.toList) := by
    rw [written_between, ← hentry, Utf8.encode_append, Utf8.encode_append]
    rfl
  have hsurround : ∀ u ∈ layout opening ++ ue ++ layout ending, u.Closed ∧ u ≠ .byte 0x2f := by
    intro u hu
    rw [List.mem_append, List.mem_append] at hu
    rcases hu with (hu | hu) | hu
    · exact layout_closed hopening u hu
    · exact ⟨hentryClosed u hu, hentrySlash u hu⟩
    · exact layout_closed hending u hu
  obtain ⟨⟨text', htext'⟩, hstrip'⟩ := hparts _ _ (fun u hu => (hsurround u hu).1)
    (fun u hu => (hsurround u hu).2) hinserted
  have hsplice : splicePoint (written head).length (written (core ++ spaces))
      (Utf8.encode (indent pretty.toList)) = ((written (head ++ .byte 0x5b :: core)).length,
        written (layout opening ++ ue ++ layout ending)) := by
    rw [hpoint, written_between, hentry]
  have hedit := insertTokenText_array hlimit (by omega) hstrip hclosed hread hkey hus hrest hlevels
    hpretty hsplice hbefore hbehind
  refine ⟨before, written (layout opening ++ ue ++ layout ending), behind, htext, hedit, ?_⟩
  -- The item is read where it is put, and the config is built from it.
  have hdocument := hinsert hentryRead (by omega) (htokens ue)
  obtain ⟨hvalue, hslots'⟩ := @slots_of_member _ _ _ _ (.array (items ++ [item])) _
    stringText_authTokens find_authTokens _ _ hslots
  have hconfig := fmt.build_append hbuild hvalue htoken
  rw [htext'] at hstrip' ⊢
  refine parseConfig_eq_some_iff.mpr ⟨_, .object (front ++ (authTokensKey, .array _) :: back), _,
    hstrip', ?_, ?_, hslots', hconfig⟩
  · intro u hu
    rcases List.mem_append.mp hu with hleft | hu
    · exact hclosed u (by rw [hsplit]; exact List.mem_append_left _ hleft)
    rcases List.mem_append.mp hu with hentry | hright
    · exact (hsurround u hentry).1
    · exact hclosed u (by rw [hsplit]; exact List.mem_append_right _ hright)
  · rw [← hdocument]
    simp

end Tokens

/-- A token that is added by splicing is one more token of the config, and every byte of the
text is kept. Only a text without an array for the tokens has no place for it. -/
theorem insert_token_keeps_config {fmt : ConfigFormat}
    (hdepth : 5 ≤ fmt.maxDepth ∧ fmt.maxDepth < 2 ^ 31) {text : String} {config : ConfigFile}
    (hparse : fmt.parseConfig (utf8 text) = .ok (some config)) {token : TokenConfig}
    (hpretty : fmt.PrettyReads token) :
    ∃ result, insertTokenText fmt (utf8 text) token = .ok result ∧
      (∀ new, result = some new →
        (∃ before insert after, utf8 text = before ++ after ∧ new = before ++ insert ++ after) ∧
          fmt.parseConfig new =
            .ok (some { config with authTokens := config.authTokens ++ [token.reparsed] })) ∧
      (result = none → ¬ fmt.HasTokensArray (utf8 text)) := by
  obtain ⟨us, doc, slots, hstrip, hclosed, hread, hslots, hbuild⟩ :=
    parseConfig_eq_some_iff.mp hparse
  have hfound := keyAt_of_hasTokensArray hstrip hclosed hread hslots
  rcases hkey : keyAt authTokensKey fmt.maxDepth 0 us with _ | rest
  · refine ⟨none, insertTokenText_none hdepth.2 hstrip hclosed hread hkey token, nofun, ?_⟩
    rintro - harray
    obtain ⟨rest, hrest, -⟩ := hfound harray
    cases hkey.symm.trans hrest
  · by_cases hopens : (rest.dropWhile isBlank).head? = some (.byte 0x5b)
    · obtain ⟨before, insert, after, htext, hinsert, hnew⟩ := splice_array hdepth.1 hdepth.2 hstrip
        hclosed hread hslots hbuild hkey hopens hpretty
      refine ⟨_, hinsert, ?_, nofun⟩
      rintro new hsome
      obtain rfl := Option.some.inj hsome
      exact ⟨⟨before, insert, after, htext, rfl⟩, hnew⟩
    · refine ⟨none, insertTokenText_other hdepth.2 hstrip hclosed hread hkey hopens token, nofun,
        ?_⟩
      rintro - harray
      obtain ⟨rest', hrest, hbracket⟩ := hfound harray
      obtain rfl := Option.some.inj (hkey.symm.trans hrest)
      exact hopens hbracket

/-- The string that an object has for this key. -/
def sampleString (members : List (Bytes × Doc)) (key : String) : Option String :=
  (members.find? fun member => stringText member.1 = some key).bind fun member =>
    match member.2 with
    | .string raw => stringText raw
    | _ => none

/-- A format for a config with one address and for read-only tokens without rules and grants. -/
def sampleFormat : ConfigFormat where
  maxDepth := 127
  listenAddr
    | .string raw => (stringText raw).map .one
    | _ => none
  port
    | .scalar raw => (Utf8.decode? raw).bind (parseUnsigned u16Max)
    | _ => none
  serverName _ := none
  token
    | .object members =>
      (sampleString members "name").bind fun name =>
        (sampleString members "token_hash").map fun hash => ⟨name, hash, true, [], .flag false⟩
    | _ => none
  sizePrecedence _ := none
  launch _ := none
  authTokenHash _ := none
  readonly _ := none
  pretty token := .ok ("\x7b\n  \"name\": \"" ++ token.name ++ "\",\n  \"token_hash\": \"" ++
    token.tokenHash ++ "\",\n  \"readonly\": true\n\x7d")

/-- A config with comments, and a token with a name that looks like one. -/
def sampleText : String :=
  "\x7b // \"auth_tokens\": [\n  \"listen_addr\": \"::1\", \"port\": 1, /* mine */\n" ++
    "  \"auth_tokens\" /* [ */ : [\x7b\"name\": \"/* ] \\\" [\", \"token_hash\": \"aa\"\x7d" ++
    " // last\n  ]\n\x7d\n"

theorem insert_token_sample :
    ∃ new, insertTokenText sampleFormat (utf8 sampleText)
        ⟨"rob", "bb", true, [], .named []⟩ = .ok (some new) ∧
      sampleFormat.parseConfig new = .ok (some ⟨⟨[⟨"/* ] \" [", "aa", true, [], .flag false⟩,
        ⟨"rob", "bb", true, [], .flag false⟩], [], [], none, none⟩, .one "::1", 1, none⟩) := by
  have hparse : sampleFormat.parseConfig (utf8 sampleText) =
      .ok (some ⟨⟨[⟨"/* ] \" [", "aa", true, [], .flag false⟩], [], [], none, none⟩, .one "::1", 1,
        none⟩) := by decide +kernel
  have hpretty : sampleFormat.PrettyReads ⟨"rob", "bb", true, [], .named []⟩ := by
    obtain ⟨pretty, hpretty, hread⟩ : ∃ pretty,
        sampleFormat.pretty ⟨"rob", "bb", true, [], .named []⟩ = .ok pretty ∧
          (JsonText.read 3 (utf8 pretty)).bind sampleFormat.token =
            some ⟨"rob", "bb", true, [], .flag false⟩ := ⟨_, rfl, by decide +kernel⟩
    obtain ⟨doc, hdoc, htoken⟩ := Option.bind_eq_some_iff.mp hread
    exact ⟨pretty, doc, hpretty, hdoc, htoken⟩
  obtain ⟨result, hresult, hsome, -⟩ :=
    insert_token_keeps_config ⟨by decide, by decide⟩ hparse hpretty
  cases result with
  | none => exact absurd hresult (by decide +kernel)
  | some new => exact ⟨new, hresult, (hsome new rfl).2⟩

end G2mirror
