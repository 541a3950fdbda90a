import G2mirror.History
import G2mirror.Server
import Mathlib.Data.List.TakeDrop

/-!
# The options of a wrapper

The server launches a preset with `g2mirror --detached`, which runs itself again with
`--headless`: what a preset says is written as arguments twice and read twice. What
is run and how comes out as the preset has it, also where a value looks like an option.
-/

namespace G2mirror

/-- `OsStr::to_str`. -/
def toStr (arg : Bytes) : Option String := (Utf8.decode? arg).map String.ofList

@[simp] theorem toStr_utf8 (text : String) : toStr (utf8 text) = some text := by
  unfold toStr utf8
  rw [Utf8.decode?_encode, Option.map_some, String.ofList_toList]

/-- `usize::MAX`. -/
def usizeMax : ℕ := 2 ^ 64 - 1

/-- `parse_size`: `<cols>x<rows>` as rows and columns. -/
def parseSize (s : String) : Option (ℕ × ℕ) :=
  match s.toList.span (· ≠ 'x') with
  | (_, []) => none
  | (cols, _ :: rows) =>
    match parseUnsigned u16Max cols, parseUnsigned u16Max rows with
    | some cols, some rows => if 0 < cols ∧ 0 < rows then some (rows, cols) else none
    | _, _ => none

/-- What the option loop has read. -/
structure Flags where
  title : Option String
  readonly : Bool
  scrollback : ℕ
  headless : Bool
  detached : Bool
  /-- Rows and columns. -/
  initialSize : ℕ × ℕ
  launched : Option String

/-- What is assumed where no option says otherwise. -/
def Flags.default : Flags where
  title := none
  readonly := false
  scrollback := defaultMaxLines
  headless := false
  detached := false
  initialSize := (24, 80)
  launched := none

/-- `WrapOpts`: how a command is wrapped. -/
structure WrapOpts where
  program : Bytes
  args : List Bytes
  title : Option String
  readonly : Bool
  scrollback : ℕ
  headless : Bool
  /-- Rows and columns. -/
  initialSize : ℕ × ℕ
  launched : Option String

/-- What `main` makes of its arguments. -/
inductive Invocation
  | list
  | attach (args : List Bytes)
  /-- After this message, if any. -/
  | usage (message : Option String)
  | wrap (opts : WrapOpts) (detached : Bool)

/-- What is run with these flags. -/
def Flags.wrap (flags : Flags) (program : Bytes) (args : List Bytes) : Invocation :=
  .wrap ⟨program, args, flags.title, flags.readonly, flags.scrollback, flags.headless,
    flags.initialSize, flags.launched⟩ flags.detached

/-- The value of `--title=<title>`. -/
def titleValue (s : String) : Option String :=
  ("--title=".toList.isPrefixOf? s.toList).map String.ofList

/-- The option loop of `main`. -/
def optionLoop (flags : Flags) : List Bytes → Invocation
  | [] => .usage none
  | arg :: args =>
    match toStr arg with
    | none => flags.wrap arg args
    | some s =>
      if s = "--title" then
        match args with
        | [] => .usage (some "g2mirror: --title requires a value")
        | value :: args => optionLoop { flags with title := some (fromUtf8Lossy value) } args
      else if (titleValue s).isSome then optionLoop { flags with title := titleValue s } args
      else if s = "--readonly" then optionLoop { flags with readonly := true } args
      else if s = "--scrollback" then
        match args with
        | [] => .usage (some "g2mirror: --scrollback requires a number of lines")
        | value :: args =>
          match (toStr value).bind fun v => parseUnsigned usizeMax v.toList with
          | some lines => optionLoop { flags with scrollback := lines } args
          | none => .usage (some "g2mirror: --scrollback requires a number of lines")
      else if s = "--headless" then optionLoop { flags with headless := true } args
      else if s = "--detached" then optionLoop { flags with detached := true } args
      else if s = "--initial-size" then
        match args with
        | [] => .usage (some "g2mirror: --initial-size requires <cols>x<rows>, e.g. 80x24")
        | value :: args =>
          match (toStr value).bind parseSize with
          | some size => optionLoop { flags with initialSize := size } args
          | none => .usage (some "g2mirror: --initial-size requires <cols>x<rows>, e.g. 80x24")
      else if s = "--launched" then
        match args with
        | [] => .usage (some "g2mirror: --launched requires a preset name")
        | value :: args => optionLoop { flags with launched := some (fromUtf8Lossy value) } args
      else if s = "--" then
        match args with
        | [] => .usage none
        | program :: args => flags.wrap program args
      else if s.toList.head? = some '-' ∧ 1 < (utf8 s).length then
        .usage (some ("g2mirror: unknown option " ++ s))
      else flags.wrap arg args

/-- `main`, up to what it starts. -/
def mainArgs (argv : List Bytes) : Invocation :=
  match argv with
  | [] => optionLoop .default []
  | first :: rest =>
    if toStr first = some "--list" ∨ toStr first = some "-l" then
      if rest = [] then .list
      else .usage (some "g2mirror: --list takes no further arguments")
    else if toStr first = some "--attach" ∨ toStr first = some "-a" then .attach rest
    else optionLoop .default argv

/-- The arguments that `spawn_detached` runs the wrapper with. -/
def detachedArgs (opts : WrapOpts) : List Bytes :=
  [utf8 "--headless"] ++
    (match opts.title with
      | none => []
      | some title => [utf8 "--title", utf8 title]) ++
    (if opts.readonly then [utf8 "--readonly"] else []) ++
    [utf8 "--scrollback", utf8 (toString opts.scrollback)] ++
    [utf8 "--initial-size",
      utf8 (toString opts.initialSize.2 ++ "x" ++ toString opts.initialSize.1)] ++
    (match opts.launched with
      | none => []
      | some name => [utf8 "--launched", utf8 name]) ++
    [utf8 "--", opts.program] ++ opts.args

section Numbers

/-- A number is read as it is printed. -/
theorem parseUnsigned_toString {max n : ℕ} (hn : n ≤ max) :
    parseUnsigned max (toString n).toList = some n := by
  have hdigits : (toString n).toList = Nat.toDigits 10 n := Nat.toList_repr
  have hall : (Nat.toDigits 10 n).all Char.isDigit = true :=
    List.all_eq_true.mpr fun c hc => Nat.isDigit_of_mem_toDigits (by decide) (by decide) hc
  have hvalue : (Nat.toDigits 10 n).foldl (fun n c => 10 * n + (c.toNat - '0'.toNat)) 0 = n := by
    rw [← Nat.ofDigitChars_eq_foldl, Nat.ofDigitChars_ten_toDigits]
  have hne : Nat.toDigits 10 n ≠ [] := Nat.toDigits_ne_nil
  rw [hdigits]
  unfold parseUnsigned
  split
  · rename_i rest heq
    rw [heq] at hall
    cases hall
  · dsimp only
    rw [hall, hvalue, decide_eq_false hne]
    exact if_pos hn

theorem parseUnsigned_le {max n : ℕ} {text : List Char} (h : parseUnsigned max text = some n) :
    n ≤ max := by
  unfold parseUnsigned at h
  dsimp only at h
  split_ifs at h with _ hle
  obtain rfl := Option.some.inj h
  exact hle

/-- A text with an `x` is taken apart at the first one. -/
theorem span_x {cols rows : List Char} (hcols : 'x' ∉ cols) :
    (cols ++ 'x' :: rows).span (· ≠ 'x') = (cols, 'x' :: rows) := by
  have hkeep : ∀ c ∈ cols, decide (c ≠ 'x') = true := fun c hc =>
    decide_eq_true fun h => hcols (h ▸ hc)
  rw [List.span_eq_takeWhile_dropWhile, List.takeWhile_append_of_pos hkeep,
    List.dropWhile_append_of_pos hkeep]
  simp

theorem parseSize_eq_some {s : String} {size : ℕ × ℕ} :
    parseSize s = some size ↔ ∃ cols rows, s.toList = cols ++ 'x' :: rows ∧ 'x' ∉ cols ∧
      parseUnsigned u16Max cols = some size.2 ∧ parseUnsigned u16Max rows = some size.1 ∧
      0 < size.2 ∧ 0 < size.1 := by
  constructor
  · intro h
    unfold parseSize at h
    split at h
    · cases h
    · rename_i cols x rows hspan
      rw [List.span_eq_takeWhile_dropWhile, Prod.mk.injEq] at hspan
      obtain ⟨hcols, hrows⟩ := hspan
      have hx : x = 'x' := by
        have hhead := List.head?_dropWhile_not (fun c => decide (c ≠ 'x')) s.toList
        rw [hrows] at hhead
        simpa using hhead
      have hnot : 'x' ∉ cols := by
        intro hmem
        rw [← hcols] at hmem
        exact absurd (List.mem_takeWhile_imp hmem) (by decide)
      split at h
      · rename_i c r hc hr
        split_ifs at h with hpos
        obtain rfl := Option.some.inj h
        refine ⟨cols, rows, ?_, hnot, hc, hr, hpos⟩
        rw [← List.takeWhile_append_dropWhile (p := fun c => decide (c ≠ 'x')) (l := s.toList),
          hcols, hrows, hx]
      · cases h
  · rintro ⟨cols, rows, hs, hx, hcols, hrows, hpos⟩
    unfold parseSize
    rw [hs, span_x hx]
    dsimp only
    rw [hcols, hrows]
    exact if_pos hpos

/-- A size is read as it is printed. -/
theorem parseSize_toString {size : ℕ × ℕ} (hrows : 0 < size.1 ∧ size.1 ≤ u16Max)
    (hcols : 0 < size.2 ∧ size.2 ≤ u16Max) :
    parseSize (toString size.2 ++ "x" ++ toString size.1) = some size := by
  refine parseSize_eq_some.mpr ⟨(toString size.2).toList, (toString size.1).toList, ?_, ?_,
    parseUnsigned_toString hcols.2, parseUnsigned_toString hrows.2, hcols.1, hrows.1⟩
  · simp
  · have hdigits : (toString size.2).toList = Nat.toDigits 10 size.2 := Nat.toList_repr
    rw [hdigits]
    intro hx
    exact absurd (Nat.isDigit_of_mem_toDigits (by decide) (by decide) hx) (by decide)

/-- The server accepts the sizes that the wrapper can read. -/
theorem isSome_parseSize (s : String) : (parseSize s).isSome = parsePresetSize s := by
  unfold parseSize parsePresetSize
  rcases s.toList.span (· ≠ 'x') with ⟨cols, _ | ⟨x, rows⟩⟩
  · rfl
  · dsimp only
    rcases parseUnsigned u16Max cols with _ | c
    · rfl
    · rcases parseUnsigned u16Max rows with _ | r
      · rfl
      · dsimp only
        rw [← Bool.decide_and]
        split_ifs with h
        · exact (decide_eq_true h).symm
        · exact (decide_eq_false h).symm

end Numbers

section Loop

variable (flags : Flags) (rest : List Bytes)

theorem optionLoop_title (value : String) :
    optionLoop flags (utf8 "--title" :: utf8 value :: rest) =
      optionLoop { flags with title := some value } rest := by
  rw [optionLoop.eq_def]
  simp only [toStr_utf8, if_true, fromUtf8Lossy_utf8]

theorem optionLoop_readonly (readonly : Bool) :
    optionLoop flags ((if readonly then [utf8 "--readonly"] else []) ++ rest) =
      optionLoop { flags with readonly := flags.readonly || readonly } rest := by
  cases readonly with
  | false =>
    rw [Bool.or_false]
    rfl
  | true =>
    rw [if_pos rfl, List.singleton_append, optionLoop.eq_def, Bool.or_true]
    simp only [toStr_utf8]
    rfl

theorem optionLoop_scrollback {value : String} {lines : ℕ}
    (hlines : parseUnsigned usizeMax value.toList = some lines) :
    optionLoop flags (utf8 "--scrollback" :: utf8 value :: rest) =
      optionLoop { flags with scrollback := lines } rest := by
  rw [optionLoop.eq_def]
  simp only [toStr_utf8, Option.bind_some, hlines]
  rfl

theorem optionLoop_headless :
    optionLoop flags (utf8 "--headless" :: rest) =
      optionLoop { flags with headless := true } rest := by
  rw [optionLoop.eq_def]
  simp only [toStr_utf8]
  rfl

theorem optionLoop_detached :
    optionLoop flags (utf8 "--detached" :: rest) =
      optionLoop { flags with detached := true } rest := by
  rw [optionLoop.eq_def]
  simp only [toStr_utf8]
  rfl

theorem optionLoop_initialSize {value : String} {size : ℕ × ℕ}
    (hsize : parseSize value = some size) :
    optionLoop flags (utf8 "--initial-size" :: utf8 value :: rest) =
      optionLoop { flags with initialSize := size } rest := by
  rw [optionLoop.eq_def]
  simp only [toStr_utf8, Option.bind_some, hsize]
  rfl

theorem optionLoop_launched (value : String) :
    optionLoop flags (utf8 "--launched" :: utf8 value :: rest) =
      optionLoop { flags with launched := some value } rest := by
  rw [optionLoop.eq_def]
  simp only [toStr_utf8, fromUtf8Lossy_utf8]
  rfl

/-- Behind `--` nothing is an option. -/
theorem optionLoop_program (program : Bytes) :
    optionLoop flags (utf8 "--" :: program :: rest) = flags.wrap program rest := by
  rw [optionLoop.eq_def]
  simp only [toStr_utf8]
  rfl

end Loop

/-- Arguments that do not ask for a list or to attach. -/
theorem mainArgs_options {first : String} (hlist : first ∉ ["--list", "-l"])
    (hattach : first ∉ ["--attach", "-a"]) (rest : List Bytes) :
    mainArgs (utf8 first :: rest) = optionLoop .default (utf8 first :: rest) := by
  unfold mainArgs
  simp only [toStr_utf8, Option.some.injEq]
  rw [if_neg fun h => hlist (by simpa using h), if_neg fun h => hattach (by simpa using h)]

/-- A value that is not set adds no arguments. -/
theorem launchArgs_eq (name title : String) (preset : LaunchPreset) :
    launchArgs name title preset = ["--detached", "--launched", name, "--title", title] ++
      (if preset.readonly then ["--readonly"] else []) ++
      preset.scrollback.elim [] (fun lines => ["--scrollback", toString lines]) ++
      preset.size.elim [] (fun size => ["--initial-size", size]) ++ "--" :: preset.argv := by
  unfold launchArgs
  cases preset.scrollback <;> cases preset.size <;> rfl

/-- The server's arguments for a preset, read. -/
theorem mainArgs_launchArgs {name title program : String} {args : List String}
    {preset : LaunchPreset} (hargv : preset.argv = program :: args)
    (hscrollback : ∀ lines, preset.scrollback = some lines → lines ≤ usizeMax) {size : ℕ × ℕ}
    (hsize : preset.size.elim (some (24, 80)) parseSize = some size) :
    mainArgs ((launchArgs name title preset).map utf8) =
      .wrap ⟨utf8 program, args.map utf8, some title, preset.readonly,
        preset.scrollback.getD defaultMaxLines, false, size, some name⟩ true := by
  have hreadonly : (if preset.readonly then ["--readonly"] else []).map utf8 =
      if preset.readonly then [utf8 "--readonly"] else [] := by
    split_ifs <;> rfl
  have hlines (flags : Flags) (rest : List Bytes) :
      optionLoop flags ((preset.scrollback.elim [] fun lines =>
        ["--scrollback", toString lines]).map utf8 ++ rest) =
      optionLoop { flags with scrollback := preset.scrollback.getD flags.scrollback } rest := by
    cases hpreset : preset.scrollback with
    | none => rfl
    | some lines =>
      exact optionLoop_scrollback flags rest (parseUnsigned_toString (hscrollback lines hpreset))
  have hinitial (flags : Flags) (rest : List Bytes)
      (hflags : preset.size.elim (some flags.initialSize) parseSize = some size) :
      optionLoop flags ((preset.size.elim [] fun size =>
        ["--initial-size", size]).map utf8 ++ rest) =
      optionLoop { flags with initialSize := size } rest := by
    cases hpreset : preset.size with
    | none =>
      rw [hpreset, Option.elim_none] at hflags
      rw [← Option.some.inj hflags]
      rfl
    | some text =>
      rw [hpreset] at hflags
      exact optionLoop_initialSize flags rest hflags
  rw [launchArgs_eq, hargv]
  simp only [List.map_append, List.append_assoc, List.map_cons, List.cons_append,
    List.nil_append]
  rw [mainArgs_options (by decide) (by decide), optionLoop_detached, optionLoop_launched,
    optionLoop_title, hreadonly, optionLoop_readonly]
  rw [hlines, hinitial _ _ hsize, optionLoop_program]
  rfl

/-- The arguments of a detached wrapper, read. -/
theorem mainArgs_detachedArgs {opts : WrapOpts} (hscrollback : opts.scrollback ≤ usizeMax)
    (hrows : 0 < opts.initialSize.1 ∧ opts.initialSize.1 ≤ u16Max)
    (hcols : 0 < opts.initialSize.2 ∧ opts.initialSize.2 ≤ u16Max) :
    mainArgs (detachedArgs opts) = .wrap { opts with headless := true } false := by
  have htitle (flags : Flags) (rest : List Bytes) :
      optionLoop flags ((match opts.title with
        | none => []
        | some title => [utf8 "--title", utf8 title]) ++ rest) =
      optionLoop { flags with title := opts.title.or flags.title } rest := by
    cases opts.title with
    | none => rfl
    | some title => exact optionLoop_title flags rest title
  have hlaunched (flags : Flags) (rest : List Bytes) :
      optionLoop flags ((match opts.launched with
        | none => []
        | some name => [utf8 "--launched", utf8 name]) ++ rest) =
      optionLoop { flags with launched := opts.launched.or flags.launched } rest := by
    cases opts.launched with
    | none => rfl
    | some name => exact optionLoop_launched flags rest name
  rw [detachedArgs]
  simp only [List.append_assoc, List.cons_append, List.nil_append]
  rw [mainArgs_options (by decide) (by decide), optionLoop_headless]
  refine (htitle _ _).trans ?_
  rw [optionLoop_readonly, optionLoop_scrollback _ _ (parseUnsigned_toString hscrollback),
    optionLoop_initialSize _ _ (parseSize_toString hrows hcols)]
  refine (hlaunched _ _).trans ?_
  rw [optionLoop_program]
  unfold Flags.wrap Flags.default
  simp only [Option.or_none, Bool.false_or]

/-- The initial size that a preset asks for, as rows and columns. -/
def LaunchPreset.HasSize (preset : LaunchPreset) (size : ℕ × ℕ) : Prop :=
  match preset.size with
  | none => size = (24, 80)
  | some text => ∃ cols rows, text.toList = cols ++ 'x' :: rows ∧ 'x' ∉ cols ∧
      parseUnsigned u16Max cols = some size.2 ∧ parseUnsigned u16Max rows = some size.1

/-- A preset that is accepted runs something. -/
theorem argv_of_presetError {crates : Crates} {name : String} {preset : LaunchPreset}
    (h : ServerConfig.presetError crates (name, preset) = none) :
    ∃ program args, preset.argv = program :: args := by
  unfold ServerConfig.presetError at h
  cases hargv : preset.argv with
  | nil =>
    rw [if_pos hargv] at h
    cases h
  | cons program args => exact ⟨program, args, rfl⟩

/-- The size of a preset that is accepted can be read. -/
theorem size_of_presetError {crates : Crates} {name : String} {preset : LaunchPreset}
    (h : ServerConfig.presetError crates (name, preset) = none) :
    ∃ size, preset.size.elim (some (24, 80)) parseSize = some size := by
  obtain ⟨program, args, hargv⟩ := argv_of_presetError h
  unfold ServerConfig.presetError at h
  rw [if_neg (by rw [hargv]; exact List.cons_ne_nil _ _)] at h
  cases hsize : preset.size with
  | none => exact ⟨(24, 80), rfl⟩
  | some text =>
    rw [hsize] at h
    dsimp only at h
    split_ifs at h with hparse
    exact Option.isSome_iff_exists.mp ((isSome_parseSize text).trans hparse)

theorem presetError_of_validateLaunch {crates : Crates} {config : ServerConfig} {name : String}
    {preset : LaunchPreset} (hvalid : config.validateLaunch crates = none)
    (hpreset : config.launch.lookup name = some preset) :
    ServerConfig.presetError crates (name, preset) = none := by
  obtain ⟨before, after, hlaunch, -⟩ := List.lookup_eq_some_iff.mp hpreset
  have hmem : (name, preset) ∈ config.launch := by
    rw [hlaunch]
    exact List.mem_append_right _ List.mem_cons_self
  exact List.findSome?_eq_none_iff.mp (Option.or_eq_none_iff.mp hvalid).1 _ hmem

/-- What a valid preset says reaches the wrapper that runs it: the server's arguments are
those of a detached wrapper, and its arguments those of a headless one that runs the preset's
program with its arguments, and has its title, mode, scrollback, size and name. -/
theorem launch_preset_survives {crates : Crates} {config : ServerConfig} {name : String}
    {preset : LaunchPreset} (hvalid : config.validateLaunch crates = none)
    (hpreset : config.launch.lookup name = some preset)
    (hscrollback : ∀ lines, preset.scrollback = some lines → lines < 2 ^ 32) :
    ∃ program args opts size, preset.argv = program :: args ∧ preset.HasSize size ∧
      mainArgs ((launchArgs name (preset.title.getD name) preset).map utf8) = .wrap opts true ∧
      mainArgs (detachedArgs opts) =
        .wrap ⟨utf8 program, args.map utf8, some (preset.title.getD name), preset.readonly,
          preset.scrollback.getD defaultMaxLines, true, size, some name⟩ false := by
  have herror := presetError_of_validateLaunch hvalid hpreset
  obtain ⟨program, args, hargv⟩ := argv_of_presetError herror
  obtain ⟨size, hsize⟩ := size_of_presetError herror
  have hlines : preset.scrollback.getD defaultMaxLines ≤ usizeMax := by
    cases hlines : preset.scrollback with
    | none => decide
    | some lines =>
      have hlt := hscrollback lines hlines
      unfold usizeMax
      rw [Option.getD_some]
      omega
  have hread : preset.HasSize size ∧ (0 < size.1 ∧ size.1 ≤ u16Max) ∧
      0 < size.2 ∧ size.2 ≤ u16Max := by
    unfold LaunchPreset.HasSize
    cases htext : preset.size with
    | none =>
      rw [htext] at hsize
      obtain rfl := Option.some.inj hsize
      exact ⟨rfl, by decide, by decide⟩
    | some text =>
      rw [htext] at hsize
      obtain ⟨cols, rows, hsplit, hx, hcols, hrows, hpos⟩ := parseSize_eq_some.mp hsize
      exact ⟨⟨cols, rows, hsplit, hx, hcols, hrows⟩, ⟨hpos.2, parseUnsigned_le hrows⟩,
        hpos.1, parseUnsigned_le hcols⟩
  refine ⟨program, args, _, size, hargv, hread.1, mainArgs_launchArgs hargv ?_ hsize,
    mainArgs_detachedArgs hlines hread.2.1 hread.2.2⟩
  intro lines hsome
  rwa [hsome] at hlines

/-- A preset whose values look like options. -/
def optionLike : LaunchPreset where
  argv := ["--detached", "--", "-a"]
  cwd := none
  title := some "--"
  env := []
  allowCwd := false
  scrollback := some 7
  readonly := true
  size := some "+100x024"

theorem optionLike_survives :
    ∃ program args opts size, optionLike.argv = program :: args ∧ optionLike.HasSize size ∧
      mainArgs ((launchArgs "--list" "--" optionLike).map utf8) = .wrap opts true ∧
      mainArgs (detachedArgs opts) =
        .wrap ⟨utf8 program, args.map utf8, some "--", true, 7, true, size, some "--list"⟩ false :=
  @launch_preset_survives ⟨fun _ => .error "", id, id⟩
    ⟨[], [], [("--list", optionLike)], none, none⟩ "--list" optionLike (by decide) rfl
    (by rintro _ ⟨⟩; decide)

end G2mirror
