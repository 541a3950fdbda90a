import G2mirror.LineFraming
import Mathlib.Algebra.Group.Nat.Defs
import Mathlib.Logic.Function.Basic

/-!
# The server's configuration

The tokens of `g2mirror-server`, their filters, and what is checked at startup
and when a device authenticates. Regular expressions and SHA-256 are third-party
code.
-/

namespace G2mirror

/-- The third-party code that the server decides with, and `{:?}` of a string. -/
structure Crates where
  /-- What a regular expression matches, or why it is none. -/
  regex : String → Except String (String → Bool)
  sha256 : Bytes → Bytes
  debug : String → String

/-- `regex::Regex`: the pattern it was made from, and what it matches. -/
structure Regex where
  pattern : String
  isMatch : String → Bool

/-- `FilterRule`. -/
structure FilterRule where
  /-- Matches the session's real working directory. -/
  path : Option String
  /-- Matches the terminal's current window title. -/
  windowtitle : Option String
  deriving DecidableEq

/-- `LaunchGrant`: a token's launch permission. -/
inductive LaunchGrant
  | flag (all : Bool)
  | named (names : List String)
  deriving DecidableEq

namespace LaunchGrant

/-- `LaunchGrant::allows`. -/
def allows (grant : LaunchGrant) (preset : String) : Bool :=
  match grant with
  | .flag all => all
  | .named names => names.contains preset

/-- `LaunchGrant::is_none`. -/
def isNone : LaunchGrant → Bool
  | .flag all => !all
  | .named names => names.isEmpty

end LaunchGrant

/-- `TokenConfig`. -/
structure TokenConfig where
  name : String
  /-- Hex SHA-256 of the token. -/
  tokenHash : String
  readonly : Bool
  /-- Terminals this token may see and connect to: any rule matches, or there is none. -/
  filter : List FilterRule
  launch : LaunchGrant
  deriving DecidableEq

/-- `LaunchPreset`: what a `launch` request for it starts. -/
structure LaunchPreset where
  argv : List String
  cwd : Option String
  title : Option String
  env : List (String × String)
  allowCwd : Bool
  scrollback : Option ℕ
  readonly : Bool
  size : Option String
  deriving DecidableEq

/-- The server's `Config`. The presets are in the order of their names. -/
structure ServerConfig where
  authTokens : List TokenConfig
  sizePrecedence : List String
  launch : List (String × LaunchPreset)
  /-- Legacy single-token form. -/
  authTokenHash : Option String
  readonly : Option Bool
  deriving DecidableEq

/-- `CompiledRule`: a rule has at least one of its two parts. -/
structure CompiledRule where
  path : Option Regex
  windowtitle : Option Regex
  nonempty : path.isSome ∨ windowtitle.isSome

/-- The pattern of a regular expression that matches the whole value. -/
def enclose (pattern : String) : String := "^(?:" ++ pattern ++ ")$"

/-- `anchored`. -/
def anchored (crates : Crates) (pattern : String) : Except String Regex :=
  match crates.regex (enclose pattern) with
  | .ok isMatch => .ok ⟨enclose pattern, isMatch⟩
  | .error e => .error ("invalid filter regex " ++ crates.debug pattern ++ ": " ++ e)

/-- One part of a rule, compiled if it is there. -/
def compilePart (crates : Crates) :
    (pattern : Option String) →
      Except String { part : Option Regex // part.isSome = pattern.isSome }
  | none => .ok ⟨none, rfl⟩
  | some pattern =>
    match anchored crates pattern with
    | .ok regex => .ok ⟨some regex, rfl⟩
    | .error e => .error e

/-- A rule of the token with this name, compiled. -/
def compileRule (crates : Crates) (name : String) (rule : FilterRule) :
    Except String CompiledRule :=
  if h : rule.path.isSome ∨ rule.windowtitle.isSome then
    match compilePart crates rule.path with
    | .error e => .error e
    | .ok path =>
      match compilePart crates rule.windowtitle with
      | .error e => .error e
      | .ok windowtitle => .ok ⟨path.1, windowtitle.1, by rwa [path.2, windowtitle.2]⟩
  else
    .error ("token " ++ crates.debug name ++
      " has a filter rule with neither path nor windowtitle")

/-- The rules of the token with this name, compiled in order. -/
def compileRules (crates : Crates) (name : String) :
    List FilterRule → Except String (List CompiledRule)
  | [] => .ok []
  | rule :: rules =>
    match compileRule crates name rule with
    | .error e => .error e
    | .ok compiled =>
      match compileRules crates name rules with
      | .error e => .error e
      | .ok rest => .ok (compiled :: rest)

/-- `compile_filter`. -/
def compileFilter (crates : Crates) (token : TokenConfig) : Except String (List CompiledRule) :=
  compileRules crates token.name token.filter

/-- Whether a part of a rule admits a value that may be unknown. -/
def partAllows (part : Option Regex) (value : Option String) : Bool :=
  part.all fun regex => value.any regex.isMatch

/-- `filter_allows`: whether a terminal with this directory and title is visible. -/
def filterAllows (rules : List CompiledRule) (cwd title : Option String) : Bool :=
  rules.isEmpty || rules.any fun rule =>
    partAllows rule.path cwd && partAllows rule.windowtitle title

/-- `char::is_whitespace`. -/
def isWhitespace (c : Char) : Bool :=
  let n := c.toNat
  (9 ≤ n && n ≤ 13) || n = 0x20 || n = 0x85 || n = 0xa0 || n = 0x1680 ||
    (0x2000 ≤ n && n ≤ 0x200a) || n = 0x2028 || n = 0x2029 || n = 0x202f || n = 0x205f ||
    n = 0x3000

/-- `str::trim`. -/
def trim (text : List Char) : List Char :=
  ((text.dropWhile isWhitespace).reverse.dropWhile isWhitespace).reverse

theorem dropWhile_isWhitespace {text : List Char} (h : ∀ c ∈ text, isWhitespace c = false) :
    text.dropWhile isWhitespace = text := by
  cases text with
  | nil => rfl
  | cons c cs => rw [List.dropWhile_cons_of_neg (by simp [h c List.mem_cons_self])]

/-- A digit of `{:02x}`. -/
def hexDigit (n : ℕ) : Char := "0123456789abcdef".toList.getD (n % 16) '0'

/-- `hex`. -/
def hex (bytes : Bytes) : List Char :=
  bytes.flatMap fun b => [hexDigit (b.toNat / 16), hexDigit b.toNat]

/-- `constant_time_eq`. -/
def constantTimeEq (a b : Bytes) : Bool :=
  a.length == b.length && (a.zipWith (· ^^^ ·) b).foldl (· ||| ·) 0 == 0

/-- `token_matches`. -/
def tokenMatches (crates : Crates) (token expectedHex : String) : Bool :=
  constantTimeEq (Utf8.encode (hex (crates.sha256 (utf8 token))))
    (Utf8.encode ((trim expectedHex.toList).map Char.toLower))

/-- `str::parse` of an unsigned number with this maximum. -/
def parseUnsigned (max : ℕ) (text : List Char) : Option ℕ :=
  let digits := match text with
    | '+' :: rest => rest
    | _ => text
  if digits = [] || !digits.all Char.isDigit then none
  else
    let n := digits.foldl (fun n c => 10 * n + (c.toNat - '0'.toNat)) 0
    if n ≤ max then some n else none

/-- `u16::MAX`. -/
def u16Max : ℕ := 2 ^ 16 - 1

/-- `parse_preset_size`: `<cols>x<rows>`, both positive. -/
def parsePresetSize (size : String) : Bool :=
  match size.toList.span (· ≠ 'x') with
  | (_, []) => false
  | (cols, _ :: rows) =>
    match parseUnsigned u16Max cols, parseUnsigned u16Max rows with
    | some cols, some rows => 0 < cols && 0 < rows
    | _, _ => false

example : parsePresetSize "80x24" = true ∧ parsePresetSize "80x" = false := by decide

namespace ServerConfig

/-- `Config::tokens`: all accepted tokens, with the legacy fields folded in. -/
def tokens (config : ServerConfig) : List TokenConfig :=
  match config.authTokenHash with
  | none => config.authTokens
  | some hash => config.authTokens ++
      [⟨"default", hash, config.readonly.getD false, [], .flag false⟩]

/-- What is wrong with a preset, if anything is. -/
def presetError (crates : Crates) (entry : String × LaunchPreset) : Option String :=
  if entry.2.argv = [] then
    some ("launch preset " ++ crates.debug entry.1 ++ " has an empty argv")
  else
    match entry.2.size with
    | none => none
    | some size =>
      if parsePresetSize size then none
      else some ("launch preset " ++ crates.debug entry.1 ++ " has a bad size " ++
        crates.debug size ++ " (want e.g. 80x24)")

/-- What is wrong with a token's launch grant, if anything is. -/
def grantError (crates : Crates) (config : ServerConfig) (token : TokenConfig) : Option String :=
  if token.launch.isNone then none
  else if token.readonly then
    some ("token " ++ crates.debug token.name ++ " is read-only but has a launch grant; " ++
      "a token that can start shells it cannot type into is a contradiction — make it " ++
      "writable or drop the grant")
  else
    match token.launch with
    | .flag _ => none
    | .named names =>
      (names.find? fun name => !config.launch.any (·.1 == name)).map fun name =>
        "token " ++ crates.debug token.name ++ " may launch " ++ crates.debug name ++
          ", but no such launch preset exists"

/-- `Config::validate_launch`: the first error of the launch configuration. -/
def validateLaunch (crates : Crates) (config : ServerConfig) : Option String :=
  (config.launch.findSome? (presetError crates)).or
    (config.tokens.findSome? (grantError crates config))

/-- `Config::size_ranks`: viewer rank and host rank for a token name; lower wins. They are
numbers of 32 bits. -/
def sizeRanks (config : ServerConfig) (tokenName : String) : ℕ × ℕ :=
  let position (name : String) := (config.sizePrecedence.findIdx? (· == name)).map (· % 2 ^ 32)
  let length := config.sizePrecedence.length % 2 ^ 32
  ((position tokenName).getD length, (position "host").getD ((length + 1) % 2 ^ 32))

end ServerConfig

/-- The compiled filters by the names of their tokens. -/
abbrev Filters := String → Option (List CompiledRule)

/-- Filters collected into a map: of two tokens with one name it keeps the later one's. -/
def compileFilters (crates : Crates) : List TokenConfig → Filters → Except String Filters
  | [], filters => .ok filters
  | token :: tokens, filters =>
    match compileFilter crates token with
    | .error e => .error e
    | .ok rules => compileFilters crates tokens (Function.update filters token.name (some rules))

/-- `serve`, up to the start of its tasks: the checks of the config, and the filters. -/
def serve (crates : Crates) (configFile : String) (config : ServerConfig) :
    Except String Filters :=
  if config.tokens = [] then
    .error (configFile ++ " defines no auth tokens; run g2mirror-server --init-config")
  else
    match config.validateLaunch crates with
    | some e => .error e
    | none => compileFilters crates config.tokens fun _ => none

/-- `DeviceInit`: the device's first websocket message. -/
structure DeviceInit where
  msgType : String
  version : ℕ
  authToken : String
  device : String
  width : ℕ
  height : ℕ
  deriving DecidableEq

/-- `authenticate_device`: the token entry of a device, or why it is rejected. -/
def authenticateDevice (crates : Crates) (config : ServerConfig) (init : DeviceInit) :
    Except String TokenConfig :=
  let rejected := .error
    (if init.msgType ≠ "init" then "first message must be init"
      else if init.version ≠ protocolVersion then
        "unsupported protocol version " ++ toString init.version
      else "authentication failed")
  match config.tokens.find? fun t => tokenMatches crates init.authToken t.tokenHash with
  | none => rejected
  | some token =>
    if init.msgType = "init" ∧ init.version = protocolVersion then .ok token else rejected

end G2mirror
