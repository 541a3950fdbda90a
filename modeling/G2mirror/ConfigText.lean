import G2mirror.Library.JsonText
import G2mirror.ServerConfig

/-!
# The text of the configuration

`g2mirror-server --add-token` puts a token into the text of the config file, so
that comments survive. Comments are blanked first: what is found in the stripped
text is at the same place in the original.
-/

namespace G2mirror

/-- Why there is no result: an error, or a panic. -/
inductive Failure
  | err (message : String)
  | panic
  deriving DecidableEq

/-- `str::is_char_boundary`. -/
def isCharBoundary (bytes : Bytes) (i : ℕ) : Bool :=
  match bytes[i]? with
  | some b => i = 0 || !Utf8.continues b
  | none => i = bytes.length

/-- A slice of a string: both ends have to be boundaries of characters. -/
def slice (bytes : Bytes) (start stop : ℕ) : Except Failure Bytes :=
  if start ≤ stop ∧ isCharBoundary bytes start ∧ isCharBoundary bytes stop then
    .ok ((bytes.drop start).take (stop - start))
  else .error .panic

/-- Where the loop of `strip_comments` is. -/
inductive StripMode
  | code
  | string
  /-- After a backslash in a string. -/
  | escape
  | line
  /-- At the star that begins a comment. -/
  | blockStart
  | block
  /-- At the slash that ends a comment. -/
  | blockEnd
  deriving DecidableEq

/-- One byte of `strip_comments`, and the byte after it: what is written for it. -/
def stripStep (mode : StripMode) (b : UInt8) (next : Option UInt8) : StripMode × UInt8 :=
  match mode with
  | .string =>
    (if b = JsonText.backslash then .escape else if b = JsonText.quote then .code else .string, b)
  | .escape => (.string, b)
  | .code =>
    if b = 0x2f ∧ next = some 0x2f then (.line, 0x20)
    else if b = 0x2f ∧ next = some 0x2a then (.blockStart, 0x20)
    else (if b = JsonText.quote then .string else .code, b)
  | .line => if b = 0x0a then (.code, b) else (.line, 0x20)
  | .blockStart => (.block, 0x20)
  | .block =>
    if b = 0x2a ∧ next = some 0x2f then (.blockEnd, 0x20)
    else (.block, if b = 0x0a then b else 0x20)
  | .blockEnd => (.code, 0x20)

/-- The loop of `strip_comments`. -/
def strip (mode : StripMode) : Bytes → Bytes
  | [] => []
  | b :: bs => (stripStep mode b bs.head?).2 :: strip (stripStep mode b bs.head?).1 bs

/-- `strip_comments`: comments become spaces, but for the newlines in them. -/
def stripComments (input : Bytes) : Except Failure Bytes :=
  let out := strip .code input
  if (Utf8.decode? out).isSome then .ok out else .error .panic

/-- `ListenAddrs`. -/
inductive ListenAddrs
  | one (addr : String)
  | many (addrs : List String)
  deriving DecidableEq

/-- `Config`, with the fields that the other modules do not look at. -/
structure ConfigFile extends ServerConfig where
  listenAddr : ListenAddrs
  port : ℕ
  serverName : Option String
  deriving DecidableEq

/-- The fields of `Config` in their order. -/
inductive ConfigField
  | listenAddr
  | port
  | serverName
  | authTokens
  | sizePrecedence
  | launch
  | authTokenHash
  | readonly
  deriving DecidableEq

/-- All fields. -/
def ConfigField.all : List ConfigField :=
  [.listenAddr, .port, .serverName, .authTokens, .sizePrecedence, .launch, .authTokenHash,
    .readonly]

/-- The name of a field. -/
def ConfigField.name : ConfigField → String
  | .listenAddr => "listen_addr"
  | .port => "port"
  | .serverName => "server_name"
  | .authTokens => "auth_tokens"
  | .sizePrecedence => "size_precedence"
  | .launch => "launch"
  | .authTokenHash => "auth_token_hash"
  | .readonly => "readonly"

/-- `serde_json` and what it derives for the types of the fields: how deep it reads, what it
decodes, and how it writes a token. -/
structure ConfigFormat where
  maxDepth : ℕ
  listenAddr : JsonText.Doc → Option ListenAddrs
  port : JsonText.Doc → Option ℕ
  serverName : JsonText.Doc → Option (Option String)
  token : JsonText.Doc → Option TokenConfig
  sizePrecedence : JsonText.Doc → Option (List String)
  launch : JsonText.Doc → Option (List (String × LaunchPreset))
  authTokenHash : JsonText.Doc → Option (Option String)
  readonly : JsonText.Doc → Option (Option Bool)
  /-- `serde_json::to_string_pretty`. -/
  pretty : TokenConfig → Except Failure String

/-- What a string between its quotes stands for. -/
def stringText (raw : Bytes) : Option String :=
  ((Utf8.decode? raw).bind fun text =>
    (Json.read ⟨0, fun _ => true⟩ ('"' :: (text ++ ['"']))).bind Json.string?).map String.ofList

/-- What was found for the fields. -/
abbrev Slots := ConfigField → Option JsonText.Doc

/-- A member of the config: unknown ones are ignored, and no field may be there twice. -/
def addMember (slots : Slots) (member : Bytes × JsonText.Doc) : Option Slots :=
  (stringText member.1).bind fun name =>
    match ConfigField.all.find? (·.name = name) with
    | none => some slots
    | some f => if (slots f).isSome then none else some (Function.update slots f (some member.2))

/-- The fields of an object, or of an array that has them in their order. -/
def slotsOf : JsonText.Doc → Option Slots
  | .object members => members.foldlM addMember fun _ => none
  | .array items =>
    if items.length ≤ ConfigField.all.length then some fun f => items[ConfigField.all.idxOf f]?
    else none
  | _ => none

namespace ConfigFormat

/-- A field that has a default. -/
def withDefault {α : Type} (slot : Option JsonText.Doc) (default : α)
    (decode : JsonText.Doc → Option α) : Option α :=
  match slot with
  | some doc => decode doc
  | none => some default

/-- The tokens are an array. -/
def tokens (fmt : ConfigFormat) : JsonText.Doc → Option (List TokenConfig)
  | .array items => items.mapM fmt.token
  | _ => none

/-- The config with these fields. -/
def build (fmt : ConfigFormat) (slots : Slots) : Option ConfigFile := do
  let listenAddr ← (slots .listenAddr).bind fmt.listenAddr
  let port ← (slots .port).bind fmt.port
  let serverName ← withDefault (slots .serverName) none fmt.serverName
  let authTokens ← withDefault (slots .authTokens) [] fmt.tokens
  let sizePrecedence ← withDefault (slots .sizePrecedence) [] fmt.sizePrecedence
  let launch ← withDefault (slots .launch) [] fmt.launch
  let authTokenHash ← withDefault (slots .authTokenHash) none fmt.authTokenHash
  let readonly ← withDefault (slots .readonly) none fmt.readonly
  return ⟨⟨authTokens, sizePrecedence, launch, authTokenHash, readonly⟩, listenAddr, port,
    serverName⟩

/-- `parse_config`, without the texts of `serde_json`'s errors. -/
def parseConfig (fmt : ConfigFormat) (text : Bytes) : Except Failure (Option ConfigFile) :=
  match stripComments text with
  | .error failure => .error failure
  | .ok stripped =>
    .ok (((JsonText.read fmt.maxDepth stripped).bind slotsOf).bind fmt.build)

end ConfigFormat

/-- `u8::is_ascii_whitespace`. -/
def isAsciiWhitespace (b : UInt8) : Bool :=
  b = 0x20 || b = 0x09 || b = 0x0a || b = 0x0c || b = 0x0d

/-- How far the loop of `skip_string` goes. -/
def stringLength : Bytes → ℕ
  | [] => 0
  | [b] => if b = JsonText.backslash then 2 else 1
  | b :: c :: rest =>
    if b = JsonText.backslash then 2 + stringLength rest
    else if b = JsonText.quote then 1
    else 1 + stringLength (c :: rest)

/-- `skip_string`: the index just past the closing quote. -/
def skipString (bytes : Bytes) (i : ℕ) : ℕ := i + 1 + stringLength (bytes.drop (i + 1))

/-- The index of the first byte from here on that is no whitespace. -/
def skipWhitespace (bytes : Bytes) (i : ℕ) : ℕ :=
  i + ((bytes.drop i).takeWhile isAsciiWhitespace).length

/-- Arithmetic of `i32`. -/
def i32 (n : ℤ) : ℤ := n.bmod (2 ^ 32)

/-- The key and its quotes. -/
def quotedAuthTokensKey : Bytes := utf8 "\"auth_tokens\""

/-- The loop that finds the key at depth one: the index after its colon. -/
def afterKey (bytes : Bytes) : (fuel i : ℕ) → (depth : ℤ) → Except Failure (Option ℕ)
  | 0, _, _ => .ok none
  | fuel + 1, i, depth =>
    match bytes[i]? with
    | none => .ok none
    | some b =>
      if b = 0x22 then
        let next := skipString bytes i
        if depth = 1 then
          match slice bytes i next with
          | .error failure => .error failure
          | .ok string =>
            let j := skipWhitespace bytes next
            if string = quotedAuthTokensKey ∧ bytes[j]? = some 0x3a then .ok (some (j + 1))
            else afterKey bytes fuel next depth
        else afterKey bytes fuel next depth
      else if b = 0x7b ∨ b = 0x5b then afterKey bytes fuel (i + 1) (i32 (depth + 1))
      else if b = 0x7d ∨ b = 0x5d then afterKey bytes fuel (i + 1) (i32 (depth - 1))
      else afterKey bytes fuel (i + 1) depth

/-- The loop that finds the bracket that closes the array. -/
def closing (bytes : Bytes) : (fuel i : ℕ) → (depth : ℤ) → Except Failure ℕ
  | 0, _, _ => .error (.err "unterminated auth_tokens array")
  | fuel + 1, i, depth =>
    match bytes[i]? with
    | none => .error (.err "unterminated auth_tokens array")
    | some b =>
      if b = 0x22 then closing bytes fuel (skipString bytes i) depth
      else if b = 0x5b ∨ b = 0x7b then closing bytes fuel (i + 1) (i32 (depth + 1))
      else if b = 0x5d ∨ b = 0x7d then
        let depth := i32 (depth - 1)
        if depth = 0 then .ok i else closing bytes fuel (i + 1) depth
      else closing bytes fuel (i + 1) depth

/-- `rfind` of a character that is no whitespace: its offset. -/
def rfindVisible (bytes : Bytes) : Option ℕ :=
  let upTo := (Utf8.lossy bytes).rdropWhile isWhitespace
  if upTo = [] then none else some (Utf8.encode upTo.dropLast).length

/-- Lines after the first one are indented. -/
def indent (text : List Char) : List Char :=
  text.flatMap fun c => if c = '\n' then '\n' :: List.replicate 4 ' ' else [c]

/-- Where the entry goes in an array with this text between its brackets, and what is put there:
an empty array gets it as its only element, else it is spliced after the last one. -/
def splicePoint (bracket : ℕ) (inner entry : Bytes) : ℕ × Bytes :=
  match rfindVisible inner with
  | none => (bracket + 1, utf8 "\n    " ++ entry ++ utf8 "\n  ")
  | some off => (bracket + 1 + off + 1, utf8 ",\n    " ++ entry)

/-- `insert_token_text`: the text with the token in its `auth_tokens` array, if it has one. -/
def insertTokenText (fmt : ConfigFormat) (text : Bytes) (token : TokenConfig) :
    Except Failure (Option Bytes) := do
  let stripped ← stripComments text
  match ← afterKey stripped (stripped.length + 1) 0 0 with
  | none => return none
  | some i =>
    let start := skipWhitespace stripped i
    if stripped[start]? ≠ some 0x5b then return none
    else
      let close ← closing stripped (stripped.length + 1) start 0
      let pretty ← fmt.pretty token
      let inner ← slice stripped (start + 1) close
      let splice := splicePoint start inner (Utf8.encode (indent pretty.toList))
      let before ← slice text 0 splice.1
      let after ← slice text splice.1 text.length
      return some (before ++ splice.2 ++ after)

end G2mirror
