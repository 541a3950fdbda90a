import G2mirror.TokenPermissions
import G2mirror.TokenSplice

/-!
# Adding a token

`g2mirror-server --add-token` makes a token, and puts an entry for its hash into the config. A
server that is started with the new config grants the token what was asked for, and every other
token what it was granted before.
-/

namespace G2mirror

section Hash

/-- Bytes that have no bit set together are all zero. -/
theorem foldl_or_eq_zero {bytes : Bytes} {start : UInt8} :
    bytes.foldl (· ||| ·) start = 0 ↔ start = 0 ∧ ∀ b ∈ bytes, b = 0 := by
  induction bytes generalizing start with
  | nil => simp
  | cons b bytes ih =>
    rw [List.foldl_cons, ih, UInt8.or_eq_zero_iff, List.forall_mem_cons, and_assoc]

theorem constantTimeEq_iff {a b : Bytes} : constantTimeEq a b = true ↔ a = b := by
  unfold constantTimeEq
  rw [Bool.and_eq_true, beq_iff_eq, beq_iff_eq, foldl_or_eq_zero]
  induction a generalizing b with
  | nil => cases b <;> simp
  | cons x a ih =>
    cases b with
    | nil => simp
    | cons y b =>
      have ih := @ih b
      simp only [List.length_cons, List.zipWith_cons_cons, List.forall_mem_cons,
        UInt8.xor_eq_zero_iff, List.cons.injEq, Nat.add_right_cancel_iff] at ih ⊢
      tauto

theorem hexDigit_mod (n : ℕ) : hexDigit (n % 16) = hexDigit n := by
  unfold hexDigit
  rw [Nat.mod_mod]

theorem hexDigit_injective : ∀ m < 16, ∀ n < 16, hexDigit m = hexDigit n → m = n := by decide

/-- A digit is no whitespace and no capital letter. -/
theorem hexDigit_plain : ∀ n < 16, isWhitespace (hexDigit n) = false ∧
    (hexDigit n).toLower = hexDigit n := by
  decide

/-- Two digits for each byte. -/
theorem hex_injective {a b : Bytes} (h : hex a = hex b) : a = b := by
  induction a generalizing b with
  | nil =>
    cases b with
    | nil => rfl
    | cons y b => cases h
  | cons x a ih =>
    cases b with
    | nil => cases h
    | cons y b =>
      unfold hex at h ih
      simp only [List.flatMap_cons, List.cons_append, List.nil_append, List.cons.injEq] at h
      obtain ⟨hhigh, hlow, hrest⟩ := h
      have hx := x.toNat_lt
      have hy := y.toNat_lt
      have hquotient := hexDigit_injective _ (by omega) _ (by omega) hhigh
      rw [← hexDigit_mod, ← hexDigit_mod y.toNat] at hlow
      have hremainder := hexDigit_injective _ (Nat.mod_lt _ (by decide)) _
        (Nat.mod_lt _ (by decide)) hlow
      have heq : x.toNat = y.toNat := by omega
      rw [UInt8.toNat_inj.mp heq, ih hrest]

theorem hex_plain {bytes : Bytes} {c : Char} (hc : c ∈ hex bytes) :
    isWhitespace c = false ∧ c.toLower = c := by
  obtain ⟨b, -, hdigit⟩ := List.mem_flatMap.mp hc
  rcases List.mem_pair.mp hdigit with rfl | rfl
  · exact hexDigit_plain _ (by have := b.toNat_lt; omega)
  · rw [← hexDigit_mod]
    exact hexDigit_plain _ (Nat.mod_lt _ (by decide))

/-- A hash as it is written has no whitespace around it, and no capital letters. -/
theorem trim_hex (bytes : Bytes) : (trim (hex bytes)).map Char.toLower = hex bytes := by
  have htrim : trim (hex bytes) = hex bytes := by
    unfold trim
    rw [dropWhile_isWhitespace fun c hc => (hex_plain hc).1,
      dropWhile_isWhitespace fun c hc => (hex_plain (List.mem_reverse.mp hc)).1,
      List.reverse_reverse]
  rw [htrim]
  exact (List.map_congr_left fun c hc => (hex_plain hc).2).trans (List.map_id _)

/-- Only a token with the same hash matches the hash of a token. -/
theorem tokenMatches_hex {crates : Crates} {token other : String} :
    tokenMatches crates other (String.ofList (hex (crates.sha256 (utf8 token)))) = true ↔
      crates.sha256 (utf8 other) = crates.sha256 (utf8 token) := by
  unfold tokenMatches
  rw [String.toList_ofList, trim_hex, constantTimeEq_iff]
  constructor
  · exact fun h => hex_injective (encode_injective h)
  · intro h
    rw [h]

end Hash

/-- The options of `--add-token` as far as they have been read. -/
structure AddTokenOpts where
  name : Option String
  writable : Bool
  launchAll : Bool
  launchNames : List String

namespace AddTokenOpts

/-- The options before any argument. -/
def start : AddTokenOpts := ⟨none, false, false, []⟩

/-- The loop over the arguments. -/
def parse (opts : AddTokenOpts) : List String → Except String AddTokenOpts
  | [] => .ok opts
  | arg :: args =>
    if arg = "--writable" then { opts with writable := true }.parse args
    else if arg = "--launch-all" then { opts with launchAll := true }.parse args
    else if arg = "--launch" then
      match args with
      | [] => .error "--launch requires a preset name"
      | preset :: args => { opts with launchNames := opts.launchNames ++ [preset] }.parse args
    else if arg.toList.head? ≠ some '-' ∧ opts.name = none then
      { opts with name := some arg }.parse args
    else .error ("unexpected argument: " ++ arg)

/-- The grant that is asked for. -/
def launch (opts : AddTokenOpts) : LaunchGrant :=
  if opts.launchAll then .flag true else .named opts.launchNames

end AddTokenOpts

/-- What `--add-token` is asked for: a token that may launch something may type as well. -/
structure TokenRequest where
  name : String
  writable : Bool
  launch : LaunchGrant
  notHost : name ≠ "host"
  grant : launch.isNone = true ∨ writable = true

/-- The arguments of `add_token`. -/
def parseAddToken (args : List String) : Except String TokenRequest :=
  match AddTokenOpts.start.parse args with
  | .error e => .error e
  | .ok opts =>
    match opts.name with
    | none => .error ("usage: g2mirror-server --add-token <name> [--writable] " ++
        "[--launch <preset>]... [--launch-all]")
    | some name =>
      if hname : name = "host" then
        .error "\"host\" is reserved (it stands for the host terminal in size_precedence)"
      else if hgrant : opts.launch.isNone = true ∨ opts.writable = true then
        .ok ⟨name, opts.writable, opts.launch, hname, hgrant⟩
      else
        .error ("a launch grant requires --writable (a read-only token cannot type " ++
          "into the shells it starts)")

example : (parseAddToken ["rob", "--writable", "--launch", "shell"]).toOption.map
    (fun request => (request.name, request.launch)) = some ("rob", .named ["shell"]) := by decide

/-- The entry for a token with this request. -/
def TokenRequest.entry (request : TokenRequest) (crates : Crates) (token : String) :
    TokenConfig where
  name := request.name
  tokenHash := String.ofList (hex (crates.sha256 (utf8 token)))
  readonly := !request.writable
  filter := []
  launch := request.launch

/-- What speaks against a request for this config, if anything does. -/
def TokenRequest.refusal (request : TokenRequest) (crates : Crates) (config : ServerConfig) :
    Option String :=
  if config.tokens.any (·.name = request.name) then
    some ("a token named \"" ++ request.name ++ "\" already exists")
  else
    match request.launch with
    | .flag _ => none
    | .named names =>
      (names.find? fun preset => !config.launch.any (·.1 == preset)).map fun preset =>
        "no launch preset named " ++ crates.debug preset ++ " in the config"

/-- The text with the entry, from which the config is written anew if it has no array for it. -/
def editedText (fmt : ConfigFormat) (rewrite : ConfigFile → Except Failure Bytes) (text : Bytes)
    (config : ConfigFile) (entry : TokenConfig) : Except Failure Bytes :=
  match insertTokenText fmt text entry with
  | .error failure => .error failure
  | .ok (some new) => .ok new
  | .ok none => rewrite { config with authTokens := config.authTokens ++ [entry] }

/-- `add_token`: what the file at this path holds afterwards, if it held this text and this token
was generated. -/
def addToken (fmt : ConfigFormat) (crates : Crates) (rewrite : ConfigFile → Except Failure Bytes)
    (path : String) (args : List String) (text : Bytes) (token : String) : Except Failure Bytes :=
  match parseAddToken args with
  | .error e => .error (.err e)
  | .ok request =>
    match fmt.parseConfig text with
    | .error failure => .error failure
    | .ok none => .error (.err ("failed to parse " ++ path))
    | .ok (some config) =>
      match request.refusal crates config.toServerConfig with
      | some e => .error (.err e)
      | none =>
        match editedText fmt rewrite text config (request.entry crates token) with
        | .error failure => .error failure
        | .ok new =>
          match fmt.parseConfig new with
          | .error failure => .error failure
          | .ok none => .error (.err "edited config failed to re-parse")
          | .ok (some _) => .ok new

/-- What is enforced on a connection. -/
structure Rights where
  readonly : Bool
  filter : List CompiledRule
  mayLaunch : String → Bool

/-- Grants that allow the same are the same. -/
def Permissions.rights (p : Permissions) : Rights := ⟨p.readonly, p.filter, p.launch.allows⟩

/-- What a device gets that begins with this init. -/
def admitted (crates : Crates) (config : ServerConfig) (filters : Filters) (init : DeviceInit) :
    Except String Rights :=
  (authenticateDevice crates config init).map fun token => (permissions filters token).rights

section Reparsed

variable {crates : Crates}

theorem reparsed_allows (token : TokenConfig) :
    token.reparsed.launch.allows = token.launch.allows := by
  unfold TokenConfig.reparsed
  cases hgrant : token.launch with
  | flag all => cases all <;> rfl
  | named names =>
    cases names with
    | nil => rfl
    | cons name names => rfl

/-- The lists have the same entries, up to how grants of nothing are written. -/
def SameTokens (tokens tokens' : List TokenConfig) : Prop :=
  tokens.map TokenConfig.reparsed = tokens'.map TokenConfig.reparsed

theorem reparsed_reparsed (token : TokenConfig) : token.reparsed.reparsed = token.reparsed := by
  unfold TokenConfig.reparsed
  cases hgrant : token.launch with
  | flag all => cases all <;> rfl
  | named names => cases names <;> rfl

theorem SameTokens.append {tokens tokens' more : List TokenConfig} (h : SameTokens tokens tokens') :
    SameTokens (tokens ++ more) (tokens' ++ more) := by
  unfold SameTokens at *
  rw [List.map_append, List.map_append, h]

theorem find?_reparsed (p : String → Bool) (tokens : List TokenConfig) :
    (tokens.map TokenConfig.reparsed).find? (fun t => p t.tokenHash) =
      (tokens.find? fun t => p t.tokenHash).map TokenConfig.reparsed := by
  rw [List.find?_map]
  rfl

/-- Entries that differ in how a grant of nothing is written admit the same devices. -/
theorem admitted_congr {config config' : ServerConfig} (h : SameTokens config.tokens config'.tokens)
    (filters : Filters) (init : DeviceInit) :
    admitted crates config filters init = admitted crates config' filters init := by
  have hfind := congrArg (List.find? fun t : TokenConfig =>
    tokenMatches crates init.authToken t.tokenHash) h
  rw [find?_reparsed (tokenMatches crates init.authToken),
    find?_reparsed (tokenMatches crates init.authToken)] at hfind
  have hrights {token token' : TokenConfig} (heq : token.reparsed = token'.reparsed) :
      (permissions filters token).rights = (permissions filters token').rights := by
    have hallows : token.launch.allows = token'.launch.allows := by
      rw [← reparsed_allows, heq, reparsed_allows]
    have hname : token.reparsed.name = token'.reparsed.name := by rw [heq]
    have hreadonly : token.reparsed.readonly = token'.reparsed.readonly := by rw [heq]
    unfold TokenConfig.reparsed at hname hreadonly
    unfold permissions Permissions.rights
    rw [hallows, hname, hreadonly]
  unfold admitted authenticateDevice
  cases hleft : config.tokens.find? fun t => tokenMatches crates init.authToken t.tokenHash with
  | none =>
    rw [hleft] at hfind
    rw [Option.map_eq_none_iff.mp hfind.symm]
  | some token =>
    rw [hleft] at hfind
    obtain ⟨token', hright, heq⟩ := Option.map_eq_some_iff.mp hfind.symm
    rw [hright]
    dsimp only
    by_cases hinit : init.msgType = "init" ∧ init.version = protocolVersion
    · rw [if_pos hinit, if_pos hinit]
      exact congrArg Except.ok (hrights heq.symm)
    · rw [if_neg hinit, if_neg hinit]

theorem compileFilters_reparsed (tokens : List TokenConfig) (start : Filters) :
    compileFilters crates (tokens.map TokenConfig.reparsed) start =
      compileFilters crates tokens start := by
  induction tokens generalizing start with
  | nil => rfl
  | cons token tokens ih =>
    rw [List.map_cons, compileFilters, compileFilters]
    have hfilter : compileFilter crates token.reparsed = compileFilter crates token := rfl
    rw [hfilter]
    cases compileFilter crates token with
    | error e => rfl
    | ok rules => exact ih _

theorem grantError_reparsed (config : ServerConfig) (token : TokenConfig) :
    config.grantError crates token.reparsed = config.grantError crates token := by
  unfold ServerConfig.grantError TokenConfig.reparsed
  cases hgrant : token.launch with
  | flag all => cases all <;> rfl
  | named names => cases names <;> rfl

/-- What the server starts with does not depend on how grants of nothing are written. -/
theorem serve_congr {config config' : ServerConfig} (h : SameTokens config.tokens config'.tokens)
    (hlaunch : config.launch = config'.launch) (path : String) :
    serve crates path config = serve crates path config' := by
  have hfilters : compileFilters crates config.tokens (fun _ => none) =
      compileFilters crates config'.tokens fun _ => none := by
    rw [← compileFilters_reparsed, h, compileFilters_reparsed]
  have hgrant : config.grantError crates = config'.grantError crates := by
    unfold ServerConfig.grantError
    rw [hlaunch]
  have hgrants (tokens : List TokenConfig) : tokens.findSome? (config.grantError crates) =
      (tokens.map TokenConfig.reparsed).findSome? (config.grantError crates) := by
    rw [List.findSome?_map]
    congr 1
    funext token
    exact (grantError_reparsed config token).symm
  have hvalid : config.validateLaunch crates = config'.validateLaunch crates := by
    unfold ServerConfig.validateLaunch
    rw [hgrants, h, ← hgrants, hgrant, hlaunch]
  have hempty : config.tokens = [] ↔ config'.tokens = [] := by
    rw [← List.map_eq_nil_iff, h, List.map_eq_nil_iff]
  unfold serve
  rw [hvalid, hfilters]
  by_cases hnil : config.tokens = []
  · rw [if_pos hnil, if_pos (hempty.mp hnil)]
  · rw [if_neg hnil, if_neg (fun h' => hnil (hempty.mpr h'))]

end Reparsed

section Insert

variable {crates : Crates} {config : ServerConfig} {entry : TokenConfig} {filters : Filters}

/-- The config with one more entry. -/
def ServerConfig.withToken (config : ServerConfig) (entry : TokenConfig) : ServerConfig :=
  { config with authTokens := config.authTokens ++ [entry] }

/-- The legacy token comes after the entries. -/
theorem tokens_withToken (config : ServerConfig) : ∃ legacy,
    config.tokens = config.authTokens ++ legacy ∧
      ∀ entry, (config.withToken entry).tokens = config.authTokens ++ entry :: legacy := by
  unfold ServerConfig.withToken ServerConfig.tokens
  cases config.authTokenHash with
  | none => exact ⟨[], (List.append_nil _).symm, fun _ => rfl⟩
  | some hash => exact ⟨_, rfl, fun _ => List.append_assoc _ _ _⟩

/-- An entry that is collected early is still there at the end, if no later one has its name. -/
theorem compileFilters_update {tokens : List TokenConfig} {name : String}
    (hfresh : ∀ token ∈ tokens, token.name ≠ name) {start : Filters}
    (h : compileFilters crates tokens start = .ok filters) (rules : Option (List CompiledRule)) :
    compileFilters crates tokens (Function.update start name rules) =
      .ok (Function.update filters name rules) := by
  induction tokens generalizing start with
  | nil =>
    cases h
    rfl
  | cons token tokens ih =>
    obtain ⟨hname, hrest⟩ := List.forall_mem_cons.mp hfresh
    rw [compileFilters] at h ⊢
    cases hrules : compileFilter crates token with
    | error e =>
      rw [hrules] at h
      cases h
    | ok compiled =>
      rw [hrules] at h
      dsimp only at h ⊢
      rw [Function.update_comm hname.symm]
      exact ih hrest h

theorem compileFilters_insert {before after : List TokenConfig}
    (hfresh : ∀ token ∈ before ++ after, token.name ≠ entry.name) (hentry : entry.filter = [])
    {start : Filters} (h : compileFilters crates (before ++ after) start = .ok filters) :
    compileFilters crates (before ++ entry :: after) start =
      .ok (Function.update filters entry.name (some [])) := by
  induction before generalizing start with
  | nil =>
    have hrules : compileFilter crates entry = .ok [] := by
      unfold compileFilter
      rw [hentry]
      rfl
    rw [List.nil_append, compileFilters, hrules]
    exact compileFilters_update hfresh h _
  | cons token before ih =>
    rw [List.cons_append, compileFilters] at h ⊢
    cases hrules : compileFilter crates token with
    | error e =>
      rw [hrules] at h
      cases h
    | ok compiled =>
      rw [hrules] at h
      exact ih (List.forall_mem_cons.mp hfresh).2 h

/-- A server that starts with a config starts with one more entry, too. -/
theorem serve_withToken (hvalid : config.validateLaunch crates = none)
    (hfilters : compileFilters crates config.tokens (fun _ => none) = .ok filters)
    (hfresh : ∀ token ∈ config.tokens, token.name ≠ entry.name) (hfilter : entry.filter = [])
    (hgrant : config.grantError crates entry = none) (path : String) :
    serve crates path (config.withToken entry) =
      .ok (Function.update filters entry.name (some [])) := by
  obtain ⟨legacy, htokens, hwith⟩ := tokens_withToken config
  rw [htokens] at hfresh hfilters
  have hnonempty : (config.withToken entry).tokens ≠ [] := by
    rw [hwith]
    simp
  obtain ⟨hpresets, hgrants⟩ := Option.or_eq_none_iff.mp hvalid
  rw [htokens, List.findSome?_eq_none_iff, List.forall_mem_append] at hgrants
  have hsame : (config.withToken entry).grantError crates = config.grantError crates := rfl
  have hstill : (config.withToken entry).validateLaunch crates = none := by
    refine Option.or_eq_none_iff.mpr ⟨hpresets, ?_⟩
    rw [hwith, hsame, List.findSome?_eq_none_iff, List.forall_mem_append, List.forall_mem_cons]
    exact ⟨hgrants.1, hgrant, hgrants.2⟩
  unfold serve
  rw [if_neg hnonempty, hstill, hwith]
  exact compileFilters_insert hfresh hfilter hfilters

/-- A device whose token matches the new entry and none before it has what the entry says. -/
theorem admitted_new {init : DeviceInit} (hinit : init.msgType = "init")
    (hversion : init.version = protocolVersion)
    (hmatch : tokenMatches crates init.authToken entry.tokenHash = true)
    (hnone : config.authTokens.find? (fun t => tokenMatches crates init.authToken t.tokenHash) =
      none) :
    admitted crates (config.withToken entry) (Function.update filters entry.name (some [])) init =
      .ok ⟨entry.readonly, [], entry.launch.allows⟩ := by
  obtain ⟨legacy, -, hwith⟩ := tokens_withToken config
  have hfind : (config.withToken entry).tokens.find?
      (fun t => tokenMatches crates init.authToken t.tokenHash) = some entry := by
    rw [hwith, List.find?_append, hnone, Option.none_or]
    exact List.find?_cons_of_pos hmatch
  unfold admitted authenticateDevice
  rw [hfind]
  dsimp only
  rw [if_pos ⟨hinit, hversion⟩]
  unfold Except.map permissions Permissions.rights
  dsimp only
  rw [Function.update_self]
  rfl

/-- Any other device has what it had. -/
theorem admitted_old {init : DeviceInit}
    (hmatch : tokenMatches crates init.authToken entry.tokenHash = false)
    (hfresh : ∀ token ∈ config.tokens, token.name ≠ entry.name) :
    admitted crates (config.withToken entry) (Function.update filters entry.name (some [])) init =
      admitted crates config filters init := by
  obtain ⟨legacy, htokens, hwith⟩ := tokens_withToken config
  have hfind : (config.withToken entry).tokens.find?
      (fun t => tokenMatches crates init.authToken t.tokenHash) =
      config.tokens.find? fun t => tokenMatches crates init.authToken t.tokenHash := by
    rw [hwith, htokens, List.find?_append, List.find?_append,
      List.find?_cons_of_neg (by rw [hmatch]; exact Bool.false_ne_true)]
  unfold admitted authenticateDevice
  rw [hfind]
  cases hfound : config.tokens.find? fun t => tokenMatches crates init.authToken t.tokenHash with
  | none => rfl
  | some token =>
    dsimp only
    by_cases hinit : init.msgType = "init" ∧ init.version = protocolVersion
    · rw [if_pos hinit]
      have hname := hfresh token (List.mem_of_find?_eq_some hfound)
      unfold Except.map permissions
      dsimp only
      rw [Function.update_of_ne hname]
    · rw [if_neg hinit]
      rfl

end Insert

/-- What is known when a token has been added. -/
structure Added (fmt : ConfigFormat) (crates : Crates) (rewrite : ConfigFile → Except Failure Bytes)
    (args : List String) (text : Bytes) (token : String) (config : ConfigFile) (new : Bytes)
    (request : TokenRequest) : Prop where
  parsed : parseAddToken args = .ok request
  accepted : request.refusal crates config.toServerConfig = none
  edited : editedText fmt rewrite text config (request.entry crates token) = .ok new

theorem added_of_ok {fmt : ConfigFormat} {crates : Crates}
    {rewrite : ConfigFile → Except Failure Bytes} {path : String} {args : List String}
    {text : Bytes} {token : String} {new : Bytes} {config : ConfigFile}
    (hparse : fmt.parseConfig text = .ok (some config))
    (h : addToken fmt crates rewrite path args text token = .ok new) :
    ∃ request, Added fmt crates rewrite args text token config new request := by
  unfold addToken at h
  cases hparsed : parseAddToken args with
  | error e =>
    rw [hparsed] at h
    cases h
  | ok request =>
    rw [hparsed, hparse] at h
    dsimp only at h
    cases hrefusal : request.refusal crates config.toServerConfig with
    | some e =>
      rw [hrefusal] at h
      cases h
    | none =>
      rw [hrefusal] at h
      dsimp only at h
      cases hedited : editedText fmt rewrite text config (request.entry crates token) with
      | error failure =>
        rw [hedited] at h
        cases h
      | ok edited =>
        rw [hedited] at h
        dsimp only at h
        split at h
        · cases h
        · cases h
        · obtain rfl := Except.ok.inj h
          exact ⟨request, hparsed, hrefusal, hedited⟩

/-- What is not refused is a new name, and a grant of presets that there are. -/
theorem TokenRequest.accepted {request : TokenRequest} {crates : Crates} {config : ServerConfig}
    (h : request.refusal crates config = none) (token : String) :
    (∀ entry ∈ config.tokens, entry.name ≠ request.name) ∧
      config.grantError crates (request.entry crates token) = none := by
  unfold refusal at h
  split_ifs at h with hname
  refine ⟨fun entry hentry heq => hname (List.any_eq_true.mpr ⟨entry, hentry, ?_⟩), ?_⟩
  · exact decide_eq_true heq
  · unfold ServerConfig.grantError entry
    dsimp only
    rcases request.grant with hnone | hwritable
    · rw [if_pos hnone]
    · split_ifs with hisNone hreadonly
      · rfl
      · rw [hwritable] at hreadonly
        cases hreadonly
      · cases hlaunch : request.launch with
        | flag all => rfl
        | named names =>
          rw [hlaunch] at h
          exact Option.map_eq_none_iff.mpr (Option.map_eq_none_iff.mp h)

/-- A config that is written anew is read back, up to how grants of nothing are written. -/
def ConfigFormat.RewriteReads (fmt : ConfigFormat)
    (rewrite : ConfigFile → Except Failure Bytes) : Prop :=
  ∀ config bytes, rewrite config = .ok bytes → fmt.parseConfig bytes =
    .ok (some { config with authTokens := config.authTokens.map TokenConfig.reparsed })

/-- The edited text is the config with the entry, up to how grants of nothing are written. -/
theorem parse_editedText {fmt : ConfigFormat} (hdepth : 5 ≤ fmt.maxDepth ∧ fmt.maxDepth < 2 ^ 31)
    {rewrite : ConfigFile → Except Failure Bytes} (hrewrite : fmt.RewriteReads rewrite)
    {text : String} {config : ConfigFile} (hparse : fmt.parseConfig (utf8 text) = .ok (some config))
    {entry : TokenConfig} (hpretty : fmt.PrettyReads entry) {new : Bytes}
    (h : editedText fmt rewrite (utf8 text) config entry = .ok new) :
    ∃ tokens, SameTokens tokens (config.authTokens ++ [entry]) ∧
      fmt.parseConfig new = .ok (some { config with authTokens := tokens }) := by
  obtain ⟨us, doc, slots, hstrip, hclosed, hread, hslots, hbuild⟩ :=
    parseConfig_eq_some_iff.mp hparse
  -- Without an array for the tokens the whole config is written anew.
  have hanew (hnone : insertTokenText fmt (utf8 text) entry = .ok none) :
      ∃ tokens, SameTokens tokens (config.authTokens ++ [entry]) ∧
        fmt.parseConfig new = .ok (some { config with authTokens := tokens }) := by
    unfold editedText at h
    rw [hnone] at h
    refine ⟨(config.authTokens ++ [entry]).map TokenConfig.reparsed, ?_,
      hrewrite { config with authTokens := config.authTokens ++ [entry] } new h⟩
    unfold SameTokens
    rw [List.map_map]
    exact List.map_congr_left fun token _ => reparsed_reparsed token
  cases hkey : keyAt authTokensKey fmt.maxDepth 0 us with
  | none => exact hanew (insertTokenText_none hdepth.2 hstrip hclosed hread hkey entry)
  | some rest =>
    by_cases hopens : (rest.dropWhile isBlank).head? = some (.byte 0x5b)
    · obtain ⟨before, insert, after, htext, hinsert, hnew⟩ := splice_array hdepth.1 hdepth.2 hstrip
        hclosed hread hslots hbuild hkey hopens hpretty
      unfold editedText at h
      have hspliced : insertTokenText fmt (utf8 text) entry =
          .ok (some (before ++ insert ++ after)) := hinsert
      rw [hspliced] at h
      obtain rfl := Except.ok.inj h
      refine ⟨_, ?_, hnew⟩
      unfold SameTokens
      rw [List.map_append, List.map_append, List.map_singleton, List.map_singleton,
        reparsed_reparsed]
    · exact hanew (insertTokenText_other hdepth.2 hstrip hclosed hread hkey hopens entry)

/-- Whoever adds a token to a config that a server starts with gets a config that the server
starts with, in which nothing but the tokens has changed. A device with the new token may do
exactly what was asked for, and a device with another token what it was allowed before. -/
theorem add_token_grants {fmt : ConfigFormat} (hdepth : 5 ≤ fmt.maxDepth ∧ fmt.maxDepth < 2 ^ 31)
    {crates : Crates} {rewrite : ConfigFile → Except Failure Bytes}
    (hrewrite : fmt.RewriteReads rewrite) {path text token : String} {args : List String}
    {config : ConfigFile} (hparse : fmt.parseConfig (utf8 text) = .ok (some config))
    (hpretty : ∀ request, parseAddToken args = .ok request →
      fmt.PrettyReads (request.entry crates token))
    (hvalid : config.validateLaunch crates = none) {filters : Filters}
    (hfilters : compileFilters crates config.tokens (fun _ => none) = .ok filters) {new : Bytes}
    (hadd : addToken fmt crates rewrite path args (utf8 text) token = .ok new) :
    ∃ request config' filters', parseAddToken args = .ok request ∧
      fmt.parseConfig new = .ok (some config') ∧
      { config' with authTokens := config.authTokens } = config ∧
      serve crates path config'.toServerConfig = .ok filters' ∧
      (∀ init : DeviceInit, init.msgType = "init" → init.version = protocolVersion →
        crates.sha256 (utf8 init.authToken) = crates.sha256 (utf8 token) →
        config.authTokens.find? (fun t => tokenMatches crates init.authToken t.tokenHash) = none →
        admitted crates config'.toServerConfig filters' init =
          .ok ⟨!request.writable, [], request.launch.allows⟩) ∧
      ∀ init : DeviceInit, crates.sha256 (utf8 init.authToken) ≠ crates.sha256 (utf8 token) →
        admitted crates config'.toServerConfig filters' init =
          admitted crates config.toServerConfig filters init := by
  obtain ⟨request, hparsed, haccepted, hedited⟩ := added_of_ok hparse hadd
  obtain ⟨hfresh, hgrant⟩ := TokenRequest.accepted haccepted token
  obtain ⟨tokens, hsame, hnew⟩ :=
    parse_editedText hdepth hrewrite hparse (hpretty request hparsed) hedited
  have hserve := @serve_withToken _ _ (request.entry crates token) _ hvalid hfilters hfresh rfl
    hgrant path
  have hread : SameTokens { config with authTokens := tokens }.tokens
      (config.withToken (request.entry crates token)).tokens := by
    unfold ServerConfig.withToken ServerConfig.tokens
    cases config.authTokenHash with
    | none => exact hsame
    | some hash => exact hsame.append
  refine ⟨request, { config with authTokens := tokens }, _, hparsed, hnew, rfl,
    (serve_congr hread rfl path).trans hserve, fun init hinit hversion hhash hnone => ?_,
    fun init hhash => ?_⟩
  · exact (admitted_congr hread _ init).trans
      (admitted_new hinit hversion (tokenMatches_hex.mpr hhash) hnone)
  · have hmatch : tokenMatches crates init.authToken (request.entry crates token).tokenHash =
        false := Bool.eq_false_iff.mpr fun h => hhash (tokenMatches_hex.mp h)
    exact (admitted_congr hread _ init).trans (admitted_old hmatch hfresh)

/-- A token for rob may look at everything, and nothing else. -/
theorem add_token_grants_of_rob :
    ∃ new, addToken sampleFormat sampleCrates (fun _ => .error .panic) "config.json" ["rob"]
        (utf8 sampleText) "glasses-token" = .ok new ∧
      ∃ config' filters', sampleFormat.parseConfig new = .ok (some config') ∧
        serve sampleCrates "config.json" config'.toServerConfig = .ok filters' ∧
        admitted sampleCrates config'.toServerConfig filters'
          ⟨"init", 1, "glasses-token", "glasses", 80, 24⟩ = .ok ⟨true, [], fun _ => false⟩ := by
  obtain ⟨new, hadd⟩ : ∃ new, addToken sampleFormat sampleCrates (fun _ => .error .panic)
      "config.json" ["rob"] (utf8 sampleText) "glasses-token" = .ok new := by
    have hsome : (addToken sampleFormat sampleCrates (fun _ => .error .panic) "config.json" ["rob"]
        (utf8 sampleText) "glasses-token").toOption.isSome = true := by decide +kernel
    cases hadd : addToken sampleFormat sampleCrates (fun _ => .error .panic) "config.json" ["rob"]
        (utf8 sampleText) "glasses-token" with
    | error failure =>
      rw [hadd] at hsome
      cases hsome
    | ok new => exact ⟨new, rfl⟩
  have hparse : sampleFormat.parseConfig (utf8 sampleText) =
      .ok (some ⟨⟨[⟨"/* ] \" [", "aa", true, [], .flag false⟩], [], [], none, none⟩, .one "::1", 1,
        none⟩) := by decide +kernel
  have hpretty : ∀ request, parseAddToken ["rob"] = .ok request →
      sampleFormat.PrettyReads (request.entry sampleCrates "glasses-token") := by
    intro request hrequest
    obtain rfl := Except.ok.inj hrequest
    obtain ⟨pretty, hpretty, hread⟩ : ∃ pretty,
        sampleFormat.pretty { workToken "rob" with filter := [], launch := .named [] } =
          .ok pretty ∧
        (JsonText.read 3 (utf8 pretty)).bind sampleFormat.token =
          some { workToken "rob" with filter := [] } := ⟨_, rfl, by decide +kernel⟩
    obtain ⟨doc, hdoc, htoken⟩ := Option.bind_eq_some_iff.mp hread
    exact ⟨pretty, doc, hpretty, hdoc, htoken⟩
  obtain ⟨request, config', filters', hrequest, hnew, -, hserve, hgranted, -⟩ :=
    add_token_grants ⟨by decide, by decide⟩ (fun _ _ h => by cases h) hparse hpretty rfl rfl hadd
  obtain rfl := Except.ok.inj hrequest
  exact ⟨new, hadd, config', filters', hnew, hserve,
    hgranted ⟨"init", 1, "glasses-token", "glasses", 80, 24⟩ rfl rfl rfl (by decide +kernel)⟩

end G2mirror
