import G2mirror.ServerConfig
import Mathlib.Data.List.Basic

/-!
# What a token permits

A device gets the read-only flag and the launch grant of the token entry that it
authenticated with, but its filter is looked up by the name of that entry. The
filter is the entry's own exactly if the last entry with that name has the same
rules.
-/

namespace G2mirror

/-- What a connection of a device may do. -/
structure Permissions where
  readonly : Bool
  launch : LaunchGrant
  filter : List CompiledRule

/-- `handle_device`: what is enforced on a connection that authenticated with this token. -/
def permissions (filters : Filters) (token : TokenConfig) : Permissions :=
  ⟨token.readonly, token.launch, (filters token.name).getD []⟩

/-- The permissions are those of this entry. -/
structure Permissions.Of (crates : Crates) (entry : TokenConfig) (p : Permissions) : Prop where
  readonly : p.readonly = entry.readonly
  launch : p.launch = entry.launch
  filter : compileFilter crates entry = .ok p.filter

/-- The last entry with this name. -/
def lastNamed (tokens : List TokenConfig) (name : String) : Option TokenConfig :=
  tokens.reverse.find? (·.name = name)

section Compile

variable {crates : Crates}

theorem enclose_injective {p q : String} (h : enclose p = enclose q) : p = q := by
  have hchars := congrArg String.toList h
  unfold enclose at hchars
  simp only [String.toList_append, List.append_assoc] at hchars
  have htail := List.append_cancel_left hchars
  exact String.toList_inj.mp (List.append_cancel_right htail)

theorem compilePart_source {pattern : Option String}
    {part : { part : Option Regex // part.isSome = pattern.isSome }}
    (h : compilePart crates pattern = .ok part) :
    part.1.map Regex.pattern = pattern.map enclose := by
  cases pattern with
  | none =>
    cases h
    rfl
  | some pattern =>
    cases hregex : crates.regex (enclose pattern) with
    | error e =>
      simp only [compilePart, anchored, hregex] at h
      cases h
    | ok isMatch =>
      simp only [compilePart, anchored, hregex] at h
      cases h
      rfl

/-- The patterns that a rule was made from. -/
def CompiledRule.source (rule : CompiledRule) : Option String × Option String :=
  (rule.path.map Regex.pattern, rule.windowtitle.map Regex.pattern)

theorem compileRule_source {name : String} {rule : FilterRule} {compiled : CompiledRule}
    (h : compileRule crates name rule = .ok compiled) :
    compiled.source = (rule.path.map enclose, rule.windowtitle.map enclose) := by
  unfold compileRule at h
  split at h
  · cases hpath : compilePart crates rule.path with
    | error e =>
      rw [hpath] at h
      cases h
    | ok path =>
      rw [hpath] at h
      cases htitle : compilePart crates rule.windowtitle with
      | error e =>
        rw [htitle] at h
        cases h
      | ok windowtitle =>
        rw [htitle] at h
        cases h
        exact Prod.ext (compilePart_source hpath) (compilePart_source htitle)
  · cases h

/-- The name of a token is in the errors of its filter only. -/
theorem compileRule_name {name : String} {rule : FilterRule} {compiled : CompiledRule}
    (h : compileRule crates name rule = .ok compiled) (name' : String) :
    compileRule crates name' rule = .ok compiled := by
  unfold compileRule at h ⊢
  split
  · rename_i hsome
    rwa [dif_pos hsome] at h
  · rename_i hnone
    rw [dif_neg hnone] at h
    cases h

/-- Compiled rules in order, one for each rule. -/
theorem compileRules_cons {name : String} {rule : FilterRule} {rules : List FilterRule}
    {compiled : List CompiledRule} :
    compileRules crates name (rule :: rules) = .ok compiled ↔
      ∃ first rest, compileRule crates name rule = .ok first ∧
        compileRules crates name rules = .ok rest ∧ compiled = first :: rest := by
  rw [compileRules]
  cases compileRule crates name rule with
  | error e => simp
  | ok first =>
    cases compileRules crates name rules with
    | error e => simp
    | ok rest => simp [eq_comm]

theorem compileRules_name {name : String} {rules : List FilterRule} {compiled : List CompiledRule}
    (h : compileRules crates name rules = .ok compiled) (name' : String) :
    compileRules crates name' rules = .ok compiled := by
  induction rules generalizing compiled with
  | nil => exact h
  | cons rule rules ih =>
    obtain ⟨first, rest, hfirst, hrest, rfl⟩ := compileRules_cons.mp h
    exact compileRules_cons.mpr ⟨first, rest, compileRule_name hfirst name', ih hrest, rfl⟩

theorem compileRules_source {name : String} {rules : List FilterRule}
    {compiled : List CompiledRule} (h : compileRules crates name rules = .ok compiled) :
    compiled.map CompiledRule.source =
      rules.map fun rule => (rule.path.map enclose, rule.windowtitle.map enclose) := by
  induction rules generalizing compiled with
  | nil =>
    cases h
    rfl
  | cons rule rules ih =>
    obtain ⟨first, rest, hfirst, hrest, rfl⟩ := compileRules_cons.mp h
    rw [List.map_cons, List.map_cons, compileRule_source hfirst, ih hrest]

/-- Two tokens have the same compiled filter exactly if they have the same rules. -/
theorem compileFilter_eq_iff {token token' : TokenConfig} {rules rules' : List CompiledRule}
    (h : compileFilter crates token = .ok rules) (h' : compileFilter crates token' = .ok rules') :
    rules = rules' ↔ token.filter = token'.filter := by
  constructor
  · rintro rfl
    have hsource := (compileRules_source h).symm.trans (compileRules_source h')
    refine List.map_injective_iff.mpr ?_ hsource
    rintro ⟨path, title⟩ ⟨path', title'⟩ heq
    have hinjective := Option.map_injective fun p q => enclose_injective (p := p) (q := q)
    rw [Prod.mk.injEq] at heq
    rw [FilterRule.mk.injEq]
    exact ⟨hinjective heq.1, hinjective heq.2⟩
  · intro hfilter
    unfold compileFilter at h h'
    rw [hfilter] at h
    exact Except.ok.inj ((compileRules_name h token'.name).symm.trans h')

end Compile

/-- What the collected filters are: under each name the filter of its last entry. -/
theorem compileFilters_spec {crates : Crates} {tokens : List TokenConfig} {start filters : Filters}
    (h : compileFilters crates tokens start = .ok filters) :
    (∀ token ∈ tokens, ∃ rules, compileFilter crates token = .ok rules) ∧
      ∀ name, match lastNamed tokens name with
        | none => filters name = start name
        | some last => ∃ rules, compileFilter crates last = .ok rules ∧
            filters name = some rules := by
  induction tokens generalizing start with
  | nil =>
    cases h
    exact ⟨fun _ h => absurd h List.not_mem_nil, fun _ => rfl⟩
  | cons token tokens ih =>
    rw [compileFilters] at h
    cases hrules : compileFilter crates token with
    | error e =>
      rw [hrules] at h
      cases h
    | ok rules =>
      rw [hrules] at h
      obtain ⟨hall, hlast⟩ := ih h
      refine ⟨List.forall_mem_cons.mpr ⟨⟨rules, hrules⟩, hall⟩, fun name => ?_⟩
      have hname := hlast name
      unfold lastNamed at hname ⊢
      rw [List.reverse_cons, List.find?_append]
      cases hfind : tokens.reverse.find? (·.name = name) with
      | some last =>
        rw [hfind] at hname
        exact hname
      | none =>
        rw [hfind] at hname
        by_cases heq : token.name = name
        · simp only [Option.none_or, List.find?_cons, heq, decide_true]
          refine ⟨rules, hrules, ?_⟩
          rw [hname, ← heq, Function.update_self]
        · simp only [Option.none_or, List.find?_cons, heq, decide_false, List.find?_nil]
          rw [hname, Function.update_of_ne (Ne.symm heq)]

/-- An authenticated device has the first entry that its token matches. -/
theorem authenticateDevice_eq_ok {crates : Crates} {config : ServerConfig} {init : DeviceInit}
    {token : TokenConfig} (h : authenticateDevice crates config init = .ok token) :
    (config.tokens.find? fun t => tokenMatches crates init.authToken t.tokenHash) =
      some token := by
  unfold authenticateDevice at h
  cases hfind : config.tokens.find? fun t => tokenMatches crates init.authToken t.tokenHash with
  | none =>
    rw [hfind] at h
    cases h
  | some found =>
    rw [hfind] at h
    dsimp only at h
    split at h
    · rw [Except.ok.inj h]
    · cases h

/-- Which entry a connection has its permissions from. For every config that the
server starts with and every device that authenticates, they are those of the
entry it authenticated with exactly if the last entry of that name has the same rules. -/
theorem permissions_of_entry_iff {crates : Crates} {configFile : String} {config : ServerConfig}
    {filters : Filters} (hserve : serve crates configFile config = .ok filters)
    {init : DeviceInit} {token : TokenConfig}
    (hauth : authenticateDevice crates config init = .ok token) :
    (config.tokens.find? fun t => tokenMatches crates init.authToken t.tokenHash) = some token ∧
      ((permissions filters token).Of crates token ↔
        ∀ last, lastNamed config.tokens token.name = some last → last.filter = token.filter) := by
  have hfind := authenticateDevice_eq_ok hauth
  have hmem := List.mem_of_find?_eq_some hfind
  have hfilters : compileFilters crates config.tokens (fun _ => none) = .ok filters := by
    unfold serve at hserve
    split at hserve
    · cases hserve
    · split at hserve
      · cases hserve
      · exact hserve
  obtain ⟨hall, hlast⟩ := compileFilters_spec hfilters
  obtain ⟨rules, hrules⟩ := hall token hmem
  obtain ⟨last, hfound⟩ : ∃ last, lastNamed config.tokens token.name = some last := by
    refine Option.isSome_iff_exists.mp (List.find?_isSome.mpr ⟨token, ?_, by simp⟩)
    exact List.mem_reverse.mpr hmem
  have hname := hlast token.name
  rw [hfound] at hname
  obtain ⟨enforced, henforced, hlookup⟩ := hname
  have hfilter : (permissions filters token).filter = enforced := by
    unfold permissions
    rw [hlookup, Option.getD_some]
  refine ⟨hfind, fun hof => ?_, fun hsame => ?_⟩
  · intro last' hlast'
    obtain rfl := Option.some.inj (hfound.symm.trans hlast')
    have heq := hof.filter
    rw [hfilter] at heq
    exact (compileFilter_eq_iff henforced heq).mp rfl
  · refine ⟨rfl, rfl, ?_⟩
    rw [hfilter, (compileFilter_eq_iff henforced hrules).mpr (hsame last hfound)]
    exact hrules

/-- SHA-256 of two tokens, and two regular expressions. -/
def sampleCrates : Crates where
  regex := fun pattern =>
    if pattern = "^(?:/work)$" then .ok fun value => value = "/work"
    else if pattern = "^(?:shared)$" then .ok fun value => value = "shared"
    else .error "regex parse error"
  sha256 := fun bytes =>
    if bytes = utf8 "glasses-token" then
      [0x1c, 0xc3, 0x2d, 0x1d, 0xb2, 0x59, 0x5b, 0xbb, 0x72, 0x60, 0xbe, 0x76, 0x93, 0xad, 0x01,
      0x72, 0x08, 0xd3, 0x89, 0xed, 0xe7, 0x27, 0xd7, 0xc5, 0x52, 0x56, 0xa2, 0x41, 0xf2, 0xca,
      0x3e, 0x33]
    else if bytes = utf8 "legacy-token" then
      [0x8b, 0x7d, 0x50, 0x7c, 0xdd, 0xc8, 0xd8, 0x95, 0x0f, 0x28, 0x36, 0x13, 0x36, 0x0e, 0x85,
      0xab, 0xbf, 0xcc, 0x4d, 0x24, 0x54, 0x94, 0xee, 0x90, 0xb1, 0xe6, 0xd1, 0x58, 0x5b, 0xd2,
      0xf3, 0x7b]
    else []
  debug := fun text => "\"" ++ text ++ "\""

/-- A token that may see one directory only. -/
def workToken (name : String) : TokenConfig :=
  ⟨name, "1cc32d1db2595bbb7260be7693ad017208d389ede727d7c55256a241f2ca3e33", true,
    [⟨some "/work", none⟩], .flag false⟩

/-- Next to a legacy token, a token named "default" sees every terminal, whatever its filter. -/
theorem legacy_token_drops_filter :
    let config : ServerConfig := ⟨[workToken "default"], [], [],
      some "8b7d507cddc8d8950f283613360e85abbfcc4d245494ee90b1e6d1585bd2f37b", none⟩
    ∃ filters, serve sampleCrates "config.json" config = .ok filters ∧
      authenticateDevice sampleCrates config ⟨"init", 1, "glasses-token", "glasses", 80, 24⟩ =
        .ok (workToken "default") ∧
      (permissions filters (workToken "default")).filter = [] ∧
      ¬ (permissions filters (workToken "default")).Of sampleCrates (workToken "default") := by
  refine ⟨_, rfl, by decide +kernel, rfl, fun hof => ?_⟩
  have hlength := congrArg List.length (compileRules_source hof.filter)
  exact absurd hlength (by decide)

/-- Under another name the token keeps its filter. -/
theorem permissions_of_entry_beside_legacy_token :
    let config : ServerConfig := ⟨[workToken "glasses"], [], [],
      some "8b7d507cddc8d8950f283613360e85abbfcc4d245494ee90b1e6d1585bd2f37b", none⟩
    ∃ filters, serve sampleCrates "config.json" config = .ok filters ∧
      (permissions filters (workToken "glasses")).Of sampleCrates (workToken "glasses") := by
  intro config
  obtain ⟨filters, hserve⟩ : ∃ filters, serve sampleCrates "config.json" config = .ok filters :=
    ⟨_, rfl⟩
  have hauth : authenticateDevice sampleCrates config
      ⟨"init", 1, "glasses-token", "glasses", 80, 24⟩ = .ok (workToken "glasses") := by
    decide +kernel
  have hlast : lastNamed config.tokens "glasses" = some (workToken "glasses") := by
    decide +kernel
  refine ⟨filters, hserve, (permissions_of_entry_iff hserve hauth).2.mpr fun last hfound => ?_⟩
  rw [Option.some.inj (hlast.symm.trans hfound)]

end G2mirror
