import G2mirror.ServerWire
import G2mirror.TokenPermissions
import Mathlib.Data.List.Basic

/-!
# The handshake of a viewing client

`g2mirror-view` is started with a connection string, which holds its token. It sends the token to
the server, which answers with what it grants, and the client takes the answer for what it may do.
-/

namespace G2mirror

open Json

/-- `DEFAULT_PORT`. -/
def defaultPort : ℕ := 8737

/-- `str::rsplit_once` at a character. -/
def rsplitOnce (c : Char) (text : List Char) : Option (List Char × List Char) :=
  match text.reverse.dropWhile (· ≠ c) with
  | [] => none
  | _ :: front => some (front.reverse, (text.reverse.takeWhile (· ≠ c)).reverse)

/-- The address to dial. An IPv6 address has colons before its closing bracket. -/
def dialAddress (host : List Char) (defaultPort : ℕ) : List Char :=
  match rsplitOnce ':' host with
  | some (_, port) =>
    if ']' ∈ port then host ++ ':' :: (toString defaultPort).toList else host
  | none => host ++ ':' :: (toString defaultPort).toList

/-- `parse_connection_string`, after the scheme. -/
def parseAuthority (scheme : String) (defaultPort : ℕ) (rest : List Char) :
    Except String (String × String) :=
  match rsplitOnce '@' rest with
  | none => .error "connection string must contain <token>@<host>"
  | some (token, host) =>
    if token = [] then .error "connection string has an empty token"
    else if host = [] then .error "connection string has an empty host"
    else .ok (String.ofList token, scheme ++ "://" ++ String.ofList (dialAddress host defaultPort))

/-- `parse_connection_string`: the token, and the websocket to dial. -/
def parseConnectionString (s : String) : Except String (String × String) :=
  match s.toList.dropPrefix? "g2mirrors://".toList with
  | some rest => parseAuthority "wss" 443 rest
  | none =>
    match s.toList.dropPrefix? "g2mirror://".toList with
    | some rest => parseAuthority "ws" defaultPort rest
    | none => .error "connection string must start with g2mirror:// or g2mirrors://"

example : (parseConnectionString "g2mirror://tok@[::1]").toOption =
      some ("tok", "ws://[::1]:8737") ∧
    (parseConnectionString "g2mirrors://tok@node.tail.ts.net").toOption =
      some ("tok", "wss://node.tail.ts.net:443") := by
  decide +kernel

/-- The init that a viewing client sends. -/
def viewInit (token : String) (rows cols : ℕ) : DeviceInit :=
  ⟨"init", protocolVersion, token, "g2mirror-view", cols, rows⟩

/-- An init as it is written by hand. The keys of a `json!` object are sorted. -/
def DeviceInit.toJson (init : DeviceInit) : Json :=
  record [("auth_token", ofString init.authToken), ("device", ofString init.device),
    ("height", ofNat init.height), ("type", ofString init.msgType),
    ("version", ofNat init.version), ("width", ofNat init.width)]

/-- What is read as a `DeviceInit`. -/
def DeviceInit.ofJson (value : Json) : Option DeviceInit := do
  let msgType ← required text? "type" value
  let version ← required (nat? u32Max) "version" value
  let authToken ← required text? "auth_token" value
  let device ← required text? "device" value
  let width ← required (nat? u16Max) "width" value
  let height ← required (nat? u16Max) "height" value
  return ⟨msgType, version, authToken, device, width, height⟩

/-- `ServerToDevice::Init` as it is written. -/
def initReply (readonly : Bool) (serverName : String) : Json :=
  record ([("type", ofString "init"), ("version", ofNat protocolVersion),
      ("readonly", .bool readonly)] ++
    skipNone "server_name" (if serverName = "" then none else some (ofString serverName)))

/-- `authenticate_device`, after the websocket's own handshake: what the first text of a device is
answered with, and the token entry of the device if it has one. -/
def answerInit (serde : SerdeJson) (crates : Crates) (config : ServerConfig)
    (serverName text : String) : Option String × Except String TokenConfig :=
  match (serde.fromStr text).toOption.bind DeviceInit.ofJson with
  | none => (none, .error "first message must be init")
  | some init =>
    match authenticateDevice crates config init with
    | .ok token => (some (String.ofList (write (initReply token.readonly serverName))), .ok token)
    | .error message => (some (ServerToDevice.error message).text, .error message)

/-- What the client takes from the reply: whether its token is read-only, and the name of the
server if that has one. -/
def readReply (serde : SerdeJson) (text : String) : Except String (Bool × Option String) :=
  match serde.fromStr text with
  | .error e => .error ("bad handshake reply: " ++ e)
  | .ok reply =>
    if getStr reply "type" = some "init" then
      .ok ((getBool reply "readonly").getD true, (getStr reply "server_name").filter (· ≠ ""))
    else
      .error ("server rejected the connection: " ++
        (getStr reply "message").getD "unknown error")

section Authority

theorem rsplitOnce_append {c : Char} (front : List Char) {back : List Char} (h : c ∉ back) :
    rsplitOnce c (front ++ c :: back) = some (front, back) := by
  have hback : ∀ d ∈ back.reverse, (decide (d ≠ c)) = true := by
    intro d hd
    rw [decide_eq_true_eq]
    rintro rfl
    exact h (List.mem_reverse.mp hd)
  unfold rsplitOnce
  rw [List.reverse_append, List.reverse_cons, List.append_assoc, List.singleton_append,
    List.dropWhile_append_of_pos hback, List.takeWhile_append_of_pos hback,
    List.dropWhile_cons_of_neg (by simp), List.takeWhile_cons_of_neg (by simp)]
  simp

/-- The token of a connection string is what stands before its last `@`. -/
theorem parseAuthority_token {scheme : String} {port : ℕ} {token host : List Char}
    (htoken : token ≠ []) (hhost : host ≠ []) (hat : '@' ∉ host) :
    ∃ url, parseAuthority scheme port (token ++ '@' :: host) = .ok (String.ofList token, url) := by
  unfold parseAuthority
  rw [rsplitOnce_append token hat]
  dsimp only
  rw [if_neg htoken, if_neg hhost]
  exact ⟨_, rfl⟩

theorem parseConnectionString_token {scheme token host : String}
    (hscheme : scheme = "g2mirror://" ∨ scheme = "g2mirrors://") (htoken : token ≠ "")
    (hhost : host ≠ "") (hat : '@' ∉ host.toList) :
    ∃ url, parseConnectionString (scheme ++ token ++ "@" ++ host) = .ok (token, url) := by
  have hchars : (scheme ++ token ++ "@" ++ host).toList =
      scheme.toList ++ (token.toList ++ '@' :: host.toList) := by
    simp only [String.toList_append, List.append_assoc]
    rfl
  have hauthority (websocket : String) (port : ℕ) : ∃ url,
      parseAuthority websocket port (token.toList ++ '@' :: host.toList) = .ok (token, url) := by
    obtain ⟨url, hurl⟩ := @parseAuthority_token websocket port token.toList host.toList
      (fun h => htoken (String.toList_eq_nil_iff.mp h))
      (fun h => hhost (String.toList_eq_nil_iff.mp h)) hat
    exact ⟨url, by rw [hurl, String.ofList_toList]⟩
  unfold parseConnectionString
  rw [hchars]
  rcases hscheme with rfl | rfl
  · have hplain : ("g2mirror://".toList ++ (token.toList ++ '@' :: host.toList)).dropPrefix?
        "g2mirrors://".toList = none := rfl
    rw [hplain, List.dropPrefix?_append_of_beq _ (beq_self_eq_true _)]
    exact hauthority "ws" defaultPort
  · rw [List.dropPrefix?_append_of_beq _ (beq_self_eq_true _)]
    exact hauthority "wss" 443

end Authority

section Wire

variable {serde : SerdeJson}

theorem fromStr_write {value : Json} (hfits : Fits serde.limits 127 value) :
    serde.fromStr (String.ofList (write value)) = .ok value := by
  unfold SerdeJson.fromStr
  have hread : read serde.limits (write value) = some value := read_write hfits
  rw [String.toList_ofList, hread]

/-- The init of a client is read as it was meant. -/
theorem init_of_text (hadmits : serde.limits.Admits u64Max) {init : DeviceInit}
    (hversion : init.version ≤ u32Max) (hwidth : init.width ≤ u16Max)
    (hheight : init.height ≤ u16Max) :
    (serde.fromStr (String.ofList (write init.toJson))).toOption.bind DeviceInit.ofJson =
      some init := by
  have hfits : Fits serde.limits 127 init.toJson := by
    refine fits_record ?_
    simp [fits_text, fits_number hadmits hversion, fits_number hadmits hwidth,
      fits_number hadmits hheight]
  rw [fromStr_write hfits]
  simp [Except.toOption, DeviceInit.ofJson, DeviceInit.toJson, required, valuesOf_record,
    nat?_ofNat hversion, nat?_ofNat hwidth, nat?_ofNat hheight]

/-- The client takes from the reply what the server has granted. -/
theorem readReply_init (hadmits : serde.limits.Admits u64Max) (readonly : Bool)
    (serverName : String) :
    readReply serde (String.ofList (write (initReply readonly serverName))) =
      .ok (readonly, if serverName = "" then none else some serverName) := by
  have hname : ∀ field ∈ if serverName = "" then none else some (ofString serverName),
      Fits serde.limits 126 field := by
    split_ifs <;> simp [fits_text]
  have hfits : Fits serde.limits 127 (initReply readonly serverName) := by
    refine fits_record (List.forall_mem_append.mpr ⟨?_, forall_mem_skipNone.mpr hname⟩)
    have hversion : protocolVersion ≤ u32Max := by decide
    simp [fits_text, fits_number hadmits hversion, Fits.bool]
  have htype : getStr (initReply readonly serverName) "type" = some "init" := by
    simp [getStr_eq, initReply, valuesOf_record, filter_skipNone]
  have hreadonly : getBool (initReply readonly serverName) "readonly" = some readonly := by
    simp [getBool_eq, initReply, valuesOf_record, filter_skipNone, bool?]
  have hserver : (getStr (initReply readonly serverName) "server_name").filter (· ≠ "") =
      if serverName = "" then none else some serverName := by
    by_cases hempty : serverName = "" <;>
      simp [getStr_eq, initReply, valuesOf_record, filter_skipNone, map_skipNone, hempty]
  unfold readReply
  rw [fromStr_write hfits]
  dsimp only
  rw [if_pos htype, hreadonly, hserver]
  rfl

/-- The client learns why it was refused. -/
theorem readReply_error (hadmits : serde.limits.Admits u64Max) (message : String) :
    readReply serde (ServerToDevice.error message).text =
      .error ("server rejected the connection: " ++ message) := by
  have hfits : Fits serde.limits 127 (ServerToDevice.error message).toJson :=
    ServerToDevice.fits_toJson 124 hadmits trivial
  have htype : getStr (ServerToDevice.error message).toJson "type" = some "error" :=
    (ServerToDevice.error message).getStr_type
  have hmessage : getStr (ServerToDevice.error message).toJson "message" = some message := by
    simp [getStr_eq, ServerToDevice.valuesOf_toJson, ServerToDevice.members]
  unfold readReply ServerToDevice.text
  rw [fromStr_write hfits]
  dsimp only
  rw [if_neg (by rw [htype]; decide), hmessage]
  rfl

end Wire

/-- A client that is started with a token in its connection string logs in as the first entry that
its token matches, and takes itself to be read-only exactly if the server does. With a token that
matches no entry it is refused, and says so. -/
theorem handshake_agrees {serde : SerdeJson} (hadmits : serde.limits.Admits u64Max)
    {scheme token host : String} (hscheme : scheme = "g2mirror://" ∨ scheme = "g2mirrors://")
    (htoken : token ≠ "") (hhost : host ≠ "") (hat : '@' ∉ host.toList) {rows cols : ℕ}
    (hrows : rows ≤ u16Max) (hcols : cols ≤ u16Max) (crates : Crates) (config : ServerConfig)
    (serverName : String) :
    ∃ url reply, parseConnectionString (scheme ++ token ++ "@" ++ host) = .ok (token, url) ∧
      ((∃ entry, config.tokens.find? (fun t => tokenMatches crates token t.tokenHash) = some entry ∧
        answerInit serde crates config serverName
          (String.ofList (write (viewInit token rows cols).toJson)) = (some reply, .ok entry) ∧
        readReply serde reply =
          .ok (entry.readonly, if serverName = "" then none else some serverName)) ∨
      config.tokens.find? (fun t => tokenMatches crates token t.tokenHash) = none ∧
        answerInit serde crates config serverName
          (String.ofList (write (viewInit token rows cols).toJson)) =
            (some reply, .error "authentication failed") ∧
        readReply serde reply =
          .error ("server rejected the connection: " ++ "authentication failed")) := by
  obtain ⟨url, hurl⟩ := parseConnectionString_token hscheme htoken hhost hat
  have hversion : protocolVersion ≤ u32Max := by decide
  have hinit := @init_of_text _ hadmits (viewInit token rows cols) hversion hcols hrows
  cases hfind : config.tokens.find? fun t => tokenMatches crates token t.tokenHash with
  | none =>
    have hauth : authenticateDevice crates config (viewInit token rows cols) =
        .error "authentication failed" := by
      unfold authenticateDevice viewInit
      rw [hfind]
      rfl
    refine ⟨url, _, hurl, .inr ⟨rfl, ?_, readReply_error hadmits "authentication failed"⟩⟩
    unfold answerInit
    rw [hinit]
    dsimp only
    rw [hauth]
  | some entry =>
    have hauth : authenticateDevice crates config (viewInit token rows cols) = .ok entry := by
      unfold authenticateDevice viewInit
      rw [hfind]
      rfl
    refine ⟨url, _, hurl, .inl ⟨entry, rfl, ?_, readReply_init hadmits _ serverName⟩⟩
    unfold answerInit
    rw [hinit]
    dsimp only
    rw [hauth]

/-- The token of the glasses logs in. -/
theorem handshake_agrees_of_glasses :
    ∃ url reply,
      parseConnectionString "g2mirror://glasses-token@host" = .ok ("glasses-token", url) ∧
      readReply derivedSerde reply = .ok (true, some "laptop") := by
  have hfind : (ServerConfig.mk [workToken "glasses"] [] [] none none).tokens.find?
      (fun t => tokenMatches sampleCrates "glasses-token" t.tokenHash) =
        some (workToken "glasses") := by
    decide +kernel
  obtain ⟨url, reply, hparse, ⟨entry, hentry, -, hread⟩ | ⟨hnone, -⟩⟩ :=
    @handshake_agrees _ derives_derivedSerde.admits _ "glasses-token" "host" (.inl rfl) (by decide)
      (by decide) (by decide) 24 80 (by decide) (by decide) sampleCrates
      ⟨[workToken "glasses"], [], [], none, none⟩ "laptop"
  · obtain rfl := Option.some.inj (hfind.symm.trans hentry)
    exact ⟨url, reply, hparse, hread⟩
  · cases hfind.symm.trans hnone

end G2mirror
