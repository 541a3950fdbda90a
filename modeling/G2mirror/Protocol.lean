import G2mirror.History

/-!
# The session protocol

`protocol.rs`: the messages between a wrapper and its clients. Terminal bytes
travel as text; base64 is third-party code and a parameter.
-/

namespace G2mirror

/-- `PROTOCOL_VERSION`. -/
def protocolVersion : ℕ := 1

/-- `encode_terminal_bytes` and `decode_terminal_bytes`, with the text of a decoding error. -/
structure Base64 where
  encode : Bytes → String
  decode : String → Except String Bytes

/-- A character of standard base64, by the lowest six bits. -/
def base64Digit (n : ℕ) : Char :=
  "ABCDEFGHIJKLMNOPQRSTUVWXYZabcdefghijklmnopqrstuvwxyz0123456789+/".toList.getD (n % 64) '='

/-- The characters that standard base64 encodes bytes in. -/
def base64Chars : Bytes → List Char
  | a :: b :: c :: rest =>
    let n := a.toNat * 65536 + b.toNat * 256 + c.toNat
    base64Digit (n / 262144) :: base64Digit (n / 4096) :: base64Digit (n / 64) :: base64Digit n ::
      base64Chars rest
  | [a, b] =>
    let n := a.toNat * 1024 + b.toNat * 4
    [base64Digit (n / 4096), base64Digit (n / 64), base64Digit n, '=']
  | [a] => [base64Digit (a.toNat / 4), base64Digit (a.toNat * 16), '=', '=']
  | [] => []

example : base64Chars [72, 101, 108, 108, 111] = "SGVsbG8=".toList := by decide

/-- `Role`: a session client's role, declared in `init`. -/
inductive Role
  | viewer
  | host
  deriving DecidableEq

/-- `InputDelay`: a pause of `ms` milliseconds after the first `at` bytes of an input. -/
structure InputDelay where
  offset : ℕ
  ms : ℕ
  deriving DecidableEq

/-- The fields of an `init` message. -/
structure Init where
  version : ℕ
  device : String
  width : ℕ
  height : ℕ
  sizeRank : Option ℕ
  hostSizeRank : Option ℕ
  role : Role
  force : Bool
  deriving DecidableEq

/-- `ToSession`: client to wrapper. -/
inductive ToSession
  | init (i : Init)
  | monitor (version : ℕ)
  | view
  | unview
  | input (data : String) (delays : List InputDelay)
  | history (before : ℕ) (limit : Option ℕ)
  | resize (width height : ℕ)
  deriving DecidableEq

/-- `HistoryExtent`: lines `oldest..next` are fetchable. -/
structure HistoryExtent where
  next : ℕ
  oldest : ℕ
  deriving DecidableEq

/-- `HistoryLine`: one archived line on the wire. -/
structure HistoryLine where
  data : String
  width : ℕ
  wrapped : Bool
  deriving DecidableEq

/-- The fields of a `connect` message, the greeting of every connection. -/
structure Connect where
  version : ℕ
  pid : ℕ
  command : String
  cwd : String
  hostWidth : ℕ
  hostHeight : ℕ
  readonly : Bool
  history : HistoryExtent
  title : Option String
  headless : Bool
  detached : Bool
  launched : Option String
  lastOutputAt : Option ℕ
  deriving DecidableEq

/-- `FromSession`: wrapper to client. -/
inductive FromSession
  | connect (c : Connect)
  | snapshot (data : String) (width height historyNext : ℕ)
  | output (data : String)
  | bell (epoch : ℕ)
  | activity (epoch : ℕ)
  | title (title : String)
  | exit (status : Option ℤ)
  | hostChanged (attached : Bool)
  | historyLines (start oldest next : ℕ) (lines : List HistoryLine)
  | error (message : String)
  deriving DecidableEq

/-- What a read from a connection gives: a message, or the end of the connection or garbage. -/
inductive Received
  | message (msg : ToSession)
  | closed
  deriving DecidableEq

end G2mirror
