import G2mirror.Control

/-!
# Standard base64

Terminal bytes travel as standard base64, with padding. What was encoded is decoded to the same
bytes; a text whose length, padding or last bits are not those of an encoding is refused.
-/

namespace G2mirror

/-- The six bits that a character of standard base64 stands for. -/
def base64Value (c : Char) : Option ℕ :=
  if 'A' ≤ c ∧ c ≤ 'Z' then some (c.toNat - 65)
  else if 'a' ≤ c ∧ c ≤ 'z' then some (c.toNat - 97 + 26)
  else if '0' ≤ c ∧ c ≤ '9' then some (c.toNat - 48 + 52)
  else if c = '+' then some 62
  else if c = '/' then some 63
  else none

/-- The three bytes of a number. -/
def bytesOf (n : ℕ) : Bytes :=
  [(n / 65536).toUInt8, (n / 256).toUInt8, n.toUInt8]

/-- The bytes that four characters at a time stand for; only the last four may be padded, and the
bits that the padding cuts off are zero. -/
def base64Bytes : List Char → Option Bytes
  | [] => some []
  | [c, d, '=', '='] => do
    let n := (← base64Value c) * 64 + (← base64Value d)
    if n % 16 = 0 then some [(n / 16).toUInt8] else none
  | [c, d, e, '='] => do
    let n := ((← base64Value c) * 64 + (← base64Value d)) * 64 + (← base64Value e)
    if n % 4 = 0 then some [(n / 1024).toUInt8, (n / 4).toUInt8] else none
  | c :: d :: e :: f :: rest => do
    let n := (((← base64Value c) * 64 + (← base64Value d)) * 64 + (← base64Value e)) * 64 +
      (← base64Value f)
    let later ← base64Bytes rest
    some (bytesOf n ++ later)
  | _ => none

/-- Standard base64. -/
def standardBase64 : Base64 where
  encode := fun bytes => String.ofList (base64Chars bytes)
  decode := fun text =>
    match base64Bytes text.toList with
    | some bytes => .ok bytes
    | none => .error "Invalid padding"

/-- A digit stands for its six bits, and is no padding. -/
theorem base64Value_digit (n : ℕ) : base64Value (base64Digit n) = some (n % 64) := by
  have hall : ∀ k : Fin 64, base64Value (base64Digit k) = some k.val := by decide +kernel
  have hmod : base64Digit n = base64Digit (n % 64) := by
    rw [base64Digit, base64Digit, Nat.mod_mod]
  rw [hmod]
  exact hall ⟨n % 64, Nat.mod_lt _ (by decide)⟩

theorem base64Digit_ne_padding (n : ℕ) : base64Digit n ≠ '=' := by
  intro h
  have hvalue := base64Value_digit n
  rw [h] at hvalue
  cases hvalue

/-- Four digits that are not padded. -/
theorem base64Bytes_digits {i j k l : ℕ} (rest : List Char) :
    base64Bytes (base64Digit i :: base64Digit j :: base64Digit k :: base64Digit l :: rest) =
      (base64Bytes rest).map fun later =>
        bytesOf (((i % 64 * 64 + j % 64) * 64 + k % 64) * 64 + l % 64) ++ later := by
  rw [base64Bytes]
  · simp only [base64Value_digit, Option.bind_eq_bind, Option.bind_some]
    cases base64Bytes rest <;> rfl
  · rintro - h -
    exact base64Digit_ne_padding l h
  · rintro h -
    exact base64Digit_ne_padding l h

/-- A number whose lowest eight bits are those of the byte. -/
theorem toUInt8_of_mod {m : ℕ} {b : UInt8} (h : m % 256 = b.toNat) : m.toUInt8 = b :=
  UInt8.toNat_inj.mp ((UInt8.toNat_ofNat' (n := m)).trans h)

/-- What was encoded is decoded to the same bytes. -/
theorem base64Bytes_chars (bytes : Bytes) : base64Bytes (base64Chars bytes) = some bytes := by
  induction bytes using base64Chars.induct with
  | case1 a b c rest ih =>
    let n := a.toNat * 65536 + b.toNat * 256 + c.toNat
    have ha := a.toNat_lt
    have hb := b.toNat_lt
    have hc := c.toNat_lt
    have hn : ((n / 262144 % 64 * 64 + n / 4096 % 64) * 64 + n / 64 % 64) * 64 + n % 64 = n := by
      omega
    have hbytes : bytesOf n = [a, b, c] := by
      rw [bytesOf, toUInt8_of_mod (b := a) (by omega), toUInt8_of_mod (b := b) (by omega),
        toUInt8_of_mod (b := c) (by omega)]
    rw [base64Chars, base64Bytes_digits, ih, Option.map_some, hn, hbytes]
    rfl
  | case2 a b =>
    let n := a.toNat * 1024 + b.toNat * 4
    have ha := a.toNat_lt
    have hb := b.toNat_lt
    have hn : (n / 4096 % 64 * 64 + n / 64 % 64) * 64 + n % 64 = n := by omega
    have hzero : n % 4 = 0 := by omega
    have hfirst : (n / 1024).toUInt8 = a := toUInt8_of_mod (by omega)
    have hsecond : (n / 4).toUInt8 = b := toUInt8_of_mod (by omega)
    rw [base64Chars, base64Bytes]
    · simp only [base64Value_digit, Option.bind_eq_bind, Option.bind_some]
      rw [hn, if_pos hzero, hfirst, hsecond]
    · rintro h
      exact base64Digit_ne_padding n h
  | case3 a =>
    let n := a.toNat * 16
    have ha := a.toNat_lt
    have hn : a.toNat / 4 % 64 * 64 + n % 64 = n := by omega
    have hzero : n % 16 = 0 := by omega
    have hfirst : (n / 16).toUInt8 = a := toUInt8_of_mod (by omega)
    rw [base64Chars, base64Bytes]
    simp only [base64Value_digit, Option.bind_eq_bind, Option.bind_some]
    rw [hn, if_pos hzero, hfirst]
  | case4 => rfl

theorem standardBase64_decode_encode (bytes : Bytes) :
    standardBase64.decode (standardBase64.encode bytes) = .ok bytes := by
  simp only [standardBase64, String.toList_ofList, base64Bytes_chars]

/-- Where nothing fails, and terminal bytes travel as standard base64. -/
def base64Env : Env := { Env.failingAt [] with base64 := standardBase64 }

end G2mirror
