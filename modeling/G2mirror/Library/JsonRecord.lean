import G2mirror.Library.JsonWriter

/-!
# Records as objects

A record is written as an object with a member for each field, less those that are left out.
It is read back field by field: the order of the members does not matter, others are ignored,
and a field may not be there twice.
-/

namespace Json

/-- A string. -/
def ofString (s : String) : Json := .string s.toList

/-- The text, if the value is a string. -/
def text? (value : Json) : Option String := value.string?.map String.ofList

/-- An integer of the range from `-size` to `size - 1`. A negative zero is none. -/
def int? (size : ℕ) : Json → Option ℤ
  | .number ('-' :: digits) =>
    match (Json.number digits).nat? size with
    | some (n + 1) => some (Int.negSucc n)
    | _ => none
  | value => (value.nat? (size - 1)).map Int.ofNat

/-- A value that may be null instead. -/
def nullable {α : Type*} (decode : Json → Option α) : Json → Option (Option α)
  | .null => some none
  | value => (decode value).map some

/-- The items of an array. -/
def items? {α : Type*} (decode : Json → Option α) : Json → Option (List α)
  | .array items => items.mapM decode
  | _ => none

/-- An object with these members. -/
def record (members : List (String × Json)) : Json :=
  .object (members.map fun member => (member.1.toList, member.2))

/-- A member that is left out if there is no value. -/
def skipNone (key : String) (value : Option Json) : List (String × Json) :=
  value.toList.map fun value => (key, value)

/-- A flag, which is left out if it is not set. -/
def skipFalse (key : String) (b : Bool) : List (String × Json) :=
  if b then [(key, .bool true)] else []

/-- The values of the members with this key. -/
def valuesOf (key : String) : Json → List Json
  | .object members => (members.filter (·.1 = key.toList)).map (·.2)
  | _ => []

/-- The value of a field, given the values of its members. -/
def single {α : Type*} (missing : Option α) (decode : Json → Option α) : List Json → Option α
  | [] => missing
  | [field] => decode field
  | _ => none

/-- A field that has to be there. -/
def required {α : Type*} (decode : Json → Option α) (key : String) (value : Json) : Option α :=
  single none decode (value.valuesOf key)

/-- A field with a default. -/
def withDefault {α : Type*} (decode : Json → Option α) (default : α) (key : String)
    (value : Json) : Option α :=
  single (some default) decode (value.valuesOf key)

section Fields

variable {α : Type*} {decode : Json → Option α} {key : String} {value field : Json}

/-- Of several members with a key the last one counts. -/
theorem get?_eq_getLast? (key : String) (value : Json) :
    value.get? key.toList = (value.valuesOf key).getLast? := by
  cases value with
  | object members =>
    rw [get?, valuesOf, List.getLast?_map, ← List.head?_reverse, ← List.filter_reverse,
      List.head?_filter]
  | _ => rfl

theorem valuesOf_record (key : String) (members : List (String × Json)) :
    (record members).valuesOf key = (members.filter (·.1 = key)).map (·.2) := by
  rw [record, valuesOf, List.filter_map, List.map_map]
  simp only [Function.comp_def, String.toList_inj]

theorem filter_skipNone (key other : String) (value : Option Json) :
    (skipNone other value).filter (·.1 = key) =
      if other = key then skipNone other value else [] := by
  cases value with
  | none => simp [skipNone]
  | some value => simp [skipNone, List.filter_singleton]

theorem map_skipNone (value : Option Json) :
    (skipNone key value).map (·.2) = value.toList := by
  cases value <;> rfl

theorem skipFalse_eq (key : String) (b : Bool) :
    skipFalse key b = skipNone key (if b then some (.bool true) else none) := by
  cases b <;> rfl

@[simp] theorem single_nil (missing : Option α) : single missing decode [] = missing := rfl

@[simp] theorem single_singleton (missing : Option α) (field : Json) :
    single missing decode [field] = decode field := rfl

@[simp] theorem single_toList (missing : Option α) (field : Option Json) :
    single missing decode field.toList = field.elim missing decode := by
  cases field <;> rfl

@[simp] theorem text?_ofString (s : String) : text? (ofString s) = some s := by
  rw [ofString, text?, string?, Option.map_some, String.ofList_toList]

/-- A text that has to be there is the only value under its key. -/
theorem valuesOf_of_required {s : String} (h : required text? key value = some s) :
    value.valuesOf key = [.string s.toList] := by
  unfold required single at h
  split at h
  · cases h
  · rename_i field hvalues
    obtain ⟨cs, hcs, rfl⟩ := Option.map_eq_some_iff.mp h
    cases field with
    | string text =>
      obtain rfl := Option.some.inj hcs
      rw [hvalues, String.toList_ofList]
    | _ => cases hcs
  · cases h

/-- A number that may be missing reads back. -/
theorem elim_nullable {max : ℕ} {n : Option ℕ} (hn : ∀ k ∈ n, k ≤ max) :
    n.elim (some none) (nullable (nat? max) ∘ ofNat) = some n := by
  cases n with
  | none => rfl
  | some k =>
    have hsome : nullable (nat? max) (ofNat k) = (nat? max (ofNat k)).map some := rfl
    rw [Option.elim_some, Function.comp_apply, hsome, nat?_ofNat (hn k rfl)]
    rfl

/-- A text that may be missing reads back. -/
theorem elim_nullable_text (text : Option String) :
    text.elim (some none) (nullable text? ∘ ofString) = some text := by
  cases text with
  | none => rfl
  | some text =>
    have hsome : nullable text? (ofString text) = (text? (ofString text)).map some := rfl
    rw [Option.elim_some, Function.comp_apply, hsome, text?_ofString]
    rfl

/-- A flag reads back. -/
theorem elim_flag (b : Bool) :
    (if b = true then some (Json.bool true) else none).elim (some false) bool? = some b := by
  cases b <;> rfl

/-- A list of values reads back if each of them does. -/
theorem items?_map {encode : α → Json} {items : List α}
    (h : ∀ a ∈ items, decode (encode a) = some a) :
    items? decode (.array (items.map encode)) = some items := by
  rw [items?]
  induction items with
  | nil => rfl
  | cons a items ih =>
    obtain ⟨ha, hitems⟩ := List.forall_mem_cons.mp h
    rw [List.map_cons, List.mapM_cons, ha, ih hitems]
    rfl

/-- An integer of the range reads back. -/
theorem int?_ofInt {size : ℕ} {z : ℤ} (hlow : -size ≤ z) (hhigh : z < size) :
    int? size (ofInt z) = some z := by
  by_cases hneg : z < 0
  · obtain ⟨n, rfl⟩ := Int.eq_negSucc_of_lt_zero hneg
    have hdigits : nat? size (.number (Nat.toDigits 10 (n + 1))) = some (n + 1) :=
      nat?_ofNat (by omega)
    rw [ofInt, if_pos hneg, int?]
    simp only [Int.natAbs_negSucc, hdigits]
  · obtain ⟨n, rfl⟩ := Int.eq_ofNat_of_zero_le (by omega : 0 ≤ z)
    have hdigits : nat? (size - 1) (ofNat n) = some n := nat?_ofNat (by omega)
    have hnumber : ofInt (n : ℤ) = ofNat n := by
      rw [ofInt, if_neg hneg, Int.natAbs_natCast]
      rfl
    have hsign : ∀ digits, ofNat n ≠ .number ('-' :: digits) := by
      intro digits h
      have hdigit := @Nat.isDigit_of_mem_toDigits 10 n '-' (by decide) (by decide)
      rw [ofNat, Json.number.injEq] at h
      rw [h] at hdigit
      exact absurd (hdigit List.mem_cons_self) (by decide)
    rw [hnumber, int?, hdigits]
    · rfl
    · exact hsign

end Fields

section Fits

variable {limits : Limits} {levels max : ℕ}

/-- Numbers up to a maximum are in range, with and without a sign. -/
structure Limits.Admits (limits : Limits) (max : ℕ) : Prop where
  natural : ∀ n ≤ max, limits.inRange (Nat.toDigits 10 n) = true
  negative : ∀ n ≤ max, limits.inRange ('-' :: Nat.toDigits 10 n) = true

theorem Limits.Admits.fits_ofNat (h : limits.Admits max) {n : ℕ} (hn : n ≤ max) :
    Fits limits levels (ofNat n) :=
  .number levels (isNumeral_toDigits (h.natural n hn))

/-- A sign before a number. -/
theorem numeral_minus {c : Char} {cs : List Char} {digits : Digits} (hc : c.isDigit = true)
    (h : numeral (c :: cs) = some digits) : numeral ('-' :: c :: cs) = some digits := by
  have hstart : startDigits c = stepDigits .minus c := by
    rw [Char.isDigit_iff_toNat] at hc
    have hminus : c ≠ '-' := by
      rintro rfl
      exact absurd hc (by decide)
    by_cases hzero : c = '0'
    · rw [hzero]
      rfl
    · rw [startDigits, if_neg hminus, if_neg hzero, stepDigits]
      exact fun h => absurd h hzero
  have hsign : startDigits '-' = some .minus := rfl
  rw [numeral, hsign, Option.bind_some, List.foldlM_cons, ← hstart]
  exact h

theorem Limits.Admits.fits_ofInt (h : limits.Admits max) {z : ℤ} (hz : z.natAbs ≤ max) :
    Fits limits levels (ofInt z) := by
  by_cases hneg : z < 0
  · have hdigits := numeral_toDigits (Int.natAbs_pos.mpr (by omega : z ≠ 0))
    have hdigit {c : Char} : c ∈ Nat.toDigits 10 z.natAbs → c.isDigit = true :=
      Nat.isDigit_of_mem_toDigits (by decide) (by decide)
    have hnumeral : numeral ('-' :: Nat.toDigits 10 z.natAbs) = some .int := by
      cases hcs : Nat.toDigits 10 z.natAbs with
      | nil =>
        rw [hcs] at hdigits
        cases hdigits
      | cons c cs =>
        rw [hcs] at hdigits hdigit
        exact numeral_minus (hdigit List.mem_cons_self) hdigits
    rw [ofInt, if_pos hneg]
    exact .number levels ⟨⟨.int, hnumeral, rfl⟩, h.negative _ hz⟩
  · rw [ofInt, if_neg hneg]
    exact h.fits_ofNat hz

theorem fits_record {members : List (String × Json)}
    (h : ∀ member ∈ members, Fits limits levels member.2) :
    Fits limits (levels + 1) (record members) :=
  .object (List.forall_mem_map.mpr h)

theorem forall_mem_skipNone {P : String × Json → Prop} {key : String} {value : Option Json} :
    (∀ member ∈ skipNone key value, P member) ↔ ∀ field ∈ value, P (key, field) := by
  cases value <;> simp [skipNone]

end Fits

end Json
