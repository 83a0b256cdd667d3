import OsaBase.Lib.JsonText
import OsaBase.Osa

/-!
# The parser of `cJSON.c`

A pointer into a C string is what is left of the string, without its NUL. Moving behind the NUL is
an overrun, and so is a string that does not fit into the block allocated for it. The operations of
C on `double` are those of a class; `malloc` succeeds.
-/

open Json

namespace OsaBase

/-- What the code does with `double`. -/
class CDouble (D : Type) where
  ofInt : ℤ → D
  add : D → D → D
  sub : D → D → D
  mul : D → D → D
  pow : D → D → D
  fabs : D → D
  floor : D → D
  eq : D → D → Bool
  lt : D → D → Bool
  le : D → D → Bool
  /-- `(int)d` -/
  toInt : D → Int32
  dblEpsilon : D
  /-- `1.0e60`, `1.0e-6` and `1.0e9` -/
  huge : D
  small : D
  large : D
  /-- `sprintf` with `%.0f`, `%e` and `%f` -/
  sprintf0f : D → List UInt8
  sprintfE : D → List UInt8
  sprintfF : D → List UInt8

inductive CJsonType
  | false
  | true
  | null
  | number
  | string
  | array
  | object
  deriving DecidableEq, Repr

/-- `cJSON`; `child` is the chain over `next`. -/
structure CJson (D : Type) where
  type : CJsonType
  valuestring : Option (List UInt8)
  valueint : Int32
  valuedouble : D
  string : Option (List UInt8)
  child : List (CJson D)

inductive ParseError
  /-- `ep`, the place of the error -/
  | malformed (ep : List UInt8)
  | overrun
  | fuel
  deriving DecidableEq, Repr

/-- `*p` -/
def peek (p : List UInt8) : UInt8 := p.headD 0

/-- Jump whitespace and cr/lf. -/
def skip (p : List UInt8) : List UInt8 := p.dropWhile fun b ↦ b ≠ 0 ∧ b ≤ 32

/-! ## Strings -/

def parseHex4 (str : List UInt8) : ℕ :=
  match hexVal (peek str) with
  | none => 0
  | some w =>
    match hexVal (peek (str.drop 1)) with
    | none => 0
    | some x =>
      match hexVal (peek (str.drop 2)) with
      | none => 0
      | some y =>
        match hexVal (peek (str.drop 3)) with
        | none => 0
        | some z => (((w <<< 4 + x) <<< 4) + y) <<< 4 + z

def firstByteMark (len : ℕ) : UInt32 :=
  match len with
  | 2 => 0xC0
  | 3 => 0xE0
  | 4 => 0xF0
  | _ => 0

/-- The bytes behind the first one; the last six bits are in the last byte. -/
def contByte (uc : UInt32) : UInt8 := ((uc ||| 0x80) &&& 0xBF).toUInt8

def putUtf8 (uc : UInt32) : List UInt8 :=
  if uc < 0x80 then [(uc ||| firstByteMark 1).toUInt8]
  else if uc < 0x800 then [(uc >>> 6 ||| firstByteMark 2).toUInt8, contByte uc]
  else if uc < 0x10000 then
    [(uc >>> 6 >>> 6 ||| firstByteMark 3).toUInt8, contByte (uc >>> 6), contByte uc]
  else
    [(uc >>> 6 >>> 6 >>> 6 ||| firstByteMark 4).toUInt8, contByte (uc >>> 6 >>> 6),
      contByte (uc >>> 6), contByte uc]

/-- UTF-16 to UTF-8 behind `\u`: the bytes, and how far `ptr` moves. -/
def transcode (ptr : List UInt8) : List UInt8 × ℕ :=
  let uc := parseHex4 ptr
  if (0xDC00 ≤ uc ∧ uc ≤ 0xDFFF) ∨ uc = 0 then ([], 4)
  else if 0xD800 ≤ uc ∧ uc ≤ 0xDBFF then
    if peek (ptr.drop 4) ≠ byte '\\' ∨ peek (ptr.drop 5) ≠ byte 'u' then ([], 4)
    else
      let uc2 := parseHex4 (ptr.drop 6)
      if uc2 < 0xDC00 ∨ 0xDFFF < uc2 then ([], 10)
      else (putUtf8 (UInt32.ofNat (0x10000 + ((uc &&& 0x3FF) <<< 10 ||| uc2 &&& 0x3FF))), 10)
  else (putUtf8 (UInt32.ofNat uc), 4)

/-- The letters behind a backslash other than `u`. -/
def unescapeChar (e : UInt8) : UInt8 :=
  if e = byte 'b' then 8
  else if e = byte 'f' then 12
  else if e = byte 'n' then 10
  else if e = byte 'r' then 13
  else if e = byte 't' then 9
  else e

/-- The first pass: how many bytes the string needs, roughly. -/
def scanString : List UInt8 → Option ℕ
  | [] => some 0
  | c :: ptr =>
    if c = byte '"' then some 0
    else if c ≠ byte '\\' then (scanString ptr).map (· + 1)
    else
      match ptr with
      | [] => none
      | _ :: ptr => (scanString ptr).map (· + 1)

/-- The second pass: the bytes that are stored, and where `ptr` stops. The number says how many
characters `ptr` still has to move over. -/
def unescape : ℕ → List UInt8 → Option (List UInt8 × List UInt8)
  | 0, [] => some ([], [])
  | _ + 1, [] => none
  | k + 1, _ :: ptr => unescape k ptr
  | 0, c :: ptr =>
    if c = byte '"' then some ([], c :: ptr)
    else if c ≠ byte '\\' then (unescape 0 ptr).map fun r ↦ (c :: r.1, r.2)
    else
      match ptr with
      | [] => none
      | e :: ptr =>
        if e = byte 'u' then
          (unescape (transcode ptr).2 ptr).map fun r ↦ ((transcode ptr).1 ++ r.1, r.2)
        else (unescape 0 ptr).map fun r ↦ (unescapeChar e :: r.1, r.2)

variable {D : Type}

/-- `out` has room for `len` bytes and the NUL. -/
def parseString (item : CJson D) (str : List UInt8) : Except ParseError (CJson D × List UInt8) :=
  if peek str ≠ byte '"' then .error (.malformed str)
  else
    match scanString str.tail with
    | none => .error .overrun
    | some len =>
      match unescape 0 str.tail with
      | none => .error .overrun
      | some (out, ptr) =>
        if len < out.length then .error .overrun
        else
          .ok ({ item with type := .string, valuestring := some out },
            if peek ptr = byte '"' then ptr.tail else ptr)

/-! ## Numbers -/

variable [CDouble D]

open CDouble

/-- `n=(n*10.0)+(*num++ -'0')` -/
def addDigit (n : D) (c : UInt8) : D := add (mul n (ofInt 10)) (ofInt (c.toNat - 48))

/-- A sequence of digits: what it adds to `n`, and where it ends. -/
def readDigits (n : D) (num : List UInt8) : D × List UInt8 :=
  ((num.takeWhile fun c ↦ IsDigit c).foldl addDigit n, num.dropWhile fun c ↦ IsDigit c)

/-- The part behind the point: the digits are added to `n` and counted in `scale`. -/
def readFraction (n : D) (num : List UInt8) : D × D × List UInt8 :=
  if peek num = byte '.' ∧ IsDigit (peek num.tail) then
    let r := readDigits n num.tail
    (r.1,
      (num.tail.takeWhile fun c ↦ IsDigit c).foldl (fun scale _ ↦ sub scale (ofInt 1)) (ofInt 0),
      r.2)
  else (n, ofInt 0, num)

/-- `subscale`, `signsubscale`, and where the exponent ends. -/
def readExponent (num : List UInt8) : ℤ × ℤ × List UInt8 :=
  if peek num = byte 'e' ∨ peek num = byte 'E' then
    let num := num.tail
    let signsubscale := if peek num = byte '-' then -1 else 1
    let num := if peek num = byte '+' ∨ peek num = byte '-' then num.tail else num
    ((num.takeWhile fun c ↦ IsDigit c).foldl
        (fun subscale c ↦ int32 (subscale * 10 + (c.toNat - 48))) 0,
      signsubscale, num.dropWhile fun c ↦ IsDigit c)
  else (0, 1, num)

def parseNumber (item : CJson D) (num : List UInt8) : CJson D × List UInt8 :=
  let sign : D := ofInt (if peek num = byte '-' then -1 else 1)
  let num := if peek num = byte '-' then num.tail else num
  let num := if peek num = byte '0' then num.tail else num
  let r := if IsDigit (peek num) ∧ peek num ≠ byte '0' then readDigits (ofInt 0) num
    else (ofInt 0, num)
  let f := readFraction r.1 r.2
  let e := readExponent f.2.2
  let n := mul (mul sign f.1) (pow (ofInt 10) (add f.2.1 (ofInt (int32 (e.1 * e.2.1)))))
  ({ item with type := .number, valuedouble := n, valueint := toInt n }, e.2.2)

/-! ## Values -/

/-- `cJSON_New_Item` -/
def CJson.new : CJson D := ⟨.false, none, 0, ofInt 0, none, []⟩

def nullText : List UInt8 := [byte 'n', byte 'u', byte 'l', byte 'l']

def falseText : List UInt8 := [byte 'f', byte 'a', byte 'l', byte 's', byte 'e']

def trueText : List UInt8 := [byte 't', byte 'r', byte 'u', byte 'e']

mutual

def parseValue : ℕ → CJson D → List UInt8 → Except ParseError (CJson D × List UInt8)
  | 0, _, _ => .error .fuel
  | fuel + 1, item, value =>
    if nullText.isPrefixOf value then .ok ({ item with type := .null }, value.drop 4)
    else if falseText.isPrefixOf value then .ok ({ item with type := .false }, value.drop 5)
    else if trueText.isPrefixOf value then
      .ok ({ item with type := .true, valueint := 1 }, value.drop 4)
    else if peek value = byte '"' then parseString item value
    else if peek value = byte '-' ∨ IsDigit (peek value) then .ok (parseNumber item value)
    else if peek value = byte '[' then parseArray fuel item value
    else if peek value = byte '{' then parseObject fuel item value
    else .error (.malformed value)

def parseArray : ℕ → CJson D → List UInt8 → Except ParseError (CJson D × List UInt8)
  | 0, _, _ => .error .fuel
  | fuel + 1, item, value =>
    if peek value ≠ byte '[' then .error (.malformed value)
    else
      let item := { item with type := .array }
      let value := skip value.tail
      if peek value = byte ']' then .ok (item, value.tail)
      else do
        let r ← parseValue fuel .new (skip value)
        let r ← parseItems fuel [r.1] (skip r.2)
        .ok ({ item with child := r.1 }, r.2)

/-- The loop of `parse_array`. -/
def parseItems :
    ℕ → List (CJson D) → List UInt8 → Except ParseError (List (CJson D) × List UInt8)
  | 0, _, _ => .error .fuel
  | fuel + 1, child, value =>
    if peek value = byte ',' then do
      let r ← parseValue fuel .new (skip value.tail)
      parseItems fuel (child ++ [r.1]) (skip r.2)
    else if peek value = byte ']' then .ok (child, value.tail)
    else .error (.malformed value)

def parseObject : ℕ → CJson D → List UInt8 → Except ParseError (CJson D × List UInt8)
  | 0, _, _ => .error .fuel
  | fuel + 1, item, value =>
    if peek value ≠ byte '{' then .error (.malformed value)
    else
      let item := { item with type := .object }
      let value := skip value.tail
      if peek value = byte '}' then .ok (item, value.tail)
      else do
        let r ← parseMember fuel (skip value)
        let r ← parseMembers fuel [r.1] r.2
        .ok ({ item with child := r.1 }, r.2)

/-- A name and a value, and the whitespace behind. -/
def parseMember : ℕ → List UInt8 → Except ParseError (CJson D × List UInt8)
  | 0, _ => .error .fuel
  | fuel + 1, value => do
    let r ← parseString .new value
    let child := { r.1 with string := r.1.valuestring, valuestring := none }
    let value := skip r.2
    if peek value ≠ byte ':' then .error (.malformed value)
    else
      let r ← parseValue fuel child (skip value.tail)
      .ok (r.1, skip r.2)

/-- The loop of `parse_object`. -/
def parseMembers :
    ℕ → List (CJson D) → List UInt8 → Except ParseError (List (CJson D) × List UInt8)
  | 0, _, _ => .error .fuel
  | fuel + 1, child, value =>
    if peek value = byte ',' then do
      let r ← parseMember fuel (skip value.tail)
      parseMembers fuel (child ++ [r.1]) r.2
    else if peek value = byte '}' then .ok (child, value.tail)
    else .error (.malformed value)

end

/-- The item and the end of the text that was parsed. -/
def cJsonParseWithOpts (value : List UInt8) (requireNullTerminated : Bool) :
    Except ParseError (CJson D × List UInt8) := do
  let r ← parseValue (3 * value.length + 3) .new (skip value)
  if requireNullTerminated then
    if peek (skip r.2) ≠ 0 then .error (.malformed (skip r.2)) else .ok (r.1, skip r.2)
  else .ok r

def cJsonParse (value : List UInt8) : Except ParseError (CJson D × List UInt8) :=
  cJsonParseWithOpts value false

end OsaBase
