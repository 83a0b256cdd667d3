import Mathlib.Data.Nat.Digits.Lemmas
import OsaBase.Json.Parse

/-!
# The printer of `cJSON.c`

`cJSON_Print` and `cJSON_PrintUnformatted`. Every text is written with its NUL into a block whose
size was computed before; a byte behind the block is an overflow. `malloc` succeeds, and an `int`
holds the length of a text.
-/

open Json

namespace OsaBase

inductive PrintError
  | overflow
  /-- NULL is dereferenced. -/
  | null
  /-- `malloc` is asked for less than nothing. -/
  | memory
  deriving DecidableEq, Repr

/-- `out` and its NUL in a block of `size` bytes. -/
def fillBlock (size : ℕ) (out : List UInt8) : Except PrintError (List UInt8) :=
  if size < out.length + 1 then .error .overflow else .ok out

/-! ## Numbers -/

def decimalDigits (n : ℕ) : List ℕ := if n = 0 then [0] else (Nat.digits 10 n).reverse

/-- `sprintf` with `%d` -/
def sprintfD (i : ℤ) : List UInt8 :=
  (if i < 0 then [byte '-'] else []) ++ digitText (decimalDigits i.natAbs)

variable {D : Type} [CDouble D]

open CDouble

/-- The text of a number, and the size of its block. -/
def numberText (item : CJson D) : ℕ × List UInt8 :=
  let d := item.valuedouble
  if eq d (ofInt 0) then (2, [byte '0'])
  else if le (fabs (sub (ofInt item.valueint.toInt) d)) dblEpsilon ∧ le d (ofInt (2 ^ 31 - 1)) ∧
      le (ofInt (-2 ^ 31)) d then
    (21, sprintfD item.valueint.toInt)
  else
    (64,
      if le (fabs (sub (floor d) d)) dblEpsilon ∧ lt (fabs d) huge then sprintf0f d
      else if lt (fabs d) small ∨ lt large (fabs d) then sprintfE d
      else sprintfF d)

def printNumber (item : CJson D) : Except PrintError (List UInt8) :=
  fillBlock (numberText item).1 (numberText item).2

/-! ## Strings -/

def isFlagged (c : UInt8) : Bool := (0 < c ∧ c < 32) ∨ c = byte '"' ∨ c = byte '\\'

/-- What one character adds to `len`. -/
def escapedLength (token : UInt8) : ℕ :=
  if token ∈ [byte '"', byte '\\', 8, 12, 10, 13, 9] then 2
  else if token < 32 then 6
  else 1

def hexDigit (n : ℕ) : UInt8 := UInt8.ofNat (if n < 10 then 48 + n else 87 + n)

/-- `sprintf` with `%04x`, for a byte -/
def sprintf04x (token : UInt8) : List UInt8 :=
  [byte '0', byte '0', hexDigit (token.toNat / 16), hexDigit (token.toNat % 16)]

def escapeChar (c : UInt8) : List UInt8 :=
  if 31 < c ∧ c ≠ byte '"' ∧ c ≠ byte '\\' then [c]
  else
    byte '\\' ::
      (if c = byte '\\' then [byte '\\']
      else if c = byte '"' then [byte '"']
      else if c = 8 then [byte 'b']
      else if c = 12 then [byte 'f']
      else if c = 10 then [byte 'n']
      else if c = 13 then [byte 'r']
      else if c = 9 then [byte 't']
      else byte 'u' :: sprintf04x c)

/-- The text of a string, and the size of its block. -/
def stringText (str : List UInt8) : ℕ × List UInt8 :=
  if str.any isFlagged then
    ((str.map escapedLength).sum + 3, byte '"' :: (str.flatMap escapeChar ++ [byte '"']))
  else (str.length + 3, byte '"' :: (str ++ [byte '"']))

def printStringPtr : Option (List UInt8) → Except PrintError (List UInt8)
  | none => .error .null
  | some str => fillBlock (stringText str).1 (stringText str).2

/-! ## Values -/

def tabs (n : ℕ) : List UInt8 := List.replicate n (byte '\t')

/-- The entries of an array, composed. -/
def composeArray (fmt : Bool) : List (List UInt8) → List UInt8
  | [] => []
  | [entry] => entry
  | entry :: entries =>
    entry ++ byte ',' :: ((if fmt then [byte ' '] else []) ++ composeArray fmt entries)

/-- The names and the entries of an object, composed. -/
def composeObject (fmt : Bool) (depth : ℕ) : List (List UInt8 × List UInt8) → List UInt8
  | [] => []
  | (name, entry) :: entries =>
    (if fmt then tabs depth else []) ++ name ++ byte ':' :: (if fmt then [byte '\t'] else []) ++
      entry ++ (if entries.isEmpty then [] else [byte ',']) ++ (if fmt then [byte '\n'] else []) ++
      composeObject fmt depth entries

mutual

/-- `print_value`, and `print_array` and `print_object` in it. -/
def printValue : CJson D → ℕ → Bool → Except PrintError (List UInt8)
  | item@⟨type, valuestring, _, _, _, child⟩, depth, fmt =>
    match type with
    | .null => .ok nullText
    | .false => .ok falseText
    | .true => .ok trueText
    | .number => printNumber item
    | .string => printStringPtr valuestring
    | .array =>
      if child.isEmpty then fillBlock 3 [byte '[', byte ']']
      else do
        let entries ← printEntries child (depth + 1) fmt
        fillBlock (5 + (entries.map fun ret ↦ ret.length + 2 + if fmt then 1 else 0).sum)
          (byte '[' :: (composeArray fmt entries ++ [byte ']']))
    | .object =>
      if child.isEmpty then
        fillBlock (if fmt then depth + 4 else 3)
          (byte '{' :: ((if fmt then byte '\n' :: tabs (depth - 1) else []) ++ [byte '}']))
      else do
        let entries ← printMembers child (depth + 1) fmt
        fillBlock (7 + (if fmt then depth + 1 else 0) + (entries.map fun e ↦
            e.2.length + e.1.length + 2 + if fmt then 2 + (depth + 1) else 0).sum)
          (byte '{' :: ((if fmt then [byte '\n'] else []) ++
            composeObject fmt (depth + 1) entries ++ (if fmt then tabs depth else []) ++
            [byte '}']))

/-- The entries of an array. -/
def printEntries : List (CJson D) → ℕ → Bool → Except PrintError (List (List UInt8))
  | [], _, _ => .ok []
  | c :: child, depth, fmt => do
    let ret ← printValue c depth fmt
    let entries ← printEntries child depth fmt
    .ok (ret :: entries)

/-- The names and the entries of an object. -/
def printMembers : List (CJson D) → ℕ → Bool → Except PrintError (List (List UInt8 × List UInt8))
  | [], _, _ => .ok []
  | c :: child, depth, fmt => do
    let str ← printStringPtr c.string
    let ret ← printValue c depth fmt
    let entries ← printMembers child depth fmt
    .ok ((str, ret) :: entries)

end

def cJsonPrint (item : CJson D) : Except PrintError (List UInt8) := printValue item 0 true

def cJsonPrintUnformatted (item : CJson D) : Except PrintError (List UInt8) :=
  printValue item 0 false

end OsaBase
