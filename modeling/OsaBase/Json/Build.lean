import OsaBase.Json.Heap

/-!
# The parser of `cJSON.c` in memory

The functions of the parser fill items that are linked into the tree before their text is read.
What they return is NULL, or what is left of the text; the value is `none` when the code follows
NULL, moves behind the end of the text or writes behind a block.
-/

open Json

namespace OsaBase

namespace CJsonHeap

variable {D : Type}

/-- The fields of `item` are set, and the text goes on at `rest`. -/
def store (h : CJsonHeap D) (item : ℕ) (rest : List UInt8) (f : CJsonData D → CJsonData D) :
    Option (Option (List UInt8) × CJsonHeap D) := do
  let h ← h.write item f
  some (some rest, h)

def parseString (h : CJsonHeap D) (item : ℕ) (str : List UInt8) :
    Option (Option (List UInt8) × CJsonHeap D) :=
  if peek str ≠ byte '"' then some (none, h)
  else do
    let len ← scanString str.tail
    orNull h.malloc fun a h ↦ do
      let r ← unescape 0 str.tail
      if len < r.1.length then none
      else
        store { h with texts := Function.update h.texts a (some r.1) } item
          (if peek r.2 = byte '"' then r.2.tail else r.2)
          fun d ↦ { d with valuestring := some a, type := .string }

variable [CDouble D]

def parseNumber (h : CJsonHeap D) (item : ℕ) (num : List UInt8) :
    Option (Option (List UInt8) × CJsonHeap D) :=
  let r := OsaBase.parseNumber (.new : CJson D) num
  h.store item r.2 fun d ↦
    { d with type := .number, valueint := r.1.valueint, valuedouble := r.1.valuedouble }

mutual

/-- `parse_value`, with a bound on the calls. -/
def parseValue : ℕ → CJsonHeap D → ℕ → List UInt8 → Option (Option (List UInt8) × CJsonHeap D)
  | 0, _, _, _ => none
  | fuel + 1, h, item, value =>
    if nullText.isPrefixOf value then h.store item (value.drop 4) fun d ↦ { d with type := .null }
    else if falseText.isPrefixOf value then
      h.store item (value.drop 5) fun d ↦ { d with type := .false }
    else if trueText.isPrefixOf value then
      h.store item (value.drop 4) fun d ↦ { d with type := .true, valueint := 1 }
    else if peek value = byte '"' then h.parseString item value
    else if peek value = byte '-' ∨ IsDigit (peek value) then h.parseNumber item value
    else if peek value = byte '[' then parseArray fuel h item value
    else if peek value = byte '{' then parseObject fuel h item value
    else some (none, h)

def parseArray : ℕ → CJsonHeap D → ℕ → List UInt8 → Option (Option (List UInt8) × CJsonHeap D)
  | 0, _, _, _ => none
  | fuel + 1, h, item, value =>
    if peek value ≠ byte '[' then some (none, h)
    else do
      let h ← h.write item fun d ↦ { d with type := .array }
      let value := skip value.tail
      if peek value = byte ']' then some (some value.tail, h)
      else do
        let r := h.cJsonNewItem
        let h ← r.2.write item fun d ↦ { d with child := r.1 }
        orNull (r.1, h) fun child h ↦ do
          let r ← parseValue fuel h child (skip value)
          orNull r fun value h ↦ parseItems fuel h child (skip value)

/-- The loop of `parse_array`. -/
def parseItems : ℕ → CJsonHeap D → ℕ → List UInt8 → Option (Option (List UInt8) × CJsonHeap D)
  | 0, _, _, _ => none
  | fuel + 1, h, child, value =>
    if peek value = byte ',' then
      orNull h.cJsonNewItem fun newItem h ↦ do
        let h ← h.suffixObject (some child) (some newItem)
        let r ← parseValue fuel h newItem (skip value.tail)
        orNull r fun value h ↦ parseItems fuel h newItem (skip value)
    else if peek value = byte ']' then some (some value.tail, h)
    else some (none, h)

def parseObject : ℕ → CJsonHeap D → ℕ → List UInt8 → Option (Option (List UInt8) × CJsonHeap D)
  | 0, _, _, _ => none
  | fuel + 1, h, item, value =>
    if peek value ≠ byte '{' then some (none, h)
    else do
      let h ← h.write item fun d ↦ { d with type := .object }
      let value := skip value.tail
      if peek value = byte '}' then some (some value.tail, h)
      else do
        let r := h.cJsonNewItem
        let h ← r.2.write item fun d ↦ { d with child := r.1 }
        orNull (r.1, h) fun child h ↦ do
          let r ← parseMember fuel h child (skip value)
          orNull r fun value h ↦ parseMembers fuel h child value

/-- A name and a value, and the whitespace behind. -/
def parseMember : ℕ → CJsonHeap D → ℕ → List UInt8 → Option (Option (List UInt8) × CJsonHeap D)
  | 0, _, _, _ => none
  | fuel + 1, h, child, value => do
    let r ← h.parseString child value
    orNull r fun value h ↦ do
      let h ← h.write child fun d ↦
        { d with string := d.valuestring.map .block, valuestring := none }
      let value := skip value
      if peek value ≠ byte ':' then some (none, h)
      else do
        let r ← parseValue fuel h child (skip value.tail)
        orNull r fun value h ↦ some (some (skip value), h)

/-- The loop of `parse_object`. -/
def parseMembers : ℕ → CJsonHeap D → ℕ → List UInt8 → Option (Option (List UInt8) × CJsonHeap D)
  | 0, _, _, _ => none
  | fuel + 1, h, child, value =>
    if peek value = byte ',' then
      orNull h.cJsonNewItem fun newItem h ↦ do
        let h ← h.suffixObject (some child) (some newItem)
        let r ← parseMember fuel h newItem (skip value.tail)
        orNull r fun value h ↦ parseMembers fuel h newItem value
    else if peek value = byte '}' then some (some value.tail, h)
    else some (none, h)

end

/-- `return 0` behind `cJSON_Delete(c)` -/
def parseFails {α : Type} (h : CJsonHeap D) (c : ℕ) : Option (Option α × CJsonHeap D) := do
  let h ← h.cJsonDelete (some c)
  some (none, h)

/-- What `cJSON_ParseWithOpts` does with the end of the value. -/
def finishParse (h : CJsonHeap D) (c : ℕ) (requireNullTerminated : Bool) :
    Option (List UInt8) → Option (Option (ℕ × List UInt8) × CJsonHeap D)
  | none => h.parseFails c
  | some e =>
    if requireNullTerminated then
      if peek (skip e) ≠ 0 then h.parseFails c else some (some (c, skip e), h)
    else some (some (c, e), h)

/-- The item and the end of the text that was parsed. -/
def cJsonParseWithOpts (h : CJsonHeap D) (value : List UInt8) (requireNullTerminated : Bool) :
    Option (Option (ℕ × List UInt8) × CJsonHeap D) :=
  orNull h.cJsonNewItem fun c h ↦ do
    let r ← parseValue (3 * value.length + 3) h c (skip value)
    r.2.finishParse c requireNullTerminated r.1

end CJsonHeap

end OsaBase
