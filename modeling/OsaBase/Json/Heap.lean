import OsaBase.Json.Parse
import OsaBase.Lib.Links

/-!
# The trees of `cJSON.c` in memory

Items and strings are blocks from `malloc`. An address is given out once, so a pointer to a block
that was freed leads nowhere; a function is `none` when it follows such a pointer, or NULL, or frees
what is no block. A loop over the items of a chain takes the number of addresses given out as its
bound.
-/

open Json Links

namespace OsaBase

/-- A pointer to a string: a block, or memory of the caller's. -/
inductive CharPtr
  | block (a : ℕ)
  | caller (s : List UInt8)
  deriving DecidableEq, Repr

/-- What an item holds; the flag `cJSON_StringIsConst` says that `string` is the caller's. -/
structure CJsonInfo (D : Type) where
  type : CJsonType
  stringIsConst : Bool
  valuestring : Option ℕ
  valueint : Int32
  valuedouble : D
  string : Option CharPtr

/-- With the flag `cJSON_IsReference`, `child` and `valuestring` belong to another item. -/
structure CJsonData (D : Type) extends CJsonInfo D where
  child : Option ℕ
  isReference : Bool

/-- `cJSON`, with its links. -/
abbrev CJsonNode (D : Type) := Links.Node ℕ (CJsonData D)

/-- The blocks, the address that `malloc` gives next, and for which addresses it has memory. -/
structure CJsonHeap (D : Type) where
  items : ℕ → Option (CJsonNode D)
  texts : ℕ → Option (List UInt8)
  fresh : ℕ
  memory : ℕ → Bool

/-- The `tolower` of the C locale. -/
def tolower (c : UInt8) : UInt8 := if byte 'A' ≤ c ∧ c ≤ byte 'Z' then c + 32 else c

/-- The loop of `cJSON_strcasecmp`. -/
def strcasecmpLoop : List UInt8 → List UInt8 → ℤ
  | [], [] => 0
  | [], c :: _ => -((tolower c).toNat : ℤ)
  | c :: _, [] => (tolower c).toNat
  | c :: s1, d :: s2 =>
    if tolower c = tolower d then strcasecmpLoop s1 s2
    else (tolower c).toNat - (tolower d).toNat

def cJsonStrcasecmp : Option (List UInt8) → Option (List UInt8) → ℤ
  | none, none => 0
  | none, some _ => 1
  | some _, none => 1
  | some s1, some s2 => strcasecmpLoop s1 s2

namespace CJsonHeap

variable {D : Type}

/-! ## Blocks -/

/-- The heap before the first call. -/
def empty (memory : ℕ → Bool) : CJsonHeap D := ⟨fun _ ↦ none, fun _ ↦ none, 0, memory⟩

def malloc (h : CJsonHeap D) : Option ℕ × CJsonHeap D :=
  (if h.memory h.fresh then some h.fresh else none, { h with fresh := h.fresh + 1 })

/-- A block for an item that holds `d`. -/
def newItem (h : CJsonHeap D) (d : CJsonData D) : Option ℕ × CJsonHeap D :=
  let r := h.malloc
  match r.1 with
  | none => (none, r.2)
  | some a => (some a, { r.2 with items := Function.update h.items a (some ⟨none, none, d⟩) })

/-- `if (!node) return 0`, and what is done with the node otherwise. -/
def orNull {α β : Type} (r : Option α × CJsonHeap D)
    (f : α → CJsonHeap D → Option (Option β × CJsonHeap D)) : Option (Option β × CJsonHeap D) :=
  match r.1 with
  | none => some (none, r.2)
  | some a => f a r.2

def data (h : CJsonHeap D) (a : ℕ) : Option (CJsonData D) := (h.items a).map Node.data

/-- Fields of the item other than its links are written. -/
def write (h : CJsonHeap D) (a : ℕ) (f : CJsonData D → CJsonData D) : Option (CJsonHeap D) :=
  (h.items a).map fun n ↦
    { h with items := Function.update h.items a (some { n with data := f n.data }) }

def setNext (h : CJsonHeap D) (a : ℕ) (q : Option ℕ) : Option (CJsonHeap D) :=
  (Links.setNext h.items a q).map fun items ↦ { h with items }

def setPrev (h : CJsonHeap D) (a : ℕ) (p : Option ℕ) : Option (CJsonHeap D) :=
  (Links.setPrev h.items a p).map fun items ↦ { h with items }

def freeItem (h : CJsonHeap D) (a : ℕ) : Option (CJsonHeap D) :=
  (h.items a).map fun _ ↦ { h with items := Function.update h.items a none }

def freeText (h : CJsonHeap D) (a : ℕ) : Option (CJsonHeap D) :=
  (h.texts a).map fun _ ↦ { h with texts := Function.update h.texts a none }

/-- `if (str) cJSON_free(str)` -/
def freeString (h : CJsonHeap D) : Option CharPtr → Option (CJsonHeap D)
  | none => some h
  | some (.block a) => h.freeText a
  | some (.caller _) => none

/-- The bytes that a pointer leads to. -/
def chars (h : CJsonHeap D) : CharPtr → Option (List UInt8)
  | .block a => h.texts a
  | .caller s => some s

def cJsonStrdup (h : CJsonHeap D) (str : CharPtr) : Option (Option ℕ × CJsonHeap D) :=
  (h.chars str).map fun s ↦
    let r := h.malloc
    match r.1 with
    | none => (none, r.2)
    | some a => (some a, { r.2 with texts := Function.update h.texts a (some s) })

/-- `cJSON_Delete`, with a bound on the items it comes to. -/
def deleteLoop : ℕ → CJsonHeap D → Option ℕ → Option (CJsonHeap D)
  | _, h, none => some h
  | 0, _, some _ => none
  | fuel + 1, h, some c => do
    let next := (← h.items c).next
    let d ← h.data c
    let h ← (if d.isReference then some h else deleteLoop fuel h d.child)
    let d ← h.data c
    let h ← (if d.isReference then some h else h.freeString (d.valuestring.map .block))
    let h ← (if d.stringIsConst then some h else h.freeString d.string)
    let h ← h.freeItem c
    deleteLoop fuel h next

def cJsonDelete (h : CJsonHeap D) (c : Option ℕ) : Option (CJsonHeap D) :=
  deleteLoop (h.fresh + 1) h c

/-! ## Items of an array or an object -/

/-- `!cJSON_strcasecmp(c->string, string)` -/
def hasName (h : CJsonHeap D) (string : CharPtr) (n : CJsonNode D) : Option Bool := do
  let s ← h.chars string
  match n.data.string with
  | none => some (cJsonStrcasecmp none (some s) = 0)
  | some p => (h.chars p).map fun name ↦ cJsonStrcasecmp (some name) (some s) = 0

def cJsonGetArraySize (h : CJsonHeap D) (array : ℕ) : Option ℕ := do
  let d ← h.data array
  let r ← seek h.items (fun _ ↦ some false) h.fresh 0 d.child
  some r.1

/-- The loops that come to the item with the index `which`. -/
def cJsonGetArrayItem (h : CJsonHeap D) (array : ℕ) (which : ℤ) : Option (Option ℕ) := do
  let d ← h.data array
  walk h.items which.toNat d.child

/-- The loops that come to the item with the name `string`; they count the items before it. -/
def seekName (h : CJsonHeap D) (object : ℕ) (string : CharPtr) : Option (ℕ × Option ℕ) := do
  let d ← h.data object
  seek h.items (h.hasName string) h.fresh 0 d.child

def cJsonGetObjectItem (h : CJsonHeap D) (object : ℕ) (string : CharPtr) : Option (Option ℕ) := do
  let r ← h.seekName object string
  some r.2

def suffixObject (h : CJsonHeap D) (prev item : Option ℕ) : Option (CJsonHeap D) := do
  let p ← prev
  let h ← h.setNext p item
  let i ← item
  h.setPrev i (some p)

def createReference (h : CJsonHeap D) (item : ℕ) : Option (Option ℕ × CJsonHeap D) := do
  let n ← h.items item
  some (h.newItem { n.data with string := none, isReference := true })

def cJsonAddItemToArray (h : CJsonHeap D) (array : ℕ) (item : Option ℕ) :
    Option (CJsonHeap D) := do
  let d ← h.data array
  match item, d.child with
  | none, _ => some h
  | some item, none => h.write array fun d ↦ { d with child := some item }
  | some item, some c => do
    let r ← seek h.items (fun n ↦ some n.next.isNone) h.fresh 0 (some c)
    h.suffixObject r.2 (some item)

def cJsonAddItemToObject (h : CJsonHeap D) (object : ℕ) (string : CharPtr) :
    Option ℕ → Option (CJsonHeap D)
  | none => some h
  | some item => do
    let d ← h.data item
    let h ← h.freeString d.string
    let r ← h.cJsonStrdup string
    let h ← r.2.write item fun d ↦ { d with string := r.1.map .block }
    h.cJsonAddItemToArray object (some item)

def cJsonAddItemToObjectCs (h : CJsonHeap D) (object : ℕ) (string : CharPtr) :
    Option ℕ → Option (CJsonHeap D)
  | none => some h
  | some item => do
    let d ← h.data item
    let h ← (if d.stringIsConst then some h else h.freeString d.string)
    let h ← h.write item fun d ↦ { d with string := some string, stringIsConst := true }
    h.cJsonAddItemToArray object (some item)

def cJsonAddItemReferenceToArray (h : CJsonHeap D) (array item : ℕ) : Option (CJsonHeap D) := do
  let r ← h.createReference item
  r.2.cJsonAddItemToArray array r.1

def cJsonAddItemReferenceToObject (h : CJsonHeap D) (object : ℕ) (string : CharPtr) (item : ℕ) :
    Option (CJsonHeap D) := do
  let r ← h.createReference item
  r.2.cJsonAddItemToObject object string r.1

/-- `if (c == array->child) array->child = item` -/
def setChildAt (h : CJsonHeap D) (array c : ℕ) (item : Option ℕ) : Option (CJsonHeap D) := do
  let d ← h.data array
  if d.child = some c then h.write array fun d ↦ { d with child := item } else some h

def cJsonDetachItemFromArray (h : CJsonHeap D) (array : ℕ) (which : ℤ) :
    Option (Option ℕ × CJsonHeap D) := do
  match ← h.cJsonGetArrayItem array which with
  | none => some (none, h)
  | some c => do
    let n ← h.items c
    let items ← relinkNext h.items n.prev n.next
    let items ← relinkPrev items n.next n.prev
    let h ← setChildAt { h with items } array c n.next
    let h ← h.setPrev c none
    let h ← h.setNext c none
    some (some c, h)

def cJsonDeleteItemFromArray (h : CJsonHeap D) (array : ℕ) (which : ℤ) :
    Option (CJsonHeap D) := do
  let r ← h.cJsonDetachItemFromArray array which
  r.2.cJsonDelete r.1

def cJsonDetachItemFromObject (h : CJsonHeap D) (object : ℕ) (string : CharPtr) :
    Option (Option ℕ × CJsonHeap D) := do
  let r ← h.seekName object string
  if r.2.isSome then h.cJsonDetachItemFromArray object r.1 else some (none, h)

def cJsonDeleteItemFromObject (h : CJsonHeap D) (object : ℕ) (string : CharPtr) :
    Option (CJsonHeap D) := do
  let r ← h.cJsonDetachItemFromObject object string
  r.2.cJsonDelete r.1

/-- `if (c == array->child) array->child = newitem; else newitem->prev->next = newitem` -/
def linkBefore (h : CJsonHeap D) (array c newitem : ℕ) : Option (CJsonHeap D) := do
  let d ← h.data array
  if d.child = some c then h.write array fun d ↦ { d with child := some newitem }
  else
    let n ← h.items newitem
    let p ← n.prev
    h.setNext p (some newitem)

def cJsonInsertItemInArray (h : CJsonHeap D) (array : ℕ) (which : ℤ) (newitem : ℕ) :
    Option (CJsonHeap D) := do
  match ← h.cJsonGetArrayItem array which with
  | none => h.cJsonAddItemToArray array (some newitem)
  | some c => do
    let h ← h.setNext newitem (some c)
    let n ← h.items c
    let h ← h.setPrev newitem n.prev
    let h ← h.setPrev c (some newitem)
    h.linkBefore array c newitem

def cJsonReplaceItemInArray (h : CJsonHeap D) (array : ℕ) (which : ℤ) (newitem : ℕ) :
    Option (CJsonHeap D) := do
  match ← h.cJsonGetArrayItem array which with
  | none => some h
  | some c => do
    let n ← h.items c
    let h ← h.setNext newitem n.next
    let h ← h.setPrev newitem n.prev
    let items ← relinkPrev h.items n.next (some newitem)
    let h ← linkBefore { h with items } array c newitem
    let h ← h.setPrev c none
    let h ← h.setNext c none
    h.cJsonDelete (some c)

def cJsonReplaceItemInObject (h : CJsonHeap D) (object : ℕ) (string : CharPtr) (newitem : ℕ) :
    Option (CJsonHeap D) := do
  let r ← h.seekName object string
  if r.2.isSome then do
    let copy ← h.cJsonStrdup string
    let h ← copy.2.write newitem fun d ↦ { d with string := copy.1.map .block }
    h.cJsonReplaceItemInArray object r.1 newitem
  else some h

/-! ## Duplication -/

/-- A string of `item` is copied into a field of `newitem`; if there is no memory for it, `newitem`
is deleted. -/
def copyString (h : CJsonHeap D) (newitem : ℕ) (str : Option CharPtr)
    (f : ℕ → CJsonData D → CJsonData D) : Option (Bool × CJsonHeap D) :=
  match str with
  | none => some (true, h)
  | some p => do
    let r ← h.cJsonStrdup p
    match r.1 with
    | none => do
      let h ← r.2.cJsonDelete (some newitem)
      some (false, h)
    | some a => do
      let h ← r.2.write newitem (f a)
      some (true, h)

/-- The first part of `cJSON_Duplicate`: a copy of `item` without its children. -/
def duplicateItem (h : CJsonHeap D) (item : ℕ) : Option (Option ℕ × CJsonHeap D) := do
  let d ← h.data item
  orNull (h.newItem ⟨⟨d.type, d.stringIsConst, none, d.valueint, d.valuedouble, none⟩, none, false⟩)
    fun newitem h ↦ do
      let v ← h.copyString newitem (d.valuestring.map .block) fun a d ↦
        { d with valuestring := some a }
      if v.1 then do
        let s ← v.2.copyString newitem d.string fun a d ↦ { d with string := some (.block a) }
        some (if s.1 then some newitem else none, s.2)
      else some (none, v.2)

mutual

/-- `cJSON_Duplicate` of an item, with a bound on the items it comes to. -/
def duplicateLoop : ℕ → CJsonHeap D → ℕ → Bool → Option (Option ℕ × CJsonHeap D)
  | 0, _, _, _ => none
  | fuel + 1, h, item, recurse => do
    let r ← h.duplicateItem item
    orNull r fun newitem h ↦
      if recurse then do
        let d ← h.data item
        duplicateChildren fuel h newitem none d.child
      else some (some newitem, h)

/-- The loop over the children, `nptr` being the last copy. -/
def duplicateChildren : ℕ → CJsonHeap D → ℕ → Option ℕ → Option ℕ →
    Option (Option ℕ × CJsonHeap D)
  | _, h, newitem, _, none => some (some newitem, h)
  | 0, _, _, _, some _ => none
  | fuel + 1, h, newitem, nptr, some cptr => do
    let r ← duplicateLoop fuel h cptr true
    match r.1 with
    | none => do
      let h ← r.2.cJsonDelete (some newitem)
      some (none, h)
    | some newchild => do
      let h ← (if nptr.isSome then r.2.suffixObject nptr (some newchild)
        else r.2.write newitem fun d ↦ { d with child := some newchild })
      let n ← h.items cptr
      duplicateChildren fuel h newitem (some newchild) n.next

end

def cJsonDuplicate (h : CJsonHeap D) (item : Option ℕ) (recurse : Bool) :
    Option (Option ℕ × CJsonHeap D) :=
  match item with
  | none => some (none, h)
  | some item => duplicateLoop (2 * h.fresh + 2) h item recurse

/-! ## New items -/

variable [CDouble D]

open CDouble

/-- An item of zeros. -/
def zeros : CJsonData D := ⟨⟨.false, false, none, 0, ofInt 0, none⟩, none, false⟩

def cJsonNewItem (h : CJsonHeap D) : Option ℕ × CJsonHeap D := h.newItem zeros

def cJsonCreateNull (h : CJsonHeap D) : Option ℕ × CJsonHeap D :=
  h.newItem { zeros with type := .null }

def cJsonCreateTrue (h : CJsonHeap D) : Option ℕ × CJsonHeap D :=
  h.newItem { zeros with type := .true }

def cJsonCreateFalse (h : CJsonHeap D) : Option ℕ × CJsonHeap D :=
  h.newItem { zeros with type := .false }

def cJsonCreateBool (h : CJsonHeap D) (b : Bool) : Option ℕ × CJsonHeap D :=
  h.newItem { zeros with type := if b then .true else .false }

def cJsonCreateNumber (h : CJsonHeap D) (num : D) : Option ℕ × CJsonHeap D :=
  h.newItem { (zeros : CJsonData D) with
    type := .number, valuedouble := num, valueint := toInt num }

def cJsonCreateArray (h : CJsonHeap D) : Option ℕ × CJsonHeap D :=
  h.newItem { zeros with type := .array }

def cJsonCreateObject (h : CJsonHeap D) : Option ℕ × CJsonHeap D :=
  h.newItem { zeros with type := .object }

def cJsonCreateString (h : CJsonHeap D) (string : CharPtr) :
    Option (Option ℕ × CJsonHeap D) :=
  orNull (h.newItem { (zeros : CJsonData D) with type := .string }) fun item h ↦ do
    let copy ← h.cJsonStrdup string
    let h ← copy.2.write item fun d ↦ { d with valuestring := copy.1 }
    some (some item, h)

/-- The loop that fills the array `a`; `first` stands for `!i`. -/
def fillArray {α : Type} (create : CJsonHeap D → α → Option (Option ℕ × CJsonHeap D)) (a : ℕ) :
    CJsonHeap D → Bool → Option ℕ → List α → Option (CJsonHeap D)
  | h, _, _, [] => some h
  | h, first, p, x :: xs => do
    let r ← create h x
    let h ← (if first then r.2.write a fun d ↦ { d with child := r.1 }
      else r.2.suffixObject p r.1)
    fillArray create a h false r.1 xs

/-- The body that the functions below share. -/
def createArray {α : Type} (create : CJsonHeap D → α → Option (Option ℕ × CJsonHeap D))
    (h : CJsonHeap D) (xs : List α) : Option (Option ℕ × CJsonHeap D) :=
  orNull h.cJsonCreateArray fun a h ↦ do
    let h ← fillArray create a h true none xs
    some (some a, h)

def cJsonCreateIntArray (h : CJsonHeap D) (numbers : List Int32) :
    Option (Option ℕ × CJsonHeap D) :=
  createArray (fun h i ↦ some (h.cJsonCreateNumber (ofInt i.toInt))) h numbers

def cJsonCreateDoubleArray (h : CJsonHeap D) (numbers : List D) :
    Option (Option ℕ × CJsonHeap D) :=
  createArray (fun h num ↦ some (h.cJsonCreateNumber num)) h numbers

def cJsonCreateStringArray (h : CJsonHeap D) (strings : List CharPtr) :
    Option (Option ℕ × CJsonHeap D) :=
  createArray cJsonCreateString h strings

end CJsonHeap

end OsaBase
