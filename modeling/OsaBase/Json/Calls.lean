import OsaBase.Json.Arrays
import OsaBase.Json.Builds

/-!
# Programs that use `cJSON.c`

The calls, what they do to a forest of trees when the caller obeys the rules, and programs of calls:
no program that obeys the rules follows a dangling pointer or frees a block twice, and at each step
the heap has exactly the blocks of the forest.
-/

open Json

namespace OsaBase

open CJsonHeap ItemTree

/-- A call with its arguments; a string is the caller's, and an item that may be NULL is an
option. -/
inductive Call (D : Type)
  | parse (value : List UInt8) (requireNullTerminated : Bool)
  | createNull
  | createTrue
  | createFalse
  | createBool (b : Bool)
  | createNumber (num : D)
  | createString (s : List UInt8)
  | createArray
  | createObject
  | createIntArray (numbers : List Int32)
  | createDoubleArray (numbers : List D)
  | createStringArray (strings : List (List UInt8))
  | getArrayItem (array : ℕ) (which : ℤ)
  | getObjectItem (object : ℕ) (s : List UInt8)
  | addItemToArray (array : ℕ) (item : Option ℕ)
  | addItemToObject (object : ℕ) (s : List UInt8) (item : Option ℕ)
  | addItemToObjectCs (object : ℕ) (s : List UInt8) (item : Option ℕ)
  | addItemReferenceToArray (array item : ℕ)
  | addItemReferenceToObject (object : ℕ) (s : List UInt8) (item : ℕ)
  | detachItemFromArray (array : ℕ) (which : ℤ)
  | deleteItemFromArray (array : ℕ) (which : ℤ)
  | detachItemFromObject (object : ℕ) (s : List UInt8)
  | deleteItemFromObject (object : ℕ) (s : List UInt8)
  | insertItemInArray (array : ℕ) (which : ℤ) (newitem : ℕ)
  | replaceItemInArray (array : ℕ) (which : ℤ) (newitem : ℕ)
  | replaceItemInObject (object : ℕ) (s : List UInt8) (newitem : ℕ)
  | duplicate (item : Option ℕ) (recurse : Bool)
  | delete (item : Option ℕ)

variable {D : Type} [CDouble D]

namespace Call

/-- The pointer that the function returns, NULL for a function without a result. -/
def run : Call D → CJsonHeap D → Option (Option ℕ × CJsonHeap D)
  | parse value requireNullTerminated, h =>
    (h.cJsonParseWithOpts value requireNullTerminated).map fun r ↦ (r.1.map Prod.fst, r.2)
  | createNull, h => some h.cJsonCreateNull
  | createTrue, h => some h.cJsonCreateTrue
  | createFalse, h => some h.cJsonCreateFalse
  | createBool b, h => some (h.cJsonCreateBool b)
  | createNumber num, h => some (h.cJsonCreateNumber num)
  | createString s, h => h.cJsonCreateString (.caller s)
  | createArray, h => some h.cJsonCreateArray
  | createObject, h => some h.cJsonCreateObject
  | createIntArray numbers, h => h.cJsonCreateIntArray numbers
  | createDoubleArray numbers, h => h.cJsonCreateDoubleArray numbers
  | createStringArray strings, h => h.cJsonCreateStringArray (strings.map .caller)
  | getArrayItem a which, h => (h.cJsonGetArrayItem a which).map fun r ↦ (r, h)
  | getObjectItem a s, h => (h.cJsonGetObjectItem a (.caller s)).map fun r ↦ (r, h)
  | addItemToArray a b, h => (h.cJsonAddItemToArray a b).map fun h ↦ (none, h)
  | addItemToObject a s b, h => (h.cJsonAddItemToObject a (.caller s) b).map fun h ↦ (none, h)
  | addItemToObjectCs a s b, h => (h.cJsonAddItemToObjectCs a (.caller s) b).map fun h ↦ (none, h)
  | addItemReferenceToArray a b, h =>
    (h.cJsonAddItemReferenceToArray a b).map fun h ↦ (none, h)
  | addItemReferenceToObject a s b, h =>
    (h.cJsonAddItemReferenceToObject a (.caller s) b).map fun h ↦ (none, h)
  | detachItemFromArray a which, h => h.cJsonDetachItemFromArray a which
  | deleteItemFromArray a which, h => (h.cJsonDeleteItemFromArray a which).map fun h ↦ (none, h)
  | detachItemFromObject a s, h => h.cJsonDetachItemFromObject a (.caller s)
  | deleteItemFromObject a s, h =>
    (h.cJsonDeleteItemFromObject a (.caller s)).map fun h ↦ (none, h)
  | insertItemInArray a which b, h =>
    (h.cJsonInsertItemInArray a which b).map fun h ↦ (none, h)
  | replaceItemInArray a which b, h =>
    (h.cJsonReplaceItemInArray a which b).map fun h ↦ (none, h)
  | replaceItemInObject a s b, h =>
    (h.cJsonReplaceItemInObject a (.caller s) b).map fun h ↦ (none, h)
  | duplicate a recurse, h => h.cJsonDuplicate a recurse
  | delete a, h => (h.cJsonDelete a).map fun h ↦ (none, h)

open CDouble

/-- What a new item without a string holds. -/
def label : Call D → Option (ItemLabel D)
  | createNull => some (plainLabel .null)
  | createTrue => some (plainLabel .true)
  | createFalse => some (plainLabel .false)
  | createBool b => some (plainLabel (if b then .true else .false))
  | createNumber num => some (numberLabel num)
  | createArray => some (plainLabel .array)
  | createObject => some (plainLabel .object)
  | _ => none

end Call

open CDouble

/-- What a call does to a forest, and which pointer it returns. The rules say which calls are
allowed:
* a text is parsed if the parser does not run behind it;
* an array of two or more items is created if `malloc` fails for itself or for none of the items;
* an array or object is an item of the forest, and not a reference;
* an item that is added or put in the place of another is a tree of its own, so it is neither in
  another tree nor above the array;
* a name that is the caller's is not replaced by `cJSON_AddItemToObject`;
* an item that is referred to or duplicated is in the forest; one that is duplicated is not a
  reference, and has none below it if its children are duplicated too;
* an item that is deleted is a tree of its own, or NULL. -/
inductive Does : Call D → Forest D → Option ℕ → Forest D → Prop
  | parse {value requireNullTerminated s r σ}
      (hdone : ParseDone value requireNullTerminated s r σ) :
      Does (.parse value requireNullTerminated) s r σ
  | new {c : Call D} {l : ItemLabel D} {F G k m} (hc : c.label = some l) (hm : m k = true) :
      Does c ⟨F, G, k, m⟩ (some k) ⟨{.item k l []} + F, G, k + 1, m⟩
  | newFails {c : Call D} {l : ItemLabel D} {F G k m} (hc : c.label = some l) (hm : m k = false) :
      Does c ⟨F, G, k, m⟩ none ⟨F, G, k + 1, m⟩
  | createString {s F G k m} (hm : m k = true) :
      Does (.createString s) ⟨F, G, k, m⟩ (some k)
        ⟨{.item k (stringLabel m (k + 1) s) []} + F, G, k + 2, m⟩
  | createStringFails {s F G k m} (hm : m k = false) :
      Does (.createString s) ⟨F, G, k, m⟩ none ⟨F, G, k + 1, m⟩
  | createIntArray {numbers s r σ} (hdone : ArrayDone
        (numberLeaf fun i : Int32 ↦ (ofInt i.toInt : D)) 1 numbers s r σ) :
      Does (.createIntArray numbers) s r σ
  | createDoubleArray {numbers s r σ} (hdone : ArrayDone
        (numberLeaf fun num : D ↦ num) 1 numbers s r σ) : Does (.createDoubleArray numbers) s r σ
  | createStringArray {strings s r σ} (hdone : ArrayDone stringLeaf 2 strings s r σ) :
      Does (.createStringArray strings) s r σ
  | getArrayItem {C : Ctx D} {array l children which F G k m} :
      Does (.getArrayItem array which) ⟨{C.plug (.item array l children)} + F, G, k, m⟩
        (firstOf (children.drop which.toNat))
        ⟨{C.plug (.item array l children)} + F, G, k, m⟩
  | getObjectItem {C : Ctx D} {object l xs t ys s F G k m} (hxs : ∀ u ∈ xs, ¬u.Matches s)
      (ht : t.Matches s) :
      Does (.getObjectItem object s) ⟨{C.plug (.item object l (xs ++ t :: ys))} + F, G, k, m⟩
        (some t.addr) ⟨{C.plug (.item object l (xs ++ t :: ys))} + F, G, k, m⟩
  | getObjectItemNone {C : Ctx D} {object l children s F G k m}
      (hchildren : ∀ u ∈ children, ¬u.Matches s) :
      Does (.getObjectItem object s) ⟨{C.plug (.item object l children)} + F, G, k, m⟩ none
        ⟨{C.plug (.item object l children)} + F, G, k, m⟩
  | addItemToArray {C : Ctx D} {array l children t F G k m} :
      Does (.addItemToArray array (some t.addr))
        ⟨{C.plug (.item array l children)} + ({t} + F), G, k, m⟩ none
        ⟨{C.plug (.item array l (children ++ [t]))} + F, G, k, m⟩
  | addNullToArray {C : Ctx D} {array l children F G k m} :
      Does (.addItemToArray array none) ⟨{C.plug (.item array l children)} + F, G, k, m⟩ none
        ⟨{C.plug (.item array l children)} + F, G, k, m⟩
  | addItemToObject {C : Ctx D} {object l children t s F G k m}
      (hown : ∀ s, t.label.name ≠ .caller s) :
      Does (.addItemToObject object s (some t.addr))
        ⟨{C.plug (.item object l children)} + ({t} + F), G, k, m⟩ none
        ⟨{C.plug (.item object l
          (children ++ [t.rename (strdupName m k t.label.name.isConst s)]))} + F, G, k + 1, m⟩
  | addNullToObject {object s σ} : Does (.addItemToObject object s none) σ none σ
  | addItemToObjectCs {C : Ctx D} {object l children t s F G k m} :
      Does (.addItemToObjectCs object s (some t.addr))
        ⟨{C.plug (.item object l children)} + ({t} + F), G, k, m⟩ none
        ⟨{C.plug (.item object l (children ++ [t.rename (.caller s)]))} + F,
          t.label.name.leaky + G, k, m⟩
  | addNullToObjectCs {object s σ} : Does (.addItemToObjectCs object s none) σ none σ
  | addItemReferenceToArray {C C' : Ctx D} {array l children u F F' G k m}
      (hu : {C.plug (.item array l children)} + F = {C'.plug u} + F') (hm : m k = true) :
      Does (.addItemReferenceToArray array u.addr)
        ⟨{C.plug (.item array l children)} + F, G, k, m⟩ none
        ⟨{C.plug (.item array l (children ++ [u.refer k]))} + F, G, k + 1, m⟩
  | addNoReferenceToArray {C C' : Ctx D} {array l children u F F' G k m}
      (hu : {C.plug (.item array l children)} + F = {C'.plug u} + F') (hm : m k = false) :
      Does (.addItemReferenceToArray array u.addr)
        ⟨{C.plug (.item array l children)} + F, G, k, m⟩ none
        ⟨{C.plug (.item array l children)} + F, G, k + 1, m⟩
  | addItemReferenceToObject {C C' : Ctx D} {object l children u s F F' G k m}
      (hu : {C.plug (.item object l children)} + F = {C'.plug u} + F') (hm : m k = true) :
      Does (.addItemReferenceToObject object s u.addr)
        ⟨{C.plug (.item object l children)} + F, G, k, m⟩ none
        ⟨{C.plug (.item object l (children ++
          [(u.refer k).rename (strdupName m (k + 1) u.label.name.isConst s)]))} + F, G, k + 2, m⟩
  | addNoReferenceToObject {C C' : Ctx D} {object l children u s F F' G k m}
      (hu : {C.plug (.item object l children)} + F = {C'.plug u} + F') (hm : m k = false) :
      Does (.addItemReferenceToObject object s u.addr)
        ⟨{C.plug (.item object l children)} + F, G, k, m⟩ none
        ⟨{C.plug (.item object l children)} + F, G, k + 1, m⟩
  | detachItemFromArray {C : Ctx D} {array l xs t ys which F G k m}
      (hwhich : which.toNat = xs.length) :
      Does (.detachItemFromArray array which)
        ⟨{C.plug (.item array l (xs ++ t :: ys))} + F, G, k, m⟩ (some t.addr)
        ⟨{C.plug (.item array l (xs ++ ys))} + ({t} + F), G, k, m⟩
  | detachNoneFromArray {C : Ctx D} {array l children which F G k m}
      (hwhich : children.length ≤ which.toNat) :
      Does (.detachItemFromArray array which)
        ⟨{C.plug (.item array l children)} + F, G, k, m⟩ none
        ⟨{C.plug (.item array l children)} + F, G, k, m⟩
  | deleteItemFromArray {C : Ctx D} {array l xs t ys which F G k m}
      (hwhich : which.toNat = xs.length) :
      Does (.deleteItemFromArray array which)
        ⟨{C.plug (.item array l (xs ++ t :: ys))} + F, G, k, m⟩ none
        ⟨{C.plug (.item array l (xs ++ ys))} + F, t.leaky + G, k, m⟩
  | deleteNoneFromArray {C : Ctx D} {array l children which F G k m}
      (hwhich : children.length ≤ which.toNat) :
      Does (.deleteItemFromArray array which)
        ⟨{C.plug (.item array l children)} + F, G, k, m⟩ none
        ⟨{C.plug (.item array l children)} + F, G, k, m⟩
  | detachItemFromObject {C : Ctx D} {object l xs t ys s F G k m} (hxs : ∀ u ∈ xs, ¬u.Matches s)
      (ht : t.Matches s) :
      Does (.detachItemFromObject object s)
        ⟨{C.plug (.item object l (xs ++ t :: ys))} + F, G, k, m⟩ (some t.addr)
        ⟨{C.plug (.item object l (xs ++ ys))} + ({t} + F), G, k, m⟩
  | detachNoneFromObject {C : Ctx D} {object l children s F G k m}
      (hchildren : ∀ u ∈ children, ¬u.Matches s) :
      Does (.detachItemFromObject object s)
        ⟨{C.plug (.item object l children)} + F, G, k, m⟩ none
        ⟨{C.plug (.item object l children)} + F, G, k, m⟩
  | deleteItemFromObject {C : Ctx D} {object l xs t ys s F G k m} (hxs : ∀ u ∈ xs, ¬u.Matches s)
      (ht : t.Matches s) :
      Does (.deleteItemFromObject object s)
        ⟨{C.plug (.item object l (xs ++ t :: ys))} + F, G, k, m⟩ none
        ⟨{C.plug (.item object l (xs ++ ys))} + F, t.leaky + G, k, m⟩
  | deleteNoneFromObject {C : Ctx D} {object l children s F G k m}
      (hchildren : ∀ u ∈ children, ¬u.Matches s) :
      Does (.deleteItemFromObject object s)
        ⟨{C.plug (.item object l children)} + F, G, k, m⟩ none
        ⟨{C.plug (.item object l children)} + F, G, k, m⟩
  | insertItemInArray {C : Ctx D} {array l xs ys t which F G k m}
      (hwhich : xs.length = min which.toNat (xs ++ ys).length) :
      Does (.insertItemInArray array which t.addr)
        ⟨{C.plug (.item array l (xs ++ ys))} + ({t} + F), G, k, m⟩ none
        ⟨{C.plug (.item array l (xs ++ t :: ys))} + F, G, k, m⟩
  | replaceItemInArray {C : Ctx D} {array l xs u ys t which F G k m}
      (hwhich : which.toNat = xs.length) :
      Does (.replaceItemInArray array which t.addr)
        ⟨{C.plug (.item array l (xs ++ u :: ys))} + ({t} + F), G, k, m⟩ none
        ⟨{C.plug (.item array l (xs ++ t :: ys))} + F, u.leaky + G, k, m⟩
  | replaceNoneInArray {C : Ctx D} {array l children which newitem F G k m}
      (hwhich : children.length ≤ which.toNat) :
      Does (.replaceItemInArray array which newitem)
        ⟨{C.plug (.item array l children)} + F, G, k, m⟩ none
        ⟨{C.plug (.item array l children)} + F, G, k, m⟩
  | replaceItemInObject {C : Ctx D} {object l xs u ys t s F G k m} (hxs : ∀ v ∈ xs, ¬v.Matches s)
      (hu : u.Matches s) :
      Does (.replaceItemInObject object s t.addr)
        ⟨{C.plug (.item object l (xs ++ u :: ys))} + ({t} + F), G, k, m⟩ none
        ⟨{C.plug (.item object l
            (xs ++ t.rename (strdupName m k t.label.name.isConst s) :: ys))} + F,
          u.leaky + (t.label.name.text + G), k + 1, m⟩
  | replaceNoneInObject {C : Ctx D} {object l children s newitem F G k m}
      (hchildren : ∀ u ∈ children, ¬u.Matches s) :
      Does (.replaceItemInObject object s newitem)
        ⟨{C.plug (.item object l children)} + F, G, k, m⟩ none
        ⟨{C.plug (.item object l children)} + F, G, k, m⟩
  | duplicate {C : Ctx D} {u F F' G k m r σ} (hu : F = {C.plug u} + F') (hplain : u.Plain)
      (hcopied : Copied u.Copies u.flagged ⟨F, G, k, m⟩ r σ) :
      Does (.duplicate (some u.addr) true) ⟨F, G, k, m⟩ r σ
  | duplicateItem {C : Ctx D} {a l children F F' G k m r σ}
      (hu : F = {C.plug (.item a l children)} + F')
      (hcopied : Copied (ItemTree.item a l []).Copies 0 ⟨F, G, k, m⟩ r σ) :
      Does (.duplicate (some a) false) ⟨F, G, k, m⟩ r σ
  | duplicateNull {recurse σ} : Does (.duplicate none recurse) σ none σ
  | delete {t F G k m} :
      Does (.delete (some t.addr)) ⟨{t} + F, G, k, m⟩ none ⟨F, t.leaky + G, k, m⟩
  | deleteNull {σ} : Does (.delete none) σ none σ

/-! ## Calls on a heap -/

namespace Call

theorem run_label {c : Call D} {l : ItemLabel D} (hc : c.label = some l) (h : CJsonHeap D) :
    c.run h = some (h.newItem ⟨l.info, none, false⟩) := by
  cases c <;>
    cases hc <;>
    rfl

theorem label_plain {c : Call D} {l : ItemLabel D} (hc : c.label = some l) :
    l.valuestring = none ∧ l.name = .none false := by
  cases c <;>
    cases hc <;>
    exact ⟨rfl, rfl⟩

end Call

/-- An allowed call does not get stuck, and does to the heap what it does to the forest. -/
theorem Does.stands {h : CJsonHeap D} {c : Call D} {s σ : Forest D} {r : Option ℕ}
    (hd : Does c s r σ) (hs : Stands h s) :
    ∃ r' h' σ', c.run h = some (r', h') ∧ Stands h' σ' ∧ Does c s r' σ' := by
  cases hd with
  | parse hdone =>
      obtain ⟨r', h', σ', hparse, hs', hdone'⟩ := hdone.stands hs
      exact ⟨_, h', σ', congrArg (Option.map _) hparse, hs', .parse hdone'⟩
  | new hc hm =>
      obtain ⟨hvalue, hname⟩ := Call.label_plain hc
      obtain ⟨h', hnew, hs'⟩ := stands_newItem_some hs hm hvalue (congrArg TreeName.text hname)
      exact ⟨_, h', _, (Call.run_label hc h).trans (congrArg some hnew), hs', .new hc hm⟩
  | newFails hc hm =>
      obtain ⟨h', hnew, hs'⟩ := stands_newItem_none hs hm _
      exact ⟨_, h', _, (Call.run_label hc h).trans (congrArg some hnew), hs', .newFails hc hm⟩
  | @createString s _ _ _ _ hm =>
      rcases stands_createString hs s with ⟨hm', -⟩ | ⟨-, h', hnew, hs'⟩
      · exact absurd (hm'.symm.trans hm) Bool.false_ne_true
      · exact ⟨_, h', _, hnew, hs', .createString hm⟩
  | @createStringFails s _ _ _ _ hm =>
      rcases stands_createString hs s with ⟨-, h', hnew, hs'⟩ | ⟨hm', -⟩
      · exact ⟨_, h', _, hnew, hs', .createStringFails hm⟩
      · exact absurd (hm.symm.trans hm') Bool.false_ne_true
  | createIntArray hdone =>
      obtain ⟨h', hcreate, hs'⟩ := hdone.stands (creates_number _) hs
      exact ⟨_, h', _, hcreate, hs', .createIntArray hdone⟩
  | createDoubleArray hdone =>
      obtain ⟨h', hcreate, hs'⟩ := hdone.stands (creates_number _) hs
      exact ⟨_, h', _, hcreate, hs', .createDoubleArray hdone⟩
  | createStringArray hdone =>
      obtain ⟨h', hcreate, hs'⟩ := hdone.stands creates_string hs
      exact ⟨_, h', _, (cJsonCreateStringArray_eq h _).trans hcreate, hs',
        .createStringArray hdone⟩
  | @getArrayItem _ _ _ _ which =>
      exact ⟨_, h, _, congrArg (Option.map _) (stands_getArrayItem hs which), hs, .getArrayItem⟩
  | getObjectItem hxs ht =>
      exact ⟨_, h, _, congrArg (Option.map _) (bind_of_some (stands_seekName hs hxs ht) rfl), hs,
        .getObjectItem hxs ht⟩
  | getObjectItemNone hchildren =>
      exact ⟨_, h, _,
        congrArg (Option.map _) (bind_of_some (stands_seekName_none hs hchildren) rfl), hs,
        .getObjectItemNone hchildren⟩
  | addItemToArray =>
      obtain ⟨h', hadd, hs'⟩ := stands_addItemToArray hs
      exact ⟨_, h', _, congrArg (Option.map _) hadd, hs', .addItemToArray⟩
  | addNullToArray =>
      obtain ⟨N, I, T, hh, -⟩ := hs.family
      exact ⟨_, h, _, congrArg (Option.map _) (bind_of_some hh.family_data rfl), hs,
        .addNullToArray⟩
  | @addItemToObject _ _ _ _ _ s _ _ _ _ hown =>
      obtain ⟨h', hadd, hs'⟩ := stands_addItemToObject hs hown s
      exact ⟨_, h', _, congrArg (Option.map _) hadd, hs', .addItemToObject hown⟩
  | addNullToObject => exact ⟨_, h, _, rfl, hs, .addNullToObject⟩
  | @addItemToObjectCs _ _ _ _ _ s =>
      obtain ⟨h', hadd, hs'⟩ := stands_addItemToObjectCs hs s
      exact ⟨_, h', _, congrArg (Option.map _) hadd, hs', .addItemToObjectCs⟩
  | addNullToObjectCs => exact ⟨_, h, _, rfl, hs, .addNullToObjectCs⟩
  | addItemReferenceToArray hu hm =>
      obtain ⟨h', hadd, ⟨hm', -⟩ | ⟨-, hs'⟩⟩ := stands_addItemReferenceToArray hs hu
      · exact absurd (hm'.symm.trans hm) Bool.false_ne_true
      · exact ⟨_, h', _, congrArg (Option.map _) hadd, hs', .addItemReferenceToArray hu hm⟩
  | addNoReferenceToArray hu hm =>
      obtain ⟨h', hadd, ⟨-, hs'⟩ | ⟨hm', -⟩⟩ := stands_addItemReferenceToArray hs hu
      · exact ⟨_, h', _, congrArg (Option.map _) hadd, hs', .addNoReferenceToArray hu hm⟩
      · exact absurd (hm.symm.trans hm') Bool.false_ne_true
  | @addItemReferenceToObject _ _ _ _ _ _ s _ _ _ _ _ hu hm =>
      obtain ⟨h', hadd, ⟨hm', -⟩ | ⟨-, hs'⟩⟩ := stands_addItemReferenceToObject hs hu s
      · exact absurd (hm'.symm.trans hm) Bool.false_ne_true
      · exact ⟨_, h', _, congrArg (Option.map _) hadd, hs', .addItemReferenceToObject hu hm⟩
  | @addNoReferenceToObject _ _ _ _ _ _ s _ _ _ _ _ hu hm =>
      obtain ⟨h', hadd, ⟨-, hs'⟩ | ⟨hm', -⟩⟩ := stands_addItemReferenceToObject hs hu s
      · exact ⟨_, h', _, congrArg (Option.map _) hadd, hs', .addNoReferenceToObject hu hm⟩
      · exact absurd (hm.symm.trans hm') Bool.false_ne_true
  | detachItemFromArray hwhich =>
      obtain ⟨h', hdetach, hs'⟩ := stands_detachItemFromArray _ hs hwhich
      exact ⟨_, h', _, hdetach, hs', .detachItemFromArray hwhich⟩
  | detachNoneFromArray hwhich =>
      exact ⟨_, h, _, stands_detachItemFromArray_none hs hwhich, hs, .detachNoneFromArray hwhich⟩
  | deleteItemFromArray hwhich =>
      obtain ⟨h', hdelete, hs'⟩ := stands_deleteItemFromArray hs hwhich
      exact ⟨_, h', _, congrArg (Option.map _) hdelete, hs', .deleteItemFromArray hwhich⟩
  | deleteNoneFromArray hwhich =>
      exact ⟨_, h, _, congrArg (Option.map _) (bind_of_some
        (stands_detachItemFromArray_none hs hwhich) rfl), hs, .deleteNoneFromArray hwhich⟩
  | detachItemFromObject hxs ht =>
      obtain ⟨h', hdetach, hs'⟩ := stands_detachItemFromObject hs hxs ht
      exact ⟨_, h', _, hdetach, hs', .detachItemFromObject hxs ht⟩
  | detachNoneFromObject hchildren =>
      exact ⟨_, h, _, stands_detachItemFromObject_none hs hchildren, hs,
        .detachNoneFromObject hchildren⟩
  | deleteItemFromObject hxs ht =>
      obtain ⟨h', hdelete, hs'⟩ := stands_deleteItemFromObject hs hxs ht
      exact ⟨_, h', _, congrArg (Option.map _) hdelete, hs', .deleteItemFromObject hxs ht⟩
  | deleteNoneFromObject hchildren =>
      exact ⟨_, h, _, congrArg (Option.map _) (bind_of_some
        (stands_detachItemFromObject_none hs hchildren) rfl), hs, .deleteNoneFromObject hchildren⟩
  | insertItemInArray hwhich =>
      obtain ⟨h', hinsert, hs'⟩ := stands_insertItemInArray hs hwhich
      exact ⟨_, h', _, congrArg (Option.map _) hinsert, hs', .insertItemInArray hwhich⟩
  | replaceItemInArray hwhich =>
      obtain ⟨h', hreplace, hs'⟩ := stands_replaceItemInArray _ hs hwhich
      exact ⟨_, h', _, congrArg (Option.map _) hreplace, hs', .replaceItemInArray hwhich⟩
  | @replaceNoneInArray _ _ _ _ _ newitem _ _ _ _ hwhich =>
      exact ⟨_, h, _,
        congrArg (Option.map _) (stands_replaceItemInArray_none hs hwhich newitem), hs,
        .replaceNoneInArray hwhich⟩
  | replaceItemInObject hxs hu =>
      obtain ⟨h', hreplace, hs'⟩ := stands_replaceItemInObject hs hxs hu
      exact ⟨_, h', _, congrArg (Option.map _) hreplace, hs', .replaceItemInObject hxs hu⟩
  | replaceNoneInObject hchildren =>
      exact ⟨_, h, _,
        congrArg (Option.map _) (bind_of_some (stands_seekName_none hs hchildren) rfl), hs,
        .replaceNoneInObject hchildren⟩
  | duplicate hu hplain hcopied =>
      obtain ⟨r', h', σ', hdup, hs', hcopied'⟩ := stands_duplicate hs hu hplain
      exact ⟨r', h', σ', hdup, hs', .duplicate hu hplain hcopied'⟩
  | duplicateItem hu hcopied =>
      obtain ⟨r', h', σ', hdup, hs', hcopied'⟩ := stands_duplicateItem hs hu
      exact ⟨r', h', σ', hdup, hs', .duplicateItem hu hcopied'⟩
  | duplicateNull => exact ⟨_, h, _, rfl, hs, .duplicateNull⟩
  | delete =>
      obtain ⟨h', hdelete, hs'⟩ := stands_delete hs
      exact ⟨_, h', _, congrArg (Option.map _) hdelete, hs', .delete⟩
  | deleteNull =>
      exact ⟨_, h, _, congrArg (Option.map fun h ↦ (none, h)) h.cJsonDelete_none, hs, .deleteNull⟩

end OsaBase
