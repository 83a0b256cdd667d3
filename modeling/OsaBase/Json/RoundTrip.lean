import OsaBase.Json.Safety
import OsaBase.Json.Texts

/-!
# Printing and parsing

A tree that is printed, formatted or not, and parsed again is the tree of the same value. Integers
are printed and read without loss.
-/

open Json

namespace OsaBase

variable {D : Type} [CDouble D]

/-! ## Items and values -/

theorem itemOf_string (string : Option (List UInt8)) (v : Json D) :
    (itemOf string v).string = string := by
  cases v with
  | bool b => cases b <;> rfl
  | null | number | string | array | object => rfl

mutual

theorem valueOf_itemOf (string : Option (List UInt8)) :
    ∀ v : Json D, valueOf (itemOf string v) = some v
  | .null => rfl
  | .bool b => by cases b <;> rfl
  | .number d => rfl
  | .string s => rfl
  | .array vs => by rw [itemOf, valueOf, valuesOf_itemsOf vs]; rfl
  | .object ms => by rw [itemOf, valueOf, namedValuesOf_membersOf ms]; rfl

theorem valuesOf_itemsOf : ∀ vs : List (Json D), valuesOf (itemsOf vs) = some vs
  | [] => rfl
  | v :: vs => by rw [itemsOf, valuesOf, valueOf_itemOf none v, valuesOf_itemsOf vs]; rfl

theorem namedValuesOf_membersOf :
    ∀ ms : List (List UInt8 × Json D), namedValuesOf (membersOf ms) = some ms
  | [] => rfl
  | m :: ms => by
    obtain ⟨hstring, hvalue⟩ := memberOf_eq m
    rw [membersOf, namedValuesOf, hstring, hvalue, namedValuesOf_membersOf ms]
    rfl

theorem memberOf_eq : ∀ m : List UInt8 × Json D,
    (memberOf m).string = some m.1 ∧ valueOf (memberOf m) = some m.2
  | (k, v) => ⟨itemOf_string (some k) v, valueOf_itemOf (some k) v⟩

end

/-! ## Printed trees -/

theorem printed_text [SprintfFits D] {item : CJson D} {v : Json D} (hv : valueOf item = some v)
    (fmt : Bool) :
    ∃ t, printValue item 0 fmt = .ok t ∧
      (Rereads item → cJsonParseWithOpts t true = .ok (itemOf none v, [])) := by
  have h := prints item 0 fmt
  rw [hv] at h
  obtain ⟨t, ht, htext⟩ := h
  exact ⟨t, ht, fun hreread ↦ cJsonParse_whole (htext hreread)⟩

/-! ## Integers -/

open CDouble

section ExactInts

variable [ExactInts D]

/-- The digits `ds` behind those of `n`. -/
def appendDigits (n : ℕ) (ds : List ℕ) : ℕ := ds.foldl (fun n d ↦ n * 10 + d) n

theorem le_appendDigits (n : ℕ) (ds : List ℕ) : n ≤ appendDigits n ds := by
  induction ds generalizing n with
  | nil => exact le_rfl
  | cons d ds ih => exact le_trans (by omega) (ih (n * 10 + d))

theorem decimals_ofInt (n : ℕ) (ds : List ℕ) (hle : appendDigits n ds ≤ 2 ^ 53) :
    decimals (ofInt n : D) ds = ofInt (appendDigits n ds) := by
  induction ds generalizing n with
  | nil => rfl
  | cons d ds ih =>
      have hnext : n * 10 + d ≤ 2 ^ 53 := le_trans (le_appendDigits _ ds) hle
      have hmul : mul (ofInt n : D) (ofInt 10) = ofInt (n * 10 : ℤ) :=
        ExactInts.mul_ofInt _ _ (by omega) (by decide) (by omega) (by omega)
      have hadd : add (ofInt (n * 10 : ℤ) : D) (ofInt d) = ofInt (n * 10 + d : ℤ) :=
        ExactInts.add_ofInt _ _ (by omega) (by omega) (by omega)
      have hcast : (n * 10 + d : ℤ) = ((n * 10 + d : ℕ) : ℤ) := by omega
      rw [decimals, List.foldl_cons, hmul, hadd, hcast]
      exact ih _ hle

theorem appendDigits_decimal (n : ℕ) : appendDigits 0 (decimalDigits n) = n := by
  rw [decimalDigits]
  split
  · next h => exact h.symm
  · have hfold : ∀ ds : List ℕ, ds.foldr (fun d n ↦ n * 10 + d) 0 = Nat.ofDigits 10 ds := by
      intro ds
      induction ds with
      | nil => rfl
      | cons d ds ih =>
          rw [List.foldr_cons, ih, Nat.ofDigits_cons]
          exact (Nat.add_comm _ _).trans (congrArg (d + ·) (Nat.mul_comm _ 10))
    rw [appendDigits, List.foldl_reverse, hfold, Nat.ofDigits_digits]

theorem natAbs_toInt_le (i : Int32) : i.toInt.natAbs ≤ 2 ^ 31 := by
  have hlt := i.toInt_lt
  have hle := i.le_toInt
  omega

theorem numeralOf_int (i : Int32) : numeralOf (intNumeral i.toInt) = (ofInt i.toInt : D) := by
  have habs := natAbs_toInt_le i
  have hdigits : decimals (ofInt 0 : D) (decimalDigits i.toInt.natAbs) =
      ofInt (i.toInt.natAbs : ℤ) := by
    have h := decimals_ofInt (D := D) 0 (decimalDigits i.toInt.natAbs)
      (by rw [appendDigits_decimal]; omega)
    rw [appendDigits_decimal] at h
    exact h
  have hint : (if decimalDigits i.toInt.natAbs = [0] then (ofInt 0 : D)
      else decimals (ofInt 0) (decimalDigits i.toInt.natAbs)) = ofInt (i.toInt.natAbs : ℤ) := by
    split
    · next h =>
      have hzero := appendDigits_decimal i.toInt.natAbs
      rw [h] at hzero
      rw [← hzero]
      rfl
    · exact hdigits
  have hsign : mul (ofInt (if i.toInt < 0 then -1 else 1) : D) (ofInt (i.toInt.natAbs : ℤ)) =
      ofInt i.toInt := by
    have hprod : (if i.toInt < 0 then -1 else 1) * (i.toInt.natAbs : ℤ) = i.toInt := by
      split <;> omega
    rw [ExactInts.mul_ofInt _ _ (by split <;> decide) (by omega) (by rw [hprod]; omega), hprod]
    rw [hprod]
    intro h
    rw [h]
    decide
  have hscale : add (ofInt 0 : D) (ofInt 0) = ofInt 0 :=
    ExactInts.add_ofInt 0 0 (by decide) (by decide) (by decide)
  have hone : mul (ofInt i.toInt : D) (ofInt 1) = ofInt i.toInt := by
    rw [ExactInts.mul_ofInt _ _ (by omega) (by decide) (by omega) (by omega), mul_one]
  calc
    numeralOf (intNumeral i.toInt) =
        mul (mul (ofInt (if i.toInt < 0 then -1 else 1) : D) (ofInt (i.toInt.natAbs : ℤ)))
          (pow (ofInt 10) (add (ofInt 0) (ofInt 0))) := by
      rw [← hint]
      simp only [numeralOf, intNumeral, decide_eq_true_eq]
      rfl
    _ = ofInt i.toInt := by rw [hsign, hscale, ExactInts.pow_zero, hone]

theorem numberText_int {item : CJson D} {i : Int32} (hint : item.valueint = i)
    (hdouble : item.valuedouble = ofInt i.toInt) :
    (numberText item).2 = (intNumeral i.toInt).text := by
  have hlt := i.toInt_lt
  have hle := i.le_toInt
  rw [text_intNumeral, numberText]
  simp only [hint, hdouble, ExactInts.eq_ofInt (D := D) i.toInt 0 (by omega) (by decide),
    decide_eq_true_eq]
  split
  · next h =>
    rw [h]
    rfl
  · have hexact : le (fabs (sub (ofInt i.toInt : D) (ofInt i.toInt))) dblEpsilon = true ∧
        le (ofInt i.toInt : D) (ofInt (2 ^ 31 - 1)) = true ∧
        le (ofInt (-2 ^ 31) : D) (ofInt i.toInt) = true := by
      rw [ExactInts.sub_self _ (by omega), ExactInts.fabs_zero, ExactInts.zero_le,
        ExactInts.le_ofInt _ _ (by omega) (by decide),
        ExactInts.le_ofInt _ _ (by decide) (by omega)]
      exact ⟨rfl, decide_eq_true (by omega), decide_eq_true (by omega)⟩
    rw [if_pos hexact]

end ExactInts

mutual

/-- The strings of the value hold no NUL, and its numbers are values of an `int`. -/
def HasInts : Json D → Prop
  | .null | .bool _ => True
  | .number d => ∃ i : Int32, d = ofInt i.toInt
  | .string s => 0 ∉ s
  | .array vs => AllHaveInts vs
  | .object ms => MembersHaveInts ms

def AllHaveInts : List (Json D) → Prop
  | [] => True
  | v :: vs => HasInts v ∧ AllHaveInts vs

def MembersHaveInts : List (List UInt8 × Json D) → Prop
  | [] => True
  | m :: ms => MemberHasInts m ∧ MembersHaveInts ms

def MemberHasInts : List UInt8 × Json D → Prop
  | (k, v) => 0 ∉ k ∧ HasInts v

end

mutual

theorem rereads_itemOf [ExactInts D] (string : Option (List UInt8)) :
    ∀ v : Json D, HasInts v → Rereads (itemOf string v)
  | .null, _ => trivial
  | .bool b, _ => by cases b <;> exact trivial
  | .number d, ⟨i, hi⟩ => by
    subst hi
    exact ⟨_, numberText_int (ExactInts.toInt_ofInt i) rfl, numeralOf_int i⟩
  | .string s, hs => fun s' hs' ↦ Option.mem_some_iff.mp hs' ▸ hs
  | .array vs, h => allReread_itemsOf vs h
  | .object ms, h => allReread_membersOf ms h

theorem allReread_itemsOf [ExactInts D] :
    ∀ vs : List (Json D), AllHaveInts vs → AllReread (itemsOf vs)
  | [], _ => trivial
  | v :: vs, h => ⟨rereads_itemOf none v h.1, allReread_itemsOf vs h.2⟩

theorem allReread_membersOf [ExactInts D] : ∀ ms : List (List UInt8 × Json D), MembersHaveInts ms →
    (∀ c ∈ membersOf ms, ∀ k ∈ c.string, 0 ∉ k) ∧ AllReread (membersOf ms)
  | [], _ => ⟨fun _ hc ↦ (nomatch hc), trivial⟩
  | m :: ms, h => by
    obtain ⟨hname, hreread⟩ := rereads_memberOf m h.1
    obtain ⟨hnames, hrereads⟩ := allReread_membersOf ms h.2
    refine ⟨fun c hc ↦ ?_, hreread, hrereads⟩
    rcases List.mem_cons.mp hc with rfl | hc
    · exact hname
    · exact hnames c hc

theorem rereads_memberOf [ExactInts D] : ∀ m : List UInt8 × Json D, MemberHasInts m →
    (∀ k ∈ (memberOf m).string, 0 ∉ k) ∧ Rereads (memberOf m)
  | (k, v), h => by
    refine ⟨fun k' hk' ↦ ?_, rereads_itemOf (some k) v h.2⟩
    rw [memberOf, itemOf_string, Option.mem_some_iff] at hk'
    exact hk' ▸ h.1

end

/-! ## Trees -/

/-- A tree is printed or NULL is dereferenced, and nothing is written behind a block. If its numbers
are read as they are printed, the printed text is parsed into the item of its value. -/
theorem print_parse [SprintfFits D] (item : CJson D) (fmt : Bool) :
    match valueOf item with
    | none => printValue item 0 fmt = .error .null
    | some v => ∃ t, printValue item 0 fmt = .ok t ∧
        (Rereads item → cJsonParseWithOpts t true = .ok (itemOf none v, [])) := by
  cases hv : valueOf item with
  | none =>
      have h := prints item 0 fmt
      rw [hv] at h
      exact h
  | some v => exact printed_text hv fmt

/-- An object in an array, with a number, a string and an empty object. -/
theorem print_parse_nested :
    ∃ t, printValue (itemOf none (.array [.object [([byte 'k'], .number ((-7 : ℤ) : ℚ)),
        ([byte 'l'], .string [byte '"', 1])], .object []])) 0 true = .ok t ∧
      cJsonParseWithOpts t true =
        .ok (itemOf none (.array [.object [([byte 'k'], .number ((-7 : ℤ) : ℚ)),
          ([byte 'l'], .string [byte '"', 1])], .object []]), []) := by
  have hreread := rereads_itemOf none (.array [.object [([byte 'k'], .number ((-7 : ℤ) : ℚ)),
    ([byte 'l'], .string [byte '"', 1])], .object []])
    ⟨⟨⟨by decide, -7, rfl⟩, ⟨by decide, (by decide : 0 ∉ [byte '"', 1])⟩, trivial⟩, trivial,
      trivial⟩
  have h := print_parse (itemOf none (.array [.object [([byte 'k'], .number ((-7 : ℤ) : ℚ)),
    ([byte 'l'], .string [byte '"', 1])], .object []])) true
  rw [valueOf_itemOf] at h
  obtain ⟨t, ht, hparse⟩ := h
  exact ⟨t, ht, hparse hreread⟩

/-- A tree of strings and integers is printed and parsed without loss, formatted or not. -/
theorem print_parse_ints [SprintfFits D] [ExactInts D] {v : Json D} (hv : HasInts v) (fmt : Bool) :
    ∃ t, printValue (itemOf none v) 0 fmt = .ok t ∧
      cJsonParseWithOpts t true = .ok (itemOf none v, []) := by
  obtain ⟨t, ht, hparse⟩ := printed_text (valueOf_itemOf none v) fmt
  exact ⟨t, ht, hparse (rereads_itemOf none v hv)⟩

theorem print_parse_ints_array :
    ∃ t, printValue (itemOf none (.array [.number ((-7 : ℤ) : ℚ), .string [byte '"']])) 0 true =
        .ok t ∧
      cJsonParseWithOpts t true =
        .ok (itemOf none (.array [.number ((-7 : ℤ) : ℚ), .string [byte '"']]), []) :=
  print_parse_ints (v := .array [.number ((-7 : ℤ) : ℚ), .string [byte '"']])
    ⟨⟨-7, rfl⟩, (by decide : 0 ∉ [byte '"']), trivial⟩ true

end OsaBase
