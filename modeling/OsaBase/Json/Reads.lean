import Mathlib.Data.List.DropRight
import OsaBase.Json.Exact
import OsaBase.Json.Numbers
import OsaBase.Json.Strings

/-!
# `cJSON_Parse` reads JSON

Every text of a value is parsed into the item of the value, up to its last byte, whatever follows.
-/

open Json

namespace OsaBase

variable {D : Type} [CDouble D]

open CDouble

/-! ## Items of values -/

mutual

/-- The item `cJSON_Parse` builds for a value, as a member if it has a name. -/
def itemOf (string : Option (List UInt8)) : Json D → CJson D
  | .null => { CJson.new with type := .null, string }
  | .bool false => { CJson.new with type := .false, string }
  | .bool true => { CJson.new with type := .true, valueint := 1, string }
  | .number d => { CJson.new with type := .number, valuedouble := d, valueint := toInt d, string }
  | .string s => { CJson.new with type := .string, valuestring := some s, string }
  | .array vs => { CJson.new with type := .array, child := itemsOf vs, string }
  | .object ms => { CJson.new with type := .object, child := membersOf ms, string }

def itemsOf : List (Json D) → List (CJson D)
  | [] => []
  | v :: vs => itemOf none v :: itemsOf vs

def membersOf : List (List UInt8 × Json D) → List (CJson D)
  | [] => []
  | m :: ms => memberOf m :: membersOf ms

def memberOf : List UInt8 × Json D → CJson D
  | (k, v) => itemOf (some k) v

end

/-! ## Whitespace -/

theorem skip_ws {w : List UInt8} (hw : Ws w) (p : List UInt8) : skip (w ++ p) = skip p := by
  refine List.dropWhile_append_of_pos fun b hb ↦ ?_
  rcases hw b hb with rfl | rfl | rfl | rfl <;> decide

theorem skip_cons {c : UInt8} (hc : 32 < c) (p : List UInt8) : skip (c :: p) = c :: p := by
  refine List.dropWhile_cons_of_neg ?_
  have hle : ¬c ≤ 32 := UInt8.not_le.mpr hc
  simp only [hle, and_false, decide_false, Bool.false_eq_true, not_false_eq_true]

theorem skip_skip (p : List UInt8) : skip (skip p) = skip p := List.dropWhile_idempotent _ p

theorem ends_cons {c : UInt8} (hdigit : ¬IsDigit c) (hdot : c ≠ byte '.') (he : c ≠ byte 'e')
    (hE : c ≠ byte 'E') (p : List UInt8) : Ends (c :: p) := by
  intro b hb
  cases hb
  exact ⟨hdigit, hdot, he, hE⟩

theorem ends_ws {w p : List UInt8} (hw : Ws w) (hp : Ends p) : Ends (w ++ p) := by
  cases w with
  | nil => exact hp
  | cons b w =>
      rcases hw b List.mem_cons_self with rfl | rfl | rfl | rfl <;>
        exact ends_cons (by decide) (by decide) (by decide) (by decide) _

/-! ## The branches of `parse_value` -/

@[simp] theorem peek_cons (c : UInt8) (p : List UInt8) : peek (c :: p) = c := rfl

theorem parseValue_other {c : UInt8} (hn : c ≠ byte 'n') (hf : c ≠ byte 'f') (ht : c ≠ byte 't')
    (fuel : ℕ) (item : CJson D) (p : List UInt8) :
    parseValue (fuel + 1) item (c :: p) =
      if c = byte '"' then parseString item (c :: p)
      else if c = byte '-' ∨ IsDigit c then .ok (parseNumber item (c :: p))
      else if c = byte '[' then parseArray fuel item (c :: p)
      else if c = byte '{' then parseObject fuel item (c :: p)
      else .error (.malformed (c :: p)) := by
  have hnull : nullText.isPrefixOf (c :: p) = false := by
    rw [nullText, List.isPrefixOf, beq_false_of_ne hn.symm, Bool.false_and]
  have hfalse : falseText.isPrefixOf (c :: p) = false := by
    rw [falseText, List.isPrefixOf, beq_false_of_ne hf.symm, Bool.false_and]
  have htrue : trueText.isPrefixOf (c :: p) = false := by
    rw [trueText, List.isPrefixOf, beq_false_of_ne ht.symm, Bool.false_and]
  rw [parseValue]
  simp only [hnull, hfalse, htrue, Bool.false_eq_true, if_false, peek_cons]
  rfl

theorem parseValue_string (fuel : ℕ) (item : CJson D) (p : List UInt8) :
    parseValue (fuel + 1) item (byte '"' :: p) = parseString item (byte '"' :: p) := by
  rw [parseValue_other (by decide) (by decide) (by decide), if_pos rfl]

theorem parseValue_number {c : UInt8} (hc : c = byte '-' ∨ IsDigit c) (fuel : ℕ) (item : CJson D)
    (p : List UInt8) :
    parseValue (fuel + 1) item (c :: p) = .ok (parseNumber item (c :: p)) := by
  have hne : c ≠ byte 'n' ∧ c ≠ byte 'f' ∧ c ≠ byte 't' ∧ c ≠ byte '"' := by
    refine ⟨?_, ?_, ?_, ?_⟩ <;>
      rintro rfl <;>
      revert hc <;>
      decide
  rw [parseValue_other hne.1 hne.2.1 hne.2.2.1, if_neg hne.2.2.2, if_pos hc]

theorem parseValue_array (fuel : ℕ) (item : CJson D) (p : List UInt8) :
    parseValue (fuel + 1) item (byte '[' :: p) = parseArray fuel item (byte '[' :: p) := by
  rw [parseValue_other (by decide) (by decide) (by decide)]
  exact if_neg (by decide)

theorem parseValue_object (fuel : ℕ) (item : CJson D) (p : List UInt8) :
    parseValue (fuel + 1) item (byte '{' :: p) = parseObject fuel item (byte '{' :: p) := by
  rw [parseValue_other (by decide) (by decide) (by decide)]
  exact if_neg (by decide)

/-! ## The texts of pieces -/

/-- How the text of a value begins. -/
def Begins (t : List UInt8) : Prop :=
  ∃ c p, t = c :: p ∧ 32 < c ∧ c ≠ byte ']' ∧ c ≠ byte '}'

theorem numeral_begins (x : Numeral) :
    ∃ c p, x.text = c :: p ∧ (c = byte '-' ∨ IsDigit c) := by
  obtain ⟨d, ds, hint⟩ := List.exists_cons_of_ne_nil x.int_ne
  have hdigit := isDigit_digit (x.int_lt d (hint ▸ List.mem_cons_self))
  rw [Numeral.text, hint]
  cases x.neg with
  | false => exact ⟨_, _, rfl, Or.inr hdigit⟩
  | true => exact ⟨_, _, rfl, Or.inl rfl⟩

theorem text_begins {v : Json D} {t : List UInt8} (h : Text numeralOf v t) : Begins t := by
  cases h with
  | number x =>
      obtain ⟨c, p, htext, hc⟩ := numeral_begins x
      refine ⟨c, p, htext, ?_, ?_, ?_⟩
      · rcases hc with rfl | hc
        · decide
        · exact UInt8.lt_of_lt_of_le (by decide) hc.1
      · rintro rfl
        revert hc
        decide
      · rintro rfl
        revert hc
        decide
  | null | true | false | string | emptyArray | array | emptyObject | object =>
      exact ⟨_, _, rfl, by decide, by decide, by decide⟩

/-- What the parser makes of a piece, at any place where it may stand. -/
def Reads : Piece D → List UInt8 → Prop
  | .value v, t => ∀ fuel type string rest, 3 * t.length ≤ fuel → Ends rest →
      parseValue fuel { CJson.new with type, string } (t ++ rest) = .ok (itemOf string v, rest)
  | .items vs, t => ∀ fuel child rest, 3 * t.length ≤ fuel →
      (do
        let r ← parseValue fuel .new (skip (t ++ byte ']' :: rest))
        parseItems fuel (child ++ [r.1]) (skip r.2)) = .ok (child ++ itemsOf vs, rest)
  | .members ms, t => ∀ fuel child rest, 3 * t.length ≤ fuel →
      (do
        let r ← parseMember fuel (skip (t ++ byte '}' :: rest))
        parseMembers fuel (child ++ [r.1]) r.2) = .ok (child ++ membersOf ms, rest)

variable {t w w' r : List UInt8} {v : Json D} {vs : List (Json D)}
  {ms : List (List UInt8 × Json D)}

theorem text_length (h : Text numeralOf v t) : 0 < t.length := by
  obtain ⟨c, p, rfl, -⟩ := text_begins h
  exact Nat.succ_pos _

theorem skip_begins (hw : Ws w) (ht : Begins t) (rest : List UInt8) :
    skip (w ++ (t ++ rest)) = t ++ rest := by
  obtain ⟨c, p, rfl, hc, -⟩ := ht
  rw [skip_ws hw, List.cons_append, skip_cons hc]

/-- A value with the whitespace around it, in front of a delimiter. -/
theorem reads_value {c : UInt8} (hc : Ends [c]) (hc' : 32 < c) (hw : Ws w)
    (h : Text numeralOf v t) (hread : Reads (.value v) t) (hw' : Ws w') (fuel : ℕ)
    (hfuel : 3 * t.length ≤ fuel) (type : CJsonType) (string : Option (List UInt8))
    (rest : List UInt8) :
    parseValue fuel { CJson.new with type, string } (skip (w ++ (t ++ (w' ++ c :: rest)))) =
        .ok (itemOf string v, w' ++ c :: rest) ∧ skip (w' ++ c :: rest) = c :: rest := by
  have hends : Ends (w' ++ c :: rest) := ends_ws hw' fun b hb ↦ hc b hb
  rw [skip_begins hw (text_begins h), hread fuel type string _ hfuel hends, skip_ws hw',
    skip_cons hc']
  exact ⟨rfl, rfl⟩

theorem reads_string {s : List UInt8} (h : Chars s t) :
    Reads (D := D) (.value (.string s)) (byte '"' :: (t ++ [byte '"'])) := by
  intro fuel type string rest hfuel _
  obtain ⟨fuel, rfl⟩ := Nat.exists_eq_add_of_lt
    (lt_of_lt_of_le (Nat.mul_pos (by decide) (List.length_pos_of_ne_nil (by simp))) hfuel)
  rw [List.cons_append, List.append_assoc, parseValue_string]
  exact parseString_chars _ h rest

/-! ## Arrays -/

theorem parseItems_close (fuel : ℕ) (child : List (CJson D)) (rest : List UInt8) :
    parseItems (fuel + 1) child (byte ']' :: rest) = .ok (child, rest) := by
  rw [parseItems, peek_cons, if_neg (by decide), if_pos rfl, List.tail_cons]

theorem parseItems_comma (fuel : ℕ) (child : List (CJson D)) (rest : List UInt8) :
    parseItems (fuel + 1) child (byte ',' :: rest) = (do
      let r ← parseValue fuel .new (skip rest)
      parseItems fuel (child ++ [r.1]) (skip r.2)) := by
  rw [parseItems, peek_cons, if_pos rfl, List.tail_cons]

theorem ends_close (rest : List UInt8) : Ends (byte ']' :: rest) :=
  ends_cons (by decide) (by decide) (by decide) (by decide) rest

theorem ends_comma (rest : List UInt8) : Ends (byte ',' :: rest) :=
  ends_cons (by decide) (by decide) (by decide) (by decide) rest

theorem reads_lastItem (hw : Ws w) (h : Text numeralOf v t) (hread : Reads (.value v) t)
    (hw' : Ws w') : Reads (.items [v]) (w ++ (t ++ w')) := by
  intro fuel child rest hfuel
  have hlen := text_length h
  simp only [List.length_append] at hfuel
  obtain ⟨hvalue, hskip⟩ := reads_value (ends_close []) (by decide) hw h hread hw' fuel
    (by omega) .false none rest
  obtain ⟨fuel, rfl⟩ : ∃ k, fuel = k + 1 := ⟨fuel - 1, by omega⟩
  rw [List.append_assoc, List.append_assoc]
  calc
    _ = parseItems (fuel + 1) (child ++ [itemOf none v]) (skip (w' ++ byte ']' :: rest)) :=
      congrArg (fun r ↦ r >>= _) hvalue
    _ = _ := by rw [hskip, parseItems_close]; rfl

theorem reads_item (hw : Ws w) (h : Text numeralOf v t) (hread : Reads (.value v) t) (hw' : Ws w')
    (hrest : Reads (.items vs) r) :
    Reads (.items (v :: vs)) (w ++ (t ++ (w' ++ byte ',' :: r))) := by
  intro fuel child rest hfuel
  simp only [List.length_append, List.length_cons] at hfuel
  obtain ⟨hvalue, hskip⟩ := reads_value (ends_comma []) (by decide) hw h hread hw' fuel
    (by omega) .false none (r ++ byte ']' :: rest)
  obtain ⟨fuel, rfl⟩ : ∃ k, fuel = k + 1 := ⟨fuel - 1, by omega⟩
  rw [List.append_assoc, List.append_assoc, List.append_assoc, List.cons_append]
  have hnext := hrest fuel (child ++ [itemOf none v]) rest (by omega)
  rw [← parseItems_comma, List.append_assoc] at hnext
  exact (congrArg (fun r ↦ r >>= _) hvalue).trans ((congrArg (parseItems _ _) hskip).trans hnext)

theorem parseArray_empty {p q : List UInt8} (hskip : skip p = byte ']' :: q) (fuel : ℕ)
    (item : CJson D) :
    parseArray (fuel + 1) item (byte '[' :: p) = .ok ({ item with type := .array }, q) := by
  simp only [parseArray, peek_cons, ne_eq, not_true_eq_false, if_false, List.tail_cons, hskip,
    if_true]

theorem parseArray_items {p q : List UInt8} {fuel : ℕ} {child : List (CJson D)}
    (hskip : peek (skip p) ≠ byte ']')
    (h : (do
      let r ← parseValue fuel .new (skip p)
      parseItems fuel ([] ++ [r.1]) (skip r.2)) = .ok (child, q)) (item : CJson D) :
    parseArray (fuel + 1) item (byte '[' :: p) = .ok ({ item with type := .array, child }, q) := by
  simp only [parseArray, peek_cons, ne_eq, not_true_eq_false, if_false, List.tail_cons, hskip,
    skip_skip]
  cases hvalue : parseValue fuel (CJson.new : CJson D) (skip p) with
  | error e =>
      rw [hvalue] at h
      cases h
  | ok r =>
      rw [hvalue] at h
      have hitems : parseItems fuel [r.1] (skip r.2) = .ok (child, q) := h
      exact congrArg (fun r ↦ r >>= fun r ↦ .ok ({ item with type := .array, child := r.1 }, r.2))
        hitems

/-- The text of the items of an array does not begin with `]`. -/
theorem items_begin (h : Denotes Ws (numeralOf (D := D)) (.items vs) t) (rest : List UInt8) :
    peek (skip (t ++ rest)) ≠ byte ']' := by
  cases h with
  | lastItem hw h hw' =>
      rw [List.append_assoc, List.append_assoc, skip_begins hw (text_begins h)]
      obtain ⟨c, p, rfl, -, hne, -⟩ := text_begins h
      exact hne
  | item hw h hw' hr =>
      rw [List.append_assoc, List.append_assoc, skip_begins hw (text_begins h)]
      obtain ⟨c, p, rfl, -, hne, -⟩ := text_begins h
      exact hne

theorem reads_emptyArray (hw : Ws w) :
    Reads (D := D) (.value (.array [])) (byte '[' :: (w ++ [byte ']'])) := by
  intro fuel type string rest hfuel _
  simp only [List.length_append, List.length_cons] at hfuel
  obtain ⟨fuel, rfl⟩ : ∃ k, fuel = k + 2 := ⟨fuel - 2, by omega⟩
  have hskip : skip (w ++ ([byte ']'] ++ rest)) = byte ']' :: rest := by
    rw [skip_ws hw]
    exact skip_cons (by decide) rest
  rw [List.cons_append, List.append_assoc, parseValue_array, parseArray_empty hskip]
  rfl

theorem reads_array (h : Denotes Ws numeralOf (.items vs) t) (hread : Reads (.items vs) t) :
    Reads (.value (.array vs)) (byte '[' :: (t ++ [byte ']'])) := by
  intro fuel type string rest hfuel _
  simp only [List.length_append, List.length_cons] at hfuel
  obtain ⟨fuel, rfl⟩ : ∃ k, fuel = k + 2 := ⟨fuel - 2, by omega⟩
  rw [List.cons_append, List.append_assoc, parseValue_array]
  exact parseArray_items (items_begin h (byte ']' :: rest)) (hread fuel [] rest (by omega)) _

/-! ## Objects -/

theorem parseMembers_close (fuel : ℕ) (child : List (CJson D)) (rest : List UInt8) :
    parseMembers (fuel + 1) child (byte '}' :: rest) = .ok (child, rest) := by
  rw [parseMembers, peek_cons, if_neg (by decide), if_pos rfl, List.tail_cons]

theorem parseMembers_comma (fuel : ℕ) (child : List (CJson D)) (rest : List UInt8) :
    parseMembers (fuel + 1) child (byte ',' :: rest) = (do
      let r ← parseMember fuel (skip rest)
      parseMembers fuel (child ++ [r.1]) r.2) := by
  rw [parseMembers, peek_cons, if_pos rfl, List.tail_cons]

/-- A name and its value in front of a delimiter. -/
theorem reads_member {k kt w₁ w₂ : List UInt8} {c : UInt8} (hc : Ends [c]) (hc' : 32 < c)
    (hw : Ws w) (hk : Chars k kt) (hw₁ : Ws w₁) (hw₂ : Ws w₂) (h : Text numeralOf v t)
    (hread : Reads (.value v) t) (hw' : Ws w') (fuel : ℕ) (hfuel : 3 * t.length ≤ fuel)
    (rest : List UInt8) :
    parseMember (fuel + 1) (skip (w ++ (byte '"' :: (kt ++ byte '"' :: (w₁ ++ byte ':' ::
      (w₂ ++ (t ++ (w' ++ c :: rest)))))))) = .ok (itemOf (some k) v, c :: rest) := by
  obtain ⟨hvalue, hskip⟩ := reads_value hc hc' hw₂ h hread hw' fuel hfuel .string (some k) rest
  have hcolon : skip (w₁ ++ byte ':' :: (w₂ ++ (t ++ (w' ++ c :: rest)))) =
      byte ':' :: (w₂ ++ (t ++ (w' ++ c :: rest))) := by
    rw [skip_ws hw₁]
    exact skip_cons (by decide) _
  rw [skip_ws hw, skip_cons (by decide), parseMember, parseString_chars _ hk]
  have hrest : (do
      let r ← parseValue fuel { CJson.new with type := .string, string := some k }
        (skip (skip (w₁ ++ byte ':' :: (w₂ ++ (t ++ (w' ++ c :: rest))))).tail)
      .ok (r.1, skip r.2) : Except ParseError (CJson D × List UInt8)) =
      .ok (itemOf (some k) v, c :: rest) := by
    rw [hcolon, List.tail_cons, hvalue]
    exact congrArg (fun p ↦ Except.ok (itemOf (some k) v, p)) hskip
  have hpeek : ¬peek (skip (w₁ ++ byte ':' :: (w₂ ++ (t ++ (w' ++ c :: rest))))) ≠ byte ':' := by
    rw [hcolon]
    exact fun h ↦ h rfl
  exact (if_neg hpeek).trans hrest

theorem ends_brace (rest : List UInt8) : Ends (byte '}' :: rest) :=
  ends_cons (by decide) (by decide) (by decide) (by decide) rest

theorem reads_lastMember {k kt w₁ w₂ : List UInt8} (hw : Ws w) (hk : Chars k kt) (hw₁ : Ws w₁)
    (hw₂ : Ws w₂) (h : Text numeralOf v t) (hread : Reads (.value v) t) (hw' : Ws w') :
    Reads (.members [(k, v)])
      (w ++ (byte '"' :: (kt ++ byte '"' :: (w₁ ++ byte ':' :: (w₂ ++ (t ++ w')))))) := by
  intro fuel child rest hfuel
  simp only [List.length_append, List.length_cons] at hfuel
  obtain ⟨fuel, rfl⟩ : ∃ k, fuel = k + 1 := ⟨fuel - 1, by omega⟩
  have hmember := reads_member (ends_brace []) (by decide) hw hk hw₁ hw₂ h hread hw'
    fuel (by omega) rest
  simp only [List.append_assoc, List.cons_append]
  calc
    _ = parseMembers (fuel + 1) (child ++ [itemOf (some k) v]) (byte '}' :: rest) :=
      congrArg (fun r ↦ r >>= _) hmember
    _ = _ := by rw [parseMembers_close]; rfl

theorem reads_nextMember {k kt w₁ w₂ : List UInt8} (hw : Ws w) (hk : Chars k kt) (hw₁ : Ws w₁)
    (hw₂ : Ws w₂) (h : Text numeralOf v t) (hread : Reads (.value v) t) (hw' : Ws w')
    (hrest : Reads (.members ms) r) :
    Reads (.members ((k, v) :: ms)) (w ++ (byte '"' :: (kt ++ byte '"' :: (w₁ ++ byte ':' ::
      (w₂ ++ (t ++ (w' ++ byte ',' :: r))))))) := by
  intro fuel child rest hfuel
  simp only [List.length_append, List.length_cons] at hfuel
  obtain ⟨fuel, rfl⟩ : ∃ k, fuel = k + 1 := ⟨fuel - 1, by omega⟩
  have hmember := reads_member (ends_comma []) (by decide) hw hk hw₁ hw₂ h hread hw'
    fuel (by omega) (r ++ byte '}' :: rest)
  simp only [List.append_assoc, List.cons_append]
  have hnext := hrest fuel (child ++ [itemOf (some k) v]) rest (by omega)
  rw [← parseMembers_comma, List.append_assoc] at hnext
  rw [hmember]
  exact hnext

theorem parseObject_empty {p q : List UInt8} (hskip : skip p = byte '}' :: q) (fuel : ℕ)
    (item : CJson D) :
    parseObject (fuel + 1) item (byte '{' :: p) = .ok ({ item with type := .object }, q) := by
  simp only [parseObject, peek_cons, ne_eq, not_true_eq_false, if_false, List.tail_cons, hskip,
    if_true]

theorem parseObject_members {p q : List UInt8} {fuel : ℕ} {child : List (CJson D)}
    (hskip : peek (skip p) ≠ byte '}')
    (h : (do
      let r ← parseMember fuel (skip p)
      parseMembers fuel ([] ++ [r.1]) r.2) = .ok (child, q)) (item : CJson D) :
    parseObject (fuel + 1) item (byte '{' :: p) =
      .ok ({ item with type := .object, child }, q) := by
  simp only [parseObject, peek_cons, ne_eq, not_true_eq_false, if_false, List.tail_cons, hskip,
    skip_skip]
  cases hmember : parseMember (D := D) fuel (skip p) with
  | error e =>
      rw [hmember] at h
      cases h
  | ok r =>
      rw [hmember] at h
      have hmembers : parseMembers fuel [r.1] r.2 = .ok (child, q) := h
      exact congrArg (fun r ↦ r >>= fun r ↦ .ok ({ item with type := .object, child := r.1 }, r.2))
        hmembers

theorem members_begin (h : Denotes Ws (numeralOf (D := D)) (.members ms) t) (rest : List UInt8) :
    peek (skip (t ++ rest)) ≠ byte '}' := by
  cases h with
  | lastMember hw hk hw₁ hw₂ h hw' =>
      rw [List.append_assoc, skip_ws hw, List.cons_append, skip_cons (by decide)]
      exact show byte '"' ≠ byte '}' by decide
  | member hw hk hw₁ hw₂ h hw' hr =>
      rw [List.append_assoc, skip_ws hw, List.cons_append, skip_cons (by decide)]
      exact show byte '"' ≠ byte '}' by decide

theorem reads_emptyObject (hw : Ws w) :
    Reads (D := D) (.value (.object [])) (byte '{' :: (w ++ [byte '}'])) := by
  intro fuel type string rest hfuel _
  simp only [List.length_append, List.length_cons] at hfuel
  obtain ⟨fuel, rfl⟩ : ∃ k, fuel = k + 2 := ⟨fuel - 2, by omega⟩
  have hskip : skip (w ++ ([byte '}'] ++ rest)) = byte '}' :: rest := by
    rw [skip_ws hw]
    exact skip_cons (by decide) rest
  rw [List.cons_append, List.append_assoc, parseValue_object, parseObject_empty hskip]
  rfl

theorem reads_object (h : Denotes Ws numeralOf (.members ms) t) (hread : Reads (.members ms) t) :
    Reads (.value (.object ms)) (byte '{' :: (t ++ [byte '}'])) := by
  intro fuel type string rest hfuel _
  simp only [List.length_append, List.length_cons] at hfuel
  obtain ⟨fuel, rfl⟩ : ∃ k, fuel = k + 2 := ⟨fuel - 2, by omega⟩
  rw [List.cons_append, List.append_assoc, parseValue_object]
  exact parseObject_members (members_begin h (byte '}' :: rest)) (hread fuel [] rest (by omega)) _

/-! ## Texts -/

theorem reads_number (x : Numeral) : Reads (D := D) (.value (.number (numeralOf x))) x.text := by
  intro fuel type string rest hfuel hrest
  obtain ⟨c, p, htext, hc⟩ := numeral_begins x
  rw [htext, List.length_cons] at hfuel
  obtain ⟨fuel, rfl⟩ : ∃ k, fuel = k + 1 := ⟨fuel - 1, by omega⟩
  have hparse := parseNumber_text (D := D) { CJson.new with type, string } x hrest
  rw [htext, List.cons_append] at hparse ⊢
  rw [parseValue_number hc, hparse]
  rfl

theorem reads {p : Piece D} (h : Denotes Ws numeralOf p t) : Reads p t := by
  induction h with
  | null | true | false =>
      intro fuel type string rest hfuel _
      obtain ⟨fuel, rfl⟩ : ∃ k, fuel = k + 1 := ⟨fuel - 1, by simp at hfuel; omega⟩
      rfl
  | number x => exact reads_number x
  | string h => exact reads_string h
  | emptyArray hw => exact reads_emptyArray hw
  | array h ih => exact reads_array h ih
  | emptyObject hw => exact reads_emptyObject hw
  | object h ih => exact reads_object h ih
  | lastItem hw h hw' ih => exact reads_lastItem hw h ih hw'
  | item hw h hw' hr ih ihr => exact reads_item hw h ih hw' ihr
  | lastMember hw hk hw₁ hw₂ h hw' ih => exact reads_lastMember hw hk hw₁ hw₂ h ih hw'
  | member hw hk hw₁ hw₂ h hw' hr ih ihr => exact reads_nextMember hw hk hw₁ hw₂ h ih hw' ihr

theorem parseValue_text (h : Text numeralOf v t) (hw : Ws w) {rest : List UInt8}
    (hrest : Ends rest) :
    parseValue (3 * (w ++ (t ++ rest)).length + 3) .new (skip (w ++ (t ++ rest))) =
      .ok (itemOf none v, rest) := by
  rw [skip_begins hw (text_begins h)]
  refine reads h _ .false none rest ?_ hrest
  simp only [List.length_append]
  omega

theorem skip_eq_nil {p : List UInt8} (hp : 0 ∉ p) : peek (skip p) = 0 ↔ ∀ b ∈ p, b ≤ 32 := by
  induction p with
  | nil => simp [skip, peek]
  | cons b p ih =>
      rw [List.mem_cons, not_or] at hp
      by_cases hb : b ≤ 32
      · have hskip : skip (b :: p) = skip p :=
          List.dropWhile_cons_of_pos (decide_eq_true ⟨Ne.symm hp.1, hb⟩)
        rw [hskip, ih hp.2, List.forall_mem_cons, and_iff_right hb]
      · rw [skip_cons (UInt8.not_le.mp hb), peek_cons, List.forall_mem_cons]
        exact iff_of_false (Ne.symm hp.1) fun h ↦ hb h.1

theorem cJsonParseWithOpts_eq (h : Text numeralOf v t) (hw : Ws w) {rest : List UInt8}
    (hrest : Ends rest) (requireNullTerminated : Bool) :
    cJsonParseWithOpts (w ++ (t ++ rest)) requireNullTerminated =
      if requireNullTerminated then
        if peek (skip rest) ≠ 0 then .error (.malformed (skip rest))
        else .ok (itemOf none v, skip rest)
      else .ok (itemOf none v, rest) := by
  rw [cJsonParseWithOpts, parseValue_text h hw hrest]
  rfl

/-- Every text of a value, with whitespace in front, is parsed into the item of the value and to
the end of the text. Where the text has to end there, only whitespace may follow. -/
theorem cJsonParseWithOpts_text (h : Text numeralOf v t) (hw : Ws w) {rest : List UInt8}
    (hrest : Ends rest) (hnul : 0 ∉ rest) :
    cJsonParseWithOpts (w ++ (t ++ rest)) false = .ok (itemOf none v, rest) ∧
      ((∀ b ∈ rest, b ≤ 32) →
        cJsonParseWithOpts (w ++ (t ++ rest)) true = .ok (itemOf none v, skip rest)) ∧
      ((∃ b ∈ rest, 32 < b) →
        cJsonParseWithOpts (D := D) (w ++ (t ++ rest)) true =
          .error (.malformed (skip rest))) := by
  have hparse := cJsonParseWithOpts_eq h hw hrest
  refine ⟨hparse false, fun hall ↦ ?_, fun ⟨b, hb, hlt⟩ ↦ ?_⟩
  · rw [hparse true, if_pos rfl, if_neg (not_not.mpr ((skip_eq_nil hnul).mpr hall))]
  · have hne : peek (skip rest) ≠ 0 := fun hzero ↦
      UInt8.not_le.mpr hlt ((skip_eq_nil hnul).mp hzero b hb)
    rw [hparse true, if_pos rfl, if_pos hne]

theorem cJsonParseWithOpts_array :
    cJsonParseWithOpts (D := ℚ)
        [byte ' ', byte '[', byte 't', byte 'r', byte 'u', byte 'e', byte ']', byte '\n'] true =
      .ok (itemOf none (.array [.bool true]), []) := by
  have hends : Ends [byte '\n'] :=
    ends_cons (by decide) (by decide) (by decide) (by decide) []
  exact (cJsonParseWithOpts_text (w := [byte ' ']) (.array (.lastItem ws_nil .true ws_nil))
    (List.forall_mem_singleton.mpr (.inl rfl)) hends (by decide)).2.1
    (List.forall_mem_singleton.mpr (by decide))

theorem cJsonParse_whole (h : Text numeralOf v t) :
    cJsonParseWithOpts t true = .ok (itemOf none v, []) := by
  have hends : Ends [] := fun _ hb ↦ nomatch hb
  have hparse := cJsonParseWithOpts_eq h ws_nil hends true
  have htext : ([] : List UInt8) ++ (t ++ []) = t := List.append_nil t
  rw [htext] at hparse
  exact hparse

end OsaBase
