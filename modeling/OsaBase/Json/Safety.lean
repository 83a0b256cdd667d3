import OsaBase.Json.Complete
import OsaBase.Json.Reads

/-!
# `cJSON_Parse` stays inside its text

Where the escapes in the strings of a text are complete, the parser neither reads behind the NUL nor
writes behind a block, it comes to an end, and it builds the item of some value.
-/

open Json

namespace OsaBase

variable {D : Type} [CDouble D] {p q : List UInt8}

/-! ## The parser -/

/-- A parse of `p` ends in `p` with a result as wanted, or reports an error there. -/
def Stays {α : Type} (p : List UInt8) (P : α → Prop) : Except ParseError (α × List UInt8) → Prop
  | .ok (a, q) => P a ∧ q <:+ p ∧ complete .outside q = true
  | .error (.malformed ep) => ep <:+ p
  | .error _ => False

variable {α β : Type} {P : α → Prop} {Q : β → Prop}

theorem Stays.ok {r : α × List UInt8} (h : P r.1) (hsuffix : r.2 <:+ p)
    (hcomplete : complete .outside r.2 = true) : Stays p P (.ok r) := ⟨h, hsuffix, hcomplete⟩

theorem Stays.of_suffix {x : Except ParseError (α × List UInt8)} (h : Stays q P x)
    (hq : q <:+ p) : Stays p P x := by
  match x, h with
  | .ok _, ⟨ha, hsuffix, hcomplete⟩ => exact ⟨ha, hsuffix.trans hq, hcomplete⟩
  | .error (.malformed _), h => exact h.trans hq

theorem Stays.imp {P' : α → Prop} {x : Except ParseError (α × List UInt8)} (h : Stays p P x)
    (hP : ∀ a, P a → P' a) : Stays p P' x := by
  match x, h with
  | .ok _, ⟨ha, hsuffix⟩ => exact ⟨hP _ ha, hsuffix⟩
  | .error (.malformed _), h => exact h

theorem Stays.bind {x : Except ParseError (α × List UInt8)}
    {f : α × List UInt8 → Except ParseError (β × List UInt8)} (h : Stays p P x)
    (hf : ∀ a q, P a → q <:+ p → complete .outside q = true → Stays q Q (f (a, q))) :
    Stays p Q (x >>= f) := by
  match x, h with
  | .ok (a, q), ⟨ha, hsuffix, hcomplete⟩ =>
      exact (hf a q ha hsuffix hcomplete).of_suffix hsuffix
  | .error (.malformed _), h => exact h

theorem stays_string (type : CJsonType) (string : Option (List UInt8))
    (hp : complete .outside p = true) :
    Stays p (fun item : CJson D ↦ ∃ s, item = itemOf string (.string s))
      (parseString { CJson.new with type, string } p) := by
  rw [parseString]
  split
  · exact List.suffix_rfl
  · next hquote =>
    obtain ⟨t, rfl⟩ := exists_cons_of_peek (by decide) (not_not.mp hquote)
    obtain ⟨len, out, ptr, hscan, hunescape, hlen, hsuffix, hstop⟩ := scans_of_complete t hp
    rw [List.tail_cons, hscan, hunescape]
    simp only [not_lt.mpr hlen, if_false]
    have hsuffix' := hsuffix.trans (List.suffix_cons (byte '"') t)
    refine ⟨⟨out, rfl⟩, ?_⟩
    rcases hstop with rfl | ⟨q, rfl, hq⟩
    · exact ⟨List.nil_suffix, rfl⟩
    · exact ⟨(List.suffix_cons _ q).trans hsuffix', hq⟩

theorem passes_ite {c : Prop} [Decidable c] {q' : List UInt8} (h : c → Passes p q)
    (h' : ¬c → Passes p q') : Passes p (if c then q else q') := by
  split
  · next hc => exact h hc
  · next hc => exact h' hc

theorem passes_digits (p : List UInt8) : Passes p (p.dropWhile fun c ↦ IsDigit c) :=
  passes_dropWhile (by decide) p

theorem passes_fraction (n : D) (num : List UInt8) : Passes num (readFraction n num).2.2 := by
  rw [readFraction]
  split
  · next h =>
    exact (passes_tail (by rw [h.1]; decide)).trans (passes_digits num.tail)
  · exact Passes.refl num

theorem passes_exponent (num : List UInt8) : Passes num (readExponent num).2.2 := by
  rw [readExponent]
  split
  · next h =>
    refine Passes.trans ?_ (passes_digits _)
    refine (passes_tail (by rcases h with h | h <;> rw [h] <;> decide)).trans ?_
    exact passes_ite (fun h ↦ passes_tail (by rcases h with h | h <;> rw [h] <;> decide))
      fun _ ↦ Passes.refl _
  · exact Passes.refl num

theorem passes_int (num : List UInt8) :
    Passes num (if IsDigit (peek num) ∧ peek num ≠ byte '0' then
      readDigits (CDouble.ofInt 0 : D) num else (CDouble.ofInt 0, num)).2 := by
  split
  · exact passes_digits num
  · exact Passes.refl num

theorem passes_number (item : CJson D) (num : List UInt8) :
    Passes num (parseNumber item num).2 := by
  have hsign : Passes num (if peek num = byte '-' then num.tail else num) :=
    passes_ite (fun h ↦ passes_tail (by rw [h]; decide)) fun _ ↦ Passes.refl num
  have hzero : ∀ q, Passes q (if peek q = byte '0' then q.tail else q) := fun q ↦
    passes_ite (fun h ↦ passes_tail (by rw [h]; decide)) fun _ ↦ Passes.refl q
  simp only [parseNumber]
  generalize (if peek num = byte '-' then num.tail else num) = q at hsign
  have hint := (hzero q).trans (passes_int (D := D) _)
  exact ((hsign.trans hint).trans (passes_fraction _ _)).trans (passes_exponent _)

theorem parseNumber_item (item : CJson D) (num : List UInt8) :
    ∃ d, (parseNumber item num).1 =
      { item with type := .number, valuedouble := d, valueint := CDouble.toInt d } := ⟨_, rfl⟩

theorem stays_number (type : CJsonType) (string : Option (List UInt8))
    (hp : complete .outside p = true) :
    Stays p (fun item : CJson D ↦ ∃ v, item = itemOf string v)
      (.ok (parseNumber { CJson.new with type, string } p)) := by
  have hpass := passes_number (D := D) { CJson.new with type, string } p
  obtain ⟨d, hitem⟩ := parseNumber_item (D := D) { CJson.new with type, string } p
  exact .ok ⟨.number d, hitem⟩ hpass.suffix (hpass.complete hp)

theorem stays_of_passes {a : α} (hp : complete .outside p = true) (ha : P a) (h : Passes p q) :
    Stays p P (.ok (a, q)) := ⟨ha, h.suffix, h.complete hp⟩

theorem passes_drop {w : List UInt8} (h : w.isPrefixOf p = true) (hw : byte '"' ∉ w) :
    Passes p (p.drop w.length) := by
  obtain ⟨q, rfl⟩ := List.isPrefixOf_iff_prefix.mp h
  exact ⟨w, by rw [List.drop_left], hw⟩

/-- What the functions of the parser do with `fuel`, for as long a text as it is enough for. -/
structure StaysAll (D : Type) [CDouble D] (fuel : ℕ) : Prop where
  value : ∀ type string p, 3 * p.length + 1 ≤ fuel → complete .outside p = true →
    Stays p (fun item : CJson D ↦ ∃ v, item = itemOf string v)
      (parseValue fuel { CJson.new with type, string } p)
  array : ∀ type string p, 3 * p.length ≤ fuel → peek p = byte '[' → complete .outside p = true →
    Stays p (fun item : CJson D ↦ ∃ v, item = itemOf string v)
      (parseArray fuel { CJson.new with type, string } p)
  items : ∀ (vs : List (Json D)) p, 3 * p.length + 1 ≤ fuel → complete .outside p = true →
    Stays p (fun child ↦ ∃ vs, child = itemsOf vs) (parseItems fuel (itemsOf vs) p)
  object : ∀ type string p, 3 * p.length ≤ fuel → peek p = byte '{' → complete .outside p = true →
    Stays p (fun item : CJson D ↦ ∃ v, item = itemOf string v)
      (parseObject fuel { CJson.new with type, string } p)
  member : ∀ p, 3 * p.length + 1 ≤ fuel → complete .outside p = true →
    Stays p (fun item : CJson D ↦ ∃ m, item = memberOf m) (parseMember fuel p)
  members : ∀ (ms : List (List UInt8 × Json D)) p, 3 * p.length + 1 ≤ fuel →
    complete .outside p = true →
    Stays p (fun child ↦ ∃ ms, child = membersOf ms) (parseMembers fuel (membersOf ms) p)

variable {fuel : ℕ}

theorem staysAll_value (h : StaysAll D fuel) (type : CJsonType) (string : Option (List UInt8))
    (p : List UInt8) (hfuel : 3 * p.length ≤ fuel) (hp : complete .outside p = true) :
    Stays p (fun item : CJson D ↦ ∃ v, item = itemOf string v)
      (parseValue (fuel + 1) { CJson.new with type, string } p) := by
  rw [parseValue]
  split
  · next hnull => exact stays_of_passes hp ⟨.null, rfl⟩ (passes_drop hnull (by decide))
  split
  · next hfalse => exact stays_of_passes hp ⟨.bool false, rfl⟩ (passes_drop hfalse (by decide))
  split
  · next htrue => exact stays_of_passes hp ⟨.bool true, rfl⟩ (passes_drop htrue (by decide))
  split
  · refine (stays_string type string hp).imp fun item hitem ↦ ?_
    obtain ⟨s, hs⟩ := hitem
    exact ⟨.string s, hs⟩
  split
  · exact stays_number type string hp
  split
  · next harray => exact h.array type string p hfuel harray hp
  split
  · next hobject => exact h.object type string p hfuel hobject hp
  · exact List.suffix_rfl

theorem stays_tail {c : UInt8} (hc : c ≠ byte '"') (hpeek : peek p = c)
    (hp : complete .outside p = true) : complete .outside p.tail = true :=
  (passes_tail (by rw [hpeek]; exact hc)).complete hp

theorem tail_length {c : UInt8} (hc : c ≠ 0) (hpeek : peek p = c) :
    p.tail.length + 1 = p.length := by
  cases p with
  | nil => exact absurd hpeek.symm hc
  | cons b p => rfl

theorem skip_length (p : List UInt8) : (skip p).length ≤ p.length :=
  (passes_skip p).suffix.length_le

theorem itemsOf_append (vs : List (Json D)) (v : Json D) :
    itemsOf vs ++ [itemOf none v] = itemsOf (vs ++ [v]) := by
  induction vs with
  | nil => rfl
  | cons u vs ih =>
      rw [itemsOf, List.cons_append, List.cons_append, itemsOf, ih]

theorem membersOf_append (ms : List (List UInt8 × Json D)) (m : List UInt8 × Json D) :
    membersOf ms ++ [memberOf m] = membersOf (ms ++ [m]) := by
  induction ms with
  | nil => rfl
  | cons u ms ih =>
      rw [membersOf, List.cons_append, List.cons_append, membersOf, ih]

theorem staysAll_items (h : StaysAll D fuel) (vs : List (Json D)) (p : List UInt8)
    (hfuel : 3 * p.length ≤ fuel) (hp : complete .outside p = true) :
    Stays p (fun child ↦ ∃ vs, child = itemsOf vs) (parseItems (fuel + 1) (itemsOf vs) p) := by
  rw [parseItems]
  split
  · next hcomma =>
    have htail := stays_tail (by decide) hcomma hp
    have hlen := tail_length (by decide) hcomma
    have hskip := skip_length p.tail
    refine Stays.of_suffix (q := skip p.tail) (Stays.bind (h.value .false none (skip p.tail)
      (by omega) ((passes_skip _).complete htail)) ?_)
      ((passes_skip _).suffix.trans (List.tail_suffix p))
    rintro _ q ⟨v, rfl⟩ hq hcomplete
    have := hq.length_le
    have := skip_length q
    rw [itemsOf_append]
    exact (h.items _ (skip q) (by omega) ((passes_skip q).complete hcomplete)).of_suffix
      (passes_skip q).suffix
  · split
    · next hclose =>
      exact stays_of_passes hp ⟨vs, rfl⟩ (passes_tail (by rw [hclose]; decide))
    · exact List.suffix_rfl

theorem staysAll_members (h : StaysAll D fuel) (ms : List (List UInt8 × Json D)) (p : List UInt8)
    (hfuel : 3 * p.length ≤ fuel) (hp : complete .outside p = true) :
    Stays p (fun child ↦ ∃ ms, child = membersOf ms)
      (parseMembers (fuel + 1) (membersOf ms) p) := by
  rw [parseMembers]
  split
  · next hcomma =>
    have htail := stays_tail (by decide) hcomma hp
    have hlen := tail_length (by decide) hcomma
    have hskip := skip_length p.tail
    refine Stays.of_suffix (q := skip p.tail) (Stays.bind (h.member (skip p.tail) (by omega)
      ((passes_skip _).complete htail)) ?_) ((passes_skip _).suffix.trans (List.tail_suffix p))
    rintro _ q ⟨m, rfl⟩ hq hcomplete
    have := hq.length_le
    rw [membersOf_append]
    exact h.members _ q (by omega) hcomplete
  · split
    · next hclose =>
      exact stays_of_passes hp ⟨ms, rfl⟩ (passes_tail (by rw [hclose]; decide))
    · exact List.suffix_rfl

theorem staysAll_array (h : StaysAll D fuel) (type : CJsonType) (string : Option (List UInt8))
    (p : List UInt8) (hfuel : 3 * p.length ≤ fuel + 1) (hpeek : peek p = byte '[')
    (hp : complete .outside p = true) :
    Stays p (fun item : CJson D ↦ ∃ v, item = itemOf string v)
      (parseArray (fuel + 1) { CJson.new with type, string } p) := by
  have htail := (passes_skip _).complete (stays_tail (by decide) hpeek hp)
  have hlen := tail_length (by decide) hpeek
  have hskip := skip_length p.tail
  have hsuffix : skip p.tail <:+ p := (passes_skip _).suffix.trans (List.tail_suffix p)
  rw [parseArray, if_neg (not_not.mpr hpeek)]
  refine Stays.of_suffix (q := skip p.tail) ?_ hsuffix
  dsimp only
  split
  · next hclose =>
    exact stays_of_passes htail ⟨.array [], rfl⟩ (passes_tail (by rw [hclose]; decide))
  · rw [skip_skip]
    refine Stays.bind (h.value .false none (skip p.tail) (by omega) htail) ?_
    rintro _ q ⟨v, rfl⟩ hq hcomplete
    have := hq.length_le
    have := skip_length q
    refine Stays.of_suffix (q := skip q) (Stays.bind (h.items [v] (skip q) (by omega)
      ((passes_skip q).complete hcomplete)) ?_) (passes_skip q).suffix
    rintro _ r ⟨vs, rfl⟩ hr hcomplete
    exact ⟨⟨.array vs, rfl⟩, List.suffix_rfl, hcomplete⟩

theorem staysAll_object (h : StaysAll D fuel) (type : CJsonType) (string : Option (List UInt8))
    (p : List UInt8) (hfuel : 3 * p.length ≤ fuel + 1) (hpeek : peek p = byte '{')
    (hp : complete .outside p = true) :
    Stays p (fun item : CJson D ↦ ∃ v, item = itemOf string v)
      (parseObject (fuel + 1) { CJson.new with type, string } p) := by
  have htail := (passes_skip _).complete (stays_tail (by decide) hpeek hp)
  have hlen := tail_length (by decide) hpeek
  have hskip := skip_length p.tail
  have hsuffix : skip p.tail <:+ p := (passes_skip _).suffix.trans (List.tail_suffix p)
  rw [parseObject, if_neg (not_not.mpr hpeek)]
  refine Stays.of_suffix (q := skip p.tail) ?_ hsuffix
  dsimp only
  split
  · next hclose =>
    exact stays_of_passes htail ⟨.object [], rfl⟩ (passes_tail (by rw [hclose]; decide))
  · rw [skip_skip]
    refine Stays.bind (h.member (skip p.tail) (by omega) htail) ?_
    rintro _ q ⟨m, rfl⟩ hq hcomplete
    have := hq.length_le
    refine Stays.bind (h.members [m] q (by omega) hcomplete) ?_
    rintro _ r ⟨ms, rfl⟩ hr hcomplete
    exact ⟨⟨.object ms, rfl⟩, List.suffix_rfl, hcomplete⟩

theorem staysAll_member (h : StaysAll D fuel) (p : List UInt8) (hfuel : 3 * p.length ≤ fuel)
    (hp : complete .outside p = true) :
    Stays p (fun item : CJson D ↦ ∃ m, item = memberOf m) (parseMember (fuel + 1) p) := by
  rw [parseMember]
  refine Stays.bind (stays_string .false none hp) ?_
  rintro _ q ⟨s, rfl⟩ hq hcomplete
  refine Stays.of_suffix (q := skip q) ?_ (passes_skip q).suffix
  have hlen := hq.length_le
  have hskip := skip_length q
  have hcomplete' := (passes_skip q).complete hcomplete
  dsimp only
  split
  · exact List.suffix_rfl
  · next hcolon =>
    rw [ne_eq, not_not] at hcolon
    have htail := tail_length (by decide) hcolon
    have hskip' := skip_length (skip q).tail
    refine Stays.of_suffix (q := skip (skip q).tail) (Stays.bind (h.value .string (some s) _
      (by omega) ((passes_skip _).complete (stays_tail (by decide) hcolon hcomplete'))) ?_)
      ((passes_skip _).suffix.trans (List.tail_suffix _))
    rintro _ r ⟨v, rfl⟩ hr hcomplete
    exact stays_of_passes hcomplete ⟨(s, v), rfl⟩ (passes_skip r)

theorem staysAll (fuel : ℕ) : StaysAll D fuel := by
  induction fuel with
  | zero =>
      have hnil : ∀ {c : UInt8} {p : List UInt8}, c ≠ 0 → peek p = c → ¬3 * p.length ≤ 0 := by
        intro c p hc hpeek hlen
        have := tail_length hc hpeek
        omega
      refine ⟨?_, ?_, ?_, ?_, ?_, ?_⟩
      · intro type string p hfuel
        omega
      · exact fun _ _ p hfuel hpeek ↦ absurd hfuel (hnil (by decide) hpeek)
      · intro vs p hfuel
        omega
      · exact fun _ _ p hfuel hpeek ↦ absurd hfuel (hnil (by decide) hpeek)
      · intro p hfuel
        omega
      · intro ms p hfuel
        omega
  | succ fuel ih =>
      refine ⟨?_, ?_, ?_, ?_, ?_, ?_⟩
      · exact fun type string p hfuel ↦ staysAll_value ih type string p (by omega)
      · exact fun type string p hfuel ↦ staysAll_array ih type string p (by omega)
      · exact fun vs p hfuel ↦ staysAll_items ih vs p (by omega)
      · exact fun type string p hfuel ↦ staysAll_object ih type string p (by omega)
      · exact fun p hfuel ↦ staysAll_member ih p (by omega)
      · exact fun ms p hfuel ↦ staysAll_members ih ms p (by omega)

/-- Where the escapes of a text are complete, the parser returns the item of some value and an end
in the text, or the place of an error in the text; it never runs behind the text or behind a block,
and it always comes to an end. -/
theorem cJsonParseWithOpts_stays (value : List UInt8) (hvalue : complete .outside value = true)
    (requireNullTerminated : Bool) :
    (∃ v : Json D, ∃ q, q <:+ value ∧
        cJsonParseWithOpts value requireNullTerminated = .ok (itemOf none v, q)) ∨
      ∃ q, q <:+ value ∧
        cJsonParseWithOpts (D := D) value requireNullTerminated = .error (.malformed q) := by
  have hlen := skip_length value
  have hstays : Stays value (fun item : CJson D ↦ ∃ v, item = itemOf none v)
      (cJsonParseWithOpts value requireNullTerminated) := by
    refine Stays.of_suffix (q := skip value) (Stays.bind ((staysAll _).value .false none
      (skip value) (by omega) ((passes_skip value).complete hvalue)) ?_) (passes_skip value).suffix
    rintro _ q ⟨v, rfl⟩ hq hcomplete
    dsimp only
    split
    · split
      · exact (passes_skip q).suffix
      · exact stays_of_passes hcomplete ⟨v, rfl⟩ (passes_skip q)
    · exact stays_of_passes hcomplete ⟨v, rfl⟩ (Passes.refl q)
  match cJsonParseWithOpts (D := D) value requireNullTerminated, hstays with
  | .ok (_, q), ⟨⟨v, rfl⟩, hq, _⟩ => exact Or.inl ⟨v, q, hq, rfl⟩
  | .error (.malformed q), hq => exact Or.inr ⟨q, hq, rfl⟩

/-- A text that ends in a string. -/
theorem cJsonParseWithOpts_stays_string :
    (∃ v : Json ℚ, ∃ q, q <:+ [byte '[', byte '"', byte 'a'] ∧
        cJsonParseWithOpts [byte '[', byte '"', byte 'a'] true = .ok (itemOf none v, q)) ∨
      ∃ q, q <:+ [byte '[', byte '"', byte 'a'] ∧
        cJsonParseWithOpts (D := ℚ) [byte '[', byte '"', byte 'a'] true =
          .error (.malformed q) :=
  cJsonParseWithOpts_stays _ rfl true

/-! ## Incomplete escapes -/

/-- A text that is one string up to its end. -/
theorem cJsonParse_string (t : List UInt8) :
    (cJsonParse (D := D) (byte '"' :: t) = .error .overrun) ↔
      ∀ len out ptr, scanString t = some len → unescape 0 t = some (out, ptr) →
        len < out.length := by
  have hparse : cJsonParse (D := D) (byte '"' :: t) = (do
      let r ← parseString .new (byte '"' :: t)
      .ok r) := by
    rw [cJsonParse, cJsonParseWithOpts, skip_cons (by decide), parseValue_string]
    rfl
  rw [hparse, parseString, peek_cons, if_neg (by simp), List.tail_cons]
  cases scanString t with
  | none =>
      refine iff_of_true rfl fun len out ptr h ↦ ?_
      cases h
  | some len =>
      cases unescape 0 t with
      | none =>
          refine iff_of_true rfl fun len' out ptr _ h ↦ ?_
          cases h
      | some r =>
          obtain ⟨out, ptr⟩ := r
          by_cases hlen : len < out.length
          · refine iff_of_true (by simp only [hlen, if_true]; rfl) ?_
            rintro len' out' ptr' ⟨⟩ ⟨⟩
            exact hlen
          · refine iff_of_false ?_ fun h ↦ hlen (h len out ptr rfl rfl)
            simp only [hlen, if_false]
            intro h
            cases h

theorem unescape_plain {x : List UInt8} (hx : ∀ b ∈ x, b ≠ byte '"' ∧ b ≠ byte '\\') :
    unescape 0 x = some (x, []) := by
  induction x with
  | nil => rfl
  | cons b x ih =>
      obtain ⟨hquote, hslash⟩ := hx b List.mem_cons_self
      rw [unescape_cons hquote hslash, ih fun c hc ↦ hx c (List.mem_cons_of_mem _ hc)]
      rfl

/-- A string that ends in a backslash is read behind its NUL. Behind `\u` and a quote, the quote is
jumped over: the parser runs behind the text or behind the block, unless three or four characters
are left. -/
theorem cJsonParse_overruns {x : List UInt8} (hx : ∀ b ∈ x, b ≠ byte '"' ∧ b ≠ byte '\\') :
    cJsonParse (D := D) (byte '"' :: (x ++ [byte '\\'])) = .error .overrun ∧
      (cJsonParse (D := D) (byte '"' :: byte '\\' :: byte 'u' :: byte '"' :: x) =
        .error .overrun ↔ x.length < 3 ∨ 4 < x.length) := by
  rw [cJsonParse_string, cJsonParse_string]
  refine ⟨?_, ?_⟩
  · intro len out ptr hscan
    rw [scanString_plain hx] at hscan
    cases hscan
  · have hscan : scanString (byte '\\' :: byte 'u' :: byte '"' :: x) = some 1 := by
      rw [scanString_slash, scanString_quote]
      rfl
    have htranscode : transcode (byte '"' :: x) = ([], 4) := rfl
    rw [hscan, unescape_slash_u, htranscode]
    have hshort : ∀ {ptr : List UInt8}, unescape 4 (byte '"' :: ptr) = none →
        ∀ len out ptr', some 1 = some len →
          ((unescape 4 (byte '"' :: ptr)).map fun r ↦ ([] ++ r.1, r.2)) = some (out, ptr') →
            len < List.length out := by
      intro ptr hnone len out ptr' _ h
      rw [hnone] at h
      cases h
    rcases x with - | ⟨a, - | ⟨b, - | ⟨c, x⟩⟩⟩
    · exact iff_of_true (hshort rfl) (Or.inl (by decide))
    · exact iff_of_true (hshort rfl) (Or.inl (show 1 < 3 by decide))
    · exact iff_of_true (hshort rfl) (Or.inl (show 2 < 3 by decide))
    · have hskip : unescape 4 (byte '"' :: a :: b :: c :: x) = some (x, []) := by
        rw [← unescape_plain fun e he ↦ hx e (by simp only [List.mem_cons, he, or_true])]
        exact unescape_skip [byte '"', a, b, c] x
      rw [hskip]
      simp only [List.length_cons]
      constructor
      · intro h
        have := h 1 x [] rfl rfl
        omega
      · rintro h len out ptr ⟨⟩ ⟨⟩
        show 1 < x.length
        omega

/-- Behind the quote, three or four characters are read safely, five are not. -/
theorem cJsonParse_overruns_lengths :
    cJsonParse (D := ℚ) (['"', 'a', 'b', 'c', '\\'].map byte) = .error .overrun ∧
      cJsonParse (D := ℚ) (['"', '\\', 'u', '"', 'a', 'b', 'c'].map byte) ≠ .error .overrun ∧
      cJsonParse (D := ℚ) (['"', '\\', 'u', '"', 'a', 'b', 'c', 'd'].map byte) ≠
        .error .overrun ∧
      cJsonParse (D := ℚ) (['"', '\\', 'u', '"', 'a', 'b', 'c', 'd', 'e'].map byte) =
        .error .overrun := by
  have hthree := cJsonParse_overruns (D := ℚ) (x := ['a', 'b', 'c'].map byte)
    (by decide +kernel)
  have hfour := cJsonParse_overruns (D := ℚ) (x := ['a', 'b', 'c', 'd'].map byte)
    (by decide +kernel)
  have hfive := cJsonParse_overruns (D := ℚ) (x := ['a', 'b', 'c', 'd', 'e'].map byte)
    (by decide +kernel)
  refine ⟨hthree.1, ?_, ?_, hfive.2.mpr (Or.inr (by decide))⟩
  · exact fun h ↦ absurd (hthree.2.mp h) (by decide)
  · exact fun h ↦ absurd (hfour.2.mp h) (by decide)

end OsaBase
