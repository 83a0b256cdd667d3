import OsaBase.Json.Texts

/-!
# `cJSON_PrintBuffered`

The printer that writes into one growing buffer gives the text of the printer that composes blocks,
whatever the size it begins with and whatever `malloc` leaves in the memory.
-/

open Json

namespace OsaBase

/-! ## The buffer -/

/-- `printbuffer`; its `length` is that of `buffer`. `fill` is what the next memory from `malloc`
holds. -/
structure PrintBuffer where
  buffer : List UInt8
  offset : ℕ
  fill : ℕ → UInt8

def pow2gt (x : ℕ) : ℤ :=
  let x := x - 1
  let x := x ||| x >>> 1
  let x := x ||| x >>> 2
  let x := x ||| x >>> 4
  let x := x ||| x >>> 8
  let x := x ||| x >>> 16
  int32 (x + 1)

namespace PrintBuffer

/-- The buffer grows to `newsize`, with what it held. -/
def grow (p : PrintBuffer) (newsize : ℕ) : PrintBuffer where
  buffer := p.buffer ++ (List.range (newsize - p.buffer.length)).map fun i ↦
    p.fill (p.buffer.length + i)
  offset := p.offset
  fill i := p.fill (newsize + i)

def ensure (p : PrintBuffer) (needed : ℕ) : Except PrintError PrintBuffer :=
  let needed := int32 (needed + p.offset)
  if needed ≤ p.buffer.length then .ok p
  else
    let newsize := pow2gt needed.toNat
    if newsize < 0 then .error .memory
    else if newsize < p.buffer.length then .error .overflow
    else .ok (p.grow newsize.toNat)

/-- The bytes at `buffer + offset`. -/
def put (p : PrintBuffer) (bytes : List UInt8) : Except PrintError PrintBuffer :=
  if p.buffer.length < p.offset + bytes.length then .error .overflow
  else
    .ok { p with
      buffer := p.buffer.take p.offset ++ (bytes ++ p.buffer.drop (p.offset + bytes.length)) }

/-- `ensure`, and the bytes at the place it returns. -/
def write (p : PrintBuffer) (needed : ℕ) (bytes : List UInt8) : Except PrintError PrintBuffer := do
  let p ← p.ensure needed
  p.put bytes

/-- Bytes that `offset` moves over, and a NUL behind them if there is one. -/
def append (p : PrintBuffer) (needed : ℕ) (bytes : List UInt8) (nul : Bool) :
    Except PrintError PrintBuffer := do
  let p ← p.write needed (if nul then bytes ++ [0] else bytes)
  .ok { p with offset := p.offset + bytes.length }

def indent (p : PrintBuffer) (depth : ℕ) (fmt : Bool) : Except PrintError PrintBuffer :=
  if fmt then p.append depth (tabs depth) false else .ok p

/-- `update`, whose result becomes the offset. -/
def update (p : PrintBuffer) : Except PrintError PrintBuffer :=
  match (p.buffer.drop p.offset).findIdx? (· = 0) with
  | none => .error .overflow
  | some len => .ok { p with offset := p.offset + len }

end PrintBuffer

/-! ## The printer -/

variable {D : Type} [CDouble D]

/-- A text with its NUL; the pointer to it is its offset. -/
def emit (p : PrintBuffer) (needed : ℕ) (text : List UInt8) :
    Except PrintError (PrintBuffer × ℕ) := do
  let p ← p.write needed (text ++ [0])
  .ok (p, p.offset)

def emitStringPtr (p : PrintBuffer) : Option (List UInt8) → Except PrintError (PrintBuffer × ℕ)
  | none => .error .null
  | some str => emit p (stringText str).1 (stringText str).2

def newline (fmt : Bool) : List UInt8 := if fmt then [byte '\n'] else []

mutual

/-- `print_value` with a buffer: the buffer, and where the pointer that is returned points to. -/
def emitValue : CJson D → ℕ → Bool → PrintBuffer → Except PrintError (PrintBuffer × ℕ)
  | item@⟨type, valuestring, _, _, _, child⟩, depth, fmt, p =>
    match type with
    | .null => emit p 5 nullText
    | .false => emit p 6 falseText
    | .true => emit p 5 trueText
    | .number => emit p (numberText item).1 (numberText item).2
    | .string => emitStringPtr p valuestring
    | .array =>
      if child.isEmpty then emit p 3 [byte '[', byte ']']
      else do
        let i := p.offset
        let p ← p.append 1 [byte '['] false
        let p ← emitEntries child (depth + 1) fmt p
        let p ← p.write 2 [byte ']', 0]
        .ok (p, i)
    | .object =>
      if child.isEmpty then
        emit p (if fmt then depth + 4 else 3)
          (byte '{' :: ((if fmt then byte '\n' :: tabs (depth - 1) else []) ++ [byte '}']))
      else do
        let i := p.offset
        let p ← p.append ((if fmt then 2 else 1) + 1) (byte '{' :: newline fmt) true
        let p ← emitMembers child (depth + 1) fmt p
        let p ← p.write (if fmt then depth + 1 + 1 else 2)
          ((if fmt then tabs depth else []) ++ [byte '}', 0])
        -- the loop over the tabs leaves its own count in `i`
        .ok (p, if fmt then depth else i)

/-- The loop of `print_array`. -/
def emitEntries : List (CJson D) → ℕ → Bool → PrintBuffer → Except PrintError PrintBuffer
  | [], _, _, p => .ok p
  | c :: child, depth, fmt, p => do
    let r ← emitValue c depth fmt p
    let p ← r.1.update
    let p ← if child.isEmpty then .ok p
      else p.append ((if fmt then 2 else 1) + 1) (byte ',' :: if fmt then [byte ' '] else []) true
    emitEntries child depth fmt p

/-- The loop of `print_object`. -/
def emitMembers : List (CJson D) → ℕ → Bool → PrintBuffer → Except PrintError PrintBuffer
  | [], _, _, p => .ok p
  | c :: child, depth, fmt, p => do
    let p ← p.indent depth fmt
    let r ← emitStringPtr p c.string
    let p ← r.1.update
    let p ← p.append (if fmt then 2 else 1) (byte ':' :: if fmt then [byte '\t'] else []) false
    let r ← emitValue c depth fmt p
    let p ← r.1.update
    let p ← p.append ((if fmt then 1 else 0) + (if child.isEmpty then 0 else 1) + 1)
      ((if child.isEmpty then [] else [byte ',']) ++ newline fmt) true
    emitMembers child depth fmt p

end

/-- The C string that the pointer points to. -/
def cJsonPrintBuffered (item : CJson D) (prebuffer : ℕ) (fmt : Bool) (fill : ℕ → UInt8) :
    Except PrintError (List UInt8) := do
  let p : PrintBuffer := ⟨(List.range prebuffer).map fill, 0, fun i ↦ fill (prebuffer + i)⟩
  let r ← emitValue item 0 fmt p
  let text := r.1.buffer.drop r.2
  if 0 ∈ text then .ok (text.takeWhile (· ≠ 0)) else .error .overflow

/-! ## What the buffer holds -/

theorem le_pow2gt {x : ℕ} (hpos : 0 < x) (hx : x ≤ 2 ^ 30) : (x : ℤ) ≤ pow2gt x := by
  have hstep : ∀ y k, x - 1 ≤ y ∧ y < 2 ^ 30 → x - 1 ≤ y ||| y >>> k ∧ y ||| y >>> k < 2 ^ 30 := by
    intro y k hy
    refine ⟨le_trans hy.1 Nat.left_le_or, Nat.or_lt_two_pow hy.2 ?_⟩
    exact lt_of_le_of_lt (Nat.shiftRight_le y k) hy.2
  obtain ⟨hle, hlt⟩ := hstep _ 16 (hstep _ 8 (hstep _ 4 (hstep _ 2 (hstep (x - 1) 1
    ⟨le_rfl, by omega⟩))))
  simp only [pow2gt]
  rw [int32_of_range (by omega) (by omega)]
  omega

namespace PrintBuffer

variable {p : PrintBuffer} {pre t : List UInt8}

/-- `pre` is written, and the offset is behind it. -/
def At (p : PrintBuffer) (pre : List UInt8) : Prop := p.offset = pre.length ∧ pre <+: p.buffer

/-- A text is written behind `pre`, with its NUL; the offset is in the text. -/
def Done (p : PrintBuffer) (pre t : List UInt8) : Prop :=
  pre.length ≤ p.offset ∧ p.offset ≤ (pre ++ t).length ∧ pre ++ (t ++ [0]) <+: p.buffer

theorem ensure_at (h : p.At pre) (needed : ℕ) (hle : pre.length + needed ≤ 2 ^ 30) :
    ∃ p', p.ensure needed = .ok p' ∧ p'.At pre ∧ pre.length + needed ≤ p'.buffer.length := by
  obtain ⟨hoffset, hpre⟩ := h
  have hint : int32 (needed + p.offset) = ((pre.length + needed : ℕ) : ℤ) := by
    rw [int32_of_range (by omega) (by omega), hoffset]
    omega
  simp only [ensure, hint, Nat.cast_le, Int.toNat_natCast]
  split
  · next hfits => exact ⟨p, rfl, ⟨hoffset, hpre⟩, hfits⟩
  · next hfits =>
    have hsize := le_pow2gt (x := pre.length + needed) (by omega) hle
    rw [if_neg (by omega), if_neg (by omega)]
    refine ⟨_, rfl, ⟨hoffset, hpre.trans (List.prefix_append _ _)⟩, ?_⟩
    simp only [grow, List.length_append, List.length_map, List.length_range]
    omega

theorem put_at (h : p.At pre) (bytes : List UInt8)
    (hfits : pre.length + bytes.length ≤ p.buffer.length) :
    ∃ p', p.put bytes = .ok p' ∧ p'.offset = pre.length ∧ pre ++ bytes <+: p'.buffer := by
  obtain ⟨hoffset, hpre⟩ := h
  rw [put, if_neg (by omega)]
  refine ⟨_, rfl, hoffset, ?_⟩
  have htake : p.buffer.take p.offset = pre := by
    rw [hoffset]
    exact (List.prefix_iff_eq_take.mp hpre).symm
  rw [htake, ← List.append_assoc]
  exact List.prefix_append _ _

theorem write_at (h : p.At pre) (needed : ℕ) (bytes : List UInt8)
    (hle : pre.length + needed ≤ 2 ^ 30) (hfits : bytes.length ≤ needed) :
    ∃ p', p.write needed bytes = .ok p' ∧ p'.offset = pre.length ∧ pre ++ bytes <+: p'.buffer := by
  obtain ⟨q, hq, hat, hlen⟩ := ensure_at h needed hle
  obtain ⟨p', hp', hput⟩ := put_at hat bytes (by omega)
  exact ⟨p', by rw [write, hq]; exact hp', hput⟩

theorem append_at (h : p.At pre) (needed : ℕ) (bytes : List UInt8) (nul : Bool)
    (hle : pre.length + needed ≤ 2 ^ 30) (hfits : bytes.length + (if nul then 1 else 0) ≤ needed) :
    ∃ p', p.append needed bytes nul = .ok p' ∧ p'.At (pre ++ bytes) := by
  have hbytes : (if nul then bytes ++ [0] else bytes).length ≤ needed := by
    cases nul
    · exact hfits
    · rwa [if_pos rfl, List.length_append]
  obtain ⟨q, hq, hoffset, hbuffer⟩ := write_at h needed _ hle hbytes
  refine ⟨{ q with offset := q.offset + bytes.length }, by rw [append, hq]; rfl, ?_, ?_⟩
  · rw [hoffset, List.length_append]
  · refine List.IsPrefix.trans ?_ hbuffer
    cases nul
    · exact List.prefix_rfl
    · rw [if_pos rfl, ← List.append_assoc]
      exact List.prefix_append _ _

theorem findIdx_nul {l : List UInt8} (hl : 0 ∉ l) (rest : List UInt8) :
    (l ++ 0 :: rest).findIdx? (· = 0) = some l.length := by
  induction l with
  | nil => rfl
  | cons b l ih =>
      rw [List.mem_cons, not_or] at hl
      rw [List.cons_append, List.findIdx?_cons, if_neg (by simpa using Ne.symm hl.1), ih hl.2]
      rfl

theorem update_done (h : p.Done pre t) (ht : 0 ∉ t) :
    ∃ p', p.update = .ok p' ∧ p'.At (pre ++ t) := by
  obtain ⟨hge, hle, rest, hrest⟩ := h
  obtain ⟨k, hk⟩ := Nat.exists_eq_add_of_le hge
  rw [List.length_append] at hle
  have hdrop : p.buffer.drop p.offset = t.drop k ++ 0 :: rest := by
    rw [← hrest, hk, List.append_assoc, List.drop_length_add_append, List.append_assoc,
      List.drop_append_of_le_length (by omega)]
    rfl
  have hfind := findIdx_nul (fun h ↦ ht (List.mem_of_mem_drop h) : 0 ∉ t.drop k) rest
  refine ⟨{ p with offset := p.offset + (t.drop k).length }, ?_, ?_, ?_⟩
  · rw [update, hdrop, hfind]
  · show p.offset + _ = _
    rw [List.length_drop, List.length_append]
    omega
  · exact ⟨0 :: rest, by rw [← hrest]; simp⟩

/-- The end of a text is written behind the rest of it. -/
theorem done_of_write {q : PrintBuffer} {w e : List UInt8}
    (hoffset : q.offset = (pre ++ w).length) (hbuffer : pre ++ w ++ (e ++ [0]) <+: q.buffer) :
    q.Done pre (w ++ e) := by
  refine ⟨?_, ?_, ?_⟩
  · rw [hoffset, List.length_append]
    omega
  · rw [hoffset, List.length_append, List.length_append, List.length_append]
    omega
  · simpa only [List.append_assoc] using hbuffer

end PrintBuffer

open PrintBuffer

variable {p : PrintBuffer} {pre t : List UInt8}

theorem emit_at (h : p.At pre) {needed : ℕ} (hle : pre.length + needed ≤ 2 ^ 30)
    (hfits : t.length < needed) :
    ∃ p', emit p needed t = .ok (p', pre.length) ∧ p'.Done pre t := by
  obtain ⟨q, hq, hoffset, hbuffer⟩ := write_at h needed (t ++ [0]) hle
    (by rw [List.length_append]; exact hfits)
  refine ⟨q, ?_, done_of_write (w := []) (by rwa [List.append_nil]) (by rwa [List.append_nil])⟩
  rw [emit, hq, ← hoffset]
  rfl

theorem fillBlock_inv {size : ℕ} {out : List UInt8} (h : fillBlock size out = .ok t) :
    out = t ∧ t.length < size := by
  rw [fillBlock] at h
  split at h
  · cases h
  · next hsize =>
    cases h
    exact ⟨rfl, not_lt.mp hsize⟩

theorem emitStringPtr_at {string : Option (List UInt8)} (h : p.At pre)
    (ht : printStringPtr string = .ok t) (hle : pre.length + t.length + 64 ≤ 2 ^ 30) :
    ∃ p', emitStringPtr p string = .ok (p', pre.length) ∧ p'.Done pre t := by
  cases string with
  | none => cases ht
  | some s =>
      have hlen := stringText_length s
      rw [printStringPtr_eq] at ht
      cases ht
      exact emit_at h (by omega) (by omega)

/-- The text is written; at the outermost level the pointer that is returned is its place. -/
def Emits (depth : ℕ) (pre t : List UInt8) (r : Except PrintError (PrintBuffer × ℕ)) : Prop :=
  ∃ p' out, r = .ok (p', out) ∧ p'.Done pre t ∧ (pre = [] → depth = 0 → out = 0)

theorem emits_of_emit {depth needed : ℕ} (h : p.At pre) (hle : pre.length + needed ≤ 2 ^ 30)
    (hfits : t.length < needed) : Emits depth pre t (emit p needed t) := by
  obtain ⟨p', hp', hdone⟩ := emit_at h hle hfits
  exact ⟨p', _, hp', hdone, fun hnil _ ↦ by rw [hnil]; rfl⟩

theorem bind_ok {ε α β : Type} {x : Except ε α} {f : α → Except ε β} {b : β}
    (h : x >>= f = .ok b) : ∃ a, x = .ok a ∧ f a = .ok b := by
  cases x with
  | error e => cases h
  | ok a => exact ⟨a, rfl, h⟩

theorem bind_of_ok {ε α β : Type} {x : Except ε α} {f : α → Except ε β} {a : α} {b : β}
    (hx : x = .ok a) (hf : f a = .ok b) : x >>= f = .ok b := by
  rw [hx]
  exact hf

variable {c : CJson D} {child : List (CJson D)} {depth : ℕ} {fmt : Bool}

/-- What the loop of `print_array` has written. -/
def EmitsEntries (child : List (CJson D)) (depth : ℕ) (fmt : Bool) : Prop :=
  ∀ (p : PrintBuffer) (pre : List UInt8) (ts : List (List UInt8)), p.At pre →
    printEntries child depth fmt = .ok ts → 0 ∉ composeArray fmt ts →
    pre.length + (composeArray fmt ts).length + 64 ≤ 2 ^ 30 →
    ∃ p', emitEntries child depth fmt p = .ok p' ∧ p'.At (pre ++ composeArray fmt ts)

def EmitsMembers (child : List (CJson D)) (depth : ℕ) (fmt : Bool) : Prop :=
  ∀ (p : PrintBuffer) (pre : List UInt8) (ts : List (List UInt8 × List UInt8)), p.At pre →
    printMembers child depth fmt = .ok ts → 0 ∉ composeObject fmt depth ts →
    pre.length + (composeObject fmt depth ts).length + 64 ≤ 2 ^ 30 →
    ∃ p', emitMembers child depth fmt p = .ok p' ∧ p'.At (pre ++ composeObject fmt depth ts)

def EmitsValue (item : CJson D) (depth : ℕ) (fmt : Bool) : Prop :=
  ∀ (p : PrintBuffer) (pre t : List UInt8), p.At pre → printValue item depth fmt = .ok t → 0 ∉ t →
    pre.length + t.length + 64 ≤ 2 ^ 30 → Emits depth pre t (emitValue item depth fmt p)

theorem printEntries_length {ts : List (List UInt8)} (h : printEntries child depth fmt = .ok ts) :
    ts.length = child.length := by
  induction child generalizing ts with
  | nil =>
      cases h
      rfl
  | cons c child ih =>
      rw [printEntries] at h
      obtain ⟨t, -, h⟩ := bind_ok h
      obtain ⟨ts', hts', h⟩ := bind_ok h
      cases h
      exact congrArg Nat.succ (ih hts')

theorem printMembers_length {ts : List (List UInt8 × List UInt8)}
    (h : printMembers child depth fmt = .ok ts) : ts.length = child.length := by
  induction child generalizing ts with
  | nil =>
      cases h
      rfl
  | cons c child ih =>
      rw [printMembers] at h
      obtain ⟨str, -, h⟩ := bind_ok h
      obtain ⟨t, -, h⟩ := bind_ok h
      obtain ⟨ts', hts', h⟩ := bind_ok h
      cases h
      exact congrArg Nat.succ (ih hts')

theorem emits_entries_cons (hc : EmitsValue c depth fmt) (h : EmitsEntries child depth fmt) :
    EmitsEntries (c :: child) depth fmt := by
  intro p pre ts hat hprint hnul hle
  rw [printEntries] at hprint
  obtain ⟨t, ht, hprint⟩ := bind_ok hprint
  obtain ⟨ts', hts', hprint⟩ := bind_ok hprint
  cases hprint
  have hlen := printEntries_length hts'
  rw [emitEntries]
  cases child with
  | nil =>
      obtain rfl := List.eq_nil_of_length_eq_zero hlen
      rw [composeArray] at hnul hle ⊢
      obtain ⟨q, out, hq, hdone, -⟩ := hc p pre t hat ht hnul hle
      obtain ⟨q', hq', hat'⟩ := update_done hdone hnul
      exact ⟨q', bind_of_ok hq (bind_of_ok hq' rfl), hat'⟩
  | cons c' child =>
      obtain ⟨t', ts', rfl⟩ := List.exists_cons_of_length_eq_add_one hlen
      rw [composeArray_cons] at hnul hle ⊢
      rw [List.mem_append, List.mem_append, not_or, not_or] at hnul
      rw [List.length_append, List.length_append] at hle
      have hsep : (byte ',' :: if fmt then [byte ' '] else []).length = if fmt then 2 else 1 := by
        cases fmt <;> rfl
      have hsmall : (if fmt then 2 else 1) ≤ 2 := by
        cases fmt <;> decide
      obtain ⟨q, out, hq, hdone, -⟩ := hc p pre t hat ht hnul.1 (by omega)
      obtain ⟨q₁, hq₁, hat₁⟩ := update_done hdone hnul.1
      obtain ⟨q₂, hq₂, hat₂⟩ := append_at hat₁ ((if fmt then 2 else 1) + 1)
        (byte ',' :: if fmt then [byte ' '] else []) true (by rw [List.length_append]; omega)
        (by rw [hsep]; rfl)
      obtain ⟨q₃, hq₃, hat₃⟩ := h q₂ _ _ hat₂ hts' hnul.2.2
        (by rw [List.length_append, List.length_append]; omega)
      refine ⟨q₃, bind_of_ok hq (bind_of_ok hq₁ (bind_of_ok hq₂ hq₃)), ?_⟩
      rw [List.append_assoc, List.append_assoc] at hat₃
      exact hat₃

theorem emits_members_cons (hc : EmitsValue c depth fmt) (h : EmitsMembers child depth fmt) :
    EmitsMembers (c :: child) depth fmt := by
  intro p pre ts hat hprint hnul hle
  rw [printMembers] at hprint
  obtain ⟨name, hname, hprint⟩ := bind_ok hprint
  obtain ⟨t, ht, hprint⟩ := bind_ok hprint
  obtain ⟨ts', hts', hprint⟩ := bind_ok hprint
  cases hprint
  have hlen := printMembers_length hts'
  have hempty : ts'.isEmpty = child.isEmpty := by
    rw [Bool.eq_iff_iff, List.isEmpty_iff_length_eq_zero, List.isEmpty_iff_length_eq_zero, hlen]
  rw [composeObject, hempty] at hnul hle ⊢
  simp only [List.mem_append, not_or, List.length_append] at hnul hle
  obtain ⟨⟨⟨⟨⟨⟨-, hname'⟩, -⟩, ht'⟩, -⟩, -⟩, hts''⟩ := hnul
  have hsep : (byte ':' :: if fmt then [byte '\t'] else []).length = if fmt then 2 else 1 := by
    cases fmt <;> rfl
  have hend : ((if child.isEmpty then [] else [byte ',']) ++ newline fmt).length =
      (if fmt then 1 else 0) + if child.isEmpty then 0 else 1 := by
    cases fmt <;> cases child.isEmpty <;> rfl
  have hnewline : newline fmt = if fmt then [byte '\n'] else [] := rfl
  rw [← hnewline] at hle
  rw [List.length_append] at hend
  have hindent : ∃ q, p.indent depth fmt = .ok q ∧
      q.At (pre ++ if fmt then tabs depth else []) := by
    cases fmt
    · exact ⟨p, rfl, by rwa [if_neg Bool.false_ne_true, List.append_nil]⟩
    · simp only [if_true, tabs, List.length_replicate] at hle
      refine append_at hat depth (tabs depth) false (by omega) ?_
      rw [tabs, List.length_replicate]
      exact le_rfl
  obtain ⟨q, hq, hat⟩ := hindent
  obtain ⟨q₁, hq₁, hdone⟩ := emitStringPtr_at hat hname (by rw [List.length_append]; omega)
  obtain ⟨q₂, hq₂, hat⟩ := update_done hdone hname'
  obtain ⟨q₃, hq₃, hat⟩ := append_at hat (if fmt then 2 else 1)
    (byte ':' :: if fmt then [byte '\t'] else []) false
    (by simp only [List.length_append]; omega) hsep.le
  obtain ⟨q₄, out, hq₄, hdone, -⟩ := hc q₃ _ t hat ht ht' (by simp only [List.length_append]; omega)
  obtain ⟨q₅, hq₅, hat⟩ := update_done hdone ht'
  obtain ⟨q₆, hq₆, hat⟩ := append_at hat
    ((if fmt then 1 else 0) + (if child.isEmpty then 0 else 1) + 1)
    ((if child.isEmpty then [] else [byte ',']) ++ newline fmt) true
    (by simp only [List.length_append]; omega) (by rw [List.length_append, hend]; rfl)
  obtain ⟨q₇, hq₇, hat⟩ := h q₆ _ _ hat hts' hts'' (by simp only [List.length_append]; omega)
  rw [emitMembers]
  refine ⟨q₇, bind_of_ok hq (bind_of_ok hq₁ (bind_of_ok hq₂ (bind_of_ok hq₃ (bind_of_ok hq₄
    (bind_of_ok hq₅ (bind_of_ok hq₆ hq₇)))))), ?_⟩
  simp only [List.append_assoc, hnewline] at hat ⊢
  exact hat

theorem numberText_size (item : CJson D) : (numberText item).1 ≤ 64 := by
  rw [numberText]
  split_ifs <;> simp

theorem emits_array (h : EmitsEntries child (depth + 1) fmt) (valuestring : Option (List UInt8))
    (valueint : Int32) (valuedouble : D) (string : Option (List UInt8)) :
    EmitsValue ⟨.array, valuestring, valueint, valuedouble, string, child⟩ depth fmt := by
  intro p pre t hat hprint hnul hle
  rw [printValue] at hprint
  cases child with
  | nil =>
      rw [if_pos List.isEmpty_nil] at hprint
      obtain ⟨rfl, hfits⟩ := fillBlock_inv hprint
      exact emits_of_emit hat (by omega) hfits
  | cons c child =>
      rw [if_neg (by simp)] at hprint
      obtain ⟨ts, hts, hprint⟩ := bind_ok hprint
      obtain ⟨rfl, -⟩ := fillBlock_inv hprint
      rw [List.mem_cons, List.mem_append, not_or, not_or] at hnul
      rw [List.length_cons, List.length_append, List.length_singleton] at hle
      obtain ⟨q, hq, hat₁⟩ := append_at hat 1 [byte '['] false (by omega) le_rfl
      obtain ⟨q₁, hq₁, hat₂⟩ := h q _ ts hat₁ hts hnul.2.1
        (by rw [List.length_append, List.length_singleton]; omega)
      obtain ⟨q₂, hq₂, hoffset, hbuffer⟩ := write_at hat₂ 2 [byte ']', 0]
        (by simp only [List.length_append, List.length_singleton]; omega) le_rfl
      rw [emitValue, if_neg (by simp)]
      refine ⟨q₂, p.offset, bind_of_ok hq (bind_of_ok hq₁ (bind_of_ok hq₂ rfl)), ?_, ?_⟩
      · rw [List.append_assoc pre] at hoffset hbuffer
        exact done_of_write (w := byte '[' :: composeArray fmt ts) (e := [byte ']']) hoffset hbuffer
      · intro hnil _
        rw [hat.1, hnil]
        rfl

theorem emits_object (h : EmitsMembers child (depth + 1) fmt) (valuestring : Option (List UInt8))
    (valueint : Int32) (valuedouble : D) (string : Option (List UInt8)) :
    EmitsValue ⟨.object, valuestring, valueint, valuedouble, string, child⟩ depth fmt := by
  intro p pre t hat hprint hnul hle
  rw [printValue] at hprint
  cases child with
  | nil =>
      rw [if_pos List.isEmpty_nil] at hprint
      obtain ⟨rfl, hfits⟩ := fillBlock_inv hprint
      refine emits_of_emit hat ?_ hfits
      cases fmt
      · rw [if_neg Bool.false_ne_true]
        omega
      · simp only [if_true, List.length_cons, List.length_append, tabs, List.length_replicate]
          at hle ⊢
        omega
  | cons c child =>
      have hne : ¬(c :: child).isEmpty = true := by simp
      rw [if_neg hne] at hprint
      obtain ⟨ts, hts, hprint⟩ := bind_ok hprint
      obtain ⟨rfl, -⟩ := fillBlock_inv hprint
      have hbegin : (byte '{' :: newline fmt).length = if fmt then 2 else 1 := by
        cases fmt <;> rfl
      have hend : ((if fmt then tabs depth else []) ++ [byte '}', 0]).length ≤
          if fmt then depth + 1 + 1 else 2 := by
        cases fmt
        · exact le_rfl
        · simp [tabs]
      have htext : byte '{' :: ((if fmt then [byte '\n'] else []) ++
          composeObject fmt (depth + 1) ts ++ (if fmt then tabs depth else []) ++ [byte '}']) =
          (byte '{' :: newline fmt) ++ (composeObject fmt (depth + 1) ts ++
            ((if fmt then tabs depth else []) ++ [byte '}'])) := by
        simp only [newline, List.cons_append, List.append_assoc]
      rw [htext] at hnul hle ⊢
      simp only [List.mem_append, not_or, List.length_append, hbegin, List.length_singleton]
        at hnul hle
      have hindent : (if fmt then depth + 1 + 1 else 2) ≤
          (if fmt then tabs depth else []).length + 2 := by
        cases fmt
        · exact le_rfl
        · simp [tabs]
      obtain ⟨q, hq, hat₁⟩ := append_at hat ((if fmt then 2 else 1) + 1)
        (byte '{' :: newline fmt) true (by split <;> omega) (by rw [hbegin]; rfl)
      obtain ⟨q₁, hq₁, hat₂⟩ := h q _ ts hat₁ hts hnul.2.1
        (by rw [List.length_append, hbegin]; omega)
      obtain ⟨q₂, hq₂, hoffset, hbuffer⟩ := write_at hat₂ (if fmt then depth + 1 + 1 else 2)
        ((if fmt then tabs depth else []) ++ [byte '}', 0])
        (by simp only [List.length_append, hbegin]; omega) hend
      rw [emitValue, if_neg hne]
      refine ⟨q₂, if fmt then depth else p.offset,
        bind_of_ok hq (bind_of_ok hq₁ (bind_of_ok hq₂ rfl)), ?_, ?_⟩
      · rw [List.append_assoc pre] at hoffset hbuffer
        rw [← List.append_assoc (byte '{' :: newline fmt)]
        refine done_of_write hoffset ?_
        rwa [List.append_assoc (if fmt then tabs depth else [])]
      · intro hnil hdepth
        rw [hdepth, hat.1, hnil]
        cases fmt <;> rfl

mutual

theorem emits_value : ∀ (item : CJson D) (depth : ℕ) (fmt : Bool), EmitsValue item depth fmt
  | ⟨type, valuestring, valueint, valuedouble, name, child⟩, depth, fmt => by
    cases type with
    | null | false | true =>
        intro p pre t hat hprint _ hle
        cases hprint
        exact emits_of_emit hat (by omega) (by decide)
    | number =>
        intro p pre t hat hprint _ hle
        obtain ⟨rfl, hfits⟩ := fillBlock_inv hprint
        have hsize := numberText_size ⟨.number, valuestring, valueint, valuedouble, name, child⟩
        exact emits_of_emit hat (by omega) hfits
    | string =>
        intro p pre t hat hprint _ hle
        obtain ⟨p', hp', hdone⟩ := emitStringPtr_at hat hprint hle
        exact ⟨p', _, hp', hdone, fun hnil _ ↦ by rw [hnil]; rfl⟩
    | array =>
        exact emits_array (emits_entries child (depth + 1) fmt) valuestring valueint valuedouble
          name
    | object =>
        exact emits_object (emits_members child (depth + 1) fmt) valuestring valueint valuedouble
          name

theorem emits_entries : ∀ (child : List (CJson D)) (depth : ℕ) (fmt : Bool),
    EmitsEntries child depth fmt
  | [], _, _ => fun p pre ts hat hprint _ _ ↦ by
    cases hprint
    exact ⟨p, rfl, by rwa [composeArray, List.append_nil]⟩
  | c :: child, depth, fmt =>
    emits_entries_cons (emits_value c depth fmt) (emits_entries child depth fmt)

theorem emits_members : ∀ (child : List (CJson D)) (depth : ℕ) (fmt : Bool),
    EmitsMembers child depth fmt
  | [], _, _ => fun p pre ts hat hprint _ _ ↦ by
    cases hprint
    exact ⟨p, rfl, by rwa [composeObject, List.append_nil]⟩
  | c :: child, depth, fmt =>
    emits_members_cons (emits_value c depth fmt) (emits_members child depth fmt)

end

/-- The buffered printer returns the text that the other printer returns, for every size of the
first buffer and whatever memory holds, and it stays in its buffers. -/
theorem cJsonPrintBuffered_eq (item : CJson D) (fmt : Bool) {t : List UInt8}
    (hprint : printValue item 0 fmt = .ok t) (hnul : 0 ∉ t) (hle : t.length + 64 ≤ 2 ^ 30)
    (prebuffer : ℕ) (fill : ℕ → UInt8) : cJsonPrintBuffered item prebuffer fmt fill = .ok t := by
  obtain ⟨p', out, hp', ⟨-, -, rest, hrest⟩, hout⟩ := emits_value item 0 fmt
    ⟨(List.range prebuffer).map fill, 0, fun i ↦ fill (prebuffer + i)⟩ [] t
    ⟨rfl, List.nil_prefix⟩ hprint hnul (by rw [List.length_nil]; omega)
  have htext : p'.buffer.drop out = t ++ 0 :: rest := by
    rw [hout rfl rfl, List.drop_zero, ← hrest]
    simp
  have hne : ∀ b ∈ t, decide (b ≠ 0) = true := by
    intro b hb
    rw [decide_eq_true_eq]
    rintro rfl
    exact hnul hb
  refine bind_of_ok hp' ?_
  rw [htext, if_pos (List.mem_append_right t List.mem_cons_self), List.takeWhile_append_of_pos hne]
  simp

/-- A buffer of one byte grows to 8, 16 and 32. -/
theorem cJsonPrintBuffered_nested :
    cJsonPrintBuffered (⟨.array, none, 0, 0, none, [⟨.true, none, 0, 0, none, []⟩,
        ⟨.object, none, 0, 0, none, [⟨.string, some [byte '"', 1], 0, 0, some [byte 'k'], []⟩]⟩]⟩ :
          CJson ℚ) 1 true (fun _ ↦ 85) =
      .ok (['[', 't', 'r', 'u', 'e', ',', ' ', '{', '\n', '\t', '\t', '"', 'k', '"', ':', '\t', '"',
        '\\', '"', '\\', 'u', '0', '0', '0', '1', '"', '\n', '\t', '}', ']'].map byte) :=
  cJsonPrintBuffered_eq _ true rfl (by decide) (by decide) 1 _

end OsaBase
