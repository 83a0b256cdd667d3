import Mathlib.Algebra.BigOperators.Group.List.Basic
import Mathlib.Algebra.Ring.Nat
import Mathlib.Data.List.Induction
import Mathlib.Order.Bounds.Basic
import OsaBase.Osa

/-!
# The profiling statistics of `osa_prf.c`

A handle is reset once and then measures pairs of `OSA_prfBegin` and `OSA_prfEnd`. The readings of
`OSA_getCurTimeInMsec` are arbitrary. `OSA_prfReset` stores zero in both minima, no later reading is
below it, and the comparison for `minValue` reads `minTime`: the minima stay zero whatever is
measured.
-/

namespace OsaBase

structure PrfHndl where
  totalTime : UInt32
  maxTime : UInt32
  minTime : UInt32
  totalValue : UInt32
  maxValue : UInt32
  minValue : UInt32
  count : UInt32
  curTime : UInt32
  deriving DecidableEq, Repr

def osaPrfBegin (hndl : PrfHndl) (clock : UInt32) : PrfHndl × ℤ :=
  ({ hndl with curTime := clock }, osaSok)

def osaPrfEnd (hndl : PrfHndl) (clock value : UInt32) : PrfHndl × ℤ :=
  let curTime := clock - hndl.curTime
  let minTime := if curTime < hndl.minTime then curTime else hndl.minTime
  ({ totalTime := hndl.totalTime + curTime
     maxTime := if curTime > hndl.maxTime then curTime else hndl.maxTime
     minTime := minTime
     totalValue := hndl.totalValue + value
     maxValue := if value > hndl.maxValue then value else hndl.maxValue
     -- the source compares the value with `minTime`
     minValue := if value < minTime then value else hndl.minValue
     count := hndl.count + 1
     curTime := curTime }, osaSok)

/-- `curTime` keeps what it held. -/
def osaPrfReset (hndl : PrfHndl) : PrfHndl × ℤ :=
  ({ hndl with
      count := 0
      totalTime := 0
      maxTime := 0
      maxValue := 0
      minTime := 0
      minValue := 0
      totalValue := 0 }, osaSok)

/-- One pair of calls: the clock at its two ends and the value handed to `OSA_prfEnd`. -/
structure PrfSample where
  start : UInt32
  stop : UInt32
  value : UInt32
  deriving DecidableEq, Repr

def PrfSample.interval (x : PrfSample) : UInt32 := x.stop - x.start

def PrfHndl.measure (hndl : PrfHndl) (x : PrfSample) : PrfHndl :=
  (osaPrfEnd (osaPrfBegin hndl x.start).1 x.stop x.value).1

/-- The pairs in order, after a reset of any handle. -/
def PrfHndl.profile (hndl : PrfHndl) (samples : List PrfSample) : PrfHndl :=
  samples.foldl PrfHndl.measure (osaPrfReset hndl).1

def intervals (samples : List PrfSample) : List UInt32 := samples.map PrfSample.interval

def values (samples : List PrfSample) : List UInt32 := samples.map PrfSample.value

/-- The handle holds the statistics of the samples. -/
structure PrfHndl.Describes (hndl : PrfHndl) (samples : List PrfSample) : Prop where
  count : hndl.count.toNat = samples.length
  totalTime : hndl.totalTime.toNat = uint32 ((intervals samples).map UInt32.toNat).sum
  minTime : IsLeast {t | t ∈ intervals samples} hndl.minTime
  maxTime : IsGreatest {t | t ∈ intervals samples} hndl.maxTime
  totalValue : hndl.totalValue.toNat = uint32 ((values samples).map UInt32.toNat).sum
  minValue : IsLeast {v | v ∈ values samples} hndl.minValue
  maxValue : IsGreatest {v | v ∈ values samples} hndl.maxValue

/-! ### One statistic -/

/-- A maximum that starts at zero. -/
def Tops (m : UInt32) (xs : List UInt32) : Prop := IsGreatest {x | x = 0 ∨ x ∈ xs} m

def Totals (n : UInt32) (xs : List UInt32) : Prop := n.toNat = uint32 (xs.map UInt32.toNat).sum

theorem tops_nil : Tops 0 [] := by
  constructor
  · exact Or.inl rfl
  · rintro x (rfl | hx)
    · exact UInt32.le_refl 0
    · cases hx

theorem Tops.append {m : UInt32} {xs : List UInt32} (h : Tops m xs) (x : UInt32) :
    Tops (if x > m then x else m) (xs ++ [x]) := by
  obtain ⟨hmem, hupper⟩ := h
  have hle : ∀ y, (y = 0 ∨ y ∈ xs ++ [x]) → y ≤ m ∨ y = x := by
    rintro y (hy | hy)
    · exact Or.inl (hupper (Or.inl hy))
    · rcases List.mem_append.mp hy with hy | hy
      · exact Or.inl (hupper (Or.inr hy))
      · exact Or.inr (List.mem_singleton.mp hy)
  by_cases hx : x > m
  · rw [if_pos hx]
    refine ⟨Or.inr (by simp), fun y hy ↦ ?_⟩
    rcases hle y hy with hy | rfl
    · exact UInt32.le_of_lt (UInt32.lt_of_le_of_lt hy hx)
    · exact UInt32.le_refl _
  · rw [if_neg hx]
    refine ⟨hmem.imp_right fun hm ↦ List.mem_append_left _ hm, fun y hy ↦ ?_⟩
    rcases hle y hy with hy | rfl
    · exact hy
    · exact UInt32.not_lt.mp hx

/-- With something measured, zero is the maximum only where zero was measured. -/
theorem Tops.isGreatest {m : UInt32} {xs : List UInt32} (h : Tops m xs) (hxs : xs ≠ []) :
    IsGreatest {x | x ∈ xs} m := by
  obtain ⟨hmem, hupper⟩ := h
  refine ⟨?_, fun x hx ↦ hupper (Or.inr hx)⟩
  rcases hmem with rfl | hm
  · obtain ⟨x, hx⟩ := List.exists_mem_of_ne_nil xs hxs
    have hzero : x = 0 := by
      have := UInt32.le_iff_toNat_le.mp (hupper (Or.inr hx))
      exact UInt32.toNat_inj.mp (by simpa using this)
    exact hzero ▸ hx
  · exact hm

theorem totals_nil : Totals 0 [] := rfl

theorem Totals.append {n : UInt32} {xs : List UInt32} (h : Totals n xs) (x : UInt32) :
    Totals (n + x) (xs ++ [x]) := by
  rw [Totals, UInt32.toNat_add, h]
  simp only [uint32, List.map_append, List.map_cons, List.map_nil, List.sum_append,
    List.sum_singleton]
  omega

/-! ### What a profile holds -/

/-- The handle after the samples, the minima included. -/
structure PrfHndl.Holds (hndl : PrfHndl) (samples : List PrfSample) : Prop where
  count : hndl.count.toNat = uint32 samples.length
  totalTime : Totals hndl.totalTime (intervals samples)
  minTime : hndl.minTime = 0
  maxTime : Tops hndl.maxTime (intervals samples)
  totalValue : Totals hndl.totalValue (values samples)
  minValue : hndl.minValue = 0
  maxValue : Tops hndl.maxValue (values samples)

theorem osaPrfReset_holds (hndl : PrfHndl) : (osaPrfReset hndl).1.Holds [] :=
  ⟨rfl, totals_nil, rfl, tops_nil, totals_nil, rfl, tops_nil⟩

theorem PrfHndl.Holds.measure {hndl : PrfHndl} {samples : List PrfSample}
    (h : hndl.Holds samples) (x : PrfSample) : (hndl.measure x).Holds (samples ++ [x]) where
  count := by
    have hcount : (hndl.measure x).count = hndl.count + 1 := rfl
    rw [hcount, UInt32.toNat_add, h.count]
    simp [uint32]
  totalTime := by
    rw [intervals, List.map_append]
    exact h.totalTime.append x.interval
  minTime := by
    simp [PrfHndl.measure, osaPrfEnd, osaPrfBegin, h.minTime]
  maxTime := by
    rw [intervals, List.map_append]
    exact h.maxTime.append x.interval
  totalValue := by
    rw [values, List.map_append]
    exact h.totalValue.append x.value
  minValue := by
    simp [PrfHndl.measure, osaPrfEnd, osaPrfBegin, h.minTime, h.minValue]
  maxValue := by
    rw [values, List.map_append]
    exact h.maxValue.append x.value

theorem PrfHndl.profile_holds (hndl : PrfHndl) (samples : List PrfSample) :
    (hndl.profile samples).Holds samples := by
  induction samples using List.reverseRecOn with
  | nil => exact osaPrfReset_holds hndl
  | append_singleton samples x ih =>
      rw [PrfHndl.profile, List.foldl_append]
      exact ih.measure x

theorem isLeast_zero_iff {xs : List UInt32} : IsLeast {x | x ∈ xs} 0 ↔ 0 ∈ xs :=
  ⟨fun h ↦ h.1, fun h ↦ ⟨h, fun x _ ↦ UInt32.not_lt.mp (by simp)⟩⟩

/-- The statistics are right exactly when an interval and a value are zero, which the minima always
claim, and `count` has not wrapped. -/
theorem profile_describes_iff (hndl : PrfHndl) (samples : List PrfSample) :
    (hndl.profile samples).Describes samples ↔
      (∃ x ∈ samples, x.interval = 0) ∧ (∃ x ∈ samples, x.value = 0) ∧
        samples.length < 2 ^ 32 := by
  have h := hndl.profile_holds samples
  constructor
  · intro hd
    have htime := hd.minTime
    have hvalue := hd.minValue
    rw [h.minTime, isLeast_zero_iff] at htime
    rw [h.minValue, isLeast_zero_iff] at hvalue
    exact ⟨List.mem_map.mp htime, List.mem_map.mp hvalue, hd.count ▸ UInt32.toNat_lt _⟩
  · rintro ⟨htime, hvalue, hlen⟩
    have htime : 0 ∈ intervals samples := List.mem_map.mpr htime
    have hvalue : 0 ∈ values samples := List.mem_map.mpr hvalue
    exact
      { count := h.count.trans (uint32_of_lt hlen)
        totalTime := h.totalTime
        minTime := by rwa [h.minTime, isLeast_zero_iff]
        maxTime := h.maxTime.isGreatest (List.ne_nil_of_mem htime)
        totalValue := h.totalValue
        minValue := by rwa [h.minValue, isLeast_zero_iff]
        maxValue := h.maxValue.isGreatest (List.ne_nil_of_mem hvalue) }

/-- One interval of five milliseconds with the value three: both minima are reported as zero. -/
theorem profile_minima_zero :
    ¬(PrfHndl.profile ⟨0, 0, 0, 0, 0, 0, 0, 0⟩ [⟨100, 105, 3⟩]).Describes [⟨100, 105, 3⟩] := by
  intro h
  have hmin : (0 : UInt32) ∈ intervals [⟨100, 105, 3⟩] := h.minTime.1
  exact absurd hmin (by decide)

end OsaBase
