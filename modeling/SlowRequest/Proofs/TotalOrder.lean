import Mathlib
import SlowRequest.TotalOrder
/-!
# The total order of doubles

Without the sign, the bits of a double are its exponent and its mantissa, the exponent first, so
they grow with the number. The key of the total order therefore keeps the order of numbers, and two
doubles of one key are the same.
-/
namespace SlowRequest
namespace TotalOrder

open Float.Model Float.Model.UnpackedFloat

/-- A double of this sign reads so, if its bits without the sign are `m`. -/
inductive Reads (s : Sign) (m : Nat) : UnpackedFloat → Prop where
  | zero : m = 0 → Reads s m (.zero s)
  | finite (mantissa : Nat) (exponent : Int) (hpos : 0 < mantissa) :
      mantissa < 2 ^ 53 → 2 ^ 52 ≤ mantissa ∨ exponent = -1074 →
      -1074 ≤ exponent → exponent ≤ 971 →
      m = (exponent + 1074) * 2 ^ 52 + mantissa → Reads s m (.finite s mantissa exponent hpos)
  | infinity : m = 2047 * 2 ^ 52 → Reads s m (.infinity s)
  | notANumber : 2047 * 2 ^ 52 < m → Reads s m .notANumber

def key : Sign → Nat → Int
  | .positive, m => m
  | .negative, m => -1 - m

section Bits

variable (b : BitVec 64)

private theorem toNat_unpackMantissa :
    (@unpackMantissa .binary64 b).toNat = b.toNat % 2 ^ 52 := by
  simp [unpackMantissa, BitVec.extractLsb_toNat]

private theorem toNat_unpackExponent :
    (@unpackExponent .binary64 b).toNat = b.toNat / 2 ^ 52 % 2 ^ 11 := by
  simp [unpackExponent, BitVec.extractLsb_toNat, Nat.shiftRight_eq_div_pow]

private theorem ofBitVec_unpackSign :
    Sign.ofBitVec (@unpackSign .binary64 b) =
      if b.toNat < Word.signBit then .positive else .negative := by
  have hlt : b.toNat < 2 ^ 64 := b.isLt
  have hzero : @unpackSign .binary64 b = 0#1 ↔ b.toNat < Word.signBit := by
    rw [← BitVec.toNat_inj, Word.signBit]
    simp only [unpackSign, BitVec.toNat_cast, BitVec.extractLsb_toNat, Nat.shiftRight_eq_div_pow,
      BitVec.toNat_zero]
    omega
  simp only [Sign.ofBitVec, hzero]

private theorem toNat_implicit (m : BitVec 52) : (1#1 ++ m).toNat = 2 ^ 52 + m.toNat := by
  rw [BitVec.toNat_append, ← Nat.shiftLeft_add_eq_or_of_lt m.isLt]
  rfl

private theorem reads_unpack :
    Reads (Sign.ofBitVec (@unpackSign .binary64 b)) (b.toNat % 2 ^ 63)
      (UnpackedFloat.unpack .binary64 b) := by
  have hmantissa := toNat_unpackMantissa b
  have hexponent := toNat_unpackExponent b
  have himplicit := toNat_implicit (@unpackMantissa .binary64 b)
  have hones : (-1#11).toNat = 2047 := rfl
  have hbias : (Format.binary64.exponentBias : Int) = 1023 := rfl
  have hwidth : (Format.binary64.mantissaBitsWithoutImplicit : Int) = 52 := rfl
  rw [UnpackedFloat.unpack]
  simp only [← BitVec.toNat_inj, hones, BitVec.toNat_zero, hmantissa, hexponent]
  split_ifs with hmax hm hmin hm
  · apply Reads.infinity
    omega
  · apply Reads.notANumber
    omega
  · apply Reads.zero
    omega
  · apply Reads.finite <;> omega
  · rw [hmantissa] at himplicit
    apply Reads.finite <;> omega

private theorem eq_packedNaN_of_unpack (hb : Format.binary64.Valid b)
    (h : UnpackedFloat.unpack .binary64 b = .notANumber) : b = packedNaN .binary64 := by
  rw [UnpackedFloat.unpack] at h
  simp only at h
  split_ifs at h with hmax hm
  exact hb.eq_packedNaN hmax hm

end Bits

/-- Of two finite doubles, the exponent decides and then the mantissa. -/
theorem compare_finite_eq_lt {m m' : Nat} {e e' : Int} :
    (compare e e').then (compare m m') = .lt ↔ e < e' ∨ e = e' ∧ m < m' := by
  rw [Ordering.then_eq_lt, Int.compare_eq_lt, Int.compare_eq_eq, Nat.compare_eq_lt]

def place : Sign → Nat → Int
  | .positive, m => m
  | .negative, m => -m

/-- Two doubles compare as their places do, unless one of them is a NaN. -/
theorem Reads.compare_eq_lt_iff {s s' : Sign} {m m' : Nat} {x y : UnpackedFloat}
    (hx : Reads s m x) (hy : Reads s' m' y) :
    x.compare y = some .lt ↔ x.isNaN = false ∧ y.isNaN = false ∧ place s m < place s' m' := by
  cases hx with
  | zero =>
    cases hy with
    | zero =>
      cases s <;> cases s' <;> simp [UnpackedFloat.compare, UnpackedFloat.isNaN, place, *]
    | finite =>
      cases s <;> cases s' <;>
        simp [UnpackedFloat.compare, UnpackedFloat.isNaN, place] <;> omega
    | infinity =>
      cases s <;> cases s' <;>
        simp [UnpackedFloat.compare, UnpackedFloat.isNaN, place] <;> omega
    | notANumber => simp [UnpackedFloat.compare, UnpackedFloat.isNaN]
  | finite =>
    cases hy with
    | zero =>
      cases s <;> cases s' <;>
        simp [UnpackedFloat.compare, UnpackedFloat.isNaN, place] <;> omega
    | finite =>
      cases s <;> cases s' <;>
        simp only [UnpackedFloat.compare, UnpackedFloat.isNaN, place, Option.some.injEq,
          reduceCtorEq, true_and, true_iff, false_iff]
      · rw [Ordering.swap_then, Int.compare_swap, Nat.compare_swap, compare_finite_eq_lt]
        omega
      · omega
      · omega
      · rw [compare_finite_eq_lt]
        omega
    | infinity =>
      cases s <;> cases s' <;>
        simp [UnpackedFloat.compare, UnpackedFloat.isNaN, place] <;> omega
    | notANumber => simp [UnpackedFloat.compare, UnpackedFloat.isNaN]
  | infinity =>
    cases hy with
    | zero | finite =>
      cases s <;> cases s' <;>
        simp [UnpackedFloat.compare, UnpackedFloat.isNaN, place] <;> omega
    | infinity =>
      cases s <;> cases s' <;>
        simp [UnpackedFloat.compare, UnpackedFloat.isNaN, place, compare] <;> omega
    | notANumber => simp [UnpackedFloat.compare, UnpackedFloat.isNaN]
  | notANumber => simp [UnpackedFloat.compare, UnpackedFloat.isNaN]

private theorem exists_reads (x : Float) :
    ∃ s m, Reads s m x.toModel.unpack ∧ totalOrderKey x = key s m := by
  refine ⟨_, _, reads_unpack x.toBits.toBitVec, ?_⟩
  have hlt : x.toBits.toNat < 2 ^ 64 := x.toBits.toBitVec.isLt
  rw [ofBitVec_unpackSign, totalOrderKey, bitsKey, UInt64.toNat_toBitVec]
  by_cases hsign : x.toBits.toNat < Word.signBit
  · simp only [hsign, if_true, key]
    rw [Word.signBit] at hsign
    omega
  · simp only [hsign, if_false, key]
    rw [Word.signBit] at hsign ⊢
    omega

theorem lt_iff_compare {x y : Float} :
    x < y ↔ x.toModel.unpack.compare y.toModel.unpack = some .lt :=
  ⟨fun h => eq_of_beq (of_decide_eq_true h), fun h => decide_eq_true (beq_of_eq h)⟩

end TotalOrder

/-- Place of a number among the numbers; the total order tells two zeros apart, and the order of
numbers does not. -/
def numberKey (x : Float) : Int :=
  if 0 ≤ totalOrderKey x then totalOrderKey x else totalOrderKey x + 1

theorem lt_iff_numberKey_lt {x y : Float} :
    x < y ↔ x.isNaN = false ∧ y.isNaN = false ∧ numberKey x < numberKey y := by
  obtain ⟨s, m, hx, hkey⟩ := TotalOrder.exists_reads x
  obtain ⟨s', m', hy, hkey'⟩ := TotalOrder.exists_reads y
  have hplace : ∀ s m, TotalOrder.place s m =
      if 0 ≤ TotalOrder.key s m then TotalOrder.key s m else TotalOrder.key s m + 1 := by
    intro s m
    cases s <;> simp only [TotalOrder.place, TotalOrder.key] <;> split_ifs <;> omega
  rw [TotalOrder.lt_iff_compare, hx.compare_eq_lt_iff hy, numberKey, numberKey, hkey, hkey',
    ← hplace, ← hplace]
  rfl

theorem totalOrderKey_lt_of_lt {x y : Float} (h : x < y) : totalOrderKey x < totalOrderKey y := by
  obtain ⟨-, -, hlt⟩ := lt_iff_numberKey_lt.mp h
  rw [numberKey, numberKey] at hlt
  split_ifs at hlt <;> omega

theorem isNaN_of_lt {x y : Float} (h : x < y) : x.isNaN = false ∧ y.isNaN = false := by
  obtain ⟨hx, hy, -⟩ := lt_iff_numberKey_lt.mp h
  exact ⟨hx, hy⟩

theorem not_lt_self (x : Float) : ¬ x < x := by
  intro h
  obtain ⟨-, -, hlt⟩ := lt_iff_numberKey_lt.mp h
  exact Int.lt_irrefl _ hlt

theorem lt_of_lt_of_lt {x y z : Float} (hxy : x < y) (hyz : y < z) : x < z := by
  obtain ⟨hx, -, hxy⟩ := lt_iff_numberKey_lt.mp hxy
  obtain ⟨-, hz, hyz⟩ := lt_iff_numberKey_lt.mp hyz
  exact lt_iff_numberKey_lt.mpr ⟨hx, hz, Int.lt_trans hxy hyz⟩

theorem lt_of_lt_of_not_lt {x y z : Float} (hxy : x < y) (hzy : ¬ z < y)
    (hz : z.isNaN = false) : x < z := by
  obtain ⟨hx, hy, hxy⟩ := lt_iff_numberKey_lt.mp hxy
  have hyz : numberKey y ≤ numberKey z := Int.not_lt.mp fun hlt =>
    hzy (lt_iff_numberKey_lt.mpr ⟨hz, hy, hlt⟩)
  exact lt_iff_numberKey_lt.mpr ⟨hx, hz, Int.lt_of_lt_of_le hxy hyz⟩

theorem lt_of_not_lt_of_lt {x y z : Float} (hyx : ¬ y < x) (hyz : y < z)
    (hx : x.isNaN = false) : x < z := by
  obtain ⟨hy, hz, hyz⟩ := lt_iff_numberKey_lt.mp hyz
  have hxy : numberKey x ≤ numberKey y := Int.not_lt.mp fun hlt =>
    hyx (lt_iff_numberKey_lt.mpr ⟨hy, hx, hlt⟩)
  exact lt_iff_numberKey_lt.mpr ⟨hx, hz, Int.lt_of_le_of_lt hxy hyz⟩

/-- The one NaN has its sign bit clear. All other doubles lie between the infinities. -/
theorem totalOrderKey_bounds (x : Float) :
    (x.isNaN = true ∧ totalOrderKey x = 2047 * 2 ^ 52 + 2 ^ 51) ∨
      (x.isNaN = false ∧ -1 - 2047 * 2 ^ 52 ≤ totalOrderKey x ∧
        totalOrderKey x ≤ 2047 * 2 ^ 52) := by
  obtain ⟨s, m, hreads, hkey⟩ := TotalOrder.exists_reads x
  have hnan : x.isNaN = x.toModel.unpack.isNaN := rfl
  generalize hu : x.toModel.unpack = u at hreads hnan
  cases hreads with
  | notANumber =>
    have hbits : x.toBits.toBitVec = Float.Model.UnpackedFloat.packedNaN .binary64 :=
      TotalOrder.eq_packedNaN_of_unpack _ x.toModel.valid hu
    refine .inl ⟨hnan, ?_⟩
    rw [totalOrderKey, bitsKey, ← UInt64.toNat_toBitVec, hbits]
    rfl
  | zero | finite | infinity =>
    refine .inr ⟨hnan, ?_⟩
    rw [hkey]
    cases s <;> simp only [TotalOrder.key] <;> omega

theorem totalOrderKey_injective : Function.Injective totalOrderKey := by
  intro x y h
  have hx : x.toBits.toNat < 2 ^ 64 := x.toBits.toBitVec.isLt
  have hy : y.toBits.toNat < 2 ^ 64 := y.toBits.toBitVec.isLt
  have hbits : x.toBits = y.toBits := by
    rw [← UInt64.toNat_inj]
    simp only [totalOrderKey, bitsKey, Word.signBit] at h
    split_ifs at h <;> omega
  cases x with
  | ofModel x =>
    cases y with
    | ofModel y =>
      cases x
      cases y
      cases hbits
      rfl

end SlowRequest
