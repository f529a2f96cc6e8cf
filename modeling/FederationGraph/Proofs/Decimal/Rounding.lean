import FederationGraph.Decimal.Binary64
import FederationGraph.Proofs.Decimal.Digits
import Mathlib.Data.Int.Log
import Mathlib.Data.Rat.Floor
import Mathlib.Tactic.GCongr
import Mathlib.Tactic.NormNum
import Mathlib.Tactic.Positivity

/-!
# Rounding to binary64

The number nearest to a ratio depends on the value of the ratio alone, so a
ratio may be expanded and a decimal may be written with more zeros without
changing what is read. A ratio that is a binary64 number rounds to that number.
-/
namespace FederationGraph.Binary64

/-! ## The exponent of a ratio -/

theorem shift_ratio {base : Nat} (hb : base ≠ 0) (numerator denominator : Nat) (exponent : Int) :
    ((shift base numerator denominator exponent).1 : ℚ) /
        (shift base numerator denominator exponent).2 =
      (numerator : ℚ) / denominator / (base : ℚ) ^ exponent := by
  have hb' : (base : ℚ) ≠ 0 := Nat.cast_ne_zero.mpr hb
  obtain ⟨k, rfl | rfl⟩ := exponent.eq_nat_or_neg
  · simp only [shift, Nat.pow_eq, Int.toNat_natCast, Int.toNat_neg_natCast, pow_zero, mul_one,
      Nat.cast_mul, Nat.cast_pow, zpow_natCast]
    rw [div_div]
  · simp only [shift, Nat.pow_eq, Int.toNat_natCast, Int.toNat_neg_natCast, neg_neg, pow_zero,
      mul_one, Nat.cast_mul, Nat.cast_pow, zpow_neg, zpow_natCast, div_inv_eq_mul]
    rw [div_mul_eq_mul_div]

theorem shift_snd_pos {base denominator : Nat} (hb : 0 < base) (hd : 0 < denominator)
    (numerator : Nat) (exponent : Int) : 0 < (shift base numerator denominator exponent).2 :=
  Nat.mul_pos hd (Nat.pow_pos hb)

theorem shift_lt_iff {denominator : Nat} (hd : denominator ≠ 0) (numerator : Nat) (exponent : Int)
    (bits : Nat) :
    (shift 2 numerator denominator exponent).1 <
        (shift 2 numerator denominator exponent).2 * Nat.pow 2 bits ↔
      (numerator : ℚ) / denominator < (2 : ℚ) ^ (exponent + bits) := by
  have hpos : (0 : ℚ) < (shift 2 numerator denominator exponent).2 := by
    exact_mod_cast shift_snd_pos (by decide) (Nat.pos_of_ne_zero hd) numerator exponent
  have hratio := shift_ratio (by decide : 2 ≠ 0) numerator denominator exponent
  have hpow : (0 : ℚ) < (2 : ℚ) ^ exponent := zpow_pos (by norm_num) exponent
  rw [Nat.cast_ofNat, eq_div_iff hpow.ne'] at hratio
  rw [← hratio, zpow_add₀ (by norm_num), zpow_natCast, mul_comm (2 ^ exponent),
    mul_lt_mul_iff_of_pos_right hpow, div_lt_iff₀ hpos, mul_comm (2 ^ bits)]
  rw [← Nat.cast_lt (α := ℚ), Nat.cast_mul, Nat.pow_eq, Nat.cast_pow, Nat.cast_ofNat]

theorem log_eq {q : ℚ} (hq : 0 < q) {z : Int} (hl : (2 : ℚ) ^ z ≤ q) (hu : q < (2 : ℚ) ^ (z + 1)) :
    Int.log 2 q = z := by
  have h1 : z ≤ Int.log 2 q := (Int.zpow_le_iff_le_log (by decide) hq).mp (by exact_mod_cast hl)
  have h2 : Int.log 2 q < z + 1 := (Int.lt_zpow_iff_log_lt (by decide) hq).mp (by exact_mod_cast hu)
  omega

/-- The exponent of a ratio leaves 53 bits in front of the point. -/
theorem exponentFor_eq {numerator denominator : Nat} (hn : numerator ≠ 0) (hd : denominator ≠ 0) :
    exponentFor numerator denominator =
      max (-1074) (Int.log 2 ((numerator : ℚ) / denominator) - 52) := by
  have hdpos : (0 : ℚ) < denominator := by exact_mod_cast Nat.pos_of_ne_zero hd
  have hnpos : (0 : ℚ) < numerator := by exact_mod_cast Nat.pos_of_ne_zero hn
  have hq : (0 : ℚ) < (numerator : ℚ) / denominator := div_pos hnpos hdpos
  -- the logarithms of the two parts leave two candidates for that of the ratio
  have hnl : (2 : ℚ) ^ numerator.log2 ≤ numerator := by exact_mod_cast Nat.log2_self_le hn
  have hnu : (numerator : ℚ) < 2 ^ (numerator.log2 + 1) := by
    exact_mod_cast Nat.lt_log2_self (n := numerator)
  have hdl : (2 : ℚ) ^ denominator.log2 ≤ denominator := by exact_mod_cast Nat.log2_self_le hd
  have hdu : (denominator : ℚ) < 2 ^ (denominator.log2 + 1) := by
    exact_mod_cast Nat.lt_log2_self (n := denominator)
  generalize hln : numerator.log2 = ln at *
  generalize hld : denominator.log2 = ld at *
  have hlower : (2 : ℚ) ^ ((ln : Int) - ld - 1) ≤ (numerator : ℚ) / denominator := by
    have hpow : (2 : ℚ) ^ ((ln : Int) - ld - 1) = 2 ^ ln / 2 ^ (ld + 1) := by
      rw [sub_sub, zpow_sub₀ (by norm_num), ← Nat.cast_succ, zpow_natCast, zpow_natCast]
    rw [hpow]
    gcongr
  have hupper : (numerator : ℚ) / denominator < (2 : ℚ) ^ ((ln : Int) - ld + 1) := by
    have hpow : (2 : ℚ) ^ ((ln : Int) - ld + 1) = 2 ^ (ln + 1) / 2 ^ ld := by
      rw [sub_add_eq_add_sub, zpow_sub₀ (by norm_num), ← Nat.cast_succ, zpow_natCast, zpow_natCast]
    rw [hpow]
    gcongr
  have hmid := shift_lt_iff hd numerator ((ln : Int) - ld - 53) 53
  rw [show ((ln : Int) - ld - 53) + (53 : Nat) = (ln : Int) - ld by omega] at hmid
  rw [exponentFor, hln, hld]
  by_cases hc : (numerator : ℚ) / denominator < (2 : ℚ) ^ ((ln : Int) - ld)
  · rw [if_pos (hmid.mpr hc), log_eq hq hlower (by simpa using hc)]
    congr 1
    omega
  · rw [if_neg (fun h => hc (hmid.mp h)), log_eq hq (not_lt.mp hc) hupper]
    congr 1
    omega

/-! ## Rounding a quotient -/

theorem roundDiv_mul {m : Nat} (hm : 0 < m) (numerator denominator : Nat) :
    roundDiv (numerator * m) (denominator * m) = roundDiv numerator denominator := by
  have hrest : 2 * (numerator % denominator * m) = 2 * (numerator % denominator) * m :=
    (Nat.mul_assoc 2 _ m).symm
  rw [roundDiv, Nat.mul_div_mul_right _ _ hm, Nat.mul_mod_mul_right, hrest]
  simp only [Nat.mul_lt_mul_right hm]
  rfl

theorem roundDiv_congr {n d n' d' : Nat} (hd : 0 < d) (hd' : 0 < d') (h : n * d' = n' * d) :
    roundDiv n d = roundDiv n' d' := by
  rw [← roundDiv_mul hd' n d, h, Nat.mul_comm d d', roundDiv_mul hd]

theorem roundDiv_mul_self {d : Nat} (hd : 0 < d) (m : Nat) : roundDiv (m * d) d = m := by
  simp [roundDiv, Nat.mul_div_cancel m hd, Nat.mul_mod_left, hd]

/-! ## The nearest number -/

/-- Equal ratios have the same nearest number. -/
theorem ofRatio_congr (negative : Bool) {n d n' d' : Nat} (hd : 0 < d) (hd' : 0 < d')
    (h : n * d' = n' * d) : ofRatio negative n d = ofRatio negative n' d' := by
  by_cases hn : n = 0
  · subst hn
    rw [Nat.zero_mul, eq_comm, Nat.mul_eq_zero] at h
    rw [ofRatio, ofRatio, if_pos rfl, if_pos (h.resolve_right hd.ne')]
  have hn' : n' ≠ 0 := by
    rintro rfl
    rw [Nat.zero_mul, Nat.mul_eq_zero] at h
    exact h.elim hn hd'.ne'
  have hvalue : (n : ℚ) / d = (n' : ℚ) / d' := by
    rw [div_eq_div_iff (by exact_mod_cast hd.ne') (by exact_mod_cast hd'.ne')]
    exact_mod_cast h
  have hexponent : exponentFor n d = exponentFor n' d' := by
    rw [exponentFor_eq hn hd.ne', exponentFor_eq hn' hd'.ne', hvalue]
  have hround : ∀ e : Int, roundDiv (shift 2 n d e).1 (shift 2 n d e).2 =
      roundDiv (shift 2 n' d' e).1 (shift 2 n' d' e).2 := by
    intro e
    refine roundDiv_congr (shift_snd_pos (by decide) hd n e) (shift_snd_pos (by decide) hd' n' e) ?_
    simp only [shift]
    rw [Nat.mul_mul_mul_comm, h, Nat.mul_mul_mul_comm]
  rw [ofRatio, ofRatio, if_neg hn, if_neg hn', hexponent]
  dsimp only
  rw [hround]

/-! ## Binary64 numbers as ratios -/

namespace Finite

theorem ratio_snd_pos (x : Finite) : 0 < x.ratio.2 := Nat.pow_pos (by decide)

theorem ratio_fst_eq_zero {x : Finite} : x.ratio.1 = 0 ↔ x.mantissa = 0 := by
  simp [ratio]

theorem ratio_value (x : Finite) :
    (x.ratio.1 : ℚ) / x.ratio.2 = (x.mantissa : ℚ) * (2 : ℚ) ^ x.exponent := by
  simp only [ratio]
  obtain ⟨k, hk | hk⟩ := x.exponent.eq_nat_or_neg <;> rw [hk]
  · simp
  · simp [div_eq_mul_inv]

theorem log_ratio {x : Finite} (hx : x.mantissa ≠ 0) :
    Int.log 2 ((x.ratio.1 : ℚ) / x.ratio.2) = x.mantissa.log2 + x.exponent := by
  have hm : (0 : ℚ) < x.mantissa := by exact_mod_cast Nat.pos_of_ne_zero hx
  have hpow : (0 : ℚ) < (2 : ℚ) ^ x.exponent := zpow_pos (by norm_num) _
  have hl : (2 : ℚ) ^ x.mantissa.log2 ≤ x.mantissa := by exact_mod_cast Nat.log2_self_le hx
  have hu : (x.mantissa : ℚ) < 2 ^ (x.mantissa.log2 + 1) := by
    exact_mod_cast Nat.lt_log2_self (n := x.mantissa)
  rw [ratio_value]
  refine log_eq (mul_pos hm hpow) ?_ ?_
  · rw [zpow_add₀ (by norm_num), zpow_natCast]
    gcongr
  · rw [add_right_comm, zpow_add₀ (by norm_num), ← Nat.cast_succ, zpow_natCast]
    gcongr

theorem exponentFor_ratio {x : Finite} (hx : x.mantissa ≠ 0) :
    exponentFor x.ratio.1 x.ratio.2 = x.exponent := by
  obtain ⟨hlt, hleast, -, hfull⟩ := x.canonical
  have hlog : x.mantissa.log2 < 53 := (Nat.log2_lt hx).mpr hlt
  rw [exponentFor_eq (mt ratio_fst_eq_zero.mp hx) x.ratio_snd_pos.ne', log_ratio hx]
  rcases hfull with hfull | hfull
  · have : 52 ≤ x.mantissa.log2 := (Nat.le_log2 hx).mpr hfull
    omega
  · omega

end Finite

/-- A binary64 number is the nearest one to itself. -/
theorem ofRatio_ratio (x : Finite) : ofRatio x.negative x.ratio.1 x.ratio.2 = .finite x := by
  by_cases hx : x.mantissa = 0
  · obtain ⟨negative, mantissa, exponent, canonical⟩ := x
    obtain rfl : mantissa = 0 := hx
    obtain rfl : exponent = -1074 := canonical.2.2.2.resolve_left (by decide)
    rw [ofRatio, if_pos (Finite.ratio_fst_eq_zero.mpr rfl)]
    rfl
  · have hround : roundDiv (shift 2 x.ratio.1 x.ratio.2 x.exponent).1
        (shift 2 x.ratio.1 x.ratio.2 x.exponent).2 = x.mantissa := by
      have hexpand : (shift 2 x.ratio.1 x.ratio.2 x.exponent).1 =
          x.mantissa * (shift 2 x.ratio.1 x.ratio.2 x.exponent).2 := by
        simp only [shift, Finite.ratio, Nat.pow_eq]
        ring
      rw [hexpand]
      exact roundDiv_mul_self (shift_snd_pos (by decide) x.ratio_snd_pos _ _) _
    rw [ofRatio, if_neg (mt Finite.ratio_fst_eq_zero.mp hx), Finite.exponentFor_ratio hx]
    dsimp only
    rw [hround, if_pos x.canonical.1, make, dif_pos x.canonical]

/-! ## Decimals -/

theorem length_digits_mul_ten {n : Nat} (h : n ≠ 0) :
    (Decimal.digits (n * 10)).length = (Decimal.digits n).length + 1 := by
  rw [Decimal.digits_mul_ten h, List.length_append, List.length_singleton]

/-- A zero may move from the exponent to the coefficient. -/
theorem ofDecimal_mul_ten (negative : Bool) (coefficient : Nat) (exponent : Int) :
    ofDecimal negative (coefficient * 10) (exponent - 1) =
      ofDecimal negative coefficient exponent := by
  by_cases hc : coefficient = 0
  · simp [ofDecimal, hc]
  have hsize : ((Decimal.digits (coefficient * 10)).length : Int) + (exponent - 1) =
      (Decimal.digits coefficient).length + exponent := by
    rw [length_digits_mul_ten hc]
    push_cast
    ring
  have hratio : ofRatio negative (coefficient * 10 * Nat.pow 10 (exponent - 1).toNat)
      (Nat.pow 10 (-(exponent - 1)).toNat) =
      ofRatio negative (coefficient * Nat.pow 10 exponent.toNat)
        (Nat.pow 10 (-exponent).toNat) := by
    refine ofRatio_congr negative (Nat.pow_pos (by decide)) (Nat.pow_pos (by decide)) ?_
    simp only [Nat.pow_eq]
    by_cases he : 0 < exponent
    · obtain ⟨k, rfl⟩ : ∃ k : Nat, exponent = k + 1 := ⟨(exponent - 1).toNat, by omega⟩
      rw [show ((k : Int) + 1 - 1).toNat = k by omega, show ((k : Int) + 1).toNat = k + 1 by omega,
        show (-((k : Int) + 1)).toNat = 0 by omega, show (-((k : Int) + 1 - 1)).toNat = 0 by omega]
      ring
    · obtain ⟨k, rfl⟩ : ∃ k : Nat, exponent = -k := ⟨(-exponent).toNat, by omega⟩
      rw [show (-(k : Int) - 1).toNat = 0 by omega, show (-(k : Int)).toNat = 0 by omega,
        show (- -(k : Int)).toNat = k by omega, show (-(-(k : Int) - 1)).toNat = k + 1 by omega]
      ring
  rw [ofDecimal, ofDecimal, hsize, if_neg hc, if_neg (by omega), hratio]

theorem ofDecimal_mul_pow (negative : Bool) (coefficient count : Nat) (exponent : Int) :
    ofDecimal negative (coefficient * 10 ^ count) (exponent - count) =
      ofDecimal negative coefficient exponent := by
  induction count with
  | zero => simp
  | succ count ih =>
    rw [← ih, ← ofDecimal_mul_ten negative (coefficient * 10 ^ count), pow_succ, Nat.mul_assoc,
      Nat.cast_succ, sub_sub]

end FederationGraph.Binary64
