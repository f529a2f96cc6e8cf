import FederationGraph.Decimal.Layout
import FederationGraph.Proofs.Decimal.Rounding
import Mathlib.Data.List.TakeWhile

/-!
# Written numbers read back

Whatever decimal the search for the shortest one ends with, it reads back as the
number it was found for. A layout puts the digits of that decimal on the page in
one of three ways; all of them read as the same coefficient, with zeros moved
between it and the exponent.
-/
namespace FederationGraph.Binary64

open Decimal

/-! ## The shortest decimal -/

/-- Only zero reads as a number without a mantissa, so a coefficient is not lost. -/
theorem coefficient_ne_zero {x : Finite} (hx : x.mantissa ≠ 0) {coefficient : Nat} {exponent : Int}
    (h : ofDecimal x.negative coefficient exponent = .finite x) : coefficient ≠ 0 := by
  rintro rfl
  have hz : ofDecimal x.negative 0 exponent = zero x.negative := by simp [ofDecimal]
  rw [hz, zero] at h
  exact hx (congrArg Finite.mantissa (Binary64.finite.inj h)).symm

theorem ofDecimal_of_size (negative : Bool) {coefficient : Nat} {exponent : Int}
    (hc : coefficient ≠ 0) (hu : (digits coefficient).length + exponent ≤ 310)
    (hl : -330 ≤ (digits coefficient).length + exponent) :
    ofDecimal negative coefficient exponent =
      ofRatio negative (coefficient * Nat.pow 10 exponent.toNat)
        (Nat.pow 10 (-exponent).toNat) := by
  rw [ofDecimal, if_neg hc, if_neg (by omega), if_neg (by omega)]

theorem pow_le_pow_pow {base k a b : Nat} (hb : 0 < base) (hk : k ≤ a * b) :
    base ^ k ≤ (base ^ a) ^ b := by
  rw [← pow_mul]
  exact Nat.pow_le_pow_right hb hk

theorem pow_pow_le_pow {base k a b : Nat} (hb : 0 < base) (hk : a * b ≤ k) :
    (base ^ a) ^ b ≤ base ^ k := by
  rw [← pow_mul]
  exact Nat.pow_le_pow_right hb hk

/-- No binary64 number is so large that its decimal would be taken for infinite. -/
theorem mul_two_pow_lt {mantissa k : Nat} (hm : mantissa < Nat.pow 2 53) (hk : k ≤ 971) :
    mantissa * 2 ^ k < 10 ^ 310 := by
  have hlimit : 2 ^ 205 ≤ 10 ^ 62 := by norm_num
  calc mantissa * 2 ^ k < 2 ^ 53 * 2 ^ k := Nat.mul_lt_mul_of_pos_right hm (by positivity)
    _ = 2 ^ (53 + k) := (pow_add 2 53 k).symm
    _ ≤ (2 ^ 205) ^ 5 := pow_le_pow_pow (by decide) (by omega)
    _ ≤ (10 ^ 62) ^ 5 := Nat.pow_le_pow_left hlimit 5
    _ = 10 ^ 310 := by rw [← pow_mul]

/-- The least decimals are far above those that are taken for zero. -/
theorem ten_pow_le_five_pow {k : Nat} (hk : k ≤ 1074) : 10 ^ (k - 331) ≤ 5 ^ k := by
  by_cases hsmall : k ≤ 331
  · rw [Nat.sub_eq_zero_of_le hsmall, pow_zero]
    exact Nat.one_le_pow _ _ (by decide)
  · obtain ⟨j, rfl⟩ : ∃ j, k = 331 + j := ⟨k - 331, by omega⟩
    have hlimit : 2 ^ 150 ≤ 5 ^ 66 := by norm_num
    have htwo : 2 ^ j ≤ 5 ^ 331 :=
      calc 2 ^ j ≤ (2 ^ 150) ^ 5 := pow_le_pow_pow (by decide) (by omega)
        _ ≤ (5 ^ 66) ^ 5 := Nat.pow_le_pow_left hlimit 5
        _ ≤ 5 ^ 331 := pow_pow_le_pow (by decide) (by decide)
    rw [Nat.add_sub_cancel_left]
    calc 10 ^ j = 2 ^ j * 5 ^ j := mul_pow 2 5 j
      _ ≤ 5 ^ 331 * 5 ^ j := Nat.mul_le_mul_right _ htwo
      _ = 5 ^ (331 + j) := (pow_add 5 331 j).symm

theorem ofDecimal_exactTens {x : Finite} (hx : x.mantissa ≠ 0) :
    ofDecimal x.negative x.exactTens.coefficient x.exactTens.exponent = .finite x := by
  obtain ⟨hm, hleast, hmost, -⟩ := x.canonical
  rw [← ofRatio_ratio x, Finite.exactTens]
  split
  · rename_i he
    obtain ⟨k, hk⟩ : ∃ k : Nat, x.exponent = -k := ⟨(-x.exponent).toNat, by omega⟩
    simp only [hk, Finite.ratio, neg_neg, Int.toNat_natCast, Int.toNat_neg_natCast, Nat.pow_eq]
    have hcpos : 5 ^ k ≤ x.mantissa * 5 ^ k :=
      Nat.le_mul_of_pos_left _ (Nat.pos_of_ne_zero hx)
    have hfive : 0 < 5 ^ k := by positivity
    have hupper : (digits (x.mantissa * 5 ^ k)).length ≤ 310 + k := by
      rw [length_digits_le_iff (by omega), pow_add]
      have hm310 := mul_two_pow_lt hm (Nat.zero_le 971)
      rw [pow_zero, mul_one] at hm310
      calc x.mantissa * 5 ^ k < 10 ^ 310 * 5 ^ k := Nat.mul_lt_mul_of_pos_right hm310 hfive
        _ ≤ 10 ^ 310 * 10 ^ k := Nat.mul_le_mul_left _ (Nat.pow_le_pow_left (by decide) k)
    have hlower : k ≤ (digits (x.mantissa * 5 ^ k)).length + 330 := by
      by_contra hshort
      have hpos := List.length_pos_of_ne_nil (digits_ne_nil (x.mantissa * 5 ^ k))
      have hlen : (digits (x.mantissa * 5 ^ k)).length ≤ k - 331 := by omega
      have hlt := (length_digits_le_iff (by omega)).mp hlen
      have hpow := ten_pow_le_five_pow (k := k) (by omega)
      omega
    rw [ofDecimal_of_size _ (by omega) (by omega) (by omega)]
    refine ofRatio_congr _ (Nat.pow_pos (by decide)) (Nat.pow_pos (by decide)) ?_
    simp only [neg_neg, Int.toNat_natCast, Int.toNat_neg_natCast, Nat.pow_eq]
    have hten : 10 ^ k = 5 ^ k * 2 ^ k := mul_pow 5 2 k
    rw [hten]
    ring
  · rename_i he
    obtain ⟨k, hk⟩ : ∃ k : Nat, x.exponent = k := ⟨x.exponent.toNat, by omega⟩
    simp only [hk, Finite.ratio, Int.toNat_natCast, Int.toNat_neg_natCast, Nat.pow_eq]
    have hupper : (digits (x.mantissa * 2 ^ k)).length ≤ 310 :=
      (length_digits_le_iff (by decide)).mpr (mul_two_pow_lt hm (by omega))
    have hc : x.mantissa * 2 ^ k ≠ 0 := Nat.mul_ne_zero hx (by positivity)
    rw [ofDecimal_of_size _ hc (by omega) (by omega)]
    refine ofRatio_congr _ (Nat.pow_pos (by decide)) (Nat.pow_pos (by decide)) ?_
    simp

theorem ofDecimal_shortest {x : Finite} (hx : x.mantissa ≠ 0) :
    ofDecimal x.negative x.shortest.coefficient x.shortest.exponent = .finite x := by
  rw [Finite.shortest]
  cases hfound : (List.range 17).findSome? fun count =>
      (x.neighbours (count + 1)).find? x.readsBack with
  | none => exact ofDecimal_exactTens hx
  | some d =>
    obtain ⟨count, -, hd⟩ := List.exists_of_findSome?_eq_some hfound
    have hback : x.readsBack d = true := List.find?_some hd
    exact eq_of_beq hback

/-! ## Digits without zeros at their end -/

namespace Tens

theorem digits_eq_significant (d : Tens) :
    ∃ zeros, digits d.coefficient = d.significant ++ List.replicate zeros '0' := by
  let back := (digits d.coefficient).reverse
  have hzeros : ∀ c ∈ back.takeWhile (· == '0'), c = '0' := fun c hc =>
    eq_of_beq (List.mem_takeWhile_imp (p := (· == '0')) hc)
  refine ⟨(back.takeWhile (· == '0')).length, ?_⟩
  have hsplit := congrArg List.reverse
    (List.takeWhile_append_dropWhile (p := (· == '0')) (l := back))
  rw [List.reverse_append, List.eq_replicate_of_mem hzeros, List.reverse_replicate,
    List.reverse_reverse] at hsplit
  exact hsplit.symm

theorem isDigit_of_mem_significant {d : Tens} {c : Char} (h : c ∈ d.significant) :
    isDigit c = true := by
  obtain ⟨zeros, hz⟩ := d.digits_eq_significant
  exact isDigit_of_mem_digits (hz ▸ List.mem_append_left _ h)

theorem significant_ne_nil {d : Tens} (hd : d.coefficient ≠ 0) : d.significant ≠ [] := by
  intro hnil
  obtain ⟨zeros, hz⟩ := d.digits_eq_significant
  rw [hnil, List.nil_append] at hz
  have hvalue := congrArg ofDigits hz
  rw [ofDigits_digits, ofDigits_replicate_zero] at hvalue
  exact hd hvalue

theorem head?_significant {d : Tens} (hd : d.coefficient ≠ 0) : d.significant.head? ≠ some '0' := by
  obtain ⟨zeros, hz⟩ := d.digits_eq_significant
  have hhead := head?_digits hd
  rwa [hz, List.head?_append_of_ne_nil _ (significant_ne_nil hd)] at hhead

/-- The significant digits with any number of zeros behind them make up the decimal. -/
theorem ofDecimal_significant (d : Tens) (negative : Bool) (count : Nat) :
    ofDecimal negative (ofDigits d.significant * 10 ^ count)
        (d.pointPosition - d.significant.length - count) =
      ofDecimal negative d.coefficient d.exponent := by
  obtain ⟨zeros, hz⟩ := d.digits_eq_significant
  have hcoefficient : d.coefficient = ofDigits d.significant * 10 ^ zeros := by
    rw [← ofDigits_append_zeros, ← hz, ofDigits_digits]
  have hlength := congrArg List.length hz
  rw [List.length_append, List.length_replicate] at hlength
  have hposition : d.pointPosition - d.significant.length = d.exponent + zeros := by
    rw [pointPosition, hlength]
    push_cast
    ring
  rw [hposition, ofDecimal_mul_pow, hcoefficient, ← ofDecimal_mul_pow negative _ zeros,
    add_sub_cancel_right]

end Tens

/-! ## What a text reads as -/

/-- A point and the digits behind it, if there are any. -/
def pointed (run : List Char) : List Char := if run.isEmpty then [] else '.' :: run

theorem ends_exponent {mark : List Char} (h : mark = [] ∨ ∃ more, mark = 'e' :: more) :
    Ends mark ∧ mark.head? ≠ some '.' := by
  rcases h with rfl | ⟨more, rfl⟩ <;> simp [Ends, isDigit]

theorem ofUnsigned_pointed (negative : Bool) {whole fraction mark : List Char}
    (hw : ∀ c ∈ whole, isDigit c = true) (hf : ∀ c ∈ fraction, isDigit c = true)
    (hm : mark = [] ∨ ∃ more, mark = 'e' :: more) :
    ofUnsigned negative (whole ++ (pointed fraction ++ mark)) =
      ofDecimal negative (ofDigits (whole ++ fraction))
        (exponentOf mark.tail - fraction.length) := by
  obtain ⟨hends, hpoint⟩ := ends_exponent hm
  rw [pointed]
  split
  · rename_i hnil
    rw [List.isEmpty_iff] at hnil
    subst hnil
    simp only [ofUnsigned, List.nil_append]
    rw [takeWhile_isDigit hw hends, dropWhile_isDigit hw hends, if_neg hpoint, if_neg hpoint]
  · have hdot : Ends ('.' :: (fraction ++ mark)) := by simp [Ends, isDigit]
    simp only [ofUnsigned, List.cons_append]
    rw [takeWhile_isDigit hw hdot, dropWhile_isDigit hw hdot]
    simp only [List.head?_cons, if_pos, List.tail_cons]
    rw [takeWhile_isDigit hf hends, dropWhile_isDigit hf hends]

theorem exponentOf_signed (width : Nat) (power : Int) :
    exponentOf ((if power < 0 then '-' else '+') :: padded width power.natAbs) = power := by
  split <;> simp only [exponentOf, ofDigits_padded] <;> omega

/-! ## The three ways of writing -/

/-- The parts of a written number: digits with no zero in front of others, a fraction and an
exponent. -/
structure IsNumber (whole fraction mark : List Char) : Prop where
  digits : ∀ c ∈ whole, isDigit c = true
  nonempty : whole ≠ []
  plain : whole = ['0'] ∨ whole.head? ≠ some '0'
  fraction : ∀ c ∈ fraction, isDigit c = true
  mark : mark = [] ∨ ∃ sign run, (sign = '-' ∨ sign = '+') ∧ run ≠ [] ∧
    (∀ c ∈ run, isDigit c = true) ∧ mark = 'e' :: sign :: run

theorem exists_parts_positional {ds : List Char} (hd : ∀ c ∈ ds, isDigit c = true) (hne : ds ≠ [])
    (hz : ds.head? ≠ some '0') (position : Int) :
    ∃ whole fraction, positional ds position = whole ++ pointed fraction ∧ fraction ≠ [] ∧
      IsNumber whole fraction [] ∧ whole.length ≤ max 1 position.toNat ∧
      ∃ count : Nat, ofDigits (whole ++ fraction) = ofDigits ds * 10 ^ count ∧
        (fraction.length : Int) = count - (position - ds.length) := by
  have hzeros : ∀ count, ∀ c ∈ List.replicate count '0', isDigit c = true := by
    intro count c hc
    rw [List.eq_of_mem_replicate hc]
    decide
  rw [positional]
  split
  · rename_i hp
    refine ⟨['0'], List.replicate (-position).toNat '0' ++ ds, ?_, by simp [hne], ?_, ?_, 0, ?_, ?_⟩
    · simp [pointed, hne]
    · exact ⟨by simp [isDigit], by simp, .inl rfl,
        List.forall_mem_append.mpr ⟨hzeros _, hd⟩, .inl rfl⟩
    · simp
    · rw [← List.append_assoc, List.singleton_append, ← List.replicate_succ,
        ofDigits_zeros_append, pow_zero, mul_one]
    · simp only [List.length_append, List.length_replicate]
      omega
  · rename_i hp
    dsimp only
    split
    · rename_i hlen
      refine ⟨ds ++ List.replicate (position.toNat - ds.length) '0', ['0'], ?_, by simp, ?_, ?_,
        position.toNat - ds.length + 1, ?_, ?_⟩
      · simp [pointed]
      · refine ⟨List.forall_mem_append.mpr ⟨hd, hzeros _⟩, by simp [hne], .inr ?_,
          by simp [isDigit], .inl rfl⟩
        rwa [List.head?_append_of_ne_nil _ hne]
      · simp only [List.length_append, List.length_replicate]
        omega
      · rw [List.append_assoc, ← List.replicate_succ', ofDigits_append_zeros]
      · simp only [List.length_singleton]
        omega
    · rename_i hlen
      refine ⟨ds.take position.toNat, ds.drop position.toNat, ?_, ?_, ?_, ?_, 0, ?_, ?_⟩
      · have hdrop : ds.drop position.toNat ≠ [] := by simpa using hlen
        simp [pointed, hdrop]
      · simpa using hlen
      · refine ⟨fun c hc => hd c (List.mem_of_mem_take hc), ?_, .inr ?_,
          fun c hc => hd c (List.mem_of_mem_drop hc), .inl rfl⟩
        · simpa [hne] using hp
        · rwa [List.head?_take, if_neg (by omega)]
      · simp only [List.length_take]
        omega
      · rw [List.take_append_drop, pow_zero, mul_one]
      · simp only [List.length_drop]
        omega

theorem exists_parts_scientific {ds : List Char} (hd : ∀ c ∈ ds, isDigit c = true) (hne : ds ≠ [])
    (hz : ds.head? ≠ some '0') (width : Nat) (power : Int) :
    ∃ whole fraction mark, scientific width ds power = whole ++ (pointed fraction ++ mark) ∧
      mark ≠ [] ∧ IsNumber whole fraction mark ∧ whole.length = 1 ∧
      whole ++ fraction = ds ∧ exponentOf mark.tail - fraction.length = power + 1 - ds.length := by
  cases ds with
  | nil => exact absurd rfl hne
  | cons c run =>
    obtain ⟨hc, hrun⟩ := List.forall_mem_cons.mp hd
    let sign := if power < 0 then '-' else '+'
    have hsign : sign = '-' ∨ sign = '+' := by
      simp only [sign]
      split
      · exact .inl rfl
      · exact .inr rfl
    refine ⟨[c], run, 'e' :: sign :: padded width power.natAbs, ?_, by simp, ?_, rfl, rfl, ?_⟩
    · simp [scientific, pointed, sign]
    · exact ⟨by simpa using hc, by simp, .inr (by simpa using hz), hrun, .inr ⟨sign, _, hsign,
        padded_ne_nil _ _, fun _ => isDigit_of_mem_padded, rfl⟩⟩
    · rw [List.tail_cons, exponentOf_signed, List.length_cons]
      push_cast
      ring

/-- The magnitude of a number has the parts of a number, not all of them missing behind the whole,
and reads back as the number. -/
theorem exists_parts_magnitudeText (layout : Layout) (x : Finite) :
    ∃ whole fraction mark, layout.magnitudeText x = whole ++ (pointed fraction ++ mark) ∧
      IsNumber whole fraction mark ∧ (fraction ≠ [] ∨ mark ≠ []) ∧
      whole.length ≤ max 1 layout.firstScientific.toNat ∧
      ofUnsigned x.negative (layout.magnitudeText x) = .finite x := by
  rw [Layout.magnitudeText]
  split
  · rename_i hx
    refine ⟨['0'], ['0'], [], rfl, ⟨by simp [isDigit], by simp, .inl rfl, by simp [isDigit],
      .inl rfl⟩, .inl (by simp), by simp, ?_⟩
    obtain ⟨negative, mantissa, exponent, canonical⟩ := x
    obtain rfl : mantissa = 0 := hx
    obtain rfl : exponent = -1074 := canonical.2.2.2.resolve_left (by decide)
    rfl
  · rename_i hx
    have hback := ofDecimal_shortest hx
    have hd := coefficient_ne_zero hx hback
    dsimp only
    split
    · rename_i hsize
      obtain ⟨whole, fraction, htext, hne, hparts, hlen, count, hvalue, hfraction⟩ :=
        exists_parts_positional (fun _ => Tens.isDigit_of_mem_significant)
          (Tens.significant_ne_nil hd) (Tens.head?_significant hd) x.shortest.pointPosition
      refine ⟨whole, fraction, [], by rw [htext, List.append_nil], hparts, .inl hne, by omega, ?_⟩
      rw [htext, ← List.append_nil (pointed fraction),
        ofUnsigned_pointed x.negative hparts.digits hparts.fraction (.inl rfl), hvalue, hfraction]
      have hexponent : exponentOf ([] : List Char).tail -
          (count - (x.shortest.pointPosition - x.shortest.significant.length)) =
            x.shortest.pointPosition - x.shortest.significant.length - count := by
        simp only [List.tail_nil, exponentOf, ofDigits, List.foldl_nil]
        omega
      rw [hexponent, Tens.ofDecimal_significant, hback]
    · obtain ⟨whole, fraction, mark, htext, hne, hparts, hlen, hds, hexponent⟩ :=
        exists_parts_scientific (fun _ => Tens.isDigit_of_mem_significant)
          (Tens.significant_ne_nil hd) (Tens.head?_significant hd) layout.exponentWidth
          (x.shortest.pointPosition - 1)
      refine ⟨whole, fraction, mark, htext, hparts, .inr hne, by omega, ?_⟩
      have hm : mark = [] ∨ ∃ more, mark = 'e' :: more := by
        rcases hparts.mark with h | ⟨sign, run, -, -, -, h⟩
        · exact .inl h
        · exact .inr ⟨_, h⟩
      rw [htext, ofUnsigned_pointed x.negative hparts.digits hparts.fraction hm, hds, hexponent]
      have h := Tens.ofDecimal_significant x.shortest x.negative 0
      rw [hback, pow_zero, mul_one, Nat.cast_zero, sub_zero] at h
      rw [sub_add_cancel, h]

end FederationGraph.Binary64
