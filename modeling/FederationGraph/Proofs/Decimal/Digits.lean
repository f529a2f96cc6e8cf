import FederationGraph.Decimal.Digits
import Mathlib.Data.List.Basic
import Mathlib.Tactic.Ring

/-!
# Digits written and read

What is written of a number, with or without zeros in front, reads back as the
number. Two runs of digits, one behind the other, read as the first one shifted
by the width of the second. Of the same width, they stand in the order of their
numbers.
-/
namespace FederationGraph.Decimal

theorem ofDigits_eq (text : List Char) : ofDigits text = Nat.ofDigitChars 10 text 0 :=
  Nat.ofDigitChars_eq_foldl.symm

theorem ofDigits_append (front behind : List Char) :
    ofDigits (front ++ behind) = 10 ^ behind.length * ofDigits front + ofDigits behind := by
  rw [ofDigits_eq, Nat.ofDigitChars_append, Nat.ofDigitChars_eq_ofDigitChars_zero, ← ofDigits_eq,
    ← ofDigits_eq]

theorem ofDigits_replicate_zero (count : Nat) : ofDigits (List.replicate count '0') = 0 := by
  rw [ofDigits_eq, Nat.ofDigitChars_replicate_zero, Nat.mul_zero]

theorem ofDigits_zeros_append (count : Nat) (text : List Char) :
    ofDigits (List.replicate count '0' ++ text) = ofDigits text := by
  rw [ofDigits_append, ofDigits_replicate_zero, Nat.mul_zero, Nat.zero_add]

theorem ofDigits_append_zeros (text : List Char) (count : Nat) :
    ofDigits (text ++ List.replicate count '0') = ofDigits text * 10 ^ count := by
  rw [ofDigits_append, ofDigits_replicate_zero, List.length_replicate, Nat.add_zero, Nat.mul_comm]

@[simp] theorem ofDigits_digits (n : Nat) : ofDigits (digits n) = n := by
  rw [ofDigits_eq, digits, Nat.ofDigitChars_toDigits (by decide) (by decide)]

theorem digits_ne_nil (n : Nat) : digits n ≠ [] := Nat.toDigits_ne_nil

theorem isDigit_of_mem_digits {n : Nat} {c : Char} (h : c ∈ digits n) : isDigit c = true :=
  Nat.isDigit_of_mem_toDigits (by decide) (by decide) h

theorem length_digits_le_iff {n width : Nat} (h : 0 < width) :
    (digits n).length ≤ width ↔ n < 10 ^ width := Nat.length_toDigits_le_iff (by decide) h

theorem digits_of_lt {n : Nat} (h : n < 10) : digits n = [n.digitChar] :=
  Nat.toDigits_of_lt_base h

theorem digits_of_le {n : Nat} (h : 10 ≤ n) :
    digits n = digits (n / 10) ++ [(n % 10).digitChar] := by
  rw [digits, Nat.toDigits_eq_if (by decide), if_neg (by omega), digits]

/-- A number keeps its digits when it is multiplied by ten. -/
theorem digits_mul_ten {n : Nat} (h : n ≠ 0) : digits (n * 10) = digits n ++ ['0'] := by
  rw [digits_of_le (by omega), Nat.mul_div_cancel n (by decide), Nat.mul_mod_left]
  rfl

/-- Only zero is written with a zero in front. -/
theorem head?_digits {n : Nat} (h : n ≠ 0) : (digits n).head? ≠ some '0' := by
  induction n using Nat.strongRecOn with
  | _ n ih =>
    by_cases hn : n < 10
    · rw [digits_of_lt hn, List.head?_cons]
      have hall : ∀ m < 10, m ≠ 0 → some m.digitChar ≠ some '0' := by decide
      exact hall n hn h
    · rw [digits_of_le (by omega), List.head?_append_of_ne_nil _ (digits_ne_nil _)]
      exact ih (n / 10) (by omega) (by omega)

/-! ## Fixed widths -/

theorem ofDigits_padded (width n : Nat) : ofDigits (padded width n) = n := by
  rw [padded, ofDigits_zeros_append, ofDigits_digits]

theorem length_padded {width n : Nat} (hw : 0 < width) (hn : n < 10 ^ width) :
    (padded width n).length = width := by
  have hl := (length_digits_le_iff hw).mpr hn
  rw [padded, List.length_append, List.length_replicate]
  omega

theorem isDigit_of_mem_padded {width n : Nat} {c : Char} (h : c ∈ padded width n) :
    isDigit c = true := by
  rw [padded, List.mem_append, List.mem_replicate] at h
  rcases h with ⟨-, rfl⟩ | h
  · decide
  · exact isDigit_of_mem_digits h

theorem padded_ne_nil (width n : Nat) : padded width n ≠ [] := by
  rw [padded]
  exact List.append_ne_nil_of_right_ne_nil _ (digits_ne_nil n)

/-! ## Order -/

theorem ofDigits_cons (c : Char) (text : List Char) :
    ofDigits (c :: text) = 10 ^ text.length * (c.toNat - '0'.toNat) + ofDigits text := by
  rw [← List.singleton_append, ofDigits_append]
  simp [ofDigits]

theorem isDigit_iff (c : Char) : isDigit c = true ↔ '0'.toNat ≤ c.toNat ∧ c.toNat ≤ '9'.toNat := by
  rw [isDigit, Bool.and_eq_true, decide_eq_true_eq, decide_eq_true_eq]
  rfl

theorem ofDigits_lt {text : List Char} (h : ∀ c ∈ text, isDigit c = true) :
    ofDigits text < 10 ^ text.length := by
  induction text with
  | nil => exact Nat.one_pos
  | cons c text ih =>
    rw [List.forall_mem_cons, isDigit_iff] at h
    have htext := ih h.2
    have hc : c.toNat - '0'.toNat ≤ 9 := Nat.sub_le_of_le_add h.1.2
    rw [ofDigits_cons, List.length_cons, Nat.pow_succ]
    calc
      _ < 10 ^ text.length * (c.toNat - '0'.toNat) + 10 ^ text.length := by omega
      _ = 10 ^ text.length * (c.toNat - '0'.toNat + 1) := (Nat.mul_succ _ _).symm
      _ ≤ 10 ^ text.length * 10 := Nat.mul_le_mul_left _ (by omega)

/-- Of two places the higher one decides, and the lower one where the higher ones agree. -/
theorem place_lt_iff {k r q : Nat} (hr : r < k) (hq : q < k) (x y : Nat) :
    k * x + r < k * y + q ↔ x < y ∨ x = y ∧ r < q := by
  rcases lt_trichotomy x y with h | rfl | h
  · have hle : k * (x + 1) ≤ k * y := Nat.mul_le_mul_left k h
    rw [Nat.mul_succ] at hle
    omega
  · omega
  · have hle : k * (y + 1) ≤ k * x := Nat.mul_le_mul_left k h
    rw [Nat.mul_succ] at hle
    omega

theorem place_eq_iff {k r q : Nat} (hr : r < k) (hq : q < k) (x y : Nat) :
    k * x + r = k * y + q ↔ x = y ∧ r = q := by
  have hlt := place_lt_iff hr hq x y
  have hgt := place_lt_iff hq hr y x
  omega

/-- Runs of digits of one length stand in the order of their numbers, and what follows decides
between equal ones. -/
theorem append_lt_append_iff {run other : List Char} (hrun : ∀ c ∈ run, isDigit c = true)
    (hother : ∀ c ∈ other, isDigit c = true) (hlength : run.length = other.length)
    (rest rest' : List Char) :
    run ++ rest < other ++ rest' ↔
      ofDigits run < ofDigits other ∨ ofDigits run = ofDigits other ∧ rest < rest' := by
  induction run generalizing other with
  | nil =>
    obtain rfl := List.length_eq_zero_iff.mp hlength.symm
    simp
  | cons c run ih =>
    cases other with
    | nil => cases hlength
    | cons d other =>
      rw [List.forall_mem_cons, isDigit_iff] at hrun hother
      have hl : run.length = other.length := Nat.succ.inj hlength
      have hr := ofDigits_lt hrun.2
      have ho := ofDigits_lt hother.2
      rw [← hl] at ho
      have hlt : c < d ↔ c.toNat - '0'.toNat < d.toNat - '0'.toNat :=
        (Nat.sub_lt_sub_iff_right hrun.1.1).symm
      have heq : c = d ↔ c.toNat - '0'.toNat = d.toNat - '0'.toNat := by
        rw [Char.toNat_inj.symm]
        omega
      -- the digit in front stands one place above what the others can make up
      rw [List.cons_append, List.cons_append, List.cons_lt_cons_iff, ih hrun.2 hother.2 hl,
        ofDigits_cons, ofDigits_cons, ← hl, place_lt_iff hr ho, place_eq_iff hr ho, hlt, heq]
      tauto

theorem padded_append_lt_iff {width m n : Nat} (hw : 0 < width) (hm : m < 10 ^ width)
    (hn : n < 10 ^ width) (rest rest' : List Char) :
    padded width m ++ rest < padded width n ++ rest' ↔ m < n ∨ m = n ∧ rest < rest' := by
  have hlength := (length_padded hw hm).trans (length_padded hw hn).symm
  rw [append_lt_append_iff (fun _ => isDigit_of_mem_padded) (fun _ => isDigit_of_mem_padded)
    hlength, ofDigits_padded, ofDigits_padded]

/-! ## Runs of digits at the front of a text -/

/-- Whether a text does not begin with a digit. -/
def Ends (text : List Char) : Prop := ∀ c ∈ text.head?, isDigit c = false

theorem takeWhile_isDigit {run rest : List Char} (hrun : ∀ c ∈ run, isDigit c = true)
    (hrest : Ends rest) : (run ++ rest).takeWhile isDigit = run := by
  rw [List.takeWhile_append_of_pos hrun]
  cases rest with
  | nil => rw [List.takeWhile_nil, List.append_nil]
  | cons c rest =>
    rw [List.takeWhile_cons_of_neg (by simp [hrest c rfl]), List.append_nil]

theorem dropWhile_isDigit {run rest : List Char} (hrun : ∀ c ∈ run, isDigit c = true)
    (hrest : Ends rest) : (run ++ rest).dropWhile isDigit = rest := by
  rw [List.dropWhile_append_of_pos hrun]
  cases rest with
  | nil => rfl
  | cons c rest => rw [List.dropWhile_cons_of_neg (by simp [hrest c rfl])]

end FederationGraph.Decimal
