import FederationGraph.Json.Reader
import FederationGraph.Json.Writer
import FederationGraph.Proofs.Decimal.Layout

/-!
# Numbers in JSON

A written number is followed by nothing, by a comma or by a line break, and the
reader takes exactly the number off. Whether the number is read as an integer
depends on its having neither fraction nor exponent, so that an integer stays one
and a binary64 number never turns into one.
-/
namespace FederationGraph.Json

open Decimal Binary64

/-- Whether what stands behind a written value ends it. -/
def Closes (rest : List Char) : Prop := ∀ c ∈ rest.head?, c = ',' ∨ c = '\n'

theorem Closes.ends {rest : List Char} (h : Closes rest) : Ends rest := by
  intro c hc
  rcases h c hc with rfl | rfl <;> decide

theorem readDigits_append {run rest : List Char} (hrun : ∀ c ∈ run, isDigit c = true)
    (hne : run ≠ []) (hrest : Ends rest) : readDigits (run ++ rest) = some (run, rest) := by
  have hempty : run.isEmpty = false := by simpa using hne
  simp only [readDigits, takeWhile_isDigit hrun hrest, dropWhile_isDigit hrun hrest, hempty]
  rfl

theorem readWhole_append {whole rest : List Char} (hwhole : ∀ c ∈ whole, isDigit c = true)
    (hne : whole ≠ []) (hplain : whole = ['0'] ∨ whole.head? ≠ some '0') (hrest : Ends rest) :
    readWhole (whole ++ rest) = some (whole, rest) := by
  rcases hplain with rfl | hzero
  · rfl
  · obtain ⟨c, more, rfl⟩ := List.exists_cons_of_ne_nil hne
    rw [List.cons_append, readWhole.eq_2]
    · exact readDigits_append hwhole hne hrest
    · rintro rest' heq
      obtain ⟨rfl, -⟩ := List.cons.inj heq
      exact hzero rfl

theorem readFraction_append {fraction rest : List Char}
    (hfraction : ∀ c ∈ fraction, isDigit c = true) (hrest : Ends rest)
    (hpoint : rest.head? ≠ some '.') :
    readFraction (pointed fraction ++ rest) = some (pointed fraction, rest) := by
  rw [pointed]
  split
  · rw [List.nil_append, readFraction.eq_2]
    rintro rest' rfl
    exact hpoint rfl
  · rename_i hne
    rw [List.cons_append, readFraction, readDigits_append hfraction (by simpa using hne) hrest]
    rfl

theorem readExponent_append {mark rest : List Char}
    (hmark : mark = [] ∨ ∃ sign run, (sign = '-' ∨ sign = '+') ∧ run ≠ [] ∧
      (∀ c ∈ run, isDigit c = true) ∧ mark = 'e' :: sign :: run)
    (hrest : Closes rest) : readExponent (mark ++ rest) = some (mark, rest) := by
  rcases hmark with rfl | ⟨sign, run, hsign, hne, hrun, rfl⟩
  · cases rest with
    | nil => rfl
    | cons c rest =>
      rcases hrest c rfl with rfl | rfl <;> rfl
  · rcases hsign with rfl | rfl <;>
      simp [readExponent, readSigned, readDigits_append hrun hne hrest.ends]

/-- What stands behind the whole part of a number. -/
theorem ends_behind {whole fraction mark rest : List Char} (h : IsNumber whole fraction mark)
    (hrest : Closes rest) :
    Ends (pointed fraction ++ (mark ++ rest)) ∧ Ends (mark ++ rest) ∧
      (mark ++ rest).head? ≠ some '.' := by
  have hmark : Ends (mark ++ rest) ∧ (mark ++ rest).head? ≠ some '.' := by
    rcases h.mark with rfl | ⟨sign, run, -, -, -, rfl⟩
    · refine ⟨hrest.ends, fun hp => ?_⟩
      rcases hrest '.' hp with h | h <;> cases h
    · simp [Ends, isDigit]
  refine ⟨?_, hmark⟩
  rw [pointed]
  split
  · exact hmark.1
  · simp [Ends, isDigit]

/-- A number that has the parts of one is read up to its end, unless its whole part is too long. -/
theorem readUnsigned_append (strict negative : Bool) {whole fraction mark rest : List Char}
    (h : IsNumber whole fraction mark) (hrest : Closes rest) :
    readUnsigned strict negative (whole ++ (pointed fraction ++ mark) ++ rest) =
      let integral := fraction.isEmpty && mark.isEmpty
      if isTooLong strict negative integral whole then .error .tooManyDigits
      else if integral then
        .ok (.integer (if negative then -(ofDigits whole : Int) else ofDigits whole), rest)
      else .ok (.float (ofUnsigned negative (whole ++ (pointed fraction ++ mark))), rest) := by
  obtain ⟨hbehind, hends, hpoint⟩ := ends_behind h hrest
  have hempty : (pointed fraction).isEmpty = fraction.isEmpty := by
    cases fraction <;> rfl
  have htext : whole ++ (pointed fraction ++ mark) ++ rest =
      whole ++ (pointed fraction ++ (mark ++ rest)) := by simp only [List.append_assoc]
  rw [htext, readUnsigned, readWhole_append h.digits h.nonempty h.plain hbehind]
  simp only [orMalformed, bind, Except.bind]
  rw [readFraction_append h.fraction hends hpoint]
  simp only
  rw [readExponent_append h.mark hrest, hempty]
  simp only [List.append_assoc]
  split
  · rfl
  · split <;> rfl

theorem readNumber_of_isDigit (strict : Bool) {c : Char} (hc : isDigit c = true)
    (text : List Char) : readNumber strict (c :: text) = readUnsigned strict false (c :: text) := by
  unfold readNumber
  split
  all_goals first
    | rfl
    | (rename_i heq; obtain ⟨rfl, -⟩ := List.cons.inj heq; exact absurd hc (by decide))

theorem readNumber_minus (strict : Bool) {c : Char} (hc : isDigit c = true)
    (text : List Char) :
    readNumber strict ('-' :: c :: text) = readUnsigned strict true (c :: text) := by
  have hI : c ≠ 'I' := by rintro rfl; exact absurd hc (by decide)
  simp [readNumber, hI]

/-- The sign of a number decides how its magnitude is read. -/
theorem readNumber_signed (strict negative : Bool) {whole fraction mark : List Char}
    (h : IsNumber whole fraction mark) (rest : List Char) :
    readNumber strict ((if negative then '-' :: (whole ++ (pointed fraction ++ mark))
        else whole ++ (pointed fraction ++ mark)) ++ rest) =
      readUnsigned strict negative (whole ++ (pointed fraction ++ mark) ++ rest) := by
  obtain ⟨c, more, rfl⟩ := List.exists_cons_of_ne_nil h.nonempty
  have hc := h.digits c List.mem_cons_self
  cases negative
  · exact readNumber_of_isDigit strict hc _
  · exact readNumber_minus strict hc _

/-! ## Integers -/

theorem isNumber_digits (n : Nat) : IsNumber (digits n) [] [] where
  digits _ hc := isDigit_of_mem_digits hc
  nonempty := digits_ne_nil n
  plain := by
    by_cases h : n = 0
    · exact .inl (by rw [h]; rfl)
    · exact .inr (head?_digits h)
  fraction := by simp
  mark := .inl rfl

/-- Whether an integer has too many digits to be read. -/
def IsLong (strict : Bool) (n : Int) : Prop :=
  isTooLong strict (decide (n < 0)) true (digits n.natAbs) = true

/-- A stored integer is too long when its text is. -/
theorem isLong_true_iff (n : Int) : IsLong true n ↔ mostDigits < (signedDigits n).length := by
  simp only [IsLong, isTooLong, if_true, decide_eq_true_eq, signedDigits]
  split <;> simp [*]

/-- Elsewhere an integer is too long when its digits are, whatever its sign. -/
theorem isLong_false_iff (n : Int) : IsLong false n ↔ mostDigits < (digits n.natAbs).length := by
  simp [IsLong, isTooLong]

theorem readNumber_signedDigits (strict : Bool) (n : Int) {rest : List Char} (hrest : Closes rest)
    {result : Value × List Char} :
    readNumber strict (signedDigits n ++ rest) = .ok result ↔
      ¬ IsLong strict n ∧ result = (.integer n, rest) := by
  have htext : signedDigits n =
      if decide (n < 0) then '-' :: (digits n.natAbs ++ (pointed [] ++ []))
      else digits n.natAbs ++ (pointed [] ++ []) := by
    simp [signedDigits, pointed]
  have hvalue : (if decide (n < 0) then -(ofDigits (digits n.natAbs) : Int)
      else ofDigits (digits n.natAbs)) = n := by
    rw [ofDigits_digits]
    by_cases hn : n < 0
    · rw [if_pos (decide_eq_true hn)]
      omega
    · rw [if_neg (by simpa using hn)]
      omega
  rw [htext, readNumber_signed strict _ (isNumber_digits _),
    readUnsigned_append strict _ (isNumber_digits _) hrest]
  simp only [List.isEmpty_nil, Bool.and_self, if_true, hvalue]
  by_cases hlong : isTooLong strict (decide (n < 0)) true (digits n.natAbs) = true
  · rw [if_pos hlong]
    simp [IsLong, hlong]
  · rw [if_neg hlong]
    simp [IsLong, hlong, eq_comm]

/-! ## Binary64 numbers -/

/-- A finite number in a layout of moderate width is read back. -/
theorem readNumber_finite (strict : Bool) {layout : Layout}
    (hlayout : layout.firstScientific.toNat < mostDigits) (x : Finite) {rest : List Char}
    (hrest : Closes rest) :
    readNumber strict ((layout.text (.finite x)).toList ++ rest) =
      .ok (.float (.finite x), rest) := by
  obtain ⟨whole, fraction, mark, htext, hparts, hsome, hlength, hback⟩ :=
    exists_parts_magnitudeText layout x
  have hfloat : (fraction.isEmpty && mark.isEmpty) = false := by
    rcases hsome with h | h <;> simp [h]
  have hshort : isTooLong strict x.negative false whole = false := by
    have hsign : x.negative.toNat ≤ 1 := Bool.toNat_le _
    have hfew : whole.length + x.negative.toNat ≤ mostDigits := by
      simp only [mostDigits] at hlayout ⊢
      omega
    cases strict <;> simp [isTooLong, hfew]
  simp only [Layout.text, String.toList_ofList]
  rw [htext, readNumber_signed strict _ hparts, readUnsigned_append strict _ hparts hrest]
  simp only [hfloat, hshort, Bool.false_eq_true, if_false]
  rw [← htext, hback]

end FederationGraph.Json
