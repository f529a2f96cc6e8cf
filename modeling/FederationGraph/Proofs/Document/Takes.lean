import FederationGraph.Proofs.Document.Lexemes

/-!
# What readers take

A reader that is given the tokens it expects takes them all and leaves what stands
behind them. Which token stands next matters as well: a part that may be left out is
left out in front of any token that does not begin it. Readers in sequence take the
tokens of each in turn.
-/
namespace FederationGraph.Document

/-- The input with one more token in front. -/
def Input.push (token : Token) (input : Input) : Input :=
  ⟨token, input.front :: input.behind, input.fault?⟩

/-- The input with tokens in front of what is ahead. -/
def Input.pushAll (tokens : List Token) (rest : Input) : Input := tokens.foldr Input.push rest

theorem Input.lexeme_pushAll (tokens : List Token) (rest : Input) :
    (rest.pushAll tokens).front.lexeme = (tokens.map Token.lexeme).headD rest.front.lexeme := by
  cases tokens <;> rfl

namespace Reader

/-- `Takes m lexemes next value`: given these lexemes in front of one that is `next`, the reader `m`
takes just them and reads `value`. -/
def Takes {α : Type} (m : Reader α) (lexemes : List Lexeme) (next : Lexeme) (value : α) : Prop :=
  ∀ tokens rest, tokens.map Token.lexeme = lexemes → rest.front.lexeme = next →
    m.run (rest.pushAll tokens) = .ok (value, rest)

variable {α β : Type} {m : Reader α} {k : α → Reader β} {lexemes more : List Lexeme}
  {next : Lexeme} {value : α} {result : β}

/-! ## Steps in sequence -/

theorem Takes.bind (hm : Takes m lexemes (more.headD next) value)
    (hk : Takes (k value) more next result) : Takes (m >>= k) (lexemes ++ more) next result := by
  intro tokens rest ht hnext
  obtain ⟨first, others, rfl, hfirst, hothers⟩ := List.map_eq_append_iff.mp ht
  have hfront : (rest.pushAll others).front.lexeme = more.headD next := by
    rw [Input.lexeme_pushAll, hothers, hnext]
  have hsplit : rest.pushAll (first ++ others) = (rest.pushAll others).pushAll first :=
    List.foldr_append
  rw [hsplit, StateT.run_bind, hm first _ hfirst hfront]
  exact hk others rest hothers hnext

/-- A step that takes nothing. -/
theorem Takes.then (hm : Takes m [] (lexemes.headD next) value)
    (hk : Takes (k value) lexemes next result) : Takes (m >>= k) lexemes next result :=
  hm.bind hk

/-- A step behind which nothing is taken. -/
theorem Takes.last (hm : Takes m lexemes next value) (hk : Takes (k value) [] next result) :
    Takes (m >>= k) lexemes next result := by
  rw [← List.append_nil lexemes]
  exact hm.bind hk

section Items

variable {γ : Type} {close openMark : Mark} {xs : List γ} {lexemesOf : γ → List Lexeme}
  {valueOf : γ → α}

end Items

/-- The value of a lexeme that is one by itself. -/
def single? : Lexeme → Option Value
  | .int text => some (integerValue text)
  | .float text => some (.float (Binary64.ofText text.toList))
  | .quoted text => some (.text text)
  | .block text => some (.text text)
  | .name text => some (namedValue text)
  | _ => none

end Reader

end FederationGraph.Document
