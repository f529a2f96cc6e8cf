import FederationGraph.FieldSet.Token
import Mathlib.Data.List.TakeWhile

/-!
# Spreads and braces

Leaving out spreads is a walk over the tokens that knows what the spread at hand
still waits for. A brace ends the wait for a name and stands for itself. The type
behind a condition word is different: it is taken for the spread whatever it is. So
a brace is lost exactly if it stands where that type should, and all others are kept
in their order.
-/
namespace FederationGraph.FieldSet

/-- What the spread at hand still waits for. -/
inductive Awaiting where
  | nothing
  /-- A fragment name or the condition word, behind a bare mark. -/
  | spreadName
  /-- A type, behind a bare mark and the condition word. -/
  | type
  /-- A type, behind a mark that is joined to the condition word. -/
  | joinedType
  deriving DecidableEq, Repr

namespace Awaiting

/-- What is waited for behind a token. -/
def next : Awaiting → Token → Awaiting
  | .nothing, .name text =>
    if text = spreadMark then .spreadName
    else if text = spreadMark ++ conditionWord then .joinedType
    else .nothing
  | .spreadName, .name text => if text = conditionWord then .type else .nothing
  | _, _ => .nothing

/-- Whether a token belongs to a spread. -/
def takes : Awaiting → Token → Bool
  | .type, _ => true
  | .nothing, .name text => isSpread text
  | _, token => !token.isBrace

/-- The tokens that belong to no spread. -/
def untaken (awaiting : Awaiting) : List Token → List Token
  | [] => []
  | token :: rest =>
    if awaiting.takes token then (awaiting.next token).untaken rest
    else token :: (awaiting.next token).untaken rest

theorem untaken_nil (awaiting : Awaiting) : awaiting.untaken [] = [] := rfl

theorem untaken_type (token : Token) (rest : List Token) :
    type.untaken (token :: rest) = nothing.untaken rest := by
  cases token <;> rfl

theorem untaken_spreadName (text : String) (rest : List Token) :
    spreadName.untaken (.name text :: rest) =
      if text = conditionWord then type.untaken rest else nothing.untaken rest :=
  apply_ite (untaken · rest) _ type nothing

theorem untaken_joinedType (text : String) (rest : List Token) :
    joinedType.untaken (.name text :: rest) = nothing.untaken rest := rfl

/-- Waiting for a name ends at a brace. -/
theorem untaken_brace {awaiting : Awaiting} (h : awaiting ≠ .type) {brace : Token}
    (hb : brace.isBrace = true) (rest : List Token) :
    awaiting.untaken (brace :: rest) = brace :: nothing.untaken rest := by
  cases brace with
  | name text => cases hb
  | opening | closing =>
    cases awaiting with
    | type => exact absurd rfl h
    | nothing | spreadName | joinedType => rfl

end Awaiting

open Awaiting

/-- What follows a mark is taken for it as far as it belongs to it. -/
theorem untaken_drop_spreadLength (mark : String) (rest : List Token) :
    (nothing.next (.name mark)).untaken rest =
      nothing.untaken (rest.drop (spreadLength mark rest)) := by
  cases rest with
  | nil => rw [untaken_nil, List.drop_nil, untaken_nil]
  | cons token rest =>
    cases token with
    | opening | closing =>
      have hne : nothing.next (.name mark) ≠ .type := by
        rw [next]
        split_ifs <;> decide
      rw [untaken_brace hne rfl]
      exact (untaken_brace (by decide) rfl rest).symm
    | name text =>
      rw [next, spreadLength]
      by_cases hmark : mark = spreadMark
      · rw [if_pos hmark, if_pos hmark, untaken_spreadName]
        by_cases htext : text = conditionWord
        · rw [if_pos htext, if_pos htext, List.drop_succ_cons]
          cases rest with
          | nil => rfl
          | cons taken rest => rw [untaken_type, List.drop_succ_cons, List.drop_zero]
        · rw [if_neg htext, if_neg htext, List.drop_succ_cons, List.drop_zero]
      · rw [if_neg hmark, if_neg hmark]
        by_cases hjoined : mark = spreadMark ++ conditionWord
        · rw [if_pos hjoined, if_pos hjoined, untaken_joinedType, List.drop_succ_cons,
            List.drop_zero]
        · rw [if_neg hjoined, if_neg hjoined, List.drop_zero]

/-- Leaving out spreads one after the other is the walk that starts out waiting for nothing. -/
theorem dropSpreads_eq_untaken (tokens : List Token) :
    dropSpreads tokens = nothing.untaken tokens := by
  induction tokens using dropSpreads.induct with
  | case1 => rw [dropSpreads, untaken_nil]
  | case2 mark rest hspread ih =>
    rw [dropSpreads, if_pos hspread, ih, ← untaken_drop_spreadLength, untaken, takes,
      if_pos hspread]
  | case3 text rest hspread ih =>
    have hnext : nothing.next (.name text) = .nothing := by
      rw [next, if_neg, if_neg]
      · rintro rfl
        exact hspread (by decide)
      · rintro rfl
        exact hspread (by decide)
    rw [dropSpreads, if_neg hspread, ih, untaken, takes, if_neg hspread, hnext]
  | case4 brace rest hbrace ih =>
    have hb : brace.isBrace = true := by
      cases brace with
      | name text => exact absurd rfl (hbrace text)
      | _ => rfl
    rw [untaken_brace (by decide) hb, ← ih]
    cases brace with
    | name text => cases hb
    | _ =>
      rw [dropSpreads]
      exact nofun

/-! ## Braces -/

/-- The token that a character makes if it is a brace. -/
def brace? (c : Char) : Option Token :=
  if c = '{' then some .opening else if c = '}' then some .closing else none

theorem brace?_of_isNameChar {c : Char} (h : isNameChar c = true) : brace? c = none := by
  rw [brace?, if_neg, if_neg]
  · rintro rfl
    exact absurd h (by decide)
  · rintro rfl
    exact absurd h (by decide)

/-- The braces among the tokens of a text are the braces of the text. -/
theorem filter_isBrace_rawTokens (text : List Char) :
    (rawTokens text).filter Token.isBrace = text.filterMap brace? := by
  induction text using rawTokens.induct with
  | case1 =>
    rw [rawTokens]
    rfl
  | case2 rest ih =>
    rw [rawTokens, if_pos rfl]
    exact congrArg (_ :: ·) ih
  | case3 rest _ ih =>
    rw [rawTokens, if_neg (by decide), if_pos rfl]
    exact congrArg (_ :: ·) ih
  | case4 c rest hopening hclosing hseparator ih =>
    have hc : brace? c = none := by rw [brace?, if_neg hopening, if_neg hclosing]
    rw [rawTokens, if_neg hopening, if_neg hclosing, if_pos hseparator, ih,
      List.filterMap_cons_none hc]
  | case5 c rest hopening hclosing hseparator ih =>
    have hc : brace? c = none := by rw [brace?, if_neg hopening, if_neg hclosing]
    have hword : (rest.takeWhile isNameChar).filterMap brace? = [] :=
      List.filterMap_eq_nil_iff.mpr fun _ hd => brace?_of_isNameChar (List.mem_takeWhile_imp hd)
    have hrest : rest.filterMap brace? = (rest.dropWhile isNameChar).filterMap brace? := by
      calc rest.filterMap brace?
        _ = (rest.takeWhile isNameChar ++ rest.dropWhile isNameChar).filterMap brace? := by
          rw [List.takeWhile_append_dropWhile]
        _ = (rest.dropWhile isNameChar).filterMap brace? := by
          rw [List.filterMap_append, hword, List.nil_append]
    rw [rawTokens, if_neg hopening, if_neg hclosing, if_neg hseparator,
      List.filter_cons_of_neg (by simp [Token.isBrace]), ih, List.filterMap_cons_none hc, hrest]

theorem untaken_sublist (awaiting : Awaiting) (tokens : List Token) :
    (awaiting.untaken tokens).Sublist tokens := by
  induction tokens generalizing awaiting with
  | nil => exact List.Sublist.refl []
  | cons token rest ih =>
    rw [untaken]
    split
    · exact (ih _).cons token
    · exact (ih _).cons_cons token

/-- Whether no brace stands where the type of a spread's condition is waited for. -/
def Completes (awaiting : Awaiting) (tokens : List Token) : Prop :=
  ∀ front token rest, tokens = front ++ token :: rest → front.foldl next awaiting = .type →
    token.isBrace = false

theorem completes_cons {awaiting : Awaiting} {token : Token} {rest : List Token} :
    Completes awaiting (token :: rest) ↔
      (awaiting = .type → token.isBrace = false) ∧ Completes (awaiting.next token) rest := by
  constructor
  · intro h
    refine ⟨h [] token rest rfl, fun front other behind hrest => ?_⟩
    exact h (token :: front) other behind (congrArg (token :: ·) hrest)
  · rintro ⟨hfirst, hrest⟩ front other behind he hfold
    cases front with
    | nil =>
      obtain ⟨rfl, -⟩ := List.cons.inj he
      exact hfirst hfold
    | cons first front =>
      obtain ⟨rfl, htail⟩ := List.cons.inj he
      exact hrest front other behind htail hfold

theorem filter_isBrace_untaken_iff (awaiting : Awaiting) (tokens : List Token) :
    (awaiting.untaken tokens).filter Token.isBrace = tokens.filter Token.isBrace ↔
      Completes awaiting tokens := by
  induction tokens generalizing awaiting with
  | nil =>
    refine iff_of_true rfl fun front token rest h => ?_
    exact absurd h (by simp)
  | cons token rest ih =>
    rw [completes_cons, ← ih]
    cases hb : token.isBrace with
    | false =>
      have hsame : (awaiting.untaken (token :: rest)).filter Token.isBrace =
          ((awaiting.next token).untaken rest).filter Token.isBrace := by
        rw [untaken]
        split
        · rfl
        · rw [List.filter_cons_of_neg (by simp [hb])]
      rw [hsame, List.filter_cons_of_neg (by simp [hb])]
      simp
    | true =>
      rw [List.filter_cons_of_pos hb]
      by_cases htype : awaiting = .type
      · -- the brace is taken, so there are too few behind it to make up for it
        subst htype
        refine iff_of_false (fun h => ?_) (by simp)
        have hle := ((untaken_sublist .nothing rest).filter Token.isBrace).length_le
        rw [untaken_type] at h
        rw [h, List.length_cons] at hle
        exact absurd hle (Nat.not_succ_le_self _)
      · have hnext : awaiting.next token = .nothing := by
          cases token with
          | name text => cases hb
          | _ => cases awaiting <;> rfl
        rw [untaken_brace htype hb, List.filter_cons_of_pos hb, List.cons_inj_right, hnext]
        simp [htype]

/-- The braces that remain without spreads are braces of the text in their order. All of them remain
exactly if none stands where the type of a spread's condition is waited for. -/
theorem filter_isBrace_tokens (fieldSet : String) :
    ((tokens fieldSet).filter Token.isBrace).Sublist (fieldSet.toList.filterMap brace?) ∧
      ((tokens fieldSet).filter Token.isBrace = fieldSet.toList.filterMap brace? ↔
        Completes .nothing (rawTokens fieldSet.toList)) := by
  rw [tokens, dropSpreads_eq_untaken, ← filter_isBrace_rawTokens]
  exact ⟨(untaken_sublist _ _).filter _, filter_isBrace_untaken_iff _ _⟩

/-- A brace right behind a bare mark and the condition word is lost. -/
theorem filter_isBrace_of_missing_type :
    ¬ ∀ fieldSet : String,
      (tokens fieldSet).filter Token.isBrace = fieldSet.toList.filterMap brace? := by
  intro hall
  have hkept : tokens "... on { a }" = [.name "a", .closing] := by decide +kernel
  have hbraces : "... on { a }".toList.filterMap brace? = [.opening, .closing] := by decide +kernel
  have h := hall "... on { a }"
  rw [hkept, hbraces] at h
  exact absurd h (by decide)

end FederationGraph.FieldSet
