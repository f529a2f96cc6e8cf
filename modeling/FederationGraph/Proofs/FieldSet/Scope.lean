import FederationGraph.FieldSet.Selection

/-!
# The brace structure of a field set

The reader looks one token ahead to tell whether the braces behind a name are
coming. Below the same structure is read with a single stack and a look back: an
opening brace opens the name right in front of it, or an anonymous scope if
there is none, and a closing brace closes the innermost open scope. Both readings
give the same selections, for balanced texts and for all others.
-/
namespace FederationGraph.FieldSet

/-- A name in a field set with the names whose braces enclose it, outermost first. -/
structure Occurrence where
  enclosing : List String
  name : String
  deriving DecidableEq, Repr

def Occurrence.names (o : Occurrence) : List String := o.enclosing ++ [o.name]

def Occurrence.selection (o : Occurrence) : Selection := ⟨o.name, Path.ofNames o.names⟩

/-- The names among the open scopes, innermost first; anonymous scopes have none. -/
abbrev openNames (scopes : List (Option String)) : List String := scopes.filterMap id

theorem reverse_openNames_cons (scope : Option String) (scopes : List (Option String)) :
    (openNames (scope :: scopes)).reverse = (openNames scopes).reverse ++ scope.toList := by
  cases scope with
  | none => rw [openNames, List.filterMap_cons_none rfl, Option.toList_none, List.append_nil]
  | some name => exact List.reverse_cons

/-- The names that tokens hold, with the names they are enclosed in. `scopes` are the scopes open
so far, innermost first, and `before` is the name right in front of the tokens, if there is one. -/
def occurrencesFrom (scopes : List (Option String)) (before : Option String) :
    List Token → List Occurrence
  | [] => []
  | .opening :: rest => occurrencesFrom (before :: scopes) none rest
  | .closing :: rest => occurrencesFrom scopes.tail none rest
  | .name text :: rest =>
    ⟨(openNames scopes).reverse, text⟩ :: occurrencesFrom scopes (some text) rest

/-- Where the reader stands in front of `rest`: it has taken a name in only if a brace follows. -/
def Cursor.within (scopes : List (Option String)) (before : Option String) (rest : List Token) :
    Cursor :=
  if rest.head? = some .opening then
    ⟨openNames (before :: scopes), scopes.map Option.isSome, before.isSome⟩
  else ⟨openNames scopes, scopes.map Option.isSome, false⟩

theorem Cursor.within_nil (rest : List Token) : Cursor.within [] none rest = .start := by
  unfold Cursor.within
  split <;> rfl

theorem Cursor.within_none (scopes : List (Option String)) (rest : List Token) :
    Cursor.within scopes none rest = ⟨openNames scopes, scopes.map Option.isSome, false⟩ := by
  unfold Cursor.within
  split <;> rfl

theorem advance_name (scopes : List (Option String)) (before : Option String) (text : String)
    (rest : List Token) :
    (Cursor.within scopes before (.name text :: rest)).advance (.name text) rest =
      Cursor.within scopes (some text) rest := by
  simp only [Cursor.within, List.head?_cons, Option.some.injEq, reduceCtorEq, if_false,
    Cursor.advance]
  split <;> rfl

theorem advance_opening (scopes : List (Option String)) (before : Option String)
    (rest : List Token) :
    (Cursor.within scopes before (.opening :: rest)).advance .opening rest =
      Cursor.within (before :: scopes) none rest := by
  rw [Cursor.within_none]
  rfl

theorem advance_closing (scopes : List (Option String)) (before : Option String)
    (rest : List Token) :
    (Cursor.within scopes before (.closing :: rest)).advance .closing rest =
      Cursor.within scopes.tail none rest := by
  rw [Cursor.within_none]
  rcases scopes with _ | ⟨_ | name, scopes⟩ <;> rfl

/-- The selections are those of the brace structure. -/
theorem selectionsFrom_within (scopes : List (Option String)) (before : Option String)
    (tokens : List Token) :
    selectionsFrom (.within scopes before tokens) tokens =
      (occurrencesFrom scopes before tokens).map Occurrence.selection := by
  induction tokens generalizing scopes before with
  | nil => rfl
  | cons token rest ih =>
    cases token with
    | opening => rw [selectionsFrom, advance_opening, ih, occurrencesFrom]; simp
    | closing => rw [selectionsFrom, advance_closing, ih, occurrencesFrom]; simp
    | name text =>
      have hs : (Cursor.within scopes before (.name text :: rest)).select text =
          Occurrence.selection ⟨(openNames scopes).reverse, text⟩ := by
        simp [Cursor.within, Cursor.select, Occurrence.selection, Occurrence.names]
      rw [selectionsFrom, advance_name, ih, occurrencesFrom, List.map_cons, hs]

theorem selections_eq (fieldSet : String) :
    selections fieldSet = (occurrencesFrom [] none (tokens fieldSet)).map Occurrence.selection := by
  rw [selections, ← Cursor.within_nil (tokens fieldSet), selectionsFrom_within]

end FederationGraph.FieldSet
