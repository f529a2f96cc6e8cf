import FederationGraph.Proofs.FieldSet.Enclosing
import FederationGraph.Proofs.Path

/-!
# Any text is a brace structure

A field set need not be balanced to be read. What stands at a name is told by the
tokens in front of it alone: which scopes they leave open, and which of those
belong to a name. There is one selection for each name, its path leads through the
names whose braces are open there, and a path's containers are selected ahead of it.
-/
namespace FederationGraph.FieldSet

/-- The name that a token holds, if it is no brace. -/
def Token.name? : Token → Option String
  | .name text => some text
  | _ => none

/-- The name right behind which one stands. Tokens seen are given last one first. -/
def nameInFront : List Token → Option String
  | .name text :: _ => some text
  | _ => none

/-- The scopes that the tokens seen leave open, innermost first. An opening brace opens the name
right in front of it, or else an anonymous scope; a closing brace closes the innermost scope, if
there is one. -/
def scopesBehind : List Token → List (Option String)
  | [] => []
  | .opening :: seen => nameInFront seen :: scopesBehind seen
  | .closing :: seen => (scopesBehind seen).tail
  | .name _ :: seen => scopesBehind seen

/-- The names whose braces are open behind tokens in document order, outermost first. -/
def namesOpenBehind (front : List Token) : List String :=
  (openNames (scopesBehind front.reverse)).reverse

/-- Selections that read tokens as a brace structure: one for each name, with the path through the
names whose braces are open there; without dots in names, containers come first. -/
structure ReadsBraces (tokens : List Token) (selections : List Selection) : Prop where
  fields : selections.map Selection.field = tokens.filterMap Token.name?
  paths : ∀ front name rest, tokens = front ++ .name name :: rest →
    selections[(front.filterMap Token.name?).length]? =
      some ⟨name, Path.ofNames (namesOpenBehind front ++ [name])⟩
  containers : (∀ name, .name name ∈ tokens → '.' ∉ name.toList) →
    ∀ earlier selection later, selections = earlier ++ selection :: later →
      ∀ stem, Path.continues stem selection.path = true →
        ∃ container ∈ earlier, container.path = stem

theorem map_name_occurrencesFrom (scopes : List (Option String)) (before : Option String)
    (tokens : List Token) :
    (occurrencesFrom scopes before tokens).map Occurrence.name = tokens.filterMap Token.name? := by
  induction tokens generalizing scopes before with
  | nil => rfl
  | cons token rest ih =>
    cases token with
    | opening => exact ih (before :: scopes) none
    | closing => exact ih scopes.tail none
    | name text => exact congrArg (text :: ·) (ih scopes (some text))

/-- Reading goes on from the scopes that the tokens seen leave open. -/
theorem occurrencesFrom_append (seen tokens rest : List Token) :
    occurrencesFrom (scopesBehind seen) (nameInFront seen) (tokens ++ rest) =
      occurrencesFrom (scopesBehind seen) (nameInFront seen) tokens ++
        occurrencesFrom (scopesBehind (tokens.reverse ++ seen))
          (nameInFront (tokens.reverse ++ seen)) rest := by
  induction tokens generalizing seen with
  | nil => rfl
  | cons token tokens ih =>
    have hseen : (token :: tokens).reverse ++ seen = tokens.reverse ++ token :: seen := by simp
    rw [hseen, List.cons_append]
    cases token with
    | opening => exact ih (.opening :: seen)
    | closing => exact ih (.closing :: seen)
    | name text => exact congrArg (_ :: ·) (ih (.name text :: seen))

theorem occurrencesFrom_name (front rest : List Token) (name : String) :
    occurrencesFrom [] none (front ++ .name name :: rest) =
      occurrencesFrom [] none front ++ ⟨namesOpenBehind front, name⟩ ::
        occurrencesFrom (scopesBehind front.reverse) (some name) rest := by
  have h := occurrencesFrom_append [] front (.name name :: rest)
  rwa [List.append_nil] at h

/-- Every strict prefix of a path, cut at a dot, is the path of an earlier selection. -/
theorem exists_earlier_selection {fieldSet : String}
    (dotFree : ∀ name, .name name ∈ tokens fieldSet → '.' ∉ name.toList)
    {earlier later : List Selection} {selection : Selection}
    (h : selections fieldSet = earlier ++ selection :: later) {stem : String}
    (hstem : Path.continues stem selection.path = true) :
    ∃ container ∈ earlier, container.path = stem := by
  rw [selections_eq] at h
  obtain ⟨front, behind, hsplit, rfl, hbehind⟩ := List.map_eq_append_iff.mp h
  obtain ⟨o, back, rfl, rfl, rfl⟩ := List.map_eq_cons_iff.mp hbehind
  have ho : o ∈ occurrencesFrom [] none (tokens fieldSet) := by
    rw [hsplit]
    exact List.mem_append_right _ List.mem_cons_self
  obtain ⟨hfront, hne⟩ := Path.continues_iff_segments.mp hstem
  have hpath : Path.segments o.selection.path = o.names :=
    segments_ofNames_of_mem dotFree ho List.prefix_rfl (by simp [Occurrence.names])
  have hshorter : Path.segments stem ≠ o.names :=
    fun he => hne (Path.segments_inj.mp (he.trans hpath.symm))
  rw [hpath] at hfront
  obtain ⟨p, hp, hnames⟩ :=
    exists_earlier_occurrence hsplit hfront (Path.segments_ne_nil stem) hshorter
  refine ⟨p.selection, List.mem_map_of_mem hp, ?_⟩
  rw [Occurrence.selection, hnames, Path.ofNames_segments]

/-- Every text is read as the brace structure of its tokens, balanced or not. -/
theorem readsBraces_selections (fieldSet : String) :
    ReadsBraces (tokens fieldSet) (selections fieldSet) where
  fields := by
    rw [selections_eq, List.map_map]
    exact map_name_occurrencesFrom [] none _
  paths front name rest h := by
    have hcount : (front.filterMap Token.name?).length =
        ((occurrencesFrom [] none front).map Occurrence.selection).length := by
      rw [← map_name_occurrencesFrom [] none, List.length_map, List.length_map]
    rw [selections_eq, h, occurrencesFrom_name, List.map_append, List.map_cons, hcount,
      List.getElem?_append_right (Nat.le_refl _), Nat.sub_self, List.getElem?_cons_zero]
    rfl
  containers dotFree _ _ _ h _ hstem := exists_earlier_selection dotFree h hstem

/-- Stray, doubled, leading and missing braces. -/
example : selections "\x7d a \x7b \x7b b \x7d c \x7d \x7b d \x7b e" =
    [⟨"a", "a"⟩, ⟨"b", "a.b"⟩, ⟨"c", "a.c"⟩, ⟨"d", "d"⟩, ⟨"e", "d.e"⟩] := by decide +kernel

end FederationGraph.FieldSet
