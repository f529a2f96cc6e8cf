import FederationGraph.Proofs.FieldSet.Scope
import FederationGraph.Proofs.FieldSet.Written

/-!
# Selection forests

A field set without fragment spreads writes a forest: a list of names, each
without braces or with a braced list of its own. Reading gives the nodes of the
forest in preorder, each with the names from the root down to it, whichever way
the forest was written.
-/
namespace FederationGraph.FieldSet

/-- A name that can stand for a field: one word that is no fragment spread. -/
structure FieldName where
  text : String
  word : IsWord text
  notSpread : isSpread text = false

/-- A list of fields, each without braces or with a braced list of fields. -/
inductive Forest where
  | nil
  | leaf (name : FieldName) (rest : Forest)
  | node (name : FieldName) (children rest : Forest)

namespace Forest

def tokens : Forest → List Token
  | nil => []
  | leaf name rest => .name name.text :: rest.tokens
  | node name children rest =>
    .name name.text :: .opening :: (children.tokens ++ .closing :: rest.tokens)

/-- The nodes of a forest in preorder, each below the given names. -/
def occurrences (above : List String) : Forest → List Occurrence
  | nil => []
  | leaf name rest => ⟨above, name.text⟩ :: rest.occurrences above
  | node name children rest =>
    ⟨above, name.text⟩ :: (children.occurrences (above ++ [name.text]) ++ rest.occurrences above)

/-- The name right behind which a forest ends, if it ends with a name. -/
def endsWith (before : Option String) : Forest → Option String
  | nil => before
  | leaf name rest => rest.endsWith (some name.text)
  | node _ _ rest => rest.endsWith none

def append : Forest → Forest → Forest
  | nil, other => other
  | leaf name rest, other => leaf name (rest.append other)
  | node name children rest, other => node name children (rest.append other)

theorem occurrences_append (forest other : Forest) (above : List String) :
    (forest.append other).occurrences above =
      forest.occurrences above ++ other.occurrences above := by
  induction forest with
  | nil => rfl
  | leaf name rest ih => rw [append, occurrences, occurrences, ih, List.cons_append]
  | node name children rest _ ih =>
    rw [append, occurrences, occurrences, ih, List.cons_append, List.append_assoc]

theorem exists_of_mem_tokens {forest : Forest} {text : String} (h : .name text ∈ forest.tokens) :
    ∃ name : FieldName, name.text = text := by
  induction forest with
  | nil => cases h
  | leaf name rest ih =>
    rcases List.mem_cons.mp h with he | h
    · exact ⟨name, (Token.name.inj he).symm⟩
    · exact ih h
  | node name children rest ihc ihr =>
    rcases List.mem_cons.mp h with he | h
    · exact ⟨name, (Token.name.inj he).symm⟩
    · simp only [List.mem_cons, reduceCtorEq, List.mem_append, false_or] at h
      exact h.elim ihc ihr

/-- Whether no name of a forest holds a dot. -/
def DotFree : Forest → Prop
  | nil => True
  | leaf name rest => '.' ∉ name.text.toList ∧ rest.DotFree
  | node name children rest => '.' ∉ name.text.toList ∧ children.DotFree ∧ rest.DotFree

/-- The path to a node of a forest without dots has no other dots than those that join it. -/
theorem DotFree.names {forest : Forest} (h : forest.DotFree) {above : List String}
    (ha : ∀ name ∈ above, '.' ∉ name.toList) {o : Occurrence} (ho : o ∈ forest.occurrences above) :
    ∀ name ∈ o.names, '.' ∉ name.toList := by
  have hsnoc : ∀ {above : List String} {last : String}, (∀ name ∈ above, '.' ∉ name.toList) →
      '.' ∉ last.toList → ∀ name ∈ above ++ [last], '.' ∉ name.toList := by
    intro above last ha hl name hn
    rcases List.mem_append.mp hn with hn | hn
    · exact ha name hn
    · exact List.mem_singleton.mp hn ▸ hl
  induction forest generalizing above with
  | nil => cases ho
  | leaf name rest ih =>
    rcases List.mem_cons.mp ho with rfl | ho
    · exact hsnoc ha h.1
    · exact ih h.2 ha ho
  | node name children rest ihc ihr =>
    rcases List.mem_cons.mp ho with rfl | ho
    · exact hsnoc ha h.1
    · rcases List.mem_append.mp ho with ho | ho
      · exact ihc h.2.1 (hsnoc ha h.1) ho
      · exact ihr h.2.2 ha ho

end Forest

theorem dropSpreads_eq_self {tokens : List Token}
    (h : ∀ text, .name text ∈ tokens → isSpread text = false) : dropSpreads tokens = tokens := by
  induction tokens with
  | nil => rw [dropSpreads]
  | cons token rest ih =>
    have hr := ih fun text ht => h text (List.mem_cons_of_mem _ ht)
    cases token with
    | name text => rw [dropSpreads, h text List.mem_cons_self, if_neg (by decide), hr]
    | opening => rw [dropSpreads, hr]; simp
    | closing => rw [dropSpreads, hr]; simp

theorem tokens_of_written {forest : Forest} {text : String}
    (h : Written forest.tokens text.toList) : tokens text = forest.tokens := by
  have words : ∀ word, .name word ∈ forest.tokens → IsWord word := by
    intro word hw
    obtain ⟨name, rfl⟩ := Forest.exists_of_mem_tokens hw
    exact name.word
  rw [tokens, rawTokens_of_written h words]
  apply dropSpreads_eq_self
  intro name hn
  obtain ⟨name, rfl⟩ := Forest.exists_of_mem_tokens hn
  exact name.notSpread

/-- The brace structure of a forest is the forest, whatever stands around it. -/
theorem occurrencesFrom_forest (forest : Forest) (scopes : List (Option String))
    (before : Option String) (rest : List Token) :
    occurrencesFrom scopes before (forest.tokens ++ rest) =
      forest.occurrences (openNames scopes).reverse ++
        occurrencesFrom scopes (forest.endsWith before) rest := by
  induction forest generalizing scopes before rest with
  | nil => rfl
  | leaf name siblings ih =>
    rw [Forest.tokens, List.cons_append, occurrencesFrom, ih]
    rfl
  | node name children siblings ihc ihs =>
    simp only [Forest.tokens, List.cons_append, List.append_assoc, occurrencesFrom, ihc, ihs,
      reverse_openNames_cons, Option.toList_some, List.tail_cons, Forest.occurrences,
      Forest.endsWith]

/-- Every way to write a forest is read as the nodes of the forest in preorder, each with its name
and with the names from the root down to it joined with dots. -/
theorem selections_of_written_forest (forest : Forest) (text : String)
    (h : Written forest.tokens text.toList) :
    selections text = (forest.occurrences []).map fun o =>
      ⟨o.name, Path.ofNames (o.enclosing ++ [o.name])⟩ := by
  have hr := occurrencesFrom_forest forest [] none []
  rw [List.append_nil] at hr
  rw [selections_eq, tokens_of_written h, hr, occurrencesFrom, List.append_nil]
  rfl

/-- Empty braces, a name below itself, and commas for blanks. -/
theorem selections_of_empty_and_nested_braces :
    Written [.name "a", .opening, .name "b", .opening, .closing, .name "a", .closing, .name "c"]
      "a{b{},a} ,c".toList ∧
    selections "a{b{},a} ,c" = [⟨"a", "a"⟩, ⟨"b", "a.b"⟩, ⟨"a", "a.a"⟩, ⟨"c", "c"⟩] := by
  let a : FieldName := ⟨"a", by decide, by decide⟩
  let b : FieldName := ⟨"b", by decide, by decide⟩
  let c : FieldName := ⟨"c", by decide, by decide⟩
  have ht : "a{b{},a} ,c".toList = "a".toList ++ '{' :: ("b".toList ++ '{' :: '}' :: ',' ::
      ("a".toList ++ '}' :: ' ' :: ',' :: ("c".toList ++ []))) := by decide
  have hw : Written [.name "a", .opening, .name "b", .opening, .closing, .name "a", .closing,
      .name "c"] "a{b{},a} ,c".toList := by
    rw [ht]
    exact .name nofun <| .opening <| .name nofun <| .opening <| .closing <|
      .separator (by decide) <| .name nofun <| .closing <| .separator (by decide) <|
      .separator (by decide) <| .name nofun .done
  refine ⟨hw, ?_⟩
  let forest : Forest := .node a (.node b .nil (.leaf a .nil)) (.leaf c .nil)
  exact (selections_of_written_forest forest _ hw).trans (by decide)

end FederationGraph.FieldSet
