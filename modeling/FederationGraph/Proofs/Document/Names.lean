import FederationGraph.Proofs.Document.Reads

/-!
# Names in a document

Every name in a document that was read from a text stands in the text as a
token, and the scan makes tokens of names only: a letter or underscore and then
letters, digits and underscores. In particular no name of a document that was
read holds a dot.
-/
namespace FederationGraph

/-- Whether the names in a fragment, those in its directives aside, have a property. -/
structure TypeFragment.Named (N : String → Prop) (f : TypeFragment) : Prop where
  name : N f.name
  interfaces : ∀ interface ∈ f.interfaces, N interface
  fields : ∀ d ∈ f.fields, N d.name ∧ N d.type.namedType

/-- Whether the fragment that a definition contributes, if there is one, has a property. -/
def Definition.Satisfies (P : TypeFragment → Prop) : Definition → Prop
  | .fragment f => P f
  | .other => True

namespace Document

namespace Reader

variable {α : Type} {N : String → Prop}

/-! ## Values and types -/

theorem passes_variableName : Passes N variableName :=
  .then (passes_expect .dollar) fun _ => passes_name

/-- A variable in a constant is never read. -/
theorem reads_variableInConstant {P : Value → Prop} : Reads N variableInConstant P := by
  refine .then passes_front fun _ => .then passes_advance fun _ => .then passes_front fun _ => ?_
  split
  · exact reads_failAt
  · exact reads_failAt

theorem passes_simpleValue (constant : Bool) : Passes N (simpleValue constant) := by
  have taken : ∀ value, Passes N (advance >>= fun _ => pure value : Reader Value) :=
    fun _ => .then passes_advance fun _ => .done
  refine .then passes_front fun token => ?_
  split
  · exact taken _
  · exact taken _
  · exact taken _
  · exact taken _
  · exact taken _
  · exact .ite reads_variableInConstant (.then passes_variableName fun _ => .done)
  · exact reads_unexpected

theorem passes_entry {value : Reader Value} (h : Passes N value) : Passes N (entry value) :=
  .then passes_name fun _ => .then (passes_expect .colon) fun _ => .then h fun _ => .done

-- `rw` and `simp` cannot unfold `value`, whose recursive calls stand behind the step that takes the
-- token; at a known depth both sides are the same for every kind of token
theorem value_zero (constant : Bool) : value constant 0 = (do
    let token ← front
    match token.lexeme with
    | .mark .bracketLeft => failAt token .tooDeep
    | .mark .braceLeft => failAt token .tooDeep
    | _ => simpleValue constant) := by
  delta value
  refine congrArg (front >>= ·) (funext fun token => ?_)
  obtain ⟨lexeme, position⟩ := token
  cases lexeme with
  | mark mark => cases mark <;> rfl
  | _ => rfl

theorem value_succ (constant : Bool) (depth : Nat) : value constant (depth + 1) = (do
    let token ← front
    match token.lexeme with
    | .mark .bracketLeft =>
      return .list (← bracketed .bracketLeft .bracketRight (value constant depth))
    | .mark .braceLeft =>
      return .ofEntries (← bracketed .braceLeft .braceRight (entry (value constant depth)))
    | _ => simpleValue constant) := by
  delta value
  refine congrArg (front >>= ·) (funext fun token => ?_)
  obtain ⟨lexeme, position⟩ := token
  cases lexeme with
  | mark mark => cases mark <;> rfl
  | _ => rfl

theorem passes_value (constant : Bool) (depth : Nat) : Passes N (value constant depth) := by
  induction depth with
  | zero =>
    rw [value_zero]
    refine .then passes_front fun token => ?_
    split
    · exact reads_failAt
    · exact reads_failAt
    · exact passes_simpleValue constant
  | succ depth ih =>
    rw [value_succ]
    refine .then passes_front fun token => ?_
    split
    · exact .then (reads_bracketed ih).passes fun _ => .done
    · exact .then (reads_bracketed (passes_entry ih)).passes fun _ => .done
    · exact passes_simpleValue constant

theorem reads_marked {reference : TypeReference} (h : N reference.namedType) :
    Reads N (marked reference) fun t => N t.namedType :=
  .then (passes_accept .bang) fun _ => .ite (.pure h) (.pure h)

theorem reads_type (depth : Nat) : Reads N (type depth) fun t => N t.namedType := by
  induction depth with
  | zero =>
    refine .then passes_front fun token => .ite ?_ ?_
    · exact .then passes_advance fun _ => .then passes_front fun _ => reads_failAt
    · exact .bind reads_name fun text ht => reads_marked ht
  | succ depth ih =>
    refine .then passes_front fun token => .ite ?_ ?_
    · refine .then passes_advance fun _ => .bind ih fun item hitem => ?_
      exact .then (passes_expect .bracketRight) fun _ => reads_marked hitem
    · exact .bind reads_name fun text ht => reads_marked ht

theorem passes_arguments (constant : Bool) (depth : Nat) : Passes N (arguments constant depth) :=
  (reads_optional (passes_entry (passes_value constant depth))).passes

theorem passes_directive (constant : Bool) (depth : Nat) : Passes N (directive constant depth) :=
  .then (passes_expect .at) fun _ => .then passes_name fun _ =>
    .then (passes_arguments constant depth) fun _ => .done

theorem passes_someDirectives (constant : Bool) (depth fuel : Nat) :
    Passes N (someDirectives constant depth fuel) := by
  induction fuel with
  | zero => exact reads_unexpected
  | succ fuel ih =>
    refine .then (passes_sees .at) fun _ => .ite ?_ .done
    exact .then (passes_directive constant depth) fun _ => .then ih fun _ => .done

theorem passes_directivesAt (constant : Bool) (depth : Nat) :
    Passes N (directivesAt constant depth) :=
  .then reads_get.passes fun _ => passes_someDirectives constant depth _

theorem passes_directives : Passes N directives := passes_directivesAt true depthLimit

theorem passes_description : Passes N description := by
  refine .then passes_front fun token => ?_
  split
  · exact passes_advance
  · exact passes_advance
  · exact .done

/-! ## Operations and fragments -/

theorem passes_field {nested : Reader Unit} (h : Passes N nested) (depth : Nat) :
    Passes N (field nested depth) := by
  have behind : Passes N (do
      let _ ← arguments false depth
      let _ ← directivesAt false depth
      if ← sees .braceLeft then nested) :=
    .then (passes_arguments false depth) fun _ => .then (passes_directivesAt false depth) fun _ =>
      .then (passes_sees .braceLeft) fun _ => .ite h .done
  exact .then passes_name fun _ => .then (passes_accept .colon) fun _ =>
    .ite (.then passes_name fun _ => behind) behind

theorem passes_spread {nested : Reader Unit} (h : Passes N nested) (depth : Nat) :
    Passes N (spread nested depth) := by
  have inline : Passes N (directivesAt false depth >>= fun _ => nested) :=
    .then (passes_directivesAt false depth) fun _ => h
  refine .then (passes_expect .spread) fun _ => .then (passes_acceptWord "on") fun _ => ?_
  refine .then passes_seesName fun _ => .ite ?_ (.ite (.then passes_name fun _ => inline) inline)
  exact .then passes_name fun _ => .then (passes_directivesAt false depth) fun _ => .done

theorem passes_selectionSet (depth : Nat) : Passes N (selectionSet depth) := by
  induction depth with
  | zero => exact .then passes_front fun _ => reads_failAt
  | succ depth ih =>
    refine .then (reads_bracketed (P := fun _ => True) ?_).passes fun _ => .done
    exact .then (passes_sees .spread) fun _ => .ite (passes_spread ih depth) (passes_field ih depth)

/-- What stands behind the name of a variable, an argument or an input field. -/
theorem passes_typedDefault : Passes N (do
    expect .colon
    let _ ← type depthLimit
    if ← accept .equals then
      let _ ← value true depthLimit
    let _ ← directives : Reader Unit) := by
  have last : Passes N (directives >>= fun _ => pure ()) := .then passes_directives fun _ => .done
  refine .then (passes_expect .colon) fun _ => .then (reads_type depthLimit).passes fun _ => ?_
  refine .then (passes_accept .equals) fun _ => .ite ?_ last
  exact .then (passes_value true depthLimit) fun _ => last

theorem passes_variableDefinition : Passes N variableDefinition :=
  .then passes_description fun _ => .then passes_variableName fun _ => passes_typedDefault

theorem passes_operationWord : Passes N operationWord :=
  .then passes_front fun _ => .then passes_name fun _ => .ite reads_failAt .done

theorem passes_operation : Passes N operation := by
  have behind : Passes N (do
      let _ ← optional .parenLeft .parenRight variableDefinition
      let _ ← directivesAt false depthLimit
      selectionSet depthLimit) :=
    .then (reads_optional passes_variableDefinition).passes fun _ =>
      .then (passes_directivesAt false depthLimit) fun _ => passes_selectionSet depthLimit
  refine .then passes_description fun _ => .then passes_operationWord fun _ => ?_
  exact .then passes_seesName fun _ => .ite (.then passes_name fun _ => behind) behind

theorem passes_fragmentName : Passes N fragmentName :=
  .then passes_front fun _ =>
    .ite (.then reads_unexpected fun _ => .then passes_name fun _ => .done)
      (.then passes_name fun _ => .done)

theorem passes_fragmentDefinition : Passes N fragmentDefinition := by
  refine .then passes_description fun _ => .then (passes_expectWord "fragment") fun _ => ?_
  refine .then passes_fragmentName fun _ => .then (passes_expectWord "on") fun _ => ?_
  refine .then passes_name fun _ => .then (passes_directivesAt false depthLimit) fun _ => ?_
  exact passes_selectionSet depthLimit

/-! ## Definitions of the type system -/

theorem passes_inputValue : Passes N inputValue :=
  .then passes_description fun _ => .then passes_name fun _ => passes_typedDefault

theorem passes_argumentDefinitions : Passes N argumentDefinitions :=
  .then (reads_optional passes_inputValue).passes fun _ => .done

theorem reads_fieldDefinition :
    Reads N fieldDefinition fun d => N d.name ∧ N d.type.namedType := by
  refine .then passes_description fun _ => .bind reads_name fun name hname => ?_
  refine .then passes_argumentDefinitions fun _ => .then (passes_expect .colon) fun _ => ?_
  refine .bind (reads_type depthLimit) fun type htype => .then passes_directives fun _ => ?_
  exact .pure ⟨hname, htype⟩

theorem reads_interfaces : Reads N interfaces fun names => ∀ interface ∈ names, N interface :=
  .then (passes_acceptWord "implements") fun _ =>
    .ite (reads_separated reads_name) (.pure (by simp))

theorem reads_typeFragment (isInterface isExtension : Bool) :
    Reads N (typeFragment isInterface isExtension) (TypeFragment.Named N) := by
  refine .bind reads_name fun name hname => .bind reads_interfaces fun names hnames => ?_
  refine .then passes_directives fun _ => ?_
  exact .bind (reads_optional reads_fieldDefinition) fun fields hfields =>
    .pure ⟨hname, hnames, hfields⟩

theorem passes_operationType : Passes N operationType :=
  .then passes_operationWord fun _ => .then (passes_expect .colon) fun _ =>
    .then passes_name fun _ => .done

theorem passes_unionMembers : Passes N unionMembers :=
  .then (passes_accept .equals) fun _ => .ite (reads_separated reads_name).passes .done

theorem passes_enumValue : Passes N enumValue := by
  have behind : Passes N (do
      let _ ← name
      let _ ← directives : Reader Unit) :=
    .then passes_name fun _ => .then passes_directives fun _ => .done
  refine .then passes_description fun _ => .then passes_front fun _ => ?_
  exact .ite (.then reads_failAt fun _ => behind) behind

theorem passes_directiveLocation : Passes N directiveLocation :=
  .then passes_front fun _ => .then passes_name fun _ => .ite reads_failAt .done

theorem passes_directiveDefinition : Passes N directiveDefinition := by
  refine .then (passes_expect .at) fun _ => .then passes_name fun _ => ?_
  refine .then passes_argumentDefinitions fun _ => .then passes_directives fun _ => ?_
  refine .then (passes_acceptWord "repeatable") fun _ => .then (passes_expectWord "on") fun _ => ?_
  exact .then (reads_separated passes_directiveLocation).passes fun _ => .done

/-! ## Definitions that contribute a fragment -/

section Fragments

variable {P : TypeFragment → Prop}

theorem reads_other {m : Reader α} (h : Passes N m) :
    Reads N (m >>= fun _ => pure .other) (Definition.Satisfies P) := .then h fun _ => .pure trivial

theorem passes_needsPart (hasPart : Bool) : Passes N (needsPart hasPart) :=
  .ite .done reads_unexpected

theorem reads_otherExtension {parts : Reader (List α)} (h : Passes N parts) :
    Reads N (otherExtension parts) (Definition.Satisfies P) :=
  .then passes_directives fun _ => .then h fun _ => reads_other (passes_needsPart _)

-- what holds of every fragment that is read holds of every definition that contributes one
variable (fragment : ∀ isInterface isExtension, Reads N (typeFragment isInterface isExtension) P)

include fragment

theorem reads_typeSystemDefinition {word : String} {reader : Reader Definition}
    (h : typeSystemDefinition? word = some reader) : Reads N reader (Definition.Satisfies P) := by
  have directed : ∀ {β : Type} {parts : Reader β}, Passes N parts →
      Reads N (do
        let _ ← name
        let _ ← directives
        let _ ← parts
        return .other) (Definition.Satisfies P) := fun hparts =>
    .then passes_name fun _ => .then passes_directives fun _ => reads_other hparts
  rw [typeSystemDefinition?] at h
  repeat' split at h
  all_goals cases h
  · refine .then passes_directives fun _ => ?_
    exact reads_other (reads_bracketedSome passes_operationType).passes
  · exact .then passes_name fun _ => reads_other passes_directives
  · exact .bind (fragment false false) fun _ hf => .pure hf
  · exact .bind (fragment true false) fun _ hf => .pure hf
  · exact directed passes_unionMembers
  · exact directed (reads_optional passes_enumValue).passes
  · exact directed (reads_optional passes_inputValue).passes
  · exact reads_other passes_directiveDefinition

theorem reads_typeExtension (isInterface : Bool) :
    Reads N (typeExtension isInterface) (Definition.Satisfies P) :=
  .bind (fragment isInterface true) fun _ hf =>
    .then (passes_needsPart _) fun _ => .pure hf

theorem reads_extensionOf {word : String} {reader : Reader Definition}
    (h : extension? word = some reader) : Reads N reader (Definition.Satisfies P) := by
  rw [extension?] at h
  repeat' split at h
  all_goals cases h
  · exact reads_otherExtension (reads_optional passes_operationType).passes
  · exact .then passes_name fun _ => reads_otherExtension .done
  · exact reads_typeExtension fragment false
  · exact reads_typeExtension fragment true
  · exact .then passes_name fun _ => reads_otherExtension passes_unionMembers
  · exact .then passes_name fun _ => reads_otherExtension (reads_optional passes_enumValue).passes
  · exact .then passes_name fun _ => reads_otherExtension (reads_optional passes_inputValue).passes
  · exact .then (passes_expect .at) fun _ => .then passes_name fun _ => reads_otherExtension .done

theorem reads_extension : Reads N extension (Definition.Satisfies P) := by
  refine .then passes_lookahead fun keyword => ?_
  split
  · split
    · rename_i reader hreader
      refine .then passes_advance fun _ => .then passes_advance fun _ => ?_
      exact reads_extensionOf fragment hreader
    · exact reads_failAt
  · exact reads_failAt

theorem reads_keywordDefinition (keyword : Token) (described : Bool) (word : String) :
    Reads N (keywordDefinition keyword described word) (Definition.Satisfies P) := by
  rw [keywordDefinition]
  split
  · rename_i reader hreader
    refine .then passes_description fun _ => .then passes_advance fun _ => ?_
    exact reads_typeSystemDefinition fragment hreader
  · refine .ite (reads_other passes_operation) (.ite (reads_other passes_fragmentDefinition) ?_)
    refine .ite (.then passes_front fun _ => reads_failAt) (.ite ?_ reads_failAt)
    exact reads_extension fragment

theorem reads_definition : Reads N definition (Definition.Satisfies P) := by
  refine .then passes_front fun token => .ite (reads_other (passes_selectionSet depthLimit)) ?_
  -- whether the keyword is in front or behind a description, the same step follows
  refine .ite (.then passes_lookahead ?_) (.then .done ?_)
  all_goals
    intro keyword
    dsimp only
    split
    · exact reads_keywordDefinition fragment keyword _ _
    · exact .ite reads_failAt reads_failAt

theorem reads_definitions (fuel : Nat) :
    Reads N (definitions fuel) fun ds => ∀ d ∈ ds, d.Satisfies P := by
  induction fuel with
  | zero => exact reads_unexpected
  | succ fuel ih =>
    refine .bind (reads_definition fragment) fun first hfirst => .then passes_front fun _ => ?_
    refine .ite ?_ ?_
    · exact .pure (by simpa using hfirst)
    · refine .bind ih fun further hfurther => .pure ?_
      exact List.forall_mem_cons.mpr ⟨hfirst, hfurther⟩

end Fragments

end Reader

/-! ## The tokens that are names -/

/-- A name of the grammar: letters, digits and underscores, with no digit in front. -/
structure IsName (text : String) : Prop where
  start : text.toList.head?.any isNameStart = true
  parts : text.toList.all isNamePart = true

instance (text : String) : Decidable (IsName text) :=
  decidable_of_iff (text.toList.head?.any isNameStart = true ∧ text.toList.all isNamePart = true)
    ⟨fun h => ⟨h.1, h.2⟩, fun h => ⟨h.start, h.parts⟩⟩

theorem IsName.dot_not_mem {text : String} (h : IsName text) : '.' ∉ text.toList := by
  intro hm
  have hdot : isNamePart '.' = true := List.all_eq_true.mp h.parts '.' hm
  exact absurd hdot (by decide)

theorem exists_of_bind_eq_ok {ε α β : Type} {m : Except ε α} {k : α → Except ε β} {value : β}
    (h : m >>= k = .ok value) : ∃ first, m = .ok first ∧ k first = .ok value := by
  cases m with
  | error e => cases h
  | ok first => exact ⟨first, rfl, h⟩

theorem exists_of_map_eq_ok {ε α β : Type} {m : Except ε α} {g : α → β} {value : β}
    (h : m.map g = .ok value) : ∃ first, m = .ok first ∧ g first = value := by
  cases m with
  | error e => cases h
  | ok first => exact ⟨first, rfl, Except.ok.inj h⟩

theorem exists_of_any_toOption {ε α : Type} {m : Except ε α} {p : α → Bool}
    (h : m.toOption.any p = true) : ∃ value, m = .ok value ∧ p value = true := by
  cases m with
  | error e => cases h
  | ok value => exact ⟨value, rfl, h⟩

/-- A number is no name, however it is written. -/
theorem scanNumber_ne_name (chars : List Char) (text : String) (width : Nat) :
    scanNumber chars ≠ .ok (.name text, width) := by
  intro h
  obtain ⟨whole, -, h⟩ := exists_of_bind_eq_ok h
  obtain ⟨fraction, -, h⟩ := exists_of_bind_eq_ok h
  obtain ⟨exponent, -, h⟩ := exists_of_bind_eq_ok h
  generalize (if chars.head? = some '-' then 1 else 0) = sign at h
  dsimp only at h
  split at h
  · cases h
  · have hl := congrArg Prod.fst (Except.ok.inj h)
    dsimp only at hl
    split at hl
    · cases hl
    · cases hl

theorem isName_of_scanToken {c : Char} {rest : List Char} {text : String} {width : Nat}
    (h : scanToken c rest = .ok (.name text, width)) : IsName text := by
  unfold scanToken at h
  split at h
  · cases h
  split at h
  · unfold scanPoint at h
    split at h
    · cases h
    · cases h
    · split at h
      · cases h
      · cases h
  split at h
  · split at h
    · obtain ⟨_, -, he⟩ := exists_of_map_eq_ok h
      cases he
    · obtain ⟨_, -, he⟩ := exists_of_map_eq_ok h
      cases he
  split at h
  · exact absurd h (scanNumber_ne_name _ _ _)
  split at h
  · rename_i hstart
    cases h
    constructor
    · rw [String.toList_ofList]
      exact hstart
    · rw [String.toList_ofList, List.all_cons]
      have hc : isNamePart c = true := by rw [isNamePart, hstart, Bool.true_or]
      rw [hc, Bool.true_and]
      exact List.all_takeWhile
  · split at h
    · cases h
    · cases h

theorem named_of_mem_scanFrom {position : Nat} {chars : List Char} {token : Token}
    (h : token ∈ (scanFrom position chars).tokens) : token.Named IsName := by
  fun_induction scanFrom position chars with
  | case1 =>
    obtain rfl := List.mem_singleton.mp h
    nofun
  | case2 position c rest hignored ih => exact ih h
  | case3 _ _ _ _ ih => exact ih h
  | case4 => cases h
  | case5 position c rest hignored hcomment lexeme width htoken behind ih =>
    rcases List.mem_cons.mp h with rfl | h
    · rintro text rfl
      exact isName_of_scanToken htoken
    · exact ih h

/-- What holds of every fragment that is read from names of the grammar holds of the fragments of a
document. -/
theorem satisfies_of_read {P : TypeFragment → Prop}
    (fragment : ∀ isInterface isExtension,
      Reader.Reads IsName (Reader.typeFragment isInterface isExtension) P)
    {source : String} {document : Document} (h : read source = .ok document) :
    ∀ f ∈ document.fragments, P f := by
  -- the scan makes tokens of names only, and whatever is read was among the tokens
  have hscan : ∀ token ∈ (scan source).tokens, token.Named IsName :=
    fun token ht => named_of_mem_scanFrom ht
  rw [read] at h
  split at h
  · rename_i front behind fault? hs
    rw [hs] at hscan
    obtain ⟨⟨definitions, rest⟩, hr, rfl⟩ := exists_of_map_eq_ok h
    have hnamed : (Input.mk front behind fault?).Named IsName :=
      ⟨hscan front List.mem_cons_self, fun token ht => hscan token (List.mem_cons_of_mem _ ht)⟩
    obtain ⟨hall, -⟩ := Reader.reads_definitions fragment _ _ hnamed _ _ hr
    intro f hf
    obtain ⟨d, hd, hfd⟩ := List.mem_filterMap.mp hf
    have hdn := hall d hd
    cases d with
    | fragment g =>
      cases hfd
      exact hdn
    | other => cases hfd
  · cases h
  · cases h
    simp [fragments]

/-- The names in a document that was read are names of the grammar. -/
theorem named_of_read {source : String} {document : Document} (h : read source = .ok document) :
    ∀ f ∈ document.fragments, f.Named IsName :=
  satisfies_of_read Reader.reads_typeFragment h

end Document

end FederationGraph
