import FederationGraph.Proofs.Document.Body

/-!
# How a definition begins

The first lexemes of a definition settle which reader reads it: a brace, or a keyword that
may stand behind a description, or the two words of an extension. They also settle whether
the definition may have a body or leave it out.
-/
namespace FederationGraph.Document.Reader

variable {α β : Type} {m : Reader α} {k : α → Reader β} {i rest : Input} {value : α}

theorem front_of_begins {lexeme : Lexeme} {lexemes : List Lexeme}
    (h : lexeme :: lexemes <+: i.lexemes) : i.front.lexeme = lexeme :=
  (List.cons_prefix_cons.mp h).1.symm

/-- The input behind the first of two lexemes. -/
theorem exists_next_of_begins {first second : Lexeme} {lexemes : List Lexeme}
    (h : first :: second :: lexemes <+: i.lexemes) :
    ∃ rest, Input.next i = .ok rest ∧ rest.front.lexeme = second := by
  obtain ⟨more, hmore⟩ := h
  obtain ⟨rest, hnext, hl, -⟩ := Input.exists_next hmore.symm (by simp)
  exact ⟨rest, hnext, (List.cons.inj hl).1⟩

theorem run_lookahead {k : Token → Reader β} (hnext : Input.next i = .ok rest) :
    (lookahead >>= k).run i = (k rest.front).run i := by
  have hlook : lookahead.run i = (fun behind => (behind.front, i)) <$> Input.next i := by
    simp [lookahead]
  rw [hnext] at hlook
  exact run_bind_of_eq_ok hlook

theorem run_definition_of_name {word : String} (h : i.front.lexeme = .name word) :
    definition.run i = (keywordDefinition i.front false word).run i := by
  rw [definition, run_front, h, if_neg (by simp)]
  simp [isText, h]

theorem run_definition_of_described {word : String} (ht : isText i.front.lexeme = true)
    (hnext : Input.next i = .ok rest) (hw : rest.front.lexeme = .name word) :
    definition.run i = (keywordDefinition rest.front true word).run i := by
  have hne : i.front.lexeme ≠ .mark .braceLeft := by
    intro he
    rw [he] at ht
    cases ht
  rw [definition, run_front, if_neg hne]
  simp only [ht, if_true]
  rw [run_lookahead hnext]
  simp only [hw]

/-- An input with a keyword in front, behind a description or not. -/
def KeywordAt (word : String) (i : Input) : Prop :=
  i.front.lexeme = .name word ∨
    isText i.front.lexeme = true ∧ ∃ rest, Input.next i = .ok rest ∧ rest.front.lexeme = .name word

/-- Behind a description the keyword is in front. -/
theorem exists_run_description {word : String} (h : KeywordAt word i) :
    ∃ mid, description.run i = .ok ((), mid) ∧ mid.front.lexeme = .name word := by
  rcases h with hname | ⟨htext, rest, hnext, hword⟩
  · refine ⟨i, ?_, hname⟩
    rw [description, run_front, hname]
    rfl
  · have hadvance : advance.run i = .ok ((), rest) := by
      rw [run_advance, hnext]
      rfl
    refine ⟨rest, ?_, hword⟩
    rw [description, run_front]
    cases hl : i.front.lexeme with
    | quoted text => exact hadvance
    | block text => exact hadvance
    | _ =>
      rw [hl] at htext
      cases htext

theorem run_expectWord {word : String} (h : i.front.lexeme = .name word) :
    (expectWord word).run i = advance.run i := by
  rw [expectWord, run_front, if_pos (by rw [h]; exact beq_self_eq_true _)]

theorem exists_run_definition {word : String} (h : KeywordAt word i) :
    ∃ keyword described, definition.run i = (keywordDefinition keyword described word).run i := by
  rcases h with hname | ⟨htext, rest, hnext, hword⟩
  · exact ⟨_, _, run_definition_of_name hname⟩
  · exact ⟨_, _, run_definition_of_described htext hnext hword⟩

theorem run_definition_of_typeSystem {word : String} {reader : Reader Definition}
    (hr : typeSystemDefinition? word = some reader) (h : KeywordAt word i) :
    definition.run i = (do
      description
      expectWord word
      reader : Reader Definition).run i := by
  obtain ⟨keyword, described, hrun⟩ := exists_run_definition h
  obtain ⟨mid, hdescription, hword⟩ := exists_run_description h
  rw [hrun, keywordDefinition, hr]
  dsimp only
  rw [run_bind_of_eq_ok hdescription, run_bind_of_eq_ok hdescription, StateT.run_bind,
    StateT.run_bind, run_expectWord hword]

theorem typeSystemDefinition?_of_isOperation {word : String} (h : isOperation word = true) :
    typeSystemDefinition? word = none := by
  simp only [isOperation, Bool.or_eq_true, beq_iff_eq] at h
  rcases h with (rfl | rfl) | rfl <;> simp [typeSystemDefinition?]

theorem run_definition_of_operation {word : String} (ho : isOperation word = true)
    (h : KeywordAt word i) :
    definition.run i = (do
      operation
      return .other : Reader Definition).run i := by
  obtain ⟨keyword, described, hrun⟩ := exists_run_definition h
  rw [hrun, keywordDefinition, typeSystemDefinition?_of_isOperation ho]
  dsimp only
  rw [if_pos ho]

theorem run_definition_of_fragment (h : KeywordAt "fragment" i) :
    definition.run i = (do
      fragmentDefinition
      return .other : Reader Definition).run i := by
  obtain ⟨keyword, described, hrun⟩ := exists_run_definition h
  have hnone : typeSystemDefinition? "fragment" = none := by simp [typeSystemDefinition?]
  rw [hrun, keywordDefinition, hnone]
  dsimp only
  rw [if_neg (by decide), if_pos rfl]

theorem run_definition_of_extension {word : String} {reader : Reader Definition}
    (hr : extension? word = some reader) (hname : i.front.lexeme = .name "extend")
    (hnext : Input.next i = .ok rest) (hword : rest.front.lexeme = .name word) :
    definition.run i = (do
      expectWord "extend"
      expectWord word
      reader : Reader Definition).run i := by
  have hadvance : advance.run i = .ok ((), rest) := by
    rw [run_advance, hnext]
    rfl
  have hnone : typeSystemDefinition? "extend" = none := by simp [typeSystemDefinition?]
  rw [run_definition_of_name hname, keywordDefinition, hnone]
  dsimp only
  rw [if_neg (by decide), if_neg (by decide), if_neg (by decide), if_pos rfl, extension,
    run_lookahead hnext, hword]
  dsimp only
  rw [hr]
  dsimp only
  rw [run_bind_of_eq_ok hadvance, StateT.run_bind, run_bind_of_eq_ok
    ((run_expectWord hname).trans hadvance), StateT.run_bind, run_expectWord hword]

/-- `Opening lexemes reader`: what begins with these lexemes is read as a definition by `reader`. -/
inductive Opening : List Lexeme → Reader Definition → Prop
  | shorthand : Opening [.mark .braceLeft] (do
      selectionSet depthLimit
      return .other)
  | typeSystem {text? : Option Lexeme} {word : String} {reader : Reader Definition}
      (htext : ∀ text ∈ text?, isText text = true)
      (hreader : typeSystemDefinition? word = some reader) :
      Opening (text?.toList ++ [.name word]) (do
        description
        expectWord word
        reader)
  | operation {text? : Option Lexeme} {word : String} (htext : ∀ text ∈ text?, isText text = true)
      (hword : isOperation word = true) :
      Opening (text?.toList ++ [.name word]) (do
        operation
        return .other)
  | fragment {text? : Option Lexeme} (htext : ∀ text ∈ text?, isText text = true) :
      Opening (text?.toList ++ [.name "fragment"]) (do
        fragmentDefinition
        return .other)
  | extension {word : String} {reader : Reader Definition}
      (hreader : extension? word = some reader) :
      Opening [.name "extend", .name word] (do
        expectWord "extend"
        expectWord word
        reader)

theorem keywordAt_of_begins {text? : Option Lexeme} {word : String}
    (htext : ∀ text ∈ text?, isText text = true) (h : text?.toList ++ [.name word] <+: i.lexemes) :
    KeywordAt word i := by
  cases text? with
  | none => exact .inl (front_of_begins h)
  | some text =>
    have hfront : i.front.lexeme = text := front_of_begins h
    exact .inr ⟨hfront ▸ htext text rfl, exists_next_of_begins h⟩

namespace Opening

variable {opening : List Lexeme} {reader : Reader Definition}

theorem run_definition (h : Opening opening reader) (hi : opening <+: i.lexemes) :
    definition.run i = reader.run i := by
  cases h with
  | shorthand => rw [definition, run_front, if_pos (front_of_begins hi)]
  | typeSystem htext hreader =>
    exact run_definition_of_typeSystem hreader (keywordAt_of_begins htext hi)
  | operation htext hword =>
    exact run_definition_of_operation hword (keywordAt_of_begins htext hi)
  | fragment htext => exact run_definition_of_fragment (keywordAt_of_begins htext hi)
  | extension hreader =>
    obtain ⟨rest, hnext, hword⟩ := exists_next_of_begins hi
    exact run_definition_of_extension hreader (front_of_begins hi) hnext hword

theorem finish_not_mem (h : Opening opening reader) : .finish ∉ opening := by
  have hdescribed : ∀ {text? : Option Lexeme} {word : String},
      (∀ text ∈ text?, isText text = true) → .finish ∉ text?.toList ++ [.name word] := by
    intro text? word htext hmem
    rcases List.mem_append.mp hmem with hm | hm
    · have hfinish := htext .finish (Option.mem_toList.mp hm)
      cases hfinish
    · cases List.mem_singleton.mp hm
  cases h with
  | shorthand => simp
  | typeSystem htext => exact hdescribed htext
  | operation htext => exact hdescribed htext
  | fragment htext => exact hdescribed htext
  | extension => simp

end Opening

theorem lexemes_of_next (hnext : Input.next i = .ok rest) :
    i.lexemes = i.front.lexeme :: rest.lexemes ∨ rest = i := by
  obtain ⟨front, behind, fault?⟩ := i
  cases behind with
  | cons token behind =>
    cases hnext
    exact .inl rfl
  | nil =>
    cases fault? with
    | some fault => cases hnext
    | none =>
      cases hnext
      exact .inr rfl

theorem exists_of_run_lookahead {k : Token → Reader β} {result : β}
    (hrun : (lookahead >>= k).run i = .ok (result, rest)) :
    ∃ behind, Input.next i = .ok behind ∧ (k behind.front).run i = .ok (result, rest) := by
  cases hnext : Input.next i with
  | error fault =>
    have hlook : lookahead.run i = .error fault := by
      have hlook : lookahead.run i = (fun behind => (behind.front, i)) <$> Input.next i := by
        simp [lookahead]
      rw [hlook, hnext]
      rfl
    rw [StateT.run_bind, hlook] at hrun
    cases hrun
  | ok behind => exact ⟨behind, rfl, by rwa [run_lookahead hnext] at hrun⟩

/-- What `extend` begins is an extension that is known. -/
theorem exists_extension {definition : Definition} (hfront : i.front.lexeme = .name "extend")
    (hrun : extension.run i = .ok (definition, rest)) :
    ∃ word reader, extension? word = some reader ∧
      [.name "extend", .name word] <+: i.lexemes := by
  obtain ⟨behind, hnext, hrun⟩ := exists_of_run_lookahead hrun
  split at hrun
  · rename_i word hword
    split at hrun
    · rename_i reader hreader
      refine ⟨word, reader, hreader, ?_⟩
      rcases lexemes_of_next hnext with hl | rfl
      · rw [hl, hfront]
        refine List.cons_prefix_cons.mpr ⟨rfl, ?_⟩
        exact ⟨_, by rw [← hword]; rfl⟩
      · rw [hfront] at hword
        cases hword
        simp [extension?] at hreader
    · cases hrun
  · cases hrun

theorem exists_opening_of_keyword {keyword : Token} (text? : Option Lexeme) {word : String}
    {definition : Definition} (htext : ∀ text ∈ text?, isText text = true)
    (hi : text?.toList ++ [.name word] <+: i.lexemes)
    (hrun : (keywordDefinition keyword text?.isSome word).run i = .ok (definition, rest)) :
    ∃ opening reader, opening <+: i.lexemes ∧ Opening opening reader := by
  rw [keywordDefinition] at hrun
  split at hrun
  · rename_i reader hreader
    exact ⟨_, _, hi, .typeSystem htext hreader⟩
  split at hrun
  · rename_i hword
    exact ⟨_, _, hi, .operation htext hword⟩
  split at hrun
  · rename_i hword
    subst hword
    exact ⟨_, _, hi, .fragment htext⟩
  split at hrun
  · cases hrun
  split at hrun
  · rename_i hnone hword
    subst hword
    obtain rfl : text? = none := by simpa using hnone
    obtain ⟨word, reader, hreader, hi⟩ := exists_extension (front_of_begins hi) hrun
    exact ⟨_, _, hi, .extension hreader⟩
  · cases hrun

/-- Every definition begins in one of these ways. -/
theorem exists_opening {d : Definition} (hrun : definition.run i = .ok (d, rest)) :
    ∃ opening reader, opening <+: i.lexemes ∧ Opening opening reader := by
  by_cases hbrace : i.front.lexeme = .mark .braceLeft
  · exact ⟨_, _, ⟨_, by rw [← hbrace]; rfl⟩, .shorthand⟩
  have hdefinition := hrun
  rw [definition, run_front, if_neg hbrace] at hrun
  cases htext : isText i.front.lexeme with
  | true =>
    simp only [htext, if_true] at hrun
    obtain ⟨behind, hnext, hrun⟩ := exists_of_run_lookahead hrun
    split at hrun
    · rename_i word hword
      rcases lexemes_of_next hnext with hl | rfl
      · refine exists_opening_of_keyword (some i.front.lexeme) ?_ ?_ hrun
        · rintro _ ⟨⟩
          exact htext
        · rw [hl]
          exact List.cons_prefix_cons.mpr ⟨rfl, _, by rw [← hword]; rfl⟩
      · rw [hword] at htext
        cases htext
    · split at hrun
      · cases hrun
      · cases hrun
  | false =>
    simp only [htext, Bool.false_eq_true, if_false, pure_bind] at hrun
    split at hrun
    · rename_i word hword
      rw [run_definition_of_name hword] at hdefinition
      exact exists_opening_of_keyword none nofun ⟨_, by rw [← hword]; rfl⟩ hdefinition
    · split at hrun
      · cases hrun
      · cases hrun

/-- Whether what begins with these lexemes is a definition that may have a body or leave it out. -/
def mayHaveBody : List Lexeme → Bool
  | .quoted _ :: .name word :: _ => bodyWords.contains word
  | .block _ :: .name word :: _ => bodyWords.contains word
  | .name word :: more =>
    if word = "extend" then
      match more with
      | .name extended :: _ => ("schema" :: bodyWords).contains extended
      | _ => false
    else bodyWords.contains word
  | _ => false

theorem mayHaveBody_described {text? : Option Lexeme} {word : String}
    (htext : ∀ text ∈ text?, isText text = true) (hne : word ≠ "extend") (more : List Lexeme) :
    mayHaveBody (text?.toList ++ [.name word] ++ more) = bodyWords.contains word := by
  cases text? with
  | none => exact if_neg hne
  | some text =>
    have ht := htext text rfl
    cases text with
    | quoted text => rfl
    | block text => rfl
    | _ => cases ht

/-- A keyword behind a description, and what it begins. -/
theorem firm_keyword (word : String) (h : Firm m) : Firm (do
    description
    expectWord word
    m) := by
  intro Q next R hl hn
  have hword := keeps_expectWord hl word
  exact (keeps_description hl.atEnds).bind_of_halts hl
    (fun _ => hword.bind fun _ => h hl hn) fun _ => (halts_expectWord word).bind

theorem bodied_keyword (word : String) {reader : Reader Definition} (h : Bodied reader) :
    Bodied (do
      description
      expectWord word
      reader) := by
  have hword : Firm (do
      description
      expectWord word) := by
    have hfirm := firm_keyword word (Firm.done : Firm (pure ()))
    rwa [bind_pure] at hfirm
  have hbare : Bare (do
      description
      expectWord word) := bare_description.bind fun _ => bare_expectWord word
  have hb := h.prepend hword hbare
  rwa [bind_assoc] at hb

namespace Opening

variable {opening : List Lexeme} {reader : Reader Definition}

/-- A definition that may not have a body, or has one always, is firm; one that may have a body or
leave it out is bodied. -/
theorem kind (h : Opening opening reader) (more : List Lexeme) :
    mayHaveBody (opening ++ more) = false ∧ Firm reader ∨
      mayHaveBody (opening ++ more) = true ∧ Bodied reader := by
  cases h with
  | shorthand =>
    have hset : Firm (selectionSet depthLimit) := fun _ _ _ h hn => keeps_selectionSet h hn _
    exact .inl ⟨rfl, hset.bind fun _ => .done⟩
  | typeSystem htext hreader =>
    have hne : ∀ {word reader}, typeSystemDefinition? word = some reader → word ≠ "extend" := by
      rintro _ _ h rfl
      simp [typeSystemDefinition?] at h
    rw [mayHaveBody_described htext (hne hreader)]
    rcases typeSystemDefinition_cases hreader with ⟨hbody, hfirm⟩ | ⟨hbody, hbodied⟩
    · exact .inl ⟨hbody, firm_keyword _ hfirm⟩
    · exact .inr ⟨hbody, bodied_keyword _ hbodied⟩
  | @operation text? word htext hword =>
    have hoperation : Firm Reader.operation := fun _ _ _ h hn => keeps_operation h hn
    refine .inl ⟨?_, hoperation.bind fun _ => .done⟩
    simp only [isOperation, Bool.or_eq_true, beq_iff_eq] at hword
    rcases hword with (rfl | rfl) | rfl <;> exact mayHaveBody_described htext (by decide) more
  | fragment htext =>
    have hfragment : Firm fragmentDefinition := fun _ _ _ h hn => keeps_fragmentDefinition h hn
    exact .inl ⟨mayHaveBody_described htext (by decide) more, hfragment.bind fun _ => .done⟩
  | extension hreader =>
    have hword : ∀ word, Firm (expectWord word) := fun word _ _ _ h _ => keeps_expectWord h word
    rcases extension_cases hreader with ⟨hbody, hfirm⟩ | ⟨hbody, hbodied⟩
    · exact .inl ⟨hbody, (hword _).bind fun _ => (hword _).bind fun _ => hfirm⟩
    · refine .inr ⟨hbody, .prepend (hword _) (bare_expectWord _) ?_⟩
      exact .prepend (hword _) (bare_expectWord _) hbodied

theorem mem_definitionWords {word : String} {reader : Reader Definition}
    (h : typeSystemDefinition? word = some reader) : definitionWords.contains word = true := by
  rw [typeSystemDefinition?] at h
  repeat' split at h
  all_goals cases h
  all_goals
    rename_i hword
    subst hword
    decide

/-- What begins a definition may stand behind another. -/
theorem endsDefinition_head (h : Opening opening reader) :
    ∃ lexeme more, opening = lexeme :: more ∧ endsDefinition lexeme = true := by
  have hdescribed : ∀ {text? : Option Lexeme} {word : String},
      (∀ text ∈ text?, isText text = true) → definitionWords.contains word = true →
      ∃ lexeme more, text?.toList ++ [.name word] = lexeme :: more ∧
        endsDefinition lexeme = true := by
    intro text? word htext hword
    cases text? with
    | none => exact ⟨_, _, rfl, hword⟩
    | some text =>
      have ht := htext text rfl
      cases text with
      | quoted text => exact ⟨_, _, rfl, rfl⟩
      | block text => exact ⟨_, _, rfl, rfl⟩
      | _ => cases ht
  cases h with
  | shorthand => exact ⟨_, _, rfl, rfl⟩
  | typeSystem htext hreader => exact hdescribed htext (mem_definitionWords hreader)
  | operation htext hword =>
    simp only [isOperation, Bool.or_eq_true, beq_iff_eq] at hword
    rcases hword with (rfl | rfl) | rfl <;> exact hdescribed htext (by decide)
  | fragment htext => exact hdescribed htext (by decide)
  | extension => exact ⟨_, _, rfl, by decide⟩

end Opening

end FederationGraph.Document.Reader
