import FederationGraph.Proofs.Document.Behind
import Mathlib.Data.List.Chain

/-!
# Lexemes divided into definitions

A document is its lexemes divided into definitions, each of which begins where the one in
front of it ends. Lexemes in a row, of which each list is a document, are together divided
as each is by itself, unless a document whose last definition leaves out its body stands in
front of one that begins with a brace. Then that brace is taken for the body, and there are
fewer definitions than there would be.
-/
namespace FederationGraph.Document

open Reader

variable {lexemes rest rest' tail : List Lexeme} {d d' : Definition} {document : Document}

/-- `Defines lexemes rest d`: from these lexemes, which end with the text, the definition `d` is
read up to the rest. -/
def Defines (lexemes rest : List Lexeme) (d : Definition) : Prop :=
  ∃ i j : Input, i.Whole ∧ i.lexemes = lexemes ++ [.finish] ∧ definition.run i = .ok (d, j) ∧
    j.lexemes = rest ++ [.finish]

/-- `Divides lexemes document`: these lexemes are divided into the definitions of a document. -/
inductive Divides : List Lexeme → Document → Prop
  | last {lexemes : List Lexeme} {d : Definition} (h : Defines lexemes [] d) : Divides lexemes [d]
  | more {lexemes rest : List Lexeme} {d : Definition} {document : Document}
      (h : Defines lexemes rest d) (hne : rest ≠ []) (hrest : Divides rest document) :
      Divides lexemes (d :: document)

/-- Whether a definition may have a body and has none. -/
def IsOpen (lexemes : List Lexeme) : Prop :=
  mayHaveBody lexemes = true ∧ lexemes.getLast? ≠ some (.mark .braceRight)

/-- Whether the last of the definitions that lexemes are divided into leaves out its body. -/
inductive EndsOpen : List Lexeme → Prop
  | last {lexemes : List Lexeme} {d : Definition} (h : Defines lexemes [] d)
      (hopen : IsOpen lexemes) : EndsOpen lexemes
  | more {lexemes rest : List Lexeme} {d : Definition} (h : Defines lexemes rest d)
      (hne : rest ≠ []) (hopen : EndsOpen rest) : EndsOpen lexemes

/-- Whether no document that ends with an open definition stands in front of one that begins with a
brace. -/
def Parted (documents : List (List Lexeme)) : Prop :=
  documents.IsChain fun a b => EndsOpen a → b.head? ≠ some (.mark .braceLeft)

/-! ## One definition -/

/-- A definition depends on the lexemes alone, and not on where their tokens stand. -/
theorem Defines.run {i : Input} (h : Defines lexemes rest d) (hi : i.Whole)
    (hl : i.lexemes = lexemes ++ [.finish]) :
    ∃ j, definition.run i = .ok (d, j) ∧ j.Whole ∧ j.lexemes = rest ++ [.finish] := by
  obtain ⟨i₀, j₀, hi₀, hl₀, hrun, hj₀⟩ := h
  have hextends : Extends [.finish] 1 i₀ i := ⟨hi₀, hi.fault, lexemes, hl₀, hl⟩
  obtain ⟨j, hrun', hwhole, hfault, front, hfront, hfront'⟩ :=
    run_definition_of_endsDefinition hi₀ hextends hrun rfl nofun
  have hj : j.lexemes = j₀.lexemes := hfront'.trans hfront.symm
  obtain ⟨ends, hends, he⟩ := hwhole.ends
  exact ⟨j, hrun', ⟨hfault, ends, hends, hj.trans he⟩, hj.trans hj₀⟩

/-- What a definition leaves is the end of what it was read from. -/
theorem suffix_of_run_definition {i j : Input} (hi : i.Whole)
    (hrun : definition.run i = .ok (d, j)) : j.Whole ∧ j.lexemes <:+ i.lexemes := by
  obtain ⟨opening, reader, hbegins, hopening⟩ := exists_opening hrun
  rw [hopening.run_definition hbegins] at hrun
  exact hopening.inner.suffix hi hrun

theorem exists_defines {i j : Input} (hi : i.Whole) (hl : i.lexemes = lexemes ++ [.finish])
    (hrun : definition.run i = .ok (d, j)) :
    ∃ rest, j.Whole ∧ j.lexemes = rest ++ [.finish] ∧ Defines lexemes rest d := by
  have hj := (suffix_of_run_definition hi hrun).1
  obtain ⟨rest, -, hrest⟩ := hj.ends
  exact ⟨rest, hj, hrest, i, j, hi, hl, hrun, hrest⟩

theorem Defines.unique (h : Defines lexemes rest d) (h' : Defines lexemes rest' d') :
    d = d' ∧ rest = rest' := by
  obtain ⟨i, j, hi, hl, hrun, hj⟩ := h
  obtain ⟨j', hrun', -, hj'⟩ := h'.run hi hl
  cases hrun.symm.trans hrun'
  exact ⟨rfl, List.append_cancel_right (hj.symm.trans hj')⟩

theorem Defines.finish_not_mem (h : Defines lexemes rest d) : .finish ∉ lexemes := by
  obtain ⟨i, j, hi, hl, -⟩ := h
  obtain ⟨ends, hends, he⟩ := hi.ends
  rwa [List.append_cancel_right (hl.symm.trans he)]

/-- What begins a definition may end another. -/
theorem Defines.exists_cons (h : Defines lexemes rest d) :
    ∃ lexeme more, lexemes = lexeme :: more ∧ endsDefinition lexeme = true := by
  obtain ⟨i, j, -, hl, hrun, -⟩ := h
  obtain ⟨opening, reader, hbegins, hopening⟩ := exists_opening hrun
  obtain ⟨lexeme, more, rfl, hends⟩ := hopening.endsDefinition_head
  rw [hl, List.prefix_concat_iff] at hbegins
  rcases hbegins with heq | ⟨further, rfl⟩
  · exact absurd (heq ▸ List.mem_append_right _ List.mem_cons_self) hopening.finish_not_mem
  · exact ⟨lexeme, _, rfl, hends⟩

theorem Defines.suffix (h : Defines lexemes rest d) : rest <:+ lexemes := by
  obtain ⟨i, j, hi, hl, hrun, hj⟩ := h
  obtain ⟨-, taken, htaken⟩ := suffix_of_run_definition hi hrun
  rw [hl, hj, ← List.append_assoc] at htaken
  exact ⟨taken, List.append_cancel_right htaken⟩

/-- Whether a definition may have a body is settled in front of the end. -/
theorem mayHaveBody_finish (lexemes : List Lexeme) :
    mayHaveBody (lexemes ++ [.finish]) = mayHaveBody lexemes := by
  match lexemes with
  | [] => rfl
  | [first] => cases first <;> rfl
  | first :: second :: more => cases first <;> cases second <;> rfl

theorem exists_whole (h : .finish ∉ lexemes) :
    ∃ i : Input, i.Whole ∧ i.lexemes = lexemes ++ [.finish] := by
  obtain ⟨first, behind, hcons⟩ : ∃ first behind, lexemes ++ [.finish] = first :: behind :=
    List.exists_cons_of_ne_nil (by simp)
  let i : Input := ⟨⟨first, 0⟩, behind.map fun lexeme => ⟨lexeme, 0⟩, none⟩
  have hl : i.lexemes = lexemes ++ [.finish] := by
    rw [hcons, Input.lexemes, List.map_cons, List.map_map]
    exact congrArg (first :: ·) (List.map_id behind)
  exact ⟨i, ⟨rfl, lexemes, h, hl⟩, hl⟩

/-- Where nothing is left of a definition that is not open, what was read ends with a brace. -/
theorem exists_braceRight (hopen : ¬ IsOpen lexemes) (hmay : mayHaveBody lexemes = true) :
    ∃ taken, lexemes = taken ++ [.mark .braceRight] := by
  by_contra hnone
  refine hopen ⟨hmay, fun hlast => hnone ?_⟩
  obtain ⟨taken, htaken⟩ := List.getLast?_eq_some_iff.mp hlast
  exact ⟨taken, htaken⟩

/-- Lexemes behind a definition that do not go on with it. -/
theorem Defines.append (h : Defines lexemes rest d) (htail : .finish ∉ tail)
    (hnext : rest = [] → ∀ lexeme ∈ tail.head?, endsDefinition lexeme = true ∧
      (IsOpen lexemes → lexeme ≠ .mark .braceLeft)) :
    Defines (lexemes ++ tail) (rest ++ tail) d := by
  have hfinish := h.finish_not_mem
  obtain ⟨i, j, hi, hl, hrun, hj⟩ := h
  have hwhole : .finish ∉ lexemes ++ tail := by simp [hfinish, htail]
  obtain ⟨i', hi', hl'⟩ := exists_whole hwhole
  rw [List.append_assoc] at hl'
  obtain ⟨next, more, hcons⟩ : ∃ next more, tail ++ [.finish] = next :: more :=
    List.exists_cons_of_ne_nil (by simp)
  rw [hcons] at hl'
  have hextends : Extends (next :: more) 1 i i' := ⟨hi, hi'.fault, lexemes, hl, hl'⟩
  have hsame : ∃ j', definition.run i' = .ok (d, j') ∧ Extends (next :: more) 1 j j' := by
    by_cases hrest : rest = []
    · have hends : endsDefinition next = true ∧ (IsOpen lexemes → next ≠ .mark .braceLeft) := by
        cases tail with
        | nil =>
          obtain rfl : Lexeme.finish = next := (List.cons.inj hcons).1
          exact ⟨rfl, fun _ => nofun⟩
        | cons lexeme others =>
          obtain rfl : lexeme = next := (List.cons.inj hcons).1
          exact hnext hrest lexeme rfl
      refine run_definition_of_endsDefinition hi hextends hrun hends.1 fun hbrace hmay => ?_
      rw [hl, mayHaveBody_finish] at hmay
      obtain ⟨taken, htaken⟩ := exists_braceRight (fun hopen => hends.2 hopen hbrace) hmay
      exact ⟨taken, by rw [hl, hj, htaken, hrest, List.append_assoc]; rfl⟩
    · refine run_definition_of_not_atEnd hextends hrun fun hend => hrest ?_
      rw [Input.lexemes, hend.behind, List.map_singleton, hend.front] at hj
      exact List.append_left_eq_self.mp hj.symm
  obtain ⟨j', hrun', -, -, front, hfront, hfront'⟩ := hsame
  refine ⟨i', j', hi', by rw [hl', ← hcons, List.append_assoc], hrun', ?_⟩
  rw [hfront', ← hcons, List.append_cancel_right (hfront.symm.trans hj), List.append_assoc]

/-- What stands behind braces that are closed in front of the end stands there whatever follows. -/
theorem behindBraces_append {braces : Nat} {front : List Lexeme}
    (h : behindBraces braces (front ++ [.finish]) = rest ++ [.finish]) (behind : List Lexeme) :
    behindBraces braces (front ++ behind) = rest ++ behind := by
  induction front generalizing braces with
  | nil =>
    cases braces with
    | zero =>
      rw [behindBraces] at h ⊢
      rw [← List.append_cancel_right h]
    | succ braces => simp [behindBraces, bracesBehind] at h
  | cons lexeme front ih =>
    cases braces with
    | zero =>
      rw [behindBraces] at h ⊢
      rw [← List.append_cancel_right h]
    | succ braces => exact ih h

/-- Braces behind an open definition are taken for its body, up to where they are closed. -/
theorem Defines.rest_of_isOpen {front behind : List Lexeme} {whole : Definition}
    (h : Defines lexemes [] d) (hopen : IsOpen lexemes)
    (hbraces : Defines (.mark .braceLeft :: front) rest d')
    (hwhole : Defines (lexemes ++ .mark .braceLeft :: (front ++ behind)) rest' whole) :
    rest' = rest ++ behind := by
  obtain ⟨i', -, hi', hl', -⟩ := id hwhole
  obtain ⟨j', hrun', -, hj'⟩ := hwhole.run hi' hl'
  obtain ⟨i, -, hi, hl, -⟩ := id h
  obtain ⟨j, hrun, hj, hjl⟩ := h.run hi hl
  obtain ⟨k, -, hk, hkl, -⟩ := id hbraces
  obtain ⟨l, hrunk, -, hll⟩ := hbraces.run hk hkl
  have hclosed := lexemes_of_run_shorthand hk hkl hrunk
  rw [hll] at hclosed
  rw [List.append_assoc, List.cons_append] at hl'
  have hextends : Extends (.mark .braceLeft :: (front ++ behind ++ [.finish])) 1 i i' :=
    ⟨hi, hi'.fault, lexemes, hl, hl'⟩
  have hmay : mayHaveBody i.lexemes = true := by rw [hl, mayHaveBody_finish, hopen.1]
  have hbare : ∀ taken, i.lexemes ≠ taken ++ .mark .braceRight :: j.lexemes := by
    intro taken htaken
    rw [hl, hjl, List.nil_append, List.append_cons taken] at htaken
    refine hopen.2 ?_
    rw [List.append_cancel_right htaken, List.getLast?_concat]
  have hrest := lexemes_of_run_definition hi hi' hextends hrun
    (hj.atEnd (List.cons.inj hjl).1) hmay hbare hrun'
  rw [hj', List.append_assoc, behindBraces_append hclosed.symm, ← List.append_assoc] at hrest
  exact List.append_cancel_right hrest

/-! ## Documents in a row -/

theorem Divides.exists_first (h : Divides lexemes document) :
    ∃ rest d, Defines lexemes rest d := by
  cases h with
  | last h => exact ⟨_, _, h⟩
  | more h => exact ⟨_, _, h⟩

theorem Divides.ne_nil (h : Divides lexemes document) : lexemes ≠ [] := by
  obtain ⟨rest, d, hfirst⟩ := h.exists_first
  obtain ⟨lexeme, more, rfl, -⟩ := hfirst.exists_cons
  nofun

theorem Divides.finish_not_mem (h : Divides lexemes document) : .finish ∉ lexemes := by
  obtain ⟨rest, d, hfirst⟩ := h.exists_first
  exact hfirst.finish_not_mem

theorem Divides.endsDefinition_head (h : Divides lexemes document) :
    ∀ lexeme ∈ lexemes.head?, endsDefinition lexeme = true := by
  obtain ⟨rest, d, hfirst⟩ := h.exists_first
  obtain ⟨first, more, rfl, hends⟩ := hfirst.exists_cons
  rintro _ ⟨⟩
  exact hends

/-- A definition of a document takes a lexeme at least. -/
theorem Divides.not_defines_self (h : Divides lexemes document) : ¬ Defines lexemes lexemes d := by
  induction h generalizing d with
  | last hlast =>
    intro hself
    exact (Divides.last hlast).ne_nil (hself.unique hlast).2
  | more hmore _ _ ih =>
    intro hself
    obtain ⟨-, rfl⟩ := hself.unique hmore
    exact ih hself

theorem Divides.length_le (h : Divides lexemes document) : document.length ≤ lexemes.length := by
  induction h with
  | last hlast => exact List.length_pos_of_ne_nil (Divides.last hlast).ne_nil
  | more hmore _ hdivides ih =>
    refine Nat.lt_of_le_of_lt ih (lt_of_le_of_ne hmore.suffix.length_le fun hsame => ?_)
    obtain rfl := hmore.suffix.eq_of_length hsame
    exact hdivides.not_defines_self hmore

theorem EndsOpen.isOpen (h : EndsOpen lexemes) (hd : Defines lexemes [] d) : IsOpen lexemes := by
  cases h with
  | last _ hopen => exact hopen
  | more hmore hne => exact absurd (hmore.unique hd).2 hne

theorem EndsOpen.of_rest (h : EndsOpen lexemes) (hd : Defines lexemes rest d) (hne : rest ≠ []) :
    EndsOpen rest := by
  cases h with
  | last hlast => exact absurd (hd.unique hlast).2 hne
  | more hmore _ hopen => exact (hd.unique hmore).2 ▸ hopen

/-- A document that ends with a brace does not end with an open definition. -/
theorem EndsOpen.getLast?_ne (h : EndsOpen lexemes) :
    lexemes.getLast? ≠ some (.mark .braceRight) := by
  induction h with
  | last _ hopen => exact hopen.2
  | more hmore hne _ ih =>
    obtain ⟨taken, rfl⟩ := hmore.suffix
    rwa [List.getLast?_append_of_ne_nil _ hne]

/-- Two documents in a row of which the first is not open at its end, or the second begins with no
brace. -/
theorem Divides.append {behind : Document} (h : Divides lexemes document)
    (htail : Divides tail behind)
    (hparted : EndsOpen lexemes → tail.head? ≠ some (.mark .braceLeft)) :
    Divides (lexemes ++ tail) (document ++ behind) := by
  induction h with
  | last h =>
    refine .more (h.append htail.finish_not_mem fun _ lexeme hl => ?_) htail.ne_nil htail
    refine ⟨htail.endsDefinition_head lexeme hl, ?_⟩
    rintro hopen rfl
    exact hparted (.last h hopen) hl
  | more h hne hrest ih =>
    have hfirst := h.append htail.finish_not_mem fun hnil => absurd hnil hne
    exact .more hfirst (by simp [hne]) (ih fun hopen => hparted (.more h hne hopen))

/-- Documents in a row begin as the first of them does. -/
theorem head?_flatten {documents : List (List Lexeme)} {definitions : List Document}
    (h : List.Forall₂ Divides documents definitions) :
    documents.flatten.head? = documents.head?.bind List.head? := by
  cases h with
  | nil => rfl
  | cons hfirst =>
    obtain ⟨lexeme, more, rfl⟩ := List.exists_cons_of_ne_nil hfirst.ne_nil
    rfl

theorem endsDefinition_head_flatten {documents : List (List Lexeme)} {definitions : List Document}
    (h : List.Forall₂ Divides documents definitions) :
    ∀ lexeme ∈ documents.flatten.head?, endsDefinition lexeme = true := by
  intro lexeme hl
  rw [head?_flatten h] at hl
  cases h with
  | nil => cases hl
  | cons hfirst => exact hfirst.endsDefinition_head lexeme hl

theorem divides_flatten {documents : List (List Lexeme)} {definitions : List Document}
    (h : List.Forall₂ Divides documents definitions) (hne : documents ≠ [])
    (hparted : Parted documents) : Divides documents.flatten definitions.flatten := by
  induction h with
  | nil => exact absurd rfl hne
  | @cons lexemes document documents definitions hfirst hothers ih =>
    by_cases hnil : documents = []
    · subst hnil
      cases hothers
      simpa using hfirst
    · refine hfirst.append (ih hnil hparted.of_cons) fun hopen hhead => ?_
      obtain ⟨second, hsecond, hbrace⟩ := Option.bind_eq_some_iff.mp (head?_flatten hothers ▸ hhead)
      exact hparted.rel_head? hsecond hopen hbrace

theorem finish_not_mem_flatten {documents : List (List Lexeme)} {definitions : List Document}
    (h : List.Forall₂ Divides documents definitions) : .finish ∉ documents.flatten := by
  induction h with
  | nil => exact List.not_mem_nil
  | cons hfirst _ ih => simp [hfirst.finish_not_mem, ih]

/-- An open definition takes the first definition of a document that begins with a brace, and leaves
the others. -/
theorem exists_rest_of_isOpen {front : List Lexeme} {whole : Definition}
    {documents : List (List Lexeme)} {definitions : List Document} (hd : Defines lexemes [] d)
    (hopen : IsOpen lexemes) (hsecond : Divides (.mark .braceLeft :: front) document)
    (hothers : List.Forall₂ Divides documents definitions)
    (hwhole : Defines (lexemes ++ .mark .braceLeft :: (front ++ documents.flatten)) rest whole) :
    ∃ others further, List.Forall₂ Divides others further ∧ rest = others.flatten ∧
      further.flatten.length + 1 = document.length + definitions.flatten.length := by
  cases hsecond with
  | last hlast =>
    exact ⟨documents, definitions, hothers, hd.rest_of_isOpen hopen hlast hwhole, Nat.add_comm _ _⟩
  | more hmore _ hdivides =>
    refine ⟨_, _, .cons hdivides hothers, hd.rest_of_isOpen hopen hmore hwhole, ?_⟩
    rw [List.flatten_cons, List.length_append, List.length_cons]
    omega

/-- What is left behind the first definition of documents in a row is documents in a row. The first
definition is one of theirs, or else it has taken more than one and they were not parted. -/
theorem exists_rest {documents : List (List Lexeme)} {definitions : List Document}
    (h : List.Forall₂ Divides documents definitions) (hne : documents ≠ [])
    (hd : Defines documents.flatten rest d) :
    ∃ others further, List.Forall₂ Divides others further ∧ rest = others.flatten ∧
      (further.flatten.length + 1 < definitions.flatten.length ∨
        further.flatten.length + 1 = definitions.flatten.length ∧
          (Parted others → Parted documents)) := by
  cases h with
  | nil => exact absurd rfl hne
  | @cons lexemes document documents definitions hfirst hothers =>
  rw [List.flatten_cons] at hd
  rw [List.flatten_cons, List.length_append]
  have hfinish := finish_not_mem_flatten hothers
  cases hfirst with
  | more hdefines hrest hdivides =>
    have happend := hdefines.append hfinish fun hnil => absurd hnil hrest
    refine ⟨_, _, .cons hdivides hothers, (hd.unique happend).2, .inr ⟨?_, fun hparted => ?_⟩⟩
    · rw [List.flatten_cons, List.length_append, List.length_cons]
      omega
    · exact hparted.imp_head fun hbrace hopen => hbrace (hopen.of_rest hdefines hrest)
  | last hlast =>
    by_cases hswallows : IsOpen lexemes ∧ documents.flatten.head? = some (.mark .braceLeft)
    · obtain ⟨hopen, hhead⟩ := hswallows
      cases hothers with
      | nil => cases hhead
      | @cons second _ documents definitions hsecond hothers =>
        obtain ⟨lexeme, front, rfl⟩ := List.exists_cons_of_ne_nil hsecond.ne_nil
        obtain rfl : lexeme = .mark .braceLeft := Option.some.inj hhead
        obtain ⟨others, further, hall, hrest, hlength⟩ :=
          exists_rest_of_isOpen hlast hopen hsecond hothers hd
        refine ⟨others, further, hall, hrest, .inl ?_⟩
        rw [hlength, List.flatten_cons, List.length_append, List.length_singleton]
        omega
    · have happend := hlast.append hfinish fun _ lexeme hl =>
        ⟨endsDefinition_head_flatten hothers lexeme hl, by
          rintro hopen rfl
          exact hswallows ⟨hopen, hl⟩⟩
      refine ⟨_, _, hothers, (hd.unique happend).2, .inr ⟨Nat.add_comm _ _, fun hparted => ?_⟩⟩
      refine hparted.cons fun second hsecond hopen hbrace => hswallows ⟨hopen.isOpen hlast, ?_⟩
      rw [head?_flatten hothers, hsecond, Option.bind_some, hbrace]

/-- Documents in a row have fewer definitions together, or else they are parted. -/
theorem length_lt_or_parted {together : Document} (hd : Divides lexemes together)
    {documents : List (List Lexeme)} {definitions : List Document}
    (h : List.Forall₂ Divides documents definitions) (hl : lexemes = documents.flatten) :
    together.length < definitions.flatten.length ∨
      together.length = definitions.flatten.length ∧ Parted documents := by
  -- every definition leaves documents in a row, until nothing is left
  induction hd generalizing documents definitions with
  | last hlast =>
    subst hl
    have hne : documents ≠ [] := by
      rintro rfl
      exact (Divides.last hlast).ne_nil rfl
    obtain ⟨others, further, hothers, hnil, hcount⟩ := exists_rest h hne hlast
    obtain rfl : others = [] := by
      cases hothers with
      | nil => rfl
      | cons hfirst => exact absurd (List.append_eq_nil_iff.mp hnil.symm).1 hfirst.ne_nil
    cases hothers
    exact hcount.imp_right fun ⟨hsame, hparted⟩ => ⟨hsame, hparted .nil⟩
  | more hmore hrest hdivides ih =>
    subst hl
    have hne : documents ≠ [] := by
      rintro rfl
      exact (Divides.more hmore hrest hdivides).ne_nil rfl
    obtain ⟨others, further, hothers, hl, hcount⟩ := exists_rest h hne hmore
    rw [List.length_cons]
    rcases ih hothers hl with hlt | ⟨hsame, hparted⟩
    · left
      omega
    · rw [hsame]
      exact hcount.imp_right fun ⟨hfirst, himp⟩ => ⟨hfirst, himp hparted⟩

theorem divides_flatten_iff {documents : List (List Lexeme)} {definitions : List Document}
    (h : List.Forall₂ Divides documents definitions) (hne : documents ≠ []) :
    Divides documents.flatten definitions.flatten ↔ Parted documents := by
  refine ⟨fun hd => ?_, divides_flatten h hne⟩
  obtain hlt | ⟨-, hparted⟩ := length_lt_or_parted hd h rfl
  · exact absurd hlt (Nat.lt_irrefl _)
  · exact hparted

end FederationGraph.Document
