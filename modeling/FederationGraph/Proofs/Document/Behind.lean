import FederationGraph.Proofs.Document.Opening

/-!
# What stands behind a definition

A definition is read alike whether its text ends behind it or another definition begins there,
with one exception: where it may have a body and has none, a brace behind it is taken for the
body. Such a definition goes on to where that brace is closed, as the definition that the brace
would begin does by itself.
-/
namespace FederationGraph.Document

namespace Reader

variable {d : Definition} {i i' j : Input} {tail : List Lexeme}

/-- The inputs of which the first ends where the second goes on. -/
def Extends (tail : List Lexeme) (_ : Nat) (i i' : Input) : Prop :=
  i.Whole ∧ i'.fault? = none ∧
    ∃ lexemes, i.lexemes = lexemes ++ [.finish] ∧ i'.lexemes = lexemes ++ tail

theorem likens_extends (next : Lexeme) (more : List Lexeme) :
    Likens (fun _ => False) next (Extends (next :: more)) where
  atEnd := False.elim
  finish h hf := h.1.atEnd hf
  front := by
    rintro d i i' ⟨-, -, lexemes, hl, hl'⟩ -
    cases lexemes with
    | nil => exact .inr ⟨(List.cons.inj hl).1, (List.cons.inj hl').1⟩
    | cons lexeme lexemes => exact .inl ((List.cons.inj hl').1.trans (List.cons.inj hl).1.symm)
  length := by
    rintro d i i' ⟨-, -, lexemes, hl, hl'⟩
    have hlength := congrArg List.length hl
    have hlength' := congrArg List.length hl'
    simp only [Input.lexemes, List.map_cons, List.length_cons, List.length_map, List.length_append,
      List.length_nil] at hlength hlength'
    omega
  next := by
    rintro d i i' rest ⟨hwhole, hfault, lexemes, hl, hl'⟩ hf hnext
    obtain ⟨rest₁, hnext₁, hrest, he⟩ := hwhole.exists_next hf
    cases hnext.symm.trans hnext₁
    cases lexemes with
    | nil => exact absurd (List.cons.inj hl).1 hf
    | cons lexeme lexemes =>
      obtain ⟨rest', hnext', he', hfault'⟩ := Input.exists_next hl' (by simp)
      refine ⟨rest', hnext', hrest, hfault'.trans hfault, lexemes, ?_, he'⟩
      exact (List.cons.inj (he.symm.trans hl)).2

/-- The inputs that end with a lexical fault, each related to itself. -/
def Broken (_ : Nat) (i i' : Input) : Prop :=
  i' = i ∧ i.fault?.isSome = true ∧ .finish ∉ i.lexemes

theorem likens_broken : Likens (fun _ => False) .finish Broken where
  atEnd := False.elim
  finish h hf := absurd (hf ▸ List.mem_cons_self) h.2.2
  front h _ := .inl (by rw [h.1])
  length h := Nat.le_of_eq (by rw [h.1])
  next := by
    rintro d ⟨front, behind, fault?⟩ _ rest ⟨rfl, hfault, hl⟩ - hnext
    cases behind with
    | nil =>
      obtain ⟨fault, rfl⟩ := Option.isSome_iff_exists.mp hfault
      cases hnext
    | cons token behind =>
      cases hnext
      exact ⟨_, rfl, rfl, hfault, fun hmem => hl (List.mem_cons_of_mem _ hmem)⟩

/-! ## One definition -/

theorem Bodied.keeps {reader : Reader Definition} (h : Bodied reader) {Q : Input → Prop}
    {next : Lexeme} {R : Nat → Input → Input → Prop} (hl : Likens Q next R)
    (hn : endsDefinition next = true) (hne : next ≠ .mark .braceLeft) : Keeps Q R reader := by
  obtain ⟨firm, -, inner, idle⟩ := h
  refine (firm hl hn).bind fun head => ?_
  have hbody := keeps_optional hl (ne_mark_of_endsDefinition hn rfl) hne paired_braces
    (inner hl.atEnds)
  exact hbody.bind fun body => (idle head body).firm hl hn

theorem Opening.inner {opening : List Lexeme} {reader : Reader Definition}
    (h : Opening opening reader) : Inner reader := by
  rcases h.kind [] with ⟨-, hfirm⟩ | ⟨-, hbodied⟩
  · exact hfirm.inner
  · exact fun _ _ hl => hbodied.keeps hl rfl nofun

theorem run_optional {α : Type} {openMark close : Mark} {m : Reader α} (i : Input) :
    (optional openMark close m).run i =
      if i.front.lexeme == .mark openMark then (bracketedSome openMark close m).run i
      else .ok ([], i) := by
  have hrun : (optional openMark close m).run i =
    (if i.front.lexeme == .mark openMark then bracketedSome openMark close m else pure []).run i :=
    rfl
  rw [hrun]
  split
  · rfl
  · rfl

theorem front_of_bracketedSome {α : Type} {openMark close : Mark} {m : Reader α}
    {result : List α × Input} (hrun : (bracketedSome openMark close m).run i = .ok result) :
    (i.front.lexeme == .mark openMark) = true := by
  obtain ⟨_, inside, hopen, -⟩ := exists_of_run_bind hrun
  rw [expect, run_front] at hopen
  split at hopen
  · rename_i hmark
    exact hmark
  · cases hopen

/-- What may have a body either has one, which is read in any case and ends with a brace, or none,
so that a body behind the end would be read. -/
theorem Bodied.cases {reader : Reader Definition} (h : Bodied reader) (hi : i.Whole)
    (hrun : reader.run i = .ok (d, j)) :
    (∃ withBody : Reader Definition, Firm withBody ∧ withBody.run i = .ok (d, j) ∧
      (∀ ⦃i result⦄, withBody.run i = .ok result → reader.run i = .ok result) ∧
      ∃ taken, i.lexemes = taken ++ .mark .braceRight :: j.lexemes) ∨
    Barely i j ∧ ∀ ⦃more i' d' j'⦄, Extends (.mark .braceLeft :: more) 1 i i' → i'.Whole →
      j.AtEnd → reader.run i' = .ok (d', j') → j'.lexemes = behindBraces 1 more := by
  obtain ⟨firm, bare, inner, idle⟩ := h
  rename_i α β heading item close
  obtain ⟨head, mid, hheading, hrun⟩ := exists_of_run_bind hrun
  obtain ⟨body, last, hbody, hrun⟩ := exists_of_run_bind hrun
  obtain ⟨rfl, -⟩ := idle head body hrun
  have hmid := bare hi hheading
  rw [run_optional] at hbody
  split at hbody
  · left
    let withBody : Reader Definition := do
      let head ← heading
      let body ← bracketedSome .braceLeft .braceRight item
      close head body
    have hfirm : Firm withBody := fun _ _ _ hl hn => (firm hl hn).bind fun head =>
      (keeps_bracketedSome hl (ne_mark_of_endsDefinition hn rfl) paired_braces
        (inner hl.atEnds)).bind fun body => (idle head body).firm hl hn
    obtain ⟨-, taken, htaken⟩ := lexemes_of_bracketedSome inner hmid.1 hbody
    obtain ⟨-, before, hbefore, -⟩ := hmid
    refine ⟨withBody, hfirm, ?_, ?_, before ++ taken, ?_⟩
    · rw [run_bind_of_eq_ok hheading, run_bind_of_eq_ok hbody, hrun]
    · rintro i ⟨d, rest⟩ hrun
      obtain ⟨head, mid, hheading, hrun⟩ := exists_of_run_bind hrun
      obtain ⟨body, last, hbody, hrun⟩ := exists_of_run_bind hrun
      have hoptional : (optional .braceLeft .braceRight item).run mid = .ok (body, last) := by
        rw [run_optional, if_pos (front_of_bracketedSome hbody), hbody]
      rw [run_bind_of_eq_ok hheading, run_bind_of_eq_ok hoptional, hrun]
    · rw [hbefore, htaken, List.append_assoc]
  · right
    cases hbody
    refine ⟨hmid, ?_⟩
    intro more i' d' j' hextends hi' hend hrun'
    have hkeeps := firm (likens_extends (.mark .braceLeft) more) rfl 0
    obtain hfalse | ⟨mid', hheading', -, -, front, hfront, hfront'⟩ :=
      hkeeps.keeps hextends id hheading
    · exact hfalse.elim
    -- the heading ends with the text, so that the brace stands behind it
    have hfinish : j.lexemes = [.finish] := by
      rw [Input.lexemes, hend.behind, List.map_singleton, hend.front]
    rw [hfinish] at hfront
    obtain rfl : front = [] := (List.append_left_eq_self.mp hfront.symm)
    rw [run_bind_of_eq_ok hheading'] at hrun'
    obtain ⟨body', last', hbody', hrun'⟩ := exists_of_run_bind hrun'
    obtain ⟨rfl, -⟩ := idle head body' hrun'
    have hbrace : (mid'.front.lexeme == .mark .braceLeft) = true :=
      beq_iff_eq.mpr (List.cons.inj hfront').1
    rw [run_optional, if_pos hbrace] at hbody'
    have hmid' := (firm.inner.suffix hi' hheading').1
    obtain ⟨-, more', hmore, hbehind⟩ := lexemes_of_bracketedSome_braces inner hmid' hbody'
    rw [hfront'] at hmore
    rw [hbehind, (List.cons.inj hmore).2]

theorem Barely.lexemes_ne (h : Barely i j) (taken : List Lexeme) :
    i.lexemes ≠ taken ++ .mark .braceRight :: j.lexemes := by
  obtain ⟨-, barely, hbarely, hlast⟩ := h
  intro htaken
  rw [hbarely, List.append_cons] at htaken
  rw [List.append_cancel_right htaken, List.getLast?_concat] at hlast
  exact hlast rfl

/-- Where its text goes on, a definition is read by the same reader. -/
theorem exists_opening_of_extends (hextends : Extends tail 1 i i')
    (hrun : definition.run i = .ok (d, j)) :
    ∃ opening reader further, Opening opening reader ∧ opening ++ further = i.lexemes ∧
      reader.run i = .ok (d, j) ∧ definition.run i' = reader.run i' := by
  obtain ⟨opening, reader, hbegins, hopening⟩ := exists_opening hrun
  rw [hopening.run_definition hbegins] at hrun
  obtain ⟨further, hfurther⟩ := id hbegins
  have hbegins' : opening <+: i'.lexemes := by
    obtain ⟨-, -, lexemes, hl, hl'⟩ := hextends
    rw [hl, List.prefix_concat_iff] at hbegins
    rw [hl']
    rcases hbegins with rfl | hbegins
    · simpa using hopening.finish_not_mem
    · exact hbegins.trans (List.prefix_append _ _)
  exact ⟨opening, reader, further, hopening, hfurther, hrun, hopening.run_definition hbegins'⟩

/-- A definition is read alike where its text goes on, if it does not come to the end. -/
theorem run_definition_of_not_atEnd {next : Lexeme} {more : List Lexeme}
    (hextends : Extends (next :: more) 1 i i') (hrun : definition.run i = .ok (d, j))
    (hj : ¬ j.AtEnd) :
    ∃ j', definition.run i' = .ok (d, j') ∧ Extends (next :: more) 1 j j' := by
  obtain ⟨opening, reader, -, hopening, -, hrun, hsame⟩ := exists_opening_of_extends hextends hrun
  rw [hsame]
  have hkeeps := hopening.inner (likens_extends next more).atEnds 0
  have hi : ¬ i.AtEnd := fun hend => hj (hkeeps.stays hend hrun)
  exact (hkeeps.keeps hextends hi hrun).resolve_left hj

/-- A definition is read alike where behind it another begins, unless that is taken for its body. -/
theorem run_definition_of_endsDefinition {next : Lexeme} {more : List Lexeme} (hi : i.Whole)
    (hextends : Extends (next :: more) 1 i i') (hrun : definition.run i = .ok (d, j))
    (hn : endsDefinition next = true) (hbody : next = .mark .braceLeft →
      mayHaveBody i.lexemes = true → ∃ taken, i.lexemes = taken ++ .mark .braceRight :: j.lexemes) :
    ∃ j', definition.run i' = .ok (d, j') ∧ Extends (next :: more) 1 j j' := by
  have hlikens := likens_extends next more
  obtain ⟨opening, reader, further, hopening, hfurther, hrun, hsame⟩ :=
    exists_opening_of_extends hextends hrun
  rw [hsame]
  rw [← hfurther] at hbody
  rcases hopening.kind further with ⟨-, hfirm⟩ | ⟨hmay, hbodied⟩
  · exact ((hfirm hlikens hn 0).keeps hextends id hrun).resolve_left id
  by_cases hbrace : next = .mark .braceLeft
  · rcases hbodied.cases hi hrun with ⟨withBody, hfirm, hwith, hreader, -⟩ | ⟨hbarely, -⟩
    · obtain ⟨j', hrun', hj'⟩ :=
        ((hfirm hlikens hn 0).keeps hextends id hwith).resolve_left id
      exact ⟨j', hreader hrun', hj'⟩
    · obtain ⟨taken, htaken⟩ := hbody hbrace hmay
      exact absurd (hfurther.symm.trans htaken) (hbarely.lexemes_ne taken)
  · exact ((hbodied.keeps hlikens hn hbrace 0).keeps hextends id hrun).resolve_left id

/-- Braces behind a definition that may have a body and has none are taken for its body. -/
theorem lexemes_of_run_definition {more : List Lexeme} {d' : Definition} {j' : Input}
    (hi : i.Whole) (hi' : i'.Whole) (hextends : Extends (.mark .braceLeft :: more) 1 i i')
    (hrun : definition.run i = .ok (d, j)) (hj : j.AtEnd)
    (hmay : mayHaveBody i.lexemes = true)
    (hbody : ∀ taken, i.lexemes ≠ taken ++ .mark .braceRight :: j.lexemes)
    (hrun' : definition.run i' = .ok (d', j')) : j'.lexemes = behindBraces 1 more := by
  obtain ⟨opening, reader, further, hopening, hfurther, hrun, hsame⟩ :=
    exists_opening_of_extends hextends hrun
  rw [hsame] at hrun'
  rw [← hfurther] at hmay
  rcases hopening.kind further with ⟨hnot, -⟩ | ⟨-, hbodied⟩
  · rw [hnot] at hmay
    cases hmay
  rcases hbodied.cases hi hrun with ⟨-, -, -, -, taken, htaken⟩ | ⟨-, hswallows⟩
  · exact absurd htaken (hbody taken)
  · exact hswallows hextends hi' hj hrun'

theorem lexemes_of_selectionSet {depth : Nat} {u : Unit} (hi : i.Whole)
    (hrun : (selectionSet depth).run i = .ok (u, j)) :
    ∃ more, i.lexemes = .mark .braceLeft :: more ∧ j.lexemes = behindBraces 1 more := by
  cases depth with
  | zero => cases hrun
  | succ depth =>
    obtain ⟨_, last, hbracketed, hrun⟩ := exists_of_run_bind hrun
    cases hrun
    exact (lexemes_of_bracketed_braces
      (fun _ _ h => keeps_selection h (keeps_selectionSet h rfl depth)) hi hbracketed).2

/-- A definition that begins with a brace ends where that is closed. -/
theorem lexemes_of_run_shorthand {more : List Lexeme} (hi : i.Whole)
    (hl : i.lexemes = .mark .braceLeft :: more) (hrun : definition.run i = .ok (d, j)) :
    j.lexemes = behindBraces 1 more := by
  rw [Opening.shorthand.run_definition ⟨more, hl.symm⟩] at hrun
  obtain ⟨_, mid, hset, hrun⟩ := exists_of_run_bind hrun
  cases hrun
  obtain ⟨more', hl', hj⟩ := lexemes_of_selectionSet hi hset
  rw [hj, ← (List.cons.inj (hl.symm.trans hl')).2]

end Reader

end FederationGraph.Document
