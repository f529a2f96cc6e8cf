import FederationGraph.Proofs.Document.Grammar

/-!
# Definitions that may have a body

Most definitions depend on nothing behind their end, as long as that can begin another. Some may
have a body in braces or leave it out: these read a heading, which does not end with a brace,
and behind it the body, which ends where its brace is closed.
-/
namespace FederationGraph.Document

/-! ## Whole inputs -/

/-- Whether a text is ahead to its end. -/
structure Input.Whole (input : Input) : Prop where
  fault : input.fault? = none
  ends : ∃ lexemes, .finish ∉ lexemes ∧ input.lexemes = lexemes ++ [.finish]

namespace Input

theorem exists_next {i : Input} {lexeme : Lexeme} {lexemes : List Lexeme}
    (h : i.lexemes = lexeme :: lexemes) (hne : lexemes ≠ []) :
    ∃ rest, Reader.Input.next i = .ok rest ∧ rest.lexemes = lexemes ∧ rest.fault? = i.fault? := by
  obtain ⟨front, behind, fault?⟩ := i
  obtain ⟨-, rfl⟩ := List.cons.inj h
  cases behind with
  | nil => exact absurd rfl hne
  | cons token behind => exact ⟨_, rfl, rfl, rfl⟩

theorem Whole.atEnd {i : Input} (h : i.Whole) (hf : i.front.lexeme = .finish) : i.AtEnd := by
  obtain ⟨lexemes, hl, he⟩ := h.ends
  cases lexemes with
  | nil => exact ⟨hf, List.map_eq_nil_iff.mp (List.cons.inj he).2, h.fault⟩
  | cons lexeme lexemes =>
    obtain rfl : i.front.lexeme = lexeme := (List.cons.inj he).1
    rw [hf] at hl
    exact absurd List.mem_cons_self hl

theorem Whole.exists_next {i : Input} (h : i.Whole) (hf : i.front.lexeme ≠ .finish) :
    ∃ rest, Reader.Input.next i = .ok rest ∧ rest.Whole ∧
      i.lexemes = i.front.lexeme :: rest.lexemes := by
  obtain ⟨lexemes, hl, he⟩ := h.ends
  cases lexemes with
  | nil => exact absurd (List.cons.inj he).1 hf
  | cons lexeme lexemes =>
    obtain ⟨rest, hnext, hrest, hfault⟩ := Input.exists_next he (by simp)
    have hfront : i.front.lexeme = lexeme := (List.cons.inj he).1
    refine ⟨rest, hnext, ⟨hfault.trans h.fault, lexemes, ?_, hrest⟩, ?_⟩
    · exact fun hmem => hl (List.mem_cons_of_mem _ hmem)
    · rw [he, hfront, hrest]
      rfl

end Input

namespace Reader

/-- The inputs ahead of which a text ends like another one, each related to itself. -/
def Within (text : List Lexeme) (_ : Nat) (i i' : Input) : Prop :=
  i' = i ∧ i.Whole ∧ i.lexemes <:+ text

theorem likens_within (text : List Lexeme) :
    Likens (fun _ => False) .finish (Within text) where
  atEnd := False.elim
  finish h hf := h.2.1.atEnd hf
  front h _ := .inl (by rw [h.1])
  length h := Nat.le_of_eq (by rw [h.1])
  next := by
    rintro d i _ rest ⟨rfl, hwhole, hsuffix⟩ hf hnext
    obtain ⟨rest', hnext', hwhole', hl⟩ := hwhole.exists_next hf
    cases hnext.symm.trans hnext'
    exact ⟨rest, hnext, rfl, hwhole', .trans ⟨[_], hl.symm⟩ hsuffix⟩

/-- What stands behind the brace that closes so many open ones. -/
def behindBraces : Nat → List Lexeme → List Lexeme
  | 0, lexemes => lexemes
  | _ + 1, [] => []
  | d + 1, lexeme :: lexemes => behindBraces (bracesBehind lexeme (d + 1)) lexemes

/-- The inputs ahead of which the open braces are closed in front of a text, each related to
itself. -/
def Inside (text : List Lexeme) (d : Nat) (i i' : Input) : Prop :=
  i' = i ∧ i.Whole ∧ behindBraces d i.lexemes = text

theorem likens_inside (text : List Lexeme) :
    Likens (fun _ => False) .finish (Inside text) where
  atEnd := False.elim
  finish h hf := h.2.1.atEnd hf
  front h _ := .inl (by rw [h.1])
  length h := Nat.le_of_eq (by rw [h.1])
  next := by
    rintro d i _ rest ⟨rfl, hwhole, hbraces⟩ hf hnext
    obtain ⟨rest', hnext', hwhole', hl⟩ := hwhole.exists_next hf
    cases hnext.symm.trans hnext'
    rw [hl] at hbraces
    exact ⟨rest, hnext, rfl, hwhole', hbraces⟩

/-! ## Readers that keep to themselves -/

variable {α β : Type}

/-- Whether a reader depends on nothing behind the end, where the ends agree. -/
def Inner (m : Reader α) : Prop := ∀ ⦃Q R⦄, Likens Q .finish R → Keeps Q R m

/-- Whether a reader depends on nothing behind the end, if that ends a definition. -/
def Firm (m : Reader α) : Prop :=
  ∀ ⦃Q next R⦄, Likens Q next R → endsDefinition next = true → Keeps Q R m

theorem Firm.inner {m : Reader α} (h : Firm m) : Inner m := fun _ _ hl => h hl rfl

variable {m : Reader α} {k : α → Reader β} {i rest : Input} {value : α}

/-- What is left of a whole input is the end of it. -/
theorem Inner.suffix (h : Inner m) (hi : i.Whole) (hrun : m.run i = .ok (value, rest)) :
    rest.Whole ∧ rest.lexemes <:+ i.lexemes := by
  have hkeeps := (h (likens_within i.lexemes) 0).keeps ⟨rfl, hi, List.suffix_rfl⟩ id hrun
  obtain hfalse | ⟨rest', -, -, hwhole, hsuffix⟩ := hkeeps
  · exact hfalse.elim
  · exact ⟨hwhole, hsuffix⟩

theorem lexemes_of_advance {u : Unit} (hi : i.Whole) (hf : i.front.lexeme ≠ .finish)
    (hrun : advance.run i = .ok (u, rest)) :
    rest.Whole ∧ i.lexemes = i.front.lexeme :: rest.lexemes := by
  obtain ⟨rest', hnext, hwhole, hl⟩ := hi.exists_next hf
  rw [run_advance, hnext] at hrun
  cases hrun
  exact ⟨hwhole, hl⟩

/-- What is taken where a mark is in front. -/
theorem lexemes_of_mark {mark : Mark} {u : Unit} (hi : i.Whole)
    (hmark : (i.front.lexeme == .mark mark) = true) (hrun : advance.run i = .ok (u, rest)) :
    rest.Whole ∧ i.lexemes = .mark mark :: rest.lexemes := by
  have hfront : i.front.lexeme = .mark mark := beq_iff_eq.mp hmark
  have hl := lexemes_of_advance hi (by rw [hfront]; nofun) hrun
  rwa [hfront] at hl

theorem lexemes_of_expect {mark : Mark} {u : Unit} (hi : i.Whole)
    (hrun : (expect mark).run i = .ok (u, rest)) :
    rest.Whole ∧ i.lexemes = .mark mark :: rest.lexemes := by
  rw [expect, run_front] at hrun
  split at hrun
  · rename_i hmark
    exact lexemes_of_mark hi hmark hrun
  · cases hrun

/-- Where an item in braces ends, they are still to be closed. -/
theorem behindBraces_of_item (hm : Inner m) (hi : i.Whole)
    (hrun : m.run i = .ok (value, rest)) :
    rest.Whole ∧ behindBraces 1 rest.lexemes = behindBraces 1 i.lexemes := by
  have hkeeps := hm (likens_inside (behindBraces 1 i.lexemes)) 0
  obtain hfalse | ⟨rest', -, -, hwhole, hbraces⟩ := hkeeps.keeps ⟨rfl, hi, rfl⟩ id hrun
  · exact hfalse.elim
  · exact ⟨hwhole, hbraces⟩

/-- Items in braces end where these are closed. -/
theorem lexemes_of_items_braces {values : List α} (hm : Inner m) (hi : i.Whole)
    (hrun : (items .braceRight m).run i = .ok (values, rest)) :
    rest.Whole ∧ rest.lexemes = behindBraces 1 i.lexemes := by
  have h := likens_inside (behindBraces 1 i.lexemes)
  have hne : Lexeme.finish ≠ .mark .braceRight := nofun
  have hitems := follows_items (d := 0) h hne (hm h.atEnds)
  obtain hfalse | ⟨rest', -, -, hwhole, hbraces⟩ := hitems.keeps ⟨rfl, hi, rfl⟩ id hrun
  · exact hfalse.elim
  · exact ⟨hwhole, hbraces⟩

/-- What stands in braces ends where these are closed. -/
theorem lexemes_of_bracketed_braces {values : List α} (hm : Inner m) (hi : i.Whole)
    (hrun : (bracketed .braceLeft .braceRight m).run i = .ok (values, rest)) :
    rest.Whole ∧ ∃ more, i.lexemes = .mark .braceLeft :: more ∧
      rest.lexemes = behindBraces 1 more := by
  obtain ⟨_, inside, hopen, hrun⟩ := exists_of_run_bind hrun
  obtain ⟨hinside, hl⟩ := lexemes_of_expect hi hopen
  obtain ⟨hwhole, hrest⟩ := lexemes_of_items_braces hm hinside hrun
  exact ⟨hwhole, _, hl, hrest⟩

theorem lexemes_of_bracketedSome_braces {values : List α} (hm : Inner m) (hi : i.Whole)
    (hrun : (bracketedSome .braceLeft .braceRight m).run i = .ok (values, rest)) :
    rest.Whole ∧ ∃ more, i.lexemes = .mark .braceLeft :: more ∧
      rest.lexemes = behindBraces 1 more := by
  obtain ⟨_, inside, hopen, hrun⟩ := exists_of_run_bind hrun
  obtain ⟨first, mid, hfirst, hrun⟩ := exists_of_run_bind hrun
  obtain ⟨further, last, hfurther, hrun⟩ := exists_of_run_bind hrun
  cases hrun
  obtain ⟨hinside, hl⟩ := lexemes_of_expect hi hopen
  obtain ⟨hmid, hbraces⟩ := behindBraces_of_item hm hinside hfirst
  obtain ⟨hwhole, hrest⟩ := lexemes_of_items_braces hm hmid hfurther
  exact ⟨hwhole, _, hl, hrest.trans hbraces⟩

/-- Items up to a closing mark end with that mark. -/
theorem lexemes_of_untilMark {close : Mark} {fuel : Nat} {values : List α} (hm : Inner m)
    (hi : i.Whole) (hrun : (untilMark close m fuel).run i = .ok (values, rest)) :
    rest.Whole ∧ ∃ taken, i.lexemes = taken ++ .mark close :: rest.lexemes := by
  induction fuel generalizing i values with
  | zero => cases hrun
  | succ fuel ih =>
    rw [untilMark, accept_bind, run_front] at hrun
    split at hrun
    · rename_i hclose
      obtain ⟨_, mid, hadvance, hrun⟩ := exists_of_run_bind hrun
      cases hrun
      obtain ⟨hwhole, hl⟩ := lexemes_of_mark hi hclose hadvance
      exact ⟨hwhole, [], hl⟩
    · obtain ⟨first, mid, hfirst, hrun⟩ := exists_of_run_bind hrun
      obtain ⟨further, last, hfurther, hrun⟩ := exists_of_run_bind hrun
      cases hrun
      obtain ⟨hmid, taken, htaken⟩ := hm.suffix hi hfirst
      obtain ⟨hwhole, more, hmore⟩ := ih hmid hfurther
      exact ⟨hwhole, taken ++ more, by rw [← htaken, hmore, List.append_assoc]⟩

theorem lexemes_of_bracketedSome {openMark close : Mark} {values : List α} (hm : Inner m)
    (hi : i.Whole) (hrun : (bracketedSome openMark close m).run i = .ok (values, rest)) :
    rest.Whole ∧ ∃ taken, i.lexemes = taken ++ .mark close :: rest.lexemes := by
  obtain ⟨_, inside, hopen, hrun⟩ := exists_of_run_bind hrun
  obtain ⟨first, mid, hfirst, hrun⟩ := exists_of_run_bind hrun
  obtain ⟨further, last, hfurther, hrun⟩ := exists_of_run_bind hrun
  cases hrun
  obtain ⟨hinside, hl⟩ := lexemes_of_expect hi hopen
  obtain ⟨hmid, taken, htaken⟩ := hm.suffix hinside hfirst
  obtain ⟨hwhole, more, hmore⟩ := lexemes_of_untilMark hm hmid hfurther
  refine ⟨hwhole, .mark openMark :: (taken ++ more), ?_⟩
  rw [hl, ← htaken, hmore, List.cons_append, List.append_assoc]

/-! ## Readers that do not end with a brace -/

/-- What is taken from one input to the next does not end with a closing brace. -/
def Barely (i rest : Input) : Prop :=
  rest.Whole ∧ ∃ taken, i.lexemes = taken ++ rest.lexemes ∧
    taken.getLast? ≠ some (.mark .braceRight)

theorem Barely.refl (hi : i.Whole) : Barely i i := ⟨hi, [], rfl, nofun⟩

theorem Barely.trans {mid : Input} (h : Barely i mid) (h' : Barely mid rest) :
    Barely i rest := by
  obtain ⟨-, taken, htaken, hlast⟩ := h
  obtain ⟨hwhole, more, hmore, hlast'⟩ := h'
  refine ⟨hwhole, taken ++ more, by rw [htaken, hmore, List.append_assoc], ?_⟩
  rw [List.getLast?_append]
  cases hm : more.getLast? with
  | none => exact hlast
  | some lexeme => rwa [hm] at hlast'

theorem barely_of_lexemes {lexeme : Lexeme} {taken : List Lexeme} (hrest : rest.Whole)
    (hl : i.lexemes = taken ++ lexeme :: rest.lexemes) (hne : lexeme ≠ .mark .braceRight) :
    Barely i rest := by
  refine ⟨hrest, taken ++ [lexeme], by rw [hl, List.append_assoc]; rfl, ?_⟩
  rw [List.getLast?_append]
  simpa using hne

/-- Whether what a reader takes does not end with a closing brace. -/
def Bare (m : Reader α) : Prop :=
  ∀ ⦃i value rest⦄, i.Whole → m.run i = .ok (value, rest) → Barely i rest

theorem Bare.done : Bare (pure value) := by
  rintro i v rest hi ⟨⟩
  exact .refl hi

theorem Bare.bind (hm : Bare m) (hk : ∀ value, Bare (k value)) : Bare (m >>= k) := by
  intro i result rest hi hrun
  obtain ⟨value, mid, hfirst, hrun⟩ := exists_of_run_bind hrun
  have hmid := hm hi hfirst
  exact hmid.trans (hk value hmid.1 hrun)

theorem Bare.ite {c : Prop} [Decidable c] {other : Reader α} (hm : Bare m) (ho : Bare other) :
    Bare (if c then m else other) := by
  split
  · exact hm
  · exact ho

theorem barely_of_advance {u : Unit} (hi : i.Whole) (hf : i.front.lexeme ≠ .finish)
    (hb : i.front.lexeme ≠ .mark .braceRight) (hrun : advance.run i = .ok (u, rest)) :
    Barely i rest := by
  obtain ⟨hwhole, hl⟩ := lexemes_of_advance hi hf hrun
  exact ⟨hwhole, [i.front.lexeme], hl, by simpa using hb⟩

theorem barely_of_advance_mark {mark : Mark} {u : Unit} (hne : mark ≠ .braceRight) (hi : i.Whole)
    (hmark : (i.front.lexeme == .mark mark) = true) (hrun : advance.run i = .ok (u, rest)) :
    Barely i rest := by
  have hfront : i.front.lexeme = .mark mark := beq_iff_eq.mp hmark
  refine barely_of_advance hi (by rw [hfront]; nofun) ?_ hrun
  rw [hfront]
  exact fun he => hne (Lexeme.mark.inj he)

theorem barely_of_advance_name {text : String} {u : Unit} (hi : i.Whole)
    (hname : i.front.lexeme = .name text) (hrun : advance.run i = .ok (u, rest)) :
    Barely i rest :=
  barely_of_advance hi (by rw [hname]; nofun) (by rw [hname]; nofun) hrun

theorem bare_name : Bare name := by
  intro i value rest hi hrun
  rw [name, run_front] at hrun
  split at hrun
  · rename_i text hname
    obtain ⟨_, mid, hadvance, hrun⟩ := exists_of_run_bind hrun
    cases hrun
    exact barely_of_advance_name hi hname hadvance
  · cases hrun

theorem bare_expect {mark : Mark} (hne : mark ≠ .braceRight) : Bare (expect mark) := by
  intro i value rest hi hrun
  rw [expect, run_front] at hrun
  split at hrun
  · rename_i hmark
    exact barely_of_advance_mark hne hi hmark hrun
  · cases hrun

theorem bare_expectWord (word : String) : Bare (expectWord word) := by
  intro i value rest hi hrun
  rw [expectWord, run_front] at hrun
  split at hrun
  · rename_i hname
    exact barely_of_advance_name hi (beq_iff_eq.mp hname) hrun
  · cases hrun

theorem bare_acceptWord (word : String) : Bare (acceptWord word) := by
  intro i value rest hi hrun
  rw [acceptWord, run_front] at hrun
  split at hrun
  · rename_i hname
    obtain ⟨_, mid, hadvance, hrun⟩ := exists_of_run_bind hrun
    cases hrun
    exact barely_of_advance_name hi (beq_iff_eq.mp hname) hadvance
  · cases hrun
    exact .refl hi

theorem bare_accept {mark : Mark} (hne : mark ≠ .braceRight) : Bare (accept mark) := by
  intro i value rest hi hrun
  rw [← bind_pure (accept mark), accept_bind, run_front] at hrun
  split at hrun
  · rename_i hmark
    obtain ⟨_, mid, hadvance, hrun⟩ := exists_of_run_bind hrun
    cases hrun
    exact barely_of_advance_mark hne hi hmark hadvance
  · cases hrun
    exact .refl hi

theorem bare_sees (mark : Mark) : Bare (sees mark) := by
  rintro i value rest hi ⟨⟩
  exact .refl hi

theorem bare_description : Bare description := by
  intro i value rest hi hrun
  rw [description, run_front] at hrun
  split at hrun
  · rename_i text hl
    exact barely_of_advance hi (by rw [hl]; nofun) (by rw [hl]; nofun) hrun
  · rename_i text hl
    exact barely_of_advance hi (by rw [hl]; nofun) (by rw [hl]; nofun) hrun
  · cases hrun
    exact .refl hi

theorem bare_bracketedSome {openMark close : Mark} (hne : close ≠ .braceRight) (hm : Inner m) :
    Bare (bracketedSome openMark close m) := by
  intro i values rest hi hrun
  obtain ⟨hwhole, taken, hl⟩ := lexemes_of_bracketedSome hm hi hrun
  exact barely_of_lexemes hwhole hl fun he => hne (Lexeme.mark.inj he)

theorem bare_arguments (constant : Bool) (depth : Nat) : Bare (arguments constant depth) := by
  have hentry : Inner (entry (value constant depth)) := fun _ _ h =>
    keeps_entry h (keeps_value h rfl constant depth)
  exact (bare_sees .parenLeft).bind fun _ => .ite (bare_bracketedSome (by decide) hentry) .done

theorem bare_directive (constant : Bool) (depth : Nat) : Bare (directive constant depth) := by
  have hat : Bare (expect .at) := bare_expect (by decide)
  exact hat.bind fun _ => bare_name.bind fun _ =>
    (bare_arguments constant depth).bind fun _ => .done

theorem bare_someDirectives (constant : Bool) (depth fuel : Nat) :
    Bare (someDirectives constant depth fuel) := by
  induction fuel with
  | zero => exact fun _ _ _ _ hrun => by cases hrun
  | succ fuel ih =>
    refine (bare_sees .at).bind fun _ => .ite ?_ .done
    exact (bare_directive constant depth).bind fun _ => ih.bind fun _ => .done

theorem bare_directives : Bare directives :=
  fun _ _ _ hi hrun => bare_someDirectives _ _ _ hi hrun

theorem bare_moreSeparated {separator : Mark} (hne : separator ≠ .braceRight) (hm : Bare m)
    (fuel : Nat) : Bare (moreSeparated separator m fuel) := by
  induction fuel with
  | zero => exact fun _ _ _ _ hrun => by cases hrun
  | succ fuel ih =>
    exact (bare_accept hne).bind fun _ => .ite (hm.bind fun _ => ih.bind fun _ => .done) .done

theorem bare_separated {separator : Mark} (hne : separator ≠ .braceRight) (hm : Bare m) :
    Bare (separated separator m) := by
  refine (bare_accept hne).bind fun _ => hm.bind fun _ => ?_
  intro i values rest hi hrun
  exact (bare_moreSeparated hne hm _).bind (fun _ => .done) hi hrun

theorem bare_interfaces : Bare interfaces :=
  (bare_acceptWord "implements").bind fun _ => .ite (bare_separated (by decide) bare_name) .done

/-! ## Definitions with a body and without -/

theorem Firm.done : Firm (pure value) := fun _ _ _ _ _ => .done

theorem Firm.bind (hm : Firm m) (hk : ∀ value, Firm (k value)) : Firm (m >>= k) :=
  fun _ _ _ h hn => (hm h hn).bind fun value => hk value h hn

/-- Whether a reader takes nothing and reads the same everywhere. -/
def Idle (m : Reader α) : Prop :=
  ∀ ⦃i value rest⦄, m.run i = .ok (value, rest) → rest = i ∧ ∀ i', m.run i' = .ok (value, i')

theorem Idle.firm (hm : Idle m) : Firm m := by
  intro Q next R h hn d
  constructor
  · intro i value rest hq hrun
    obtain ⟨rfl, -⟩ := hm hrun
    exact hq
  · intro i i' value rest hr hq hrun
    obtain ⟨rfl, heverywhere⟩ := hm hrun
    exact .inr ⟨i', heverywhere i', hr⟩

theorem idle_pure : Idle (pure value) := by
  rintro i v rest ⟨⟩
  exact ⟨rfl, fun _ => rfl⟩

theorem idle_needsPart (hasPart : Bool) : Idle (needsPart hasPart >>= fun _ => pure value) := by
  cases hasPart with
  | true => exact idle_pure
  | false =>
    intro i v rest hrun
    cases hrun

/-- `Bodied m`: the reader `m` reads a heading and behind it a body in braces, if there is one. -/
inductive Bodied : Reader Definition → Prop
  | intro {α β : Type} {heading : Reader α} {item : Reader β}
      {close : α → List β → Reader Definition} (firm : Firm heading) (bare : Bare heading)
      (inner : Inner item) (idle : ∀ head body, Idle (close head body)) :
      Bodied (do
        let head ← heading
        let body ← optional .braceLeft .braceRight item
        close head body)

theorem Bodied.prepend {reader : Reader Definition} (hfirm : Firm m) (hbare : Bare m)
    (h : Bodied reader) : Bodied (m >>= fun _ => reader) := by
  obtain ⟨firm, bare, inner, idle⟩ := h
  have hb := Bodied.intro (hfirm.bind fun _ => firm) (hbare.bind fun _ => bare) inner idle
  rwa [bind_assoc] at hb

theorem firm_name : Firm name := fun _ _ _ h _ => keeps_name h

theorem firm_directives : Firm directives := fun _ _ _ h hn => keeps_directives h hn

theorem firm_unionMembers : Firm unionMembers := fun _ _ _ h hn => keeps_unionMembers h hn

theorem inner_enumValue : Inner enumValue := fun _ _ h => keeps_enumValue h

theorem inner_inputValue : Inner inputValue := fun _ _ h => keeps_inputValue h

theorem inner_operationType : Inner operationType := fun _ _ h => keeps_operationType h

/-- A name with directives and a body. -/
theorem bodied_named {β : Type} {item : Reader β} (hitem : Inner item) : Bodied (do
    let _ ← name
    let _ ← directives
    let _ ← optional .braceLeft .braceRight item
    return .other) :=
  .prepend firm_name bare_name (.intro firm_directives bare_directives hitem fun _ _ => idle_pure)

/-- What a type fragment is made into behind its body. -/
theorem bodied_typeFragment (isInterface isExtension : Bool)
    {close : TypeFragment → Reader Definition} (hclose : ∀ fragment, Idle (close fragment)) :
    Bodied (typeFragment isInterface isExtension >>= close) := by
  let heading : Reader (String × List String × List Directive) := do
    let name ← name
    let interfaces ← interfaces
    return (name, interfaces, ← directives)
  have hfirm : Firm heading := fun _ _ _ h hn => (keeps_name h).bind fun _ =>
    (keeps_interfaces h hn).bind fun _ => (keeps_directives h hn).bind fun _ => .done
  have hbare : Bare heading := bare_name.bind fun _ => bare_interfaces.bind fun _ =>
    bare_directives.bind fun _ => .done
  have hitem : Inner fieldDefinition := fun _ _ h => keeps_fieldDefinition h
  have hb : Bodied (do
      let head ← heading
      let fields ← optional .braceLeft .braceRight fieldDefinition
      close ⟨head.1, isInterface, isExtension, head.2.1, head.2.2, fields⟩) :=
    .intro hfirm hbare hitem fun _ _ => hclose _
  simpa only [typeFragment, heading, bind_assoc, pure_bind] using hb

/-- The words of definitions that may have a body or leave it out. -/
def bodyWords : List String := ["type", "interface", "enum", "input"]

theorem typeSystemDefinition_cases {word : String} {reader : Reader Definition}
    (h : typeSystemDefinition? word = some reader) :
    bodyWords.contains word = false ∧ Firm reader ∨
      bodyWords.contains word = true ∧ Bodied reader := by
  rw [typeSystemDefinition?] at h
  repeat' split at h
  all_goals cases h
  all_goals
    rename_i hword
    subst hword
  · refine .inl ⟨by decide, fun _ _ _ h hn => (keeps_directives h hn).bind fun _ => ?_⟩
    have hbody := keeps_bracketedSome h (ne_mark_of_endsDefinition hn rfl) paired_braces
      (keeps_operationType h.atEnds)
    exact hbody.bind fun _ => .done
  · exact .inl ⟨by decide, firm_name.bind fun _ => firm_directives.bind fun _ => .done⟩
  · exact .inr ⟨by decide, bodied_typeFragment false false fun _ => idle_pure⟩
  · exact .inr ⟨by decide, bodied_typeFragment true false fun _ => idle_pure⟩
  · exact .inl ⟨by decide, firm_name.bind fun _ => firm_directives.bind fun _ =>
      firm_unionMembers.bind fun _ => .done⟩
  · exact .inr ⟨by decide, bodied_named inner_enumValue⟩
  · exact .inr ⟨by decide, bodied_named inner_inputValue⟩
  · have hdirective : Firm directiveDefinition := fun _ _ _ h hn => keeps_directiveDefinition h hn
    exact .inl ⟨by decide, hdirective.bind fun _ => .done⟩

theorem firm_otherExtension {parts : Reader (List α)} (h : Firm parts) :
    Firm (otherExtension parts) :=
  firm_directives.bind fun _ => h.bind fun _ => (idle_needsPart _).firm

theorem bodied_otherExtension {item : Reader α} (hitem : Inner item) :
    Bodied (otherExtension (optional .braceLeft .braceRight item)) :=
  .intro firm_directives bare_directives hitem fun _ _ => idle_needsPart _

theorem extension_cases {word : String} {reader : Reader Definition}
    (h : extension? word = some reader) :
    ("schema" :: bodyWords).contains word = false ∧ Firm reader ∨
      ("schema" :: bodyWords).contains word = true ∧ Bodied reader := by
  have directed : Firm (otherExtension (return ([] : List Unit))) := firm_otherExtension .done
  rw [extension?] at h
  repeat' split at h
  all_goals cases h
  all_goals
    rename_i hword
    subst hword
  · exact .inr ⟨by decide, bodied_otherExtension inner_operationType⟩
  · exact .inl ⟨by decide, firm_name.bind fun _ => directed⟩
  · exact .inr ⟨by decide, bodied_typeFragment false true fun _ => idle_needsPart _⟩
  · exact .inr ⟨by decide, bodied_typeFragment true true fun _ => idle_needsPart _⟩
  · exact .inl ⟨by decide, firm_name.bind fun _ => firm_otherExtension firm_unionMembers⟩
  · exact .inr ⟨by decide, .prepend firm_name bare_name (bodied_otherExtension inner_enumValue)⟩
  · exact .inr ⟨by decide, .prepend firm_name bare_name (bodied_otherExtension inner_inputValue)⟩
  · have hat : Firm (expect .at) := fun _ _ _ h _ => keeps_expect h fun _ => rfl
    exact .inl ⟨by decide, hat.bind fun _ => firm_name.bind fun _ => directed⟩

end Reader

end FederationGraph.Document
