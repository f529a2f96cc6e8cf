import FederationGraph.Proofs.Document.Follows

/-!
# The grammar on two inputs

What each part of the grammar reads on an input it reads on one that goes on behind the end
of the first, if that begins a definition. A part between marks has to be closed, so that
it does not come to the end. A part that may be left out at the end is left out in front of
what begins a definition as well. There is one exception: a brace may begin a definition
and the body of one.
-/
namespace FederationGraph.Document.Reader

/-- The words that begin a definition. -/
def definitionWords : List String :=
  ["schema", "scalar", "type", "interface", "union", "enum", "input", "directive", "query",
    "mutation", "subscription", "fragment", "extend"]

/-- Whether a lexeme may stand behind a definition: it begins another, or the text has ended. -/
def endsDefinition : Lexeme → Bool
  | .finish => true
  | .quoted _ => true
  | .block _ => true
  | .mark mark => mark == .braceLeft
  | .name text => definitionWords.contains text
  | _ => false

theorem ne_mark_of_endsDefinition {next : Lexeme} {mark : Mark}
    (hn : endsDefinition next = true) (hmark : (mark == .braceLeft) = false) :
    next ≠ .mark mark := by
  rintro rfl
  rw [endsDefinition, hmark] at hn
  cases hn

theorem ne_name_of_endsDefinition {next : Lexeme} {word : String}
    (hn : endsDefinition next = true) (hword : definitionWords.contains word = false) :
    next ≠ .name word := by
  rintro rfl
  rw [endsDefinition, hword] at hn
  cases hn

variable {Q : Input → Prop} {next : Lexeme} {R : Nat → Input → Input → Prop}
  {S : Input → Input → Prop} {d : Nat}

/-- Where the one input has ended nothing has to be followed that does not read there. -/
theorem follows_at_finish {α : Type} {m m' : Reader α} (h : Likens Q next R) (hm : Halts m) :
    Follows Q (At .finish (R d)) S m m' where
  stays hq hrun := absurd hrun (hm _ _ _ (h.atEnd hq))
  keeps hr _ hrun := absurd hrun (hm _ _ _ (h.finish hr.2 hr.1))

/-! ## Values and types -/

theorem keeps_variableName (h : Likens Q next R) : Keeps Q R variableName :=
  (keeps_expect h fun _ => rfl).bind fun _ => keeps_name h

theorem variableInConstant_run_ne (i : Input) (value : Value) (rest : Input) :
    variableInConstant.run i ≠ .ok (value, rest) := by
  intro hrun
  obtain ⟨dollar, _, -, hrun⟩ := exists_of_run_bind hrun
  obtain ⟨_, _, -, hrun⟩ := exists_of_run_bind hrun
  obtain ⟨token, _, -, hrun⟩ := exists_of_run_bind hrun
  split at hrun
  · cases hrun
  · cases hrun

theorem halts_simpleValue (constant : Bool) : Halts (simpleValue constant) :=
  halts_front fun _ _ _ _ hrun => by cases hrun

theorem keeps_simpleValue (h : Likens Q next R) (constant : Bool) :
    Keeps Q R (simpleValue constant) := by
  refine fun d => follows_front h (fun lexeme p p' => ?_) fun _ p p' => follows_unexpected
  have taken : ∀ value : Value, lexeme ≠ .finish → bracesBehind lexeme (d + 1) = d + 1 →
      Follows Q (At lexeme (R (d + 1))) (R (d + 1)) (advance >>= fun _ => pure value)
        (advance >>= fun _ => pure value) := by
    intro value hl hlevel
    have hadvance := follows_advance (d := d) h hl
    rw [hlevel] at hadvance
    exact hadvance.bind fun _ => .done
  cases lexeme with
  | finish => exact follows_unexpected
  | int text => exact taken _ nofun rfl
  | float text => exact taken _ nofun rfl
  | quoted text => exact taken _ nofun rfl
  | block text => exact taken _ nofun rfl
  | name text => exact taken _ nofun rfl
  | mark mark =>
    cases mark with
    | dollar =>
      refine .branch (fun _ => .of_never variableInConstant_run_ne) ?_
      exact ((keeps_variableName h).bind fun _ => .done).at
    | _ => exact follows_unexpected

theorem keeps_entry {value : Reader Value} (h : Likens Q next R) (hvalue : Keeps Q R value) :
    Keeps Q R (entry value) :=
  (keeps_name h).bind fun _ => (keeps_expect h fun _ => rfl).bind fun _ =>
    hvalue.bind fun _ => .done

theorem keeps_value (h : Likens Q next R) (hn : endsDefinition next = true) (constant : Bool)
    (depth : Nat) : Keeps Q R (value constant depth) := by
  induction depth generalizing Q next with
  | zero =>
    rw [value_zero]
    refine fun d => follows_front h (fun lexeme p p' => ?_) fun _ p p' => ?_
    · dsimp only
      split
      · exact follows_failAt
      · exact follows_failAt
      · exact (keeps_simpleValue h constant).at
    · exact follows_at_finish h (halts_simpleValue constant)
  | succ depth ih =>
    rw [value_succ]
    refine fun d => follows_front h (fun lexeme p p' => ?_) fun _ p p' => ?_
    · dsimp only
      split
      · have hlist := keeps_bracketed h (ne_mark_of_endsDefinition hn rfl) paired_brackets
          (ih h.atEnds rfl)
        exact (hlist.bind fun _ => .done).at
      · have hobject := keeps_bracketed h (ne_mark_of_endsDefinition hn rfl) paired_braces
          (keeps_entry h.atEnds (ih h.atEnds rfl))
        exact (hobject.bind fun _ => .done).at
      · exact (keeps_simpleValue h constant).at
    · exact follows_at_finish h (halts_simpleValue constant)

theorem keeps_marked (h : Likens Q next R) (hn : endsDefinition next = true)
    (reference : TypeReference) : Keeps Q R (marked reference) :=
  (keeps_accept h (ne_mark_of_endsDefinition hn rfl) fun _ => rfl).bind fun _ => .ite .done .done

theorem keeps_type (h : Likens Q next R) (hn : endsDefinition next = true) (depth : Nat) :
    Keeps Q R (type depth) := by
  have hnamed : Keeps Q R (do marked (.named (← name))) :=
    (keeps_name h).bind fun _ => keeps_marked h hn _
  have hhalts : Halts (do marked (.named (← name))) := halts_name.bind
  induction depth with
  | zero =>
    refine fun d => follows_front h (fun lexeme p p' => ?_) fun _ p p' => ?_
    · refine .branch (fun hl => ?_) hnamed.at
      obtain rfl : lexeme = .mark .bracketLeft := hl
      refine (follows_advance_mark h .bracketLeft).bind fun _ => ?_
      exact .of_never fun _ _ _ hrun => by cases hrun
    · exact follows_at_finish h hhalts
  | succ depth ih =>
    refine fun d => follows_front h (fun lexeme p p' => ?_) fun _ p p' => ?_
    · refine .branch (fun hl => ?_) hnamed.at
      obtain rfl : lexeme = .mark .bracketLeft := hl
      refine (follows_advance_mark h .bracketLeft).bind fun _ => (ih d).bind fun _ => ?_
      exact ((keeps_expect h fun _ => rfl).bind fun _ => keeps_marked h hn _) d
    · exact follows_at_finish h hhalts

theorem keeps_arguments (h : Likens Q next R) (hn : endsDefinition next = true)
    (constant : Bool) (depth : Nat) : Keeps Q R (arguments constant depth) :=
  keeps_optional h (ne_mark_of_endsDefinition hn rfl) (ne_mark_of_endsDefinition hn rfl)
    paired_parentheses (keeps_entry h.atEnds (keeps_value h.atEnds rfl constant depth))

theorem keeps_directive (h : Likens Q next R) (hn : endsDefinition next = true)
    (constant : Bool) (depth : Nat) : Keeps Q R (directive constant depth) :=
  (keeps_expect h fun _ => rfl).bind fun _ => (keeps_name h).bind fun _ =>
    (keeps_arguments h hn constant depth).bind fun _ => .done

theorem follows_someDirectives (h : Likens Q next R) (hn : endsDefinition next = true)
    (constant : Bool) (depth : Nat) {fuel fuel' : Nat} (hfuel : fuel ≤ fuel') :
    Follows Q (R (d + 1)) (R (d + 1)) (someDirectives constant depth fuel)
      (someDirectives constant depth fuel') := by
  induction fuel generalizing fuel' with
  | zero => exact follows_unexpected
  | succ fuel ih =>
    obtain ⟨fuel', rfl⟩ := Nat.exists_eq_succ_of_ne_zero (Nat.ne_of_gt (Nat.zero_lt_of_lt hfuel))
    have hrest := ih (Nat.le_of_succ_le_succ hfuel)
    refine (keeps_sees h (ne_mark_of_endsDefinition hn rfl) d).bind fun _ => ?_
    refine .branch (fun _ => ?_) .done
    exact (keeps_directive h hn constant depth d).bind fun _ => hrest.bind fun _ => .done

theorem keeps_directivesAt (h : Likens Q next R) (hn : endsDefinition next = true)
    (constant : Bool) (depth : Nat) : Keeps Q R (directivesAt constant depth) :=
  fun _ => follows_get h fun _ _ hlength =>
    follows_someDirectives h hn constant depth (by omega)

theorem keeps_directives (h : Likens Q next R) (hn : endsDefinition next = true) :
    Keeps Q R directives := keeps_directivesAt h hn true depthLimit

/-- Behind a definition may stand what could be a description, so that the ends have to agree. -/
theorem keeps_description (h : Likens Q .finish R) : Keeps Q R description := by
  refine fun d => follows_front h (fun lexeme p p' => ?_) fun hne => absurd rfl hne
  cases lexeme with
  | quoted text => exact follows_advance h nofun
  | block text => exact follows_advance h nofun
  | _ => exact Follows.done.at

/-! ## Operations and fragments -/

theorem keeps_field {nested : Reader Unit} (h : Likens Q .finish R) (hnested : Keeps Q R nested)
    (depth : Nat) : Keeps Q R (field nested depth) := by
  have behind : Keeps Q R (do
      let _ ← arguments false depth
      let _ ← directivesAt false depth
      if ← sees .braceLeft then nested) :=
    (keeps_arguments h rfl false depth).bind fun _ =>
      (keeps_directivesAt h rfl false depth).bind fun _ =>
        (keeps_sees h nofun).bind fun _ => .ite hnested .done
  exact (keeps_name h).bind fun _ => (keeps_accept h nofun fun _ => rfl).bind fun _ =>
    .ite ((keeps_name h).bind fun _ => behind) behind

theorem keeps_spread {nested : Reader Unit} (h : Likens Q .finish R) (hnested : Keeps Q R nested)
    (depth : Nat) : Keeps Q R (spread nested depth) := by
  have hdirectives := keeps_directivesAt h rfl false depth
  have inline := hdirectives.bind fun _ => hnested
  refine (keeps_expect h fun _ => rfl).bind fun _ => (keeps_acceptWord h nofun).bind fun _ => ?_
  refine (keeps_seesName h).bind fun _ => .ite ?_ (.ite ?_ inline)
  · exact (keeps_name h).bind fun _ => hdirectives.bind fun _ => .done
  · exact (keeps_name h).bind fun _ => inline

theorem halts_selectionSet (depth : Nat) : Halts (selectionSet depth) := by
  cases depth with
  | zero => exact fun _ _ _ _ hrun => by cases hrun
  | succ depth => exact ((halts_expect .braceLeft).bind).bind

/-- What stands in a selection set. -/
theorem keeps_selection (h : Likens Q .finish R) {depth : Nat}
    (hnested : Keeps Q R (selectionSet depth)) : Keeps Q R (do
      if ← sees .spread then spread (selectionSet depth) depth
      else field (selectionSet depth) depth) :=
  (keeps_sees h nofun).bind fun _ =>
    .ite (keeps_spread h hnested depth) (keeps_field h hnested depth)

theorem keeps_selectionSet (h : Likens Q next R) (hn : endsDefinition next = true)
    (depth : Nat) : Keeps Q R (selectionSet depth) := by
  induction depth generalizing Q next with
  | zero => exact fun _ => .of_never fun _ _ _ hrun => by cases hrun
  | succ depth ih =>
    exact (keeps_bracketed h (ne_mark_of_endsDefinition hn rfl) paired_braces
      (keeps_selection h.atEnds (ih h.atEnds rfl))).bind fun _ => .done

/-- What stands behind the name of a variable, an argument or an input field. -/
theorem keeps_typedDefault (h : Likens Q next R) (hn : endsDefinition next = true) :
    Keeps Q R (do
      expect .colon
      let _ ← type depthLimit
      if ← accept .equals then
        let _ ← value true depthLimit
      let _ ← directives : Reader Unit) := by
  have last : Keeps Q R (directives >>= fun _ => pure ()) :=
    (keeps_directives h hn).bind fun _ => .done
  refine (keeps_expect h fun _ => rfl).bind fun _ => (keeps_type h hn depthLimit).bind fun _ => ?_
  refine (keeps_accept h (ne_mark_of_endsDefinition hn rfl) fun _ => rfl).bind fun _ => ?_
  exact .ite ((keeps_value h hn true depthLimit).bind fun _ => last) last

theorem keeps_variableDefinition (h : Likens Q .finish R) : Keeps Q R variableDefinition :=
  (keeps_description h).bind fun _ => (keeps_variableName h).bind fun _ =>
    keeps_typedDefault h rfl

theorem halts_operationWord : Halts operationWord := by
  intro i value rest hend hrun
  rw [operationWord, run_front] at hrun
  exact halts_name.bind _ _ _ hend hrun

theorem keeps_operationWord (h : Likens Q next R) : Keeps Q R operationWord := by
  refine fun d => follows_front h (fun lexeme p p' => ?_) fun _ p p' =>
    follows_at_finish h halts_name.bind
  exact (keeps_name h).at.bind fun _ => .branch (fun _ => follows_failAt) .done

/-- What stands behind the name of an operation. -/
theorem keeps_operationBody (h : Likens Q next R) (hn : endsDefinition next = true) :
    Keeps Q R (do
      let _ ← optional .parenLeft .parenRight variableDefinition
      let _ ← directivesAt false depthLimit
      selectionSet depthLimit) :=
  (keeps_optional h (ne_mark_of_endsDefinition hn rfl) (ne_mark_of_endsDefinition hn rfl)
    paired_parentheses (keeps_variableDefinition h.atEnds)).bind fun _ =>
    (keeps_directivesAt h hn false depthLimit).bind fun _ => keeps_selectionSet h hn depthLimit

theorem keeps_operation (h : Likens Q next R) (hn : endsDefinition next = true) :
    Keeps Q R operation := by
  have hvariables := keeps_optional h.atEnds nofun nofun paired_parentheses
    (keeps_variableDefinition h.atEnds)
  have halts : Halts (do
      let _ ← optional .parenLeft .parenRight variableDefinition
      let _ ← directivesAt false depthLimit
      selectionSet depthLimit) :=
    hvariables.then_halts fun _ => (keeps_directivesAt h.atEnds rfl false depthLimit).then_halts
      fun _ => halts_selectionSet depthLimit
  have behind := keeps_operationBody h hn
  -- what is neither a description nor a name at the end may be one behind it, but a selection
  -- set has to come anyhow
  refine (keeps_description h.atEnds).bind_of_halts h (fun _ => ?_)
    fun _ => halts_operationWord.bind
  refine (keeps_operationWord h).bind fun _ => (keeps_seesName h.atEnds).bind_of_halts h ?_ ?_
  · exact fun _ => .ite ((keeps_name h).bind fun _ => behind) behind
  · exact fun _ => .ite halts_name.bind halts

theorem keeps_fragmentName (h : Likens Q next R) : Keeps Q R fragmentName := by
  refine fun d => follows_front h (fun lexeme p p' => ?_) fun _ p p' => ?_
  · refine .branch (fun _ => .of_never fun _ _ _ hrun => by cases hrun) ?_
    exact ((keeps_name h).bind fun _ => .done).at
  · exact follows_at_finish h halts_name.bind

theorem keeps_fragmentDefinition (h : Likens Q next R) (hn : endsDefinition next = true) :
    Keeps Q R fragmentDefinition := by
  refine (keeps_description h.atEnds).bind_of_halts h (fun _ => ?_)
    fun _ => (halts_expectWord _).bind
  refine (keeps_expectWord h "fragment").bind fun _ => (keeps_fragmentName h).bind fun _ => ?_
  refine (keeps_expectWord h "on").bind fun _ => (keeps_name h).bind fun _ => ?_
  exact (keeps_directivesAt h hn false depthLimit).bind fun _ => keeps_selectionSet h hn depthLimit

/-! ## Definitions of the type system -/

theorem keeps_inputValue (h : Likens Q .finish R) : Keeps Q R inputValue :=
  (keeps_description h).bind fun _ => (keeps_name h).bind fun _ => keeps_typedDefault h rfl

theorem keeps_argumentDefinitions (h : Likens Q next R) (hn : endsDefinition next = true) :
    Keeps Q R argumentDefinitions :=
  (keeps_optional h (ne_mark_of_endsDefinition hn rfl) (ne_mark_of_endsDefinition hn rfl)
    paired_parentheses (keeps_inputValue h.atEnds)).bind fun _ => .done

theorem keeps_fieldDefinition (h : Likens Q .finish R) : Keeps Q R fieldDefinition := by
  refine (keeps_description h).bind fun _ => (keeps_name h).bind fun _ => ?_
  refine (keeps_argumentDefinitions h rfl).bind fun _ => (keeps_expect h fun _ => rfl).bind ?_
  exact fun _ => (keeps_type h rfl depthLimit).bind fun _ =>
    (keeps_directives h rfl).bind fun _ => .done

theorem keeps_interfaces (h : Likens Q next R) (hn : endsDefinition next = true) :
    Keeps Q R interfaces :=
  (keeps_acceptWord h (ne_name_of_endsDefinition hn (by decide))).bind fun _ =>
    .ite (keeps_separated h (ne_mark_of_endsDefinition hn rfl) (fun _ => rfl) (keeps_name h)) .done

theorem keeps_operationType (h : Likens Q next R) : Keeps Q R operationType :=
  (keeps_operationWord h).bind fun _ => (keeps_expect h fun _ => rfl).bind fun _ =>
    (keeps_name h).bind fun _ => .done

theorem keeps_unionMembers (h : Likens Q next R) (hn : endsDefinition next = true) :
    Keeps Q R unionMembers :=
  (keeps_accept h (ne_mark_of_endsDefinition hn rfl) fun _ => rfl).bind fun _ =>
    .ite (keeps_separated h (ne_mark_of_endsDefinition hn rfl) (fun _ => rfl) (keeps_name h)) .done

theorem keeps_enumValue (h : Likens Q .finish R) : Keeps Q R enumValue := by
  have behind : Keeps Q R (do
      let _ ← name
      let _ ← directives : Reader Unit) :=
    (keeps_name h).bind fun _ => (keeps_directives h rfl).bind fun _ => .done
  refine (keeps_description h).bind fun _ d => ?_
  refine follows_front h (fun lexeme p p' => ?_) fun hne => absurd rfl hne
  exact .branch (fun _ => .of_never fun _ _ _ hrun => by cases hrun) behind.at

theorem keeps_directiveLocation (h : Likens Q next R) : Keeps Q R directiveLocation := by
  refine fun d => follows_front h (fun lexeme p p' => ?_) fun _ p p' =>
    follows_at_finish h halts_name.bind
  exact (keeps_name h).at.bind fun _ => .branch (fun _ => follows_failAt) .done

theorem keeps_directiveDefinition (h : Likens Q next R) (hn : endsDefinition next = true) :
    Keeps Q R directiveDefinition := by
  refine (keeps_expect h fun _ => rfl).bind fun _ => (keeps_name h).bind fun _ => ?_
  refine (keeps_argumentDefinitions h hn).bind fun _ => (keeps_directives h hn).bind fun _ => ?_
  refine (keeps_acceptWord h (ne_name_of_endsDefinition hn (by decide))).bind fun _ => ?_
  refine (keeps_expectWord h "on").bind fun _ => ?_
  exact (keeps_separated h (ne_mark_of_endsDefinition hn rfl) (fun _ => rfl)
    (keeps_directiveLocation h)).bind fun _ => .done

end FederationGraph.Document.Reader
