import FederationGraph.Document.Reader

/-!
# What readers read

A reader takes tokens from the front and leaves the rest as it is. So what holds
of every name among the tokens ahead holds of every name it reads and of every
name among the tokens it leaves. A reader made of parts keeps to this because its
parts do, one after the other.
-/
namespace FederationGraph.Document

/-- Whether a token that is a name has a property. -/
def Token.Named (N : String → Prop) (token : Token) : Prop :=
  ∀ text, token.lexeme = .name text → N text

/-- The names among the tokens ahead have a property. -/
structure Input.Named (N : String → Prop) (input : Input) : Prop where
  front : input.front.Named N
  behind : ∀ token ∈ input.behind, token.Named N

namespace Reader

/-- `Reads N m P`: where the names ahead have `N`, the reader `m` reads nothing but values with
`P`, and the names behind what it takes have `N` as well. -/
def Reads {α : Type} (N : String → Prop) (m : Reader α) (P : α → Prop) : Prop :=
  ∀ input : Input, input.Named N → ∀ value rest, m.run input = .ok (value, rest) →
    P value ∧ rest.Named N

/-- `Passes N m`: the names behind what the reader `m` takes have `N` where the names ahead do. -/
abbrev Passes {α : Type} (N : String → Prop) (m : Reader α) : Prop := Reads N m fun _ => True

variable {α β : Type} {N : String → Prop} {m : Reader α} {k : α → Reader β} {P : α → Prop}
  {Q : β → Prop}

/-! ## Steps in sequence -/

theorem Reads.pure {value : α} (h : P value) : Reads N (pure value) P := by
  intro input hi value rest hr
  cases hr
  exact ⟨h, hi⟩

theorem Reads.done {value : α} : Passes N (Pure.pure value : Reader α) := .pure trivial

theorem Reads.bind (hm : Reads N m P) (hk : ∀ value, P value → Reads N (k value) Q) :
    Reads N (m >>= k) Q := by
  intro input hi value rest hr
  rw [StateT.run_bind] at hr
  cases hfirst : m.run input with
  | error fault =>
    rw [hfirst] at hr
    cases hr
  | ok first =>
    rw [hfirst] at hr
    obtain ⟨hp, hbehind⟩ := hm input hi _ _ hfirst
    exact hk _ hp _ hbehind _ _ hr

/-- A first step whose value is of no interest. -/
theorem Reads.then (hm : Passes N m) (hk : ∀ value, Reads N (k value) Q) :
    Reads N (m >>= k) Q := hm.bind fun value _ => hk value

theorem Reads.ite {c : Prop} [Decidable c] {other : Reader α} (hm : Reads N m P)
    (ho : Reads N other P) : Reads N (if c then m else other) P := by
  split
  · exact hm
  · exact ho

theorem Reads.passes (h : Reads N m P) : Passes N m := by
  intro input hi value rest hr
  exact ⟨trivial, (h input hi value rest hr).2⟩

theorem reads_failAt {token : Token} {cause : Cause} :
    Reads N (failAt token cause : Reader α) P := by
  intro input _ value rest hr
  cases hr

/-! ## Single tokens -/

theorem reads_get : Reads N get (Input.Named N) := by
  intro input hi value rest hr
  cases hr
  exact ⟨hi, hi⟩

theorem reads_front : Reads N front (Token.Named N) :=
  reads_get.bind fun _ hi => .pure hi.front

theorem passes_front : Passes N front := reads_front.passes

theorem named_of_next {input rest : Input} (hi : input.Named N)
    (h : Input.next input = .ok rest) : rest.Named N := by
  rw [Input.next] at h
  split at h
  · rename_i token behind hbehind
    cases h
    have hall := hi.behind
    rw [hbehind] at hall
    exact ⟨hall token List.mem_cons_self, fun t ht => hall t (List.mem_cons_of_mem _ ht)⟩
  · cases h
  · cases h
    exact hi

theorem reads_lift {m : Except Fault α} (h : ∀ value, m = .ok value → P value) :
    Reads N (liftM m) P := by
  intro input hi value rest hr
  cases m with
  | error fault => cases hr
  | ok first =>
    cases hr
    exact ⟨h _ rfl, hi⟩

theorem passes_set {next : Input} (h : next.Named N) : Passes N (set next) := by
  intro input _ value rest hr
  cases hr
  exact ⟨trivial, h⟩

theorem passes_advance : Passes N advance :=
  reads_get.bind fun _ hi => .bind (reads_lift fun _ => named_of_next hi) fun _ => passes_set

theorem passes_lookahead : Passes N lookahead :=
  reads_get.bind fun _ _ => .then (reads_lift fun _ _ => trivial) fun _ => .done

theorem reads_unexpected : Reads N (unexpected : Reader α) P :=
  .then passes_front fun _ => reads_failAt

theorem passes_sees (mark : Mark) : Passes N (sees mark) := .then passes_front fun _ => .done

theorem passes_seesName : Passes N seesName := by
  refine .then passes_front fun token => ?_
  split
  · exact .done
  · exact .done

theorem passes_accept (mark : Mark) : Passes N (accept mark) :=
  .then (passes_sees mark) fun _ => .ite (.then passes_advance fun _ => .done) .done

theorem passes_acceptWord (word : String) : Passes N (acceptWord word) :=
  .then passes_front fun _ => .ite (.then passes_advance fun _ => .done) .done

theorem passes_expect (mark : Mark) : Passes N (expect mark) :=
  .then passes_front fun _ => .ite passes_advance reads_failAt

theorem passes_expectWord (word : String) : Passes N (expectWord word) :=
  .then passes_front fun _ => .ite passes_advance reads_failAt

/-- A name that is read was among the tokens ahead. -/
theorem reads_name : Reads N name N := by
  refine .bind reads_front fun token ht => ?_
  split
  · rename_i text hl
    exact .then passes_advance fun _ => .pure (ht text hl)
  · exact reads_failAt

theorem passes_name : Passes N name := reads_name.passes

/-! ## Items in a row -/

theorem reads_untilMark {close : Mark} (h : Reads N m P) (fuel : Nat) :
    Reads N (untilMark close m fuel) fun values => ∀ value ∈ values, P value := by
  induction fuel with
  | zero => exact reads_unexpected
  | succ fuel ih =>
    refine .then (passes_accept close) fun closed => ?_
    cases closed
    · refine .bind h fun first hfirst => .bind ih fun further hfurther => .pure ?_
      exact List.forall_mem_cons.mpr ⟨hfirst, hfurther⟩
    · exact .pure (by simp)

theorem reads_items {close : Mark} (h : Reads N m P) :
    Reads N (items close m) fun values => ∀ value ∈ values, P value :=
  .then reads_get.passes fun _ => reads_untilMark h _

theorem reads_bracketed {openMark closeMark : Mark} (h : Reads N m P) :
    Reads N (bracketed openMark closeMark m) fun values => ∀ value ∈ values, P value :=
  .then (passes_expect openMark) fun _ => reads_items h

theorem reads_bracketedSome {openMark closeMark : Mark} (h : Reads N m P) :
    Reads N (bracketedSome openMark closeMark m) fun values => ∀ value ∈ values, P value := by
  refine .then (passes_expect openMark) fun _ => .bind h fun first hfirst => ?_
  refine .bind (reads_items h) fun further hfurther => .pure ?_
  exact List.forall_mem_cons.mpr ⟨hfirst, hfurther⟩

theorem reads_optional {openMark closeMark : Mark} (h : Reads N m P) :
    Reads N (optional openMark closeMark m) fun values => ∀ value ∈ values, P value :=
  .then (passes_sees openMark) fun _ => .ite (reads_bracketedSome h) (.pure (by simp))

theorem reads_moreSeparated {separator : Mark} (h : Reads N m P) (fuel : Nat) :
    Reads N (moreSeparated separator m fuel) fun values => ∀ value ∈ values, P value := by
  induction fuel with
  | zero => exact reads_unexpected
  | succ fuel ih =>
    refine .then (passes_accept separator) fun _ => .ite ?_ (.pure (by simp))
    refine .bind h fun first hfirst => .bind ih fun further hfurther => .pure ?_
    exact List.forall_mem_cons.mpr ⟨hfirst, hfurther⟩

theorem reads_separated {separator : Mark} (h : Reads N m P) :
    Reads N (separated separator m) fun values => ∀ value ∈ values, P value := by
  refine .then (passes_accept separator) fun _ => .bind h fun first hfirst => ?_
  refine .then reads_get.passes fun _ => .bind (reads_moreSeparated h _) fun further hfurther => ?_
  exact .pure (List.forall_mem_cons.mpr ⟨hfirst, hfurther⟩)

end Reader

end FederationGraph.Document
