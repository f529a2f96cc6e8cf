import FederationGraph.Proofs.Document.Names

/-!
# Readers on two inputs

Two inputs may be alike up to a point at which one of them ends and the other goes on. What
a reader reads on the one it reads on the other as well, as long as it does not depend on
what stands behind that point. A relation of inputs that is kept by every step past a
lexeme is kept by every reader made of such steps; how many braces are open may matter to
it. Behind the point the readers may part, which is excused where the one input has ended.
-/
namespace FederationGraph.Document

/-- The lexemes ahead. -/
def Input.lexemes (input : Input) : List Lexeme := (input.front :: input.behind).map Token.lexeme

/-- Whether nothing but the end of the text is ahead. -/
structure Input.AtEnd (input : Input) : Prop where
  front : input.front.lexeme = .finish
  behind : input.behind = []
  fault : input.fault? = none

namespace Reader

/-- How many braces are open behind a lexeme that stands behind so many. -/
def bracesBehind (lexeme : Lexeme) (braces : Nat) : Nat :=
  match lexeme with
  | .mark .braceLeft => braces + 1
  | .mark .braceRight => braces - 1
  | _ => braces

/-- `Likens Q next R`: the relation `R` of inputs is kept by a step past any lexeme inside braces.
Related inputs have the same lexeme in front, but where the one has ended the other may go on with
`next`, or with anything if that end is excused by `Q`. -/
structure Likens (Q : Input → Prop) (next : Lexeme) (R : Nat → Input → Input → Prop) : Prop where
  atEnd : ∀ {i}, Q i → i.AtEnd
  finish : ∀ {d i i'}, R d i i' → i.front.lexeme = .finish → i.AtEnd
  front : ∀ {d i i'}, R d i i' → ¬ Q i → i'.front.lexeme = i.front.lexeme ∨
    i.front.lexeme = .finish ∧ i'.front.lexeme = next
  length : ∀ {d i i'}, R d i i' → i.behind.length ≤ i'.behind.length
  next : ∀ {d i i' rest}, R (d + 1) i i' → i.front.lexeme ≠ .finish →
    Input.next i = .ok rest →
    ∃ rest', Input.next i' = .ok rest' ∧ R (bracesBehind i.front.lexeme (d + 1)) rest rest'

/-- `Follows Q R S m m'`: on inputs related by `R`, what `m` reads is read by `m'` as well, and what
they leave is related by `S`, unless the end that `m` comes to is excused by `Q`. -/
structure Follows {α : Type} (Q : Input → Prop) (R S : Input → Input → Prop)
    (m m' : Reader α) : Prop where
  stays : ∀ {i value rest}, Q i → m.run i = .ok (value, rest) → Q rest
  keeps : ∀ {i i' value rest}, R i i' → ¬ Q i → m.run i = .ok (value, rest) →
    Q rest ∨ ∃ rest', m'.run i' = .ok (value, rest') ∧ S rest rest'

/-- `Keeps Q R m`: on inputs related by `R` inside any number of braces `m` reads the same, and the
inputs it leaves are related inside as many. -/
def Keeps {α : Type} (Q : Input → Prop) (R : Nat → Input → Input → Prop) (m : Reader α) : Prop :=
  ∀ d, Follows Q (R (d + 1)) (R (d + 1)) m m

/-- Whether a reader reads nothing where the text has ended. -/
def Halts {α : Type} (m : Reader α) : Prop :=
  ∀ i value rest, i.AtEnd → m.run i ≠ .ok (value, rest)

/-- The related inputs of which the first has a lexeme in front. -/
def At (lexeme : Lexeme) (R : Input → Input → Prop) (i i' : Input) : Prop :=
  i.front.lexeme = lexeme ∧ R i i'

variable {α β : Type} {Q : Input → Prop} {next : Lexeme} {m m' : Reader α}
  {k k' : α → Reader β} {d : Nat}

/-! ## Steps in sequence -/

theorem exists_of_run_bind {i rest : Input} {result : β}
    (h : (m >>= k).run i = .ok (result, rest)) :
    ∃ value mid, m.run i = .ok (value, mid) ∧ (k value).run mid = .ok (result, rest) := by
  rw [StateT.run_bind] at h
  obtain ⟨⟨value, mid⟩, hm, hk⟩ := exists_of_bind_eq_ok h
  exact ⟨value, mid, hm, hk⟩

theorem run_bind_of_eq_ok {i mid : Input} {value : α} (h : m.run i = .ok (value, mid)) :
    (m >>= k).run i = (k value).run mid := by
  rw [StateT.run_bind, h]
  rfl

section Relations

variable {R S T : Input → Input → Prop}

theorem Follows.done {value : α} : Follows Q R R (pure value) (pure value) where
  stays := by
    rintro i v rest hq ⟨⟩
    exact hq
  keeps := by
    rintro i i' v rest hr - ⟨⟩
    exact .inr ⟨i', rfl, hr⟩

theorem Follows.bind (hm : Follows Q R S m m') (hk : ∀ value, Follows Q S T (k value) (k' value)) :
    Follows Q R T (m >>= k) (m' >>= k') where
  stays hq hrun := by
    obtain ⟨value, mid, hfirst, hsecond⟩ := exists_of_run_bind hrun
    exact (hk value).stays (hm.stays hq hfirst) hsecond
  keeps hr hq hrun := by
    obtain ⟨value, mid, hfirst, hsecond⟩ := exists_of_run_bind hrun
    by_cases hmid : Q mid
    · exact .inl ((hk value).stays hmid hsecond)
    obtain hend | ⟨mid', hfirst', hs⟩ := hm.keeps hr hq hfirst
    · exact absurd hend hmid
    obtain hend | ⟨rest', hsecond', ht⟩ := (hk value).keeps hs hmid hsecond
    · exact .inl hend
    · exact .inr ⟨rest', by rw [run_bind_of_eq_ok hfirst', hsecond'], ht⟩

/-- A first step may depend on what stands behind the end where the second reads nothing there. -/
theorem Follows.bind_of_halts (hQ : ∀ {i}, Q i → i.AtEnd) (hm : Follows Input.AtEnd R S m m')
    (hk : ∀ value, Follows Q S T (k value) (k' value)) (hhalts : ∀ value, Halts (k value)) :
    Follows Q R T (m >>= k) (m' >>= k') where
  stays hq hrun := by
    obtain ⟨value, mid, hfirst, hsecond⟩ := exists_of_run_bind hrun
    exact absurd hsecond (hhalts value _ _ _ (hm.stays (hQ hq) hfirst))
  keeps {i _ _ _} hr hq hrun := by
    obtain ⟨value, mid, hfirst, hsecond⟩ := exists_of_run_bind hrun
    have hmid : ¬ mid.AtEnd := fun hend => hhalts value _ _ _ hend hsecond
    have hi : ¬ i.AtEnd := fun hend => hmid (hm.stays hend hfirst)
    obtain hend | ⟨mid', hfirst', hs⟩ := hm.keeps hr hi hfirst
    · exact absurd hend hmid
    obtain hend | ⟨rest', hsecond', ht⟩ := (hk value).keeps hs (fun hq => hmid (hQ hq)) hsecond
    · exact .inl hend
    · exact .inr ⟨rest', by rw [run_bind_of_eq_ok hfirst', hsecond'], ht⟩

theorem Follows.branch {c : Prop} [Decidable c] {other other' : Reader α}
    (hm : c → Follows Q R S m m') (ho : Follows Q R S other other') :
    Follows Q R S (if c then m else other) (if c then m' else other') := by
  split
  · rename_i hc
    exact hm hc
  · exact ho

theorem Follows.mono {R' : Input → Input → Prop} (hm : Follows Q R S m m')
    (h : ∀ {i i'}, R' i i' → R i i') : Follows Q R' S m m' :=
  ⟨hm.stays, fun hr => hm.keeps (h hr)⟩

theorem Follows.at {lexeme : Lexeme} (hm : Follows Q R S m m') :
    Follows Q (At lexeme R) S m m' := hm.mono And.right

/-- A reader that never reads anything is followed by every other. -/
theorem Follows.of_never (h : ∀ i value rest, m.run i ≠ .ok (value, rest)) : Follows Q R S m m' :=
  ⟨fun _ hrun => absurd hrun (h _ _ _), fun _ _ hrun => absurd hrun (h _ _ _)⟩

theorem follows_failAt {token : Token} {cause : Cause} :
    Follows Q R S (failAt token cause) m' :=
  .of_never fun _ _ _ hrun => by cases hrun

theorem follows_unexpected : Follows Q R S unexpected m' :=
  .of_never fun _ _ _ hrun => by cases hrun

theorem Keeps.done {R : Nat → Input → Input → Prop} {value : α} :
    Keeps Q R (pure value : Reader α) := fun _ => Follows.done

theorem Keeps.bind {R : Nat → Input → Input → Prop} (hm : Keeps Q R m)
    (hk : ∀ value, Keeps Q R (k value)) : Keeps Q R (m >>= k) :=
  fun d => (hm d).bind fun value => hk value d

theorem Keeps.ite {R : Nat → Input → Input → Prop} {c : Prop} [Decidable c] {other : Reader α}
    (hm : Keeps Q R m) (ho : Keeps Q R other) : Keeps Q R (if c then m else other) :=
  fun d => .branch (fun _ => hm d) (ho d)

theorem Keeps.at {R : Nat → Input → Input → Prop} {lexeme : Lexeme} (hm : Keeps Q R m) :
    Follows Q (At lexeme (R (d + 1))) (R (d + 1)) m m := (hm d).at

theorem Halts.bind (h : Halts m) : Halts (m >>= k) := by
  intro i value rest hend hrun
  obtain ⟨first, mid, hfirst, -⟩ := exists_of_run_bind hrun
  exact h _ _ _ hend hfirst

theorem Follows.then_halts (hm : Follows Input.AtEnd R S m m') (hk : ∀ value, Halts (k value)) :
    Halts (m >>= k) := by
  intro i value rest hend hrun
  obtain ⟨first, mid, hfirst, hsecond⟩ := exists_of_run_bind hrun
  exact hk first _ _ _ (hm.stays hend hfirst) hsecond

theorem Halts.ite {c : Prop} [Decidable c] {other : Reader α} (hm : Halts m) (ho : Halts other) :
    Halts (if c then m else other) := by
  split
  · exact hm
  · exact ho

theorem Keeps.then_halts {R : Nat → Input → Input → Prop} (hm : Keeps Input.AtEnd R m)
    (hk : ∀ value, Halts (k value)) : Halts (m >>= k) := (hm 0).then_halts hk

end Relations

/-! ## Single tokens -/

theorem run_front {k : Token → Reader β} (i : Input) :
    (front >>= k).run i = (k i.front).run i := rfl

theorem run_advance (i : Input) : advance.run i = (fun rest => ((), rest)) <$> Input.next i := by
  simp [advance]

theorem next_of_atEnd {i : Input} (h : i.AtEnd) : Input.next i = .ok i := by
  rw [Input.next, h.behind, h.fault]

section Tokens

variable {R : Nat → Input → Input → Prop} {S : Input → Input → Prop} {lexeme : Lexeme}

theorem Likens.atEnds (h : Likens Q next R) : Likens Input.AtEnd .finish R where
  atEnd := id
  finish := h.finish
  front hr hi := by
    obtain heq | ⟨hfinish, -⟩ := h.front hr fun hq => hi (h.atEnd hq)
    · exact .inl heq
    · exact absurd (h.finish hr hfinish) hi
  length := h.length
  next := h.next

theorem Keeps.bind_of_halts (h : Likens Q next R) (hm : Keeps Input.AtEnd R m)
    (hk : ∀ value, Keeps Q R (k value)) (hhalts : ∀ value, Halts (k value)) :
    Keeps Q R (m >>= k) :=
  fun d => (hm d).bind_of_halts h.atEnd (fun value => hk value d) hhalts

theorem follows_advance (h : Likens Q next R) (hl : lexeme ≠ .finish) :
    Follows Q (At lexeme (R (d + 1))) (R (bracesBehind lexeme (d + 1))) advance advance where
  stays hq hrun := by
    rw [run_advance, next_of_atEnd (h.atEnd hq)] at hrun
    cases hrun
    exact hq
  keeps := by
    rintro i i' value rest ⟨rfl, hr⟩ - hrun
    rw [run_advance] at hrun
    obtain ⟨rest, hnext, hrest⟩ := exists_of_map_eq_ok hrun
    cases hrest
    obtain ⟨rest', hnext', hs⟩ := h.next hr hl hnext
    exact .inr ⟨rest', by rw [run_advance, hnext']; rfl, hs⟩

theorem follows_advance_mark (h : Likens Q next R) (mark : Mark) :
    Follows Q (At (.mark mark) (R (d + 1))) (R (bracesBehind (.mark mark) (d + 1)))
      advance advance := follows_advance h nofun

theorem follows_advance_name (h : Likens Q next R) (text : String) :
    Follows Q (At (.name text) (R (d + 1))) (R (d + 1)) advance advance := follows_advance h nofun

/-- A step that depends on the token in front depends on its lexeme alone. -/
theorem follows_front {k k' : Token → Reader β} (h : Likens Q next R)
    (hk : ∀ lexeme p p', Follows Q (At lexeme (R d)) S (k ⟨lexeme, p⟩) (k' ⟨lexeme, p'⟩))
    (hend : next ≠ .finish → ∀ p p',
      Follows Q (At .finish (R d)) S (k ⟨.finish, p⟩) (k' ⟨next, p'⟩)) :
    Follows Q (R d) S (front >>= k) (front >>= k') where
  stays {i _ _} hq hrun := (hk i.front.lexeme i.front.position 0).stays hq hrun
  keeps {i i' value rest} hr hq hrun := by
    have hfront : i'.front.lexeme = i.front.lexeme ∨ next ≠ .finish ∧
        i.front.lexeme = .finish ∧ i'.front.lexeme = next := by
      obtain heq | ⟨hfinish, hnext⟩ := h.front hr hq
      · exact .inl heq
      · by_cases hne : next = .finish
        · exact .inl (by rw [hfinish, hnext, hne])
        · exact .inr ⟨hne, hfinish, hnext⟩
    obtain ⟨⟨lexeme, p⟩, behind, fault?⟩ := i
    obtain ⟨⟨lexeme', p'⟩, behind', fault?'⟩ := i'
    obtain heq | ⟨hne, hfinish, hnext⟩ := hfront
    · obtain rfl : lexeme' = lexeme := heq
      exact (hk _ p p').keeps ⟨rfl, hr⟩ hq hrun
    · obtain rfl : lexeme = .finish := hfinish
      obtain rfl : lexeme' = next := hnext
      exact (hend hne p p').keeps ⟨rfl, hr⟩ hq hrun

theorem follows_get {k k' : Input → Reader β} (h : Likens Q next R)
    (hk : ∀ i i', i.behind.length ≤ i'.behind.length → Follows Q (R d) S (k i) (k' i')) :
    Follows Q (R d) S (get >>= k) (get >>= k') where
  stays {i _ _} hq hrun := (hk i i (Nat.le_refl _)).stays hq hrun
  keeps hr hq hrun := (hk _ _ (h.length hr)).keeps hr hq hrun

theorem keeps_sees (h : Likens Q next R) {mark : Mark} (hne : next ≠ .mark mark) :
    Keeps Q R (sees mark) := by
  refine fun d => follows_front h (fun _ _ _ => Follows.done.at) fun _ _ _ => ?_
  have hnext : (next == Lexeme.mark mark) = false := by simpa using hne
  rw [hnext]
  exact Follows.done.at

theorem keeps_seesName (h : Likens Q .finish R) : Keeps Q R seesName := by
  refine fun d => follows_front h (fun lexeme p p' => ?_) fun hne => absurd rfl hne
  cases lexeme <;> exact Follows.done.at

/-- What a mark in front decides between. -/
theorem accept_bind (mark : Mark) (k : Bool → Reader β) : accept mark >>= k = (do
    let token ← front
    if token.lexeme == .mark mark then
      advance
      k true
    else k false) := by
  simp only [accept, sees, bind_assoc, pure_bind]
  refine congrArg (front >>= ·) (funext fun token => ?_)
  split
  · simp only [bind_assoc, pure_bind]
  · rw [pure_bind]

/-- What is decided by a mark that does not stand where the text has ended. -/
theorem follows_accept_bind (h : Likens Q next R) {mark : Mark} (hne : next ≠ .mark mark)
    {k k' : Bool → Reader β}
    (htaken : Follows Q (R (bracesBehind (.mark mark) (d + 1))) S (k true) (k' true))
    (hleft : Follows Q (R (d + 1)) S (k false) (k' false)) :
    Follows Q (R (d + 1)) S (accept mark >>= k) (accept mark >>= k') := by
  rw [accept_bind, accept_bind]
  refine follows_front h (fun lexeme p p' => ?_) fun _ p p' => ?_
  · refine .branch (fun hl => ?_) hleft.at
    obtain rfl : lexeme = .mark mark := beq_iff_eq.mp hl
    exact (follows_advance_mark h mark).bind fun _ => htaken
  · have hnext : ¬ (next == Lexeme.mark mark) = true := by simpa using hne
    dsimp only
    rw [if_neg (by simp), if_neg hnext]
    exact hleft.at

theorem keeps_acceptWord (h : Likens Q next R) {word : String} (hne : next ≠ .name word) :
    Keeps Q R (acceptWord word) := by
  refine fun d => follows_front h (fun lexeme p p' => ?_) fun _ p p' => ?_
  · refine .branch (fun hl => ?_) Follows.done.at
    obtain rfl : lexeme = .name word := beq_iff_eq.mp hl
    exact (follows_advance_name h word).bind fun _ => .done
  · have hnext : ¬ (next == Lexeme.name word) = true := by simpa using hne
    dsimp only
    rw [if_neg (by simp), if_neg hnext]
    exact Follows.done.at

theorem follows_expect (h : Likens Q next R) (mark : Mark) :
    Follows Q (R (d + 1)) (R (bracesBehind (.mark mark) (d + 1))) (expect mark) (expect mark) := by
  refine follows_front h (fun lexeme p p' => ?_) fun _ p p' => follows_failAt
  refine .branch (fun hl => ?_) follows_failAt
  obtain rfl : lexeme = .mark mark := beq_iff_eq.mp hl
  exact follows_advance_mark h mark

/-- A mark that is no brace. -/
theorem keeps_expect (h : Likens Q next R) {mark : Mark}
    (hlevel : ∀ d, bracesBehind (.mark mark) d = d) : Keeps Q R (expect mark) := by
  intro d
  have hmark := follows_expect (d := d) h mark
  rwa [hlevel] at hmark

theorem keeps_expectWord (h : Likens Q next R) (word : String) :
    Keeps Q R (expectWord word) := by
  refine fun d => follows_front h (fun lexeme p p' => ?_) fun _ p p' => follows_failAt
  refine .branch (fun hl => ?_) follows_failAt
  obtain rfl : lexeme = .name word := beq_iff_eq.mp hl
  exact follows_advance_name h word

theorem keeps_name (h : Likens Q next R) : Keeps Q R name := by
  refine fun d => follows_front h (fun lexeme p p' => ?_) fun _ p p' => follows_failAt
  cases lexeme with
  | name text => exact (follows_advance_name h text).bind fun _ => .done
  | _ => exact follows_failAt

theorem halts_front {k : Token → Reader β}
    (hk : ∀ p i value rest, (k ⟨.finish, p⟩).run i ≠ .ok (value, rest)) : Halts (front >>= k) := by
  intro i value rest hend
  obtain ⟨⟨lexeme, p⟩, behind, fault?⟩ := i
  obtain rfl : lexeme = .finish := hend.front
  exact hk p _ value rest

theorem halts_expect (mark : Mark) : Halts (expect mark) :=
  halts_front fun _ _ _ _ hrun => by cases hrun

theorem halts_expectWord (word : String) : Halts (expectWord word) :=
  halts_front fun _ _ _ _ hrun => by cases hrun

theorem halts_name : Halts name :=
  halts_front fun _ _ _ _ hrun => by cases hrun

/-- Where the text has ended no mark is moved past. -/
theorem halts_accept_bind {mark : Mark} {k : Bool → Reader β} (h : Halts (k false)) :
    Halts (accept mark >>= k) := by
  intro i value rest hend
  rw [accept_bind, run_front, hend.front, if_neg (by simp)]
  exact h i value rest hend

end Tokens

/-! ## Items in a row -/

/-- Whether as many braces are open behind a closing mark as in front of an opening one. -/
def Paired (openMark closeMark : Mark) : Prop :=
  ∀ d, ∃ inside, bracesBehind (.mark openMark) (d + 1) = inside + 1 ∧
    bracesBehind (.mark closeMark) (inside + 1) = d + 1

theorem paired_parentheses : Paired .parenLeft .parenRight := fun d => ⟨d, rfl, rfl⟩

theorem paired_brackets : Paired .bracketLeft .bracketRight := fun d => ⟨d, rfl, rfl⟩

theorem paired_braces : Paired .braceLeft .braceRight := fun d => ⟨d + 1, rfl, rfl⟩

section Items

variable {R : Nat → Input → Input → Prop} {openMark close separator : Mark}

/-- Items up to a closing mark do not end with the text. -/
theorem halts_untilMark {S T : Input → Input → Prop} (hm : Follows Input.AtEnd S T m m')
    (fuel : Nat) : Halts (untilMark close m fuel) := by
  induction fuel with
  | zero => exact fun _ _ _ _ hrun => by cases hrun
  | succ fuel ih => exact halts_accept_bind (hm.then_halts fun _ => ih.bind)

/-- The closing mark has to come, so that an item may depend on what stands behind the end. -/
theorem follows_untilMark (h : Likens Q next R) (hne : next ≠ .mark close)
    (hm : Keeps Input.AtEnd R m) {fuel fuel' : Nat} (hfuel : fuel ≤ fuel') :
    Follows Q (R (d + 1)) (R (bracesBehind (.mark close) (d + 1))) (untilMark close m fuel)
      (untilMark close m fuel') := by
  induction fuel generalizing fuel' with
  | zero => exact follows_unexpected
  | succ fuel ih =>
    obtain ⟨fuel', rfl⟩ := Nat.exists_eq_succ_of_ne_zero (Nat.ne_of_gt (Nat.zero_lt_of_lt hfuel))
    have hrest := ih (Nat.le_of_succ_le_succ hfuel)
    refine follows_accept_bind h hne Follows.done ?_
    exact (hm d).bind_of_halts h.atEnd (fun _ => hrest.bind fun _ => .done)
      fun _ => (halts_untilMark (hm d) _).bind

theorem follows_items (h : Likens Q next R) (hne : next ≠ .mark close)
    (hm : Keeps Input.AtEnd R m) :
    Follows Q (R (d + 1)) (R (bracesBehind (.mark close) (d + 1))) (items close m)
      (items close m) :=
  follows_get h fun _ _ hlength => follows_untilMark h hne hm (by omega)

/-- What stands between an opening and a closing mark. -/
theorem keeps_enclosed (h : Likens Q next R) (hpaired : Paired openMark close) {body : Reader α}
    (hbody : ∀ d, Follows Q (R (d + 1)) (R (bracesBehind (.mark close) (d + 1))) body body) :
    Keeps Q R (expect openMark >>= fun _ => body) := by
  intro d
  obtain ⟨inside, hopen, hclose⟩ := hpaired d
  have hfirst := follows_expect (d := d) h openMark
  have hinside := hbody inside
  rw [hopen] at hfirst
  rw [hclose] at hinside
  exact hfirst.bind fun _ => hinside

theorem keeps_bracketed (h : Likens Q next R) (hne : next ≠ .mark close)
    (hpaired : Paired openMark close) (hm : Keeps Input.AtEnd R m) :
    Keeps Q R (bracketed openMark close m) :=
  keeps_enclosed h hpaired fun _ => follows_items h hne hm

theorem keeps_bracketedSome (h : Likens Q next R) (hne : next ≠ .mark close)
    (hpaired : Paired openMark close) (hm : Keeps Input.AtEnd R m) :
    Keeps Q R (bracketedSome openMark close m) := by
  refine keeps_enclosed h hpaired fun d => (hm d).bind_of_halts h.atEnd (fun _ => ?_) fun _ => ?_
  · exact (follows_items h hne hm).bind fun _ => .done
  · have hhalts : Halts (items close m) := fun i => halts_untilMark (hm d) _ i
    exact hhalts.bind

theorem keeps_optional (h : Likens Q next R) (hne : next ≠ .mark close)
    (hopen : next ≠ .mark openMark) (hpaired : Paired openMark close)
    (hm : Keeps Input.AtEnd R m) : Keeps Q R (optional openMark close m) :=
  (keeps_sees h hopen).bind fun _ => .ite (keeps_bracketedSome h hne hpaired hm) .done

theorem keeps_accept (h : Likens Q next R) {mark : Mark} (hne : next ≠ .mark mark)
    (hlevel : ∀ d, bracesBehind (.mark mark) d = d) : Keeps Q R (accept mark) := by
  intro d
  have htaken : Follows Q (R (bracesBehind (.mark mark) (d + 1))) (R (d + 1)) (pure true)
      (pure true : Reader Bool) := by
    rw [hlevel]
    exact .done
  rw [← bind_pure (accept mark)]
  exact follows_accept_bind h hne htaken .done

theorem follows_moreSeparated (h : Likens Q next R) (hne : next ≠ .mark separator)
    (hlevel : ∀ d, bracesBehind (.mark separator) d = d) (hm : Keeps Q R m) {fuel fuel' : Nat}
    (hfuel : fuel ≤ fuel') :
    Follows Q (R (d + 1)) (R (d + 1)) (moreSeparated separator m fuel)
      (moreSeparated separator m fuel') := by
  induction fuel generalizing fuel' with
  | zero => exact follows_unexpected
  | succ fuel ih =>
    obtain ⟨fuel', rfl⟩ := Nat.exists_eq_succ_of_ne_zero (Nat.ne_of_gt (Nat.zero_lt_of_lt hfuel))
    have hrest := ih (Nat.le_of_succ_le_succ hfuel)
    refine (keeps_accept h hne hlevel d).bind fun _ => .branch (fun _ => ?_) .done
    exact (hm d).bind fun _ => hrest.bind fun _ => .done

theorem keeps_separated (h : Likens Q next R) (hne : next ≠ .mark separator)
    (hlevel : ∀ d, bracesBehind (.mark separator) d = d) (hm : Keeps Q R m) :
    Keeps Q R (separated separator m) := by
  refine (keeps_accept h hne hlevel).bind fun _ => hm.bind fun _ d => ?_
  refine follows_get h fun _ _ hlength => ?_
  exact (follows_moreSeparated h hne hlevel hm (by omega)).bind fun _ => .done

end Items

end Reader

end FederationGraph.Document
