import FederationGraph.Proofs.Document.Lexemes

/-!
# Texts joined by a line end

A line end closes every lexeme but a block, and a block that is not closed in front of it is
a fault where the text ends. So a text that is scanned to its end is scanned alike where a
line end and another text stand behind it, and the lexemes of that text follow its own.
-/
namespace FederationGraph.Document

open Text Decimal

variable {ε α β : Type}

/-- Whether what a scanner takes from a text, `width` characters, does not depend on what stands
behind a line end at the end of the text. -/
def Settled (width : α → Nat) (scanner : List Char → Except ε α) : Prop :=
  ∀ ⦃text value⦄, scanner text = .ok value →
    width value ≤ text.length ∧ ∀ more, scanner (text ++ '\n' :: more) = .ok value

theorem takeWhile_append_lineEnd {p : Char → Bool} (hp : p '\n' = false) (text more : List Char) :
    (text ++ '\n' :: more).takeWhile p = text.takeWhile p := by
  rw [List.takeWhile_append]
  split
  · rename_i hall
    have htext : text.takeWhile p = text := (List.takeWhile_prefix p).eq_of_length hall
    rw [List.takeWhile_cons_of_neg (by simp [hp]), List.append_nil, htext]
  · rfl

theorem any_head?_append_lineEnd {p : Char → Bool} (hp : p '\n' = false) (text more : List Char) :
    (text ++ '\n' :: more).head?.any p = text.head?.any p := by
  cases text with
  | nil => exact hp
  | cons c text => rfl

/-- What begins a text together with what is behind its line end begins the text. -/
theorem prefix_of_prefix_append (front : List Char) {text more : List Char}
    (h : front <+: text ++ '\n' :: more) (hn : '\n' ∉ front) : front <+: text := by
  rcases List.prefix_or_prefix_of_prefix h (List.prefix_append text _) with hfront | ⟨surplus, rfl⟩
  · exact hfront
  · rw [List.prefix_append_right_inj] at h
    cases surplus with
    | nil => simp
    | cons c surplus =>
      obtain rfl : c = '\n' := (List.cons_prefix_cons.mp h).1
      simp at hn

/-! ## Numbers -/

theorem settled_digitRun (offset : Nat) : Settled id (digitRun offset) := by
  intro text width h
  refine ⟨?_, fun more => ?_⟩
  · rw [digitRun] at h
    split at h
    · cases h
    · cases h
      exact (List.takeWhile_sublist _).length_le
  · rw [digitRun] at h ⊢
    rw [takeWhile_append_lineEnd (by decide)]
    split at h
    · cases h
    · exact h

theorem settled_wholeWidth (offset : Nat) : Settled id (wholeWidth offset) := by
  intro text width h
  rw [wholeWidth.eq_def] at h
  split at h
  · rename_i rest
    split at h
    · cases h
    · rename_i hdigit
      cases h
      refine ⟨by simp, fun more => ?_⟩
      rw [List.cons_append, wholeWidth, any_head?_append_lineEnd (by decide), if_neg hdigit]
  · rename_i hzero
    obtain ⟨hwidth, hmore⟩ := settled_digitRun offset h
    refine ⟨hwidth, fun more => ?_⟩
    rw [wholeWidth.eq_2, hmore more]
    intro rest he
    obtain ⟨others, hothers⟩ := prefix_of_prefix_append ['0'] ⟨rest, he.symm⟩ (by decide)
    exact hzero others hothers.symm

theorem settled_fractionWidth (offset : Nat) : Settled id (fractionWidth offset) := by
  intro text width h
  rw [fractionWidth.eq_def] at h
  split at h
  · rename_i rest
    obtain ⟨digits, hdigits, rfl⟩ := exists_of_map_eq_ok h
    obtain ⟨hwidth, hmore⟩ := settled_digitRun _ hdigits
    refine ⟨Nat.succ_le_succ hwidth, fun more => ?_⟩
    rw [List.cons_append, fractionWidth, hmore more]
    rfl
  · rename_i hpoint
    cases h
    refine ⟨Nat.zero_le _, fun more => ?_⟩
    refine fractionWidth.eq_2 _ _ fun rest he => ?_
    obtain ⟨others, hothers⟩ := prefix_of_prefix_append ['.'] ⟨rest, he.symm⟩ (by decide)
    exact hpoint others hothers.symm

/-- How many characters the sign of an exponent takes. -/
theorem exponentWidth_cons (offset : Nat) (c : Char) (rest : List Char) :
    exponentWidth offset (c :: rest) =
      if c = 'e' || c = 'E' then
        let sign := if rest.head?.any (fun c => c == '+' || c == '-') then 1 else 0
        (digitRun (offset + 1 + sign) (rest.drop sign)).map (· + (1 + sign))
      else .ok 0 := by
  rw [exponentWidth.eq_def]
  dsimp only
  split
  · split
    · rfl
    · rfl
    · rename_i hplus hminus
      have hsign : rest.head?.any (fun c => c == '+' || c == '-') = false := by
        cases rest with
        | nil => rfl
        | cons d rest =>
          have hd : d ≠ '+' ∧ d ≠ '-' :=
            ⟨fun he => hplus rest (by rw [he]), fun he => hminus rest (by rw [he])⟩
          simp [hd]
      rw [hsign]
      rfl
  · rfl

theorem settled_exponentWidth (offset : Nat) : Settled id (exponentWidth offset) := by
  intro text width h
  cases text with
  | nil =>
    cases h
    exact ⟨Nat.zero_le _, fun more => rfl⟩
  | cons c rest =>
    rw [exponentWidth_cons] at h
    split at h
    · rename_i hc
      obtain ⟨digits, hdigits, rfl⟩ := exists_of_map_eq_ok h
      obtain ⟨hwidth, hmore⟩ := settled_digitRun _ hdigits
      have hsign : (if rest.head?.any (fun c => c == '+' || c == '-') then 1 else 0) ≤
          rest.length := by
        cases rest with
        | nil => exact Nat.zero_le _
        | cons d rest => split <;> simp
      refine ⟨?_, fun more => ?_⟩
      · rw [List.length_drop, id] at hwidth
        rw [List.length_cons, id]
        omega
      · rw [List.cons_append, exponentWidth_cons, if_pos hc,
          any_head?_append_lineEnd (by decide)]
        dsimp only
        rw [List.drop_append_of_le_length hsign, hmore more]
        rfl
    · rename_i hc
      cases h
      refine ⟨Nat.zero_le _, fun more => ?_⟩
      rw [List.cons_append, exponentWidth_cons, if_neg hc]

/-- The parts a number is scanned as. -/
theorem scanNumber_eq_ok_iff {text : List Char} {value : Lexeme × Nat} :
    scanNumber text = .ok value ↔ ∃ sign whole fraction exponent,
      sign = (if text.head?.any (· == '-') then 1 else 0) ∧
      wholeWidth sign (text.drop sign) = .ok whole ∧
      fractionWidth (sign + whole) (text.drop (sign + whole)) = .ok fraction ∧
      exponentWidth (sign + whole + fraction) (text.drop (sign + whole + fraction)) =
        .ok exponent ∧
      ((text.drop (sign + whole + fraction + exponent)).head?.any
        fun c => c == '.' || isNameStart c) = false ∧
      value = (if fraction + exponent = 0
        then .int (String.ofList (text.take (sign + whole + fraction + exponent)))
        else .float (String.ofList (text.take (sign + whole + fraction + exponent))),
        sign + whole + fraction + exponent) := by
  have hsign : (if text.head? = some '-' then 1 else 0) =
      if text.head?.any (· == '-') then 1 else 0 := by cases text <;> simp
  constructor
  · intro h
    rw [scanNumber, hsign] at h
    obtain ⟨sign, hs⟩ : ∃ sign, sign = if text.head?.any (· == '-') then 1 else 0 := ⟨_, rfl⟩
    rw [← hs] at h
    obtain ⟨whole, hwhole, h⟩ := exists_of_bind_eq_ok h
    obtain ⟨fraction, hfraction, h⟩ := exists_of_bind_eq_ok h
    obtain ⟨exponent, hexponent, h⟩ := exists_of_bind_eq_ok h
    dsimp only at h
    split at h
    · cases h
    · rename_i hnext
      cases h
      exact ⟨sign, whole, fraction, exponent, hs, hwhole, hfraction, hexponent,
        Bool.eq_false_iff.mpr hnext, rfl⟩
  · rintro ⟨sign, whole, fraction, exponent, rfl, hwhole, hfraction, hexponent, hnext, rfl⟩
    rw [scanNumber, hsign]
    simp only [bind, Except.bind, hwhole, hfraction, hexponent, hnext]
    rfl

theorem settled_scanNumber : Settled Prod.snd scanNumber := by
  intro text value h
  obtain ⟨sign, whole, fraction, exponent, hsign, hwhole, hfraction, hexponent, hnext, rfl⟩ :=
    scanNumber_eq_ok_iff.mp h
  have hle : sign ≤ text.length := by
    rw [hsign]
    cases text with
    | nil => exact Nat.zero_le _
    | cons c text => split <;> simp
  obtain ⟨hwholeWidth, hwhole⟩ := settled_wholeWidth _ hwhole
  obtain ⟨hfractionWidth, hfraction⟩ := settled_fractionWidth _ hfraction
  obtain ⟨hexponentWidth, hexponent⟩ := settled_exponentWidth _ hexponent
  simp only [List.length_drop, id] at hwholeWidth hfractionWidth hexponentWidth
  have hwidth : sign + whole + fraction + exponent ≤ text.length := by omega
  refine ⟨hwidth, fun more => scanNumber_eq_ok_iff.mpr
    ⟨sign, whole, fraction, exponent, ?_, ?_, ?_, ?_, ?_, ?_⟩⟩
  · rw [any_head?_append_lineEnd (by decide), hsign]
  · rw [List.drop_append_of_le_length hle, hwhole]
  · rw [List.drop_append_of_le_length (by omega), hfraction]
  · rw [List.drop_append_of_le_length (by omega), hexponent]
  · rw [List.drop_append_of_le_length hwidth, any_head?_append_lineEnd (by decide), hnext]
  · rw [List.take_append_of_le_length hwidth]

/-! ## Quoted texts -/

theorem hexPrefix?_append {width n : Nat} {text : List Char} (h : hexPrefix? width text = some n)
    (more : List Char) : width ≤ text.length ∧ hexPrefix? width (text ++ more) = some n := by
  rw [hexPrefix?] at h
  split at h
  · cases h
  · rename_i hlength
    have hle : width ≤ text.length := Nat.le_of_not_lt hlength
    refine ⟨hle, ?_⟩
    rw [hexPrefix?, if_neg (by rw [List.length_append]; omega), List.take_append_of_le_length hle]
    exact h

theorem scanBraced_append {room width point total : Nat} {text : List Char} {c : Char}
    (h : scanBraced room width point text = (some c, total)) (more : List Char) :
    total ≤ width + text.length ∧ scanBraced room width point (text ++ more) = (some c, total) := by
  fun_induction scanBraced room width point text with
  | case1 width => cases h
  | case2 width => cases h
  | case3 room width point rest =>
    obtain ⟨hscalar, rfl⟩ := Prod.mk.inj h
    refine ⟨by rw [List.length_cons]; omega, ?_⟩
    rw [List.cons_append, scanBraced, if_pos rfl, hscalar]
  | case4 room width point c rest hc digit hdigit ih =>
    obtain ⟨hwidth, hmore⟩ := ih h
    refine ⟨by rw [List.length_cons]; omega, ?_⟩
    rw [List.cons_append, scanBraced, if_neg hc, hdigit]
    exact hmore
  | case5 room width point c rest hc hdigit => cases h

theorem scanUnits_append {text : List Char} {c : Char} {width : Nat}
    (h : scanUnits text = some (c, width)) (more : List Char) :
    width ≤ text.length + 2 ∧ scanUnits (text ++ more) = some (c, width) := by
  obtain ⟨unit, hunit, h⟩ := Option.bind_eq_some_iff.mp h
  obtain ⟨hlength, hmore⟩ := hexPrefix?_append hunit more
  have hdrop : (text ++ more).drop 4 = text.drop 4 ++ more :=
    List.drop_append_of_le_length hlength
  rw [scanUnits, hmore, Option.bind_some, hdrop]
  cases hscalar : scalar? unit with
  | some c =>
    rw [hscalar] at h
    cases h
    exact ⟨by omega, rfl⟩
  | none =>
    rw [hscalar] at h
    dsimp only at h ⊢
    split at h
    · rename_i rest hrest
      obtain ⟨low, hlow, h⟩ := Option.bind_eq_some_iff.mp h
      obtain ⟨hlength', hmore'⟩ := hexPrefix?_append hlow more
      obtain ⟨c, hpair, hvalue⟩ := Option.map_eq_some_iff.mp h
      cases hvalue
      have hall := congrArg List.length hrest
      simp only [List.length_drop, List.length_cons] at hall
      refine ⟨by omega, ?_⟩
      rw [hrest, List.cons_append, List.cons_append]
      show (hexPrefix? 4 (rest ++ more)).bind _ = _
      rw [hmore', Option.bind_some, hpair, Option.map_some]
    · cases h

theorem settled_scanEscape : Settled (fun result => result.2 - 1) scanEscape := by
  intro text value h
  unfold scanEscape at h
  split at h
  · split at h
    · rename_i rest c width hscan
      cases h
      refine ⟨?_, fun more => ?_⟩
      · have hwidth := (scanBraced_append hscan []).1
        simp only [List.length_cons]
        omega
      · rw [List.cons_append, List.cons_append, scanEscape, (scanBraced_append hscan _).2]
    · cases h
  · rename_i rest hbrace
    split at h
    · rename_i c width hscan
      cases h
      refine ⟨?_, fun more => ?_⟩
      · have hwidth := (scanUnits_append hscan []).1
        simp only [List.length_cons]
        omega
      · have hne : ∀ behind, rest ++ '\n' :: more ≠ '{' :: behind := by
          intro behind he
          obtain ⟨others, hothers⟩ :=
            prefix_of_prefix_append ['{'] ⟨behind, he.symm⟩ (by decide)
          exact hbrace others (by rw [← hothers]; rfl)
        rw [List.cons_append, scanEscape.eq_2 _ hne, (scanUnits_append hscan _).2]
    · cases h
  · rename_i letter rest hbraced hunits
    split at h
    · rename_i c hc
      cases h
      refine ⟨by simp, fun more => ?_⟩
      rw [List.cons_append, scanEscape.eq_3 _ _ (fun _ hu _ => hunits hu) hunits, hc]
    · cases h
  · cases h

theorem settled_scanQuoted (offset : Nat) :
    Settled (fun result => result.2 - offset) (scanQuoted offset) := by
  intro text value h
  fun_induction scanQuoted offset text generalizing value with
  | case1 offset => cases h
  | case2 offset rest =>
    cases h
    refine ⟨by simp, fun more => ?_⟩
    rw [List.cons_append, scanQuoted, if_pos rfl]
  | case3 offset c rest hquote hline => cases h
  | case4 offset rest cause hescape hquote hline => cases h
  | case5 offset rest meant width hescape hquote hline ih =>
    obtain ⟨⟨meaning, total⟩, hrest, rfl⟩ := exists_of_map_eq_ok h
    obtain ⟨hwidth, hescaped⟩ := settled_scanEscape hescape
    obtain ⟨htotal, hmore⟩ := ih hrest
    simp only [List.length_drop] at htotal hwidth
    refine ⟨by simp only [List.length_cons]; omega, fun more => ?_⟩
    rw [List.cons_append, scanQuoted, if_neg hquote, if_neg hline, if_pos rfl, hescaped]
    dsimp only
    rw [List.drop_append_of_le_length hwidth, hmore]
    rfl
  | case6 offset c rest hquote hline hescape ih =>
    obtain ⟨⟨meaning, total⟩, hrest, rfl⟩ := exists_of_map_eq_ok h
    obtain ⟨htotal, hmore⟩ := ih hrest
    dsimp only at htotal
    refine ⟨by simp only [List.length_cons]; omega, fun more => ?_⟩
    rw [List.cons_append, scanQuoted, if_neg hquote, if_neg hline, if_neg hescape, hmore]
    rfl

theorem settled_scanBlock (offset : Nat) :
    Settled (fun result => result.2 - offset) (scanBlock offset) := by
  intro text value h
  fun_induction scanBlock offset text generalizing value with
  | case1 offset => cases h
  | case2 offset rest =>
    cases h
    exact ⟨by simp, fun more => rfl⟩
  | case3 offset rest ih =>
    obtain ⟨⟨meaning, total⟩, hrest, rfl⟩ := exists_of_map_eq_ok h
    obtain ⟨htotal, hmore⟩ := ih hrest
    dsimp only at htotal
    refine ⟨by simp only [List.length_cons]; omega, fun more => ?_⟩
    simp only [List.cons_append, scanBlock, hmore]
    rfl
  | case4 offset c rest hclose hescape ih =>
    obtain ⟨⟨meaning, total⟩, hrest, rfl⟩ := exists_of_map_eq_ok h
    obtain ⟨htotal, hmore⟩ := ih hrest
    dsimp only at htotal
    refine ⟨by simp only [List.length_cons]; omega, fun more => ?_⟩
    rw [List.cons_append, scanBlock, hmore]
    · rfl
    · intro tail hc he
      obtain ⟨others, hothers⟩ :=
        prefix_of_prefix_append ['\x22', '\x22'] ⟨tail, he.symm⟩ (by decide)
      exact hclose others hc hothers.symm
    · intro tail hc he
      obtain ⟨others, hothers⟩ :=
        prefix_of_prefix_append ['\x22', '\x22', '\x22'] ⟨tail, he.symm⟩ (by decide)
      exact hescape others hc hothers.symm

/-! ## Tokens -/

theorem settled_scanPoint : Settled (fun result => result.2 - 1) scanPoint := by
  intro text value h
  unfold scanPoint at h
  split at h
  · cases h
    exact ⟨by simp, fun more => rfl⟩
  · cases h
  · split at h
    · cases h
    · cases h

theorem scanToken_quote {text : List Char} (h : ∀ rest, text ≠ '\x22' :: '\x22' :: rest) :
    scanToken '\x22' text = (scanQuoted 1 text).map
      fun (text, width) => (.quoted (String.ofList text), width) := by
  unfold scanToken
  rw [(of_isInner (c := '\x22') (by decide)).1]
  dsimp only
  rw [if_neg (by decide), if_pos rfl]
  split
  · rename_i rest
    exact absurd rfl (h rest)
  · rfl

/-- A text between quotes, or between three of them. -/
theorem settled_scanToken_quote : Settled (fun result => result.2 - 1) (scanToken '\x22') := by
  intro text value h
  by_cases hblock : ∃ rest, text = '\x22' :: '\x22' :: rest
  · obtain ⟨rest, rfl⟩ := hblock
    obtain ⟨⟨meaning, total⟩, hscan, rfl⟩ := exists_of_map_eq_ok h
    obtain ⟨htotal, hmore⟩ := settled_scanBlock 3 hscan
    dsimp only at htotal
    refine ⟨by simp only [List.length_cons]; omega, fun more => ?_⟩
    change (scanBlock 3 (rest ++ '\n' :: more)).map _ = _
    rw [hmore]
    rfl
  · have hquoted : ∀ rest, text ≠ '\x22' :: '\x22' :: rest := fun rest he => hblock ⟨rest, he⟩
    rw [scanToken_quote hquoted] at h
    obtain ⟨⟨meaning, total⟩, hscan, rfl⟩ := exists_of_map_eq_ok h
    obtain ⟨htotal, hmore⟩ := settled_scanQuoted 1 hscan
    refine ⟨htotal, fun more => ?_⟩
    rw [scanToken_quote, hmore]
    · rfl
    · intro rest he
      obtain ⟨others, hothers⟩ :=
        prefix_of_prefix_append ['\x22', '\x22'] ⟨rest, he.symm⟩ (by decide)
      exact hquoted others hothers.symm

theorem settled_scanToken (c : Char) : Settled (fun result => result.2 - 1) (scanToken c) := by
  intro text value h
  cases hmark : mark? c with
  | some mark =>
    have hscan : ∀ rest, scanToken c rest = .ok (.mark mark, 1) := by
      intro rest
      unfold scanToken
      rw [hmark]
    rw [hscan] at h
    cases h
    exact ⟨Nat.zero_le _, fun more => hscan _⟩
  | none =>
  by_cases hpoint : c = '.'
  · subst hpoint
    exact settled_scanPoint h
  by_cases hquote : c = '\x22'
  · subst hquote
    exact settled_scanToken_quote h
  by_cases hnumber : isDigit c = true ∨ c = '-'
  · rw [scanToken_of_isNumberStart hnumber] at h
    obtain ⟨hwidth, hmore⟩ := settled_scanNumber h
    rw [List.length_cons] at hwidth
    refine ⟨by dsimp only; omega, fun more => ?_⟩
    rw [scanToken_of_isNumberStart hnumber]
    exact hmore more
  by_cases hname : isNameStart c = true
  · rw [scanToken_of_isNameStart hname] at h
    cases h
    refine ⟨(List.takeWhile_sublist _).length_le, fun more => ?_⟩
    rw [scanToken_of_isNameStart hname, takeWhile_append_lineEnd (by decide)]
  · unfold scanToken at h
    rw [hmark] at h
    dsimp only at h
    rw [if_neg hpoint, if_neg hquote, if_neg (by simpa using hnumber), if_neg hname] at h
    split at h
    · cases h
    · cases h

/-! ## Texts -/

theorem Scans.comment {rest : List Char} {lexemes : List Lexeme}
    (hs : Scans (rest.drop (rest.takeWhile fun c => !isLineEnd c).length) lexemes) :
    Scans ('#' :: rest) lexemes := by
  intro position
  obtain ⟨tokens, finish, hlexemes, hscan⟩ := hs _
  refine ⟨tokens, finish, hlexemes, ?_⟩
  rw [scanFrom, if_neg (by decide), if_pos rfl]
  exact hscan

theorem Scans.token {c : Char} {rest : List Char} {lexeme : Lexeme} {width : Nat}
    {lexemes : List Lexeme} (hc : isIgnored c = false) (hcomment : c ≠ '#')
    (h : scanToken c rest = .ok (lexeme, width)) (hs : Scans (rest.drop (width - 1)) lexemes) :
    Scans (c :: rest) (lexeme :: lexemes) := by
  intro position
  obtain ⟨tokens, finish, hlexemes, hscan⟩ := hs (position + width)
  refine ⟨⟨lexeme, position⟩ :: tokens, finish, by rw [List.map_cons, hlexemes], ?_⟩
  rw [scanFrom, hc, if_neg (by decide), if_neg hcomment, h]
  simp only [hscan, List.cons_append]

theorem scanToken_ne_finish (c : Char) (rest : List Char) (width : Nat) :
    scanToken c rest ≠ .ok (.finish, width) := by
  intro h
  unfold scanToken at h
  split at h
  · cases h
  split at h
  · unfold scanPoint at h
    split at h
    · cases h
    · cases h
    · split at h
      · cases h
      · cases h
  split at h
  · split at h
    · obtain ⟨_, -, he⟩ := exists_of_map_eq_ok h
      cases he
    · obtain ⟨_, -, he⟩ := exists_of_map_eq_ok h
      cases he
  split at h
  · obtain ⟨sign, whole, fraction, exponent, -, -, -, -, -, he⟩ := scanNumber_eq_ok_iff.mp h
    have hl := congrArg Prod.fst he
    dsimp only at hl
    split at hl
    · cases hl
    · cases hl
  split at h
  · cases h
  · split at h
    · cases h
    · cases h

/-- `Lexed text lexemes`: a text is these lexemes and what separates them. -/
inductive Lexed : List Char → List Lexeme → Prop
  | nil : Lexed [] []
  | ignored {c : Char} {rest : List Char} {lexemes : List Lexeme} (hc : isIgnored c = true)
      (h : Lexed rest lexemes) : Lexed (c :: rest) lexemes
  | comment {rest : List Char} {lexemes : List Lexeme}
      (h : Lexed (rest.drop (rest.takeWhile fun c => !isLineEnd c).length) lexemes) :
      Lexed ('#' :: rest) lexemes
  | token {c : Char} {rest : List Char} {lexeme : Lexeme} {width : Nat} {lexemes : List Lexeme}
      (hc : isIgnored c = false) (hcomment : c ≠ '#')
      (hscan : scanToken c rest = .ok (lexeme, width)) (h : Lexed (rest.drop (width - 1)) lexemes) :
      Lexed (c :: rest) (lexeme :: lexemes)

/-- A text without a lexical fault is scanned as its lexemes. -/
theorem exists_lexed {position : Nat} {text : List Char}
    (h : (scanFrom position text).fault? = none) : ∃ lexemes, Lexed text lexemes := by
  fun_induction scanFrom position text with
  | case1 position => exact ⟨[], .nil⟩
  | case2 position c rest hc ih =>
    obtain ⟨lexemes, hrest⟩ := ih h
    exact ⟨lexemes, .ignored hc hrest⟩
  | case3 position rest comment hc ih =>
    obtain ⟨lexemes, hrest⟩ := ih h
    exact ⟨lexemes, .comment hrest⟩
  | case4 => cases h
  | case5 position c rest hc hcomment lexeme width hscan behind ih =>
    obtain ⟨lexemes, hrest⟩ := ih h
    exact ⟨lexeme :: lexemes, .token (Bool.eq_false_iff.mpr hc) hcomment hscan hrest⟩

namespace Lexed

variable {text rest : List Char} {lexemes more : List Lexeme}

theorem scans (h : Lexed text lexemes) : Scans text lexemes := by
  induction h with
  | nil => exact scans_nil
  | ignored hc _ ih => exact ih.ignored hc
  | comment _ ih => exact ih.comment
  | token hc hcomment hscan _ ih => exact ih.token hc hcomment hscan

theorem finish_not_mem (h : Lexed text lexemes) : .finish ∉ lexemes := by
  induction h with
  | nil => exact List.not_mem_nil
  | ignored _ _ ih => exact ih
  | comment _ ih => exact ih
  | token _ _ hscan _ ih =>
    rintro (_ | ⟨_, hmem⟩)
    · exact scanToken_ne_finish _ _ _ hscan
    · exact ih hmem

/-- Two texts with a line end between them. -/
theorem append (h : Lexed text lexemes) (hrest : Lexed rest more) :
    Lexed (text ++ '\n' :: rest) (lexemes ++ more) := by
  induction h with
  | nil => exact .ignored rfl hrest
  | ignored hc _ ih => exact .ignored hc ih
  | @comment text lexemes _ ih =>
    rw [List.cons_append]
    refine .comment ?_
    rw [takeWhile_append_lineEnd (by decide),
      List.drop_append_of_le_length (List.takeWhile_sublist _).length_le]
    exact ih
  | token hc hcomment hscan _ ih =>
    obtain ⟨hwidth, hmore⟩ := settled_scanToken _ hscan
    dsimp only at hwidth
    rw [List.cons_append, List.cons_append]
    refine .token hc hcomment (hmore rest) ?_
    rw [List.drop_append_of_le_length hwidth]
    exact ih

/-- Texts with a line end behind each. -/
theorem flatten {texts : List String} {lexemesOf : String → List Lexeme}
    (h : ∀ text ∈ texts, Lexed text.toList (lexemesOf text)) :
    Lexed (texts.flatMap fun text => text.toList ++ ['\n']) (texts.map lexemesOf).flatten := by
  induction texts with
  | nil => exact .nil
  | cons text texts ih =>
    rw [List.forall_mem_cons] at h
    rw [List.flatMap_cons, List.append_assoc, List.map_cons, List.flatten_cons]
    exact h.1.append (ih h.2)

end Lexed

end FederationGraph.Document
