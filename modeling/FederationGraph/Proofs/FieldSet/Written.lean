import FederationGraph.FieldSet.Token

/-!
# Ways to write tokens

The same tokens can be written in many ways: any run of separators may stand in
front of a token and behind the last one, and between two names there has to be
one. The tokens of a text written in any of these ways are the ones it was
written from.
-/
namespace FederationGraph.FieldSet

/-- A text that cannot be cut: not empty, and without braces or separators. -/
def IsWord (text : String) : Prop := text ≠ "" ∧ text.toList.all isNameChar = true

instance (text : String) : Decidable (IsWord text) := inferInstanceAs (Decidable (_ ∧ _))

def StartsApart (text : List Char) : Prop := text.head?.any isSeparator = true

instance (text : List Char) : Decidable (StartsApart text) := inferInstanceAs (Decidable (_ = _))

/-- `Written tokens text`: the text writes the tokens in order, with separators wherever it likes
and with at least one between two names. -/
inductive Written : List Token → List Char → Prop
  | done : Written [] []
  | separator {tokens : List Token} {text : List Char} {c : Char} (blank : isSeparator c = true)
      (rest : Written tokens text) : Written tokens (c :: text)
  | opening {tokens : List Token} {text : List Char} (rest : Written tokens text) :
      Written (.opening :: tokens) ('{' :: text)
  | closing {tokens : List Token} {text : List Char} (rest : Written tokens text) :
      Written (.closing :: tokens) ('}' :: text)
  | name {tokens : List Token} {text : List Char} {word : String}
      (apart : (∃ next, tokens.head? = some (.name next)) → StartsApart text)
      (rest : Written tokens text) : Written (.name word :: tokens) (word.toList ++ text)

theorem isNameChar_opening : isNameChar '{' = false := by decide

theorem isNameChar_closing : isNameChar '}' = false := by decide

theorem isNameChar_of_isSeparator {c : Char} (h : isSeparator c = true) : isNameChar c = false := by
  simp [isNameChar, h]

/-- A name character is neither a brace nor a separator. -/
theorem ne_of_isNameChar {c : Char} (h : isNameChar c = true) :
    c ≠ '{' ∧ c ≠ '}' ∧ isSeparator c = false := by
  refine ⟨?_, ?_, ?_⟩
  · rintro rfl; exact absurd h (by decide)
  · rintro rfl; exact absurd h (by decide)
  · cases hc : isSeparator c with
    | false => rfl
    | true => rw [isNameChar_of_isSeparator hc] at h; exact absurd h (by decide)

@[simp] theorem rawTokens_nil : rawTokens [] = [] := by rw [rawTokens]

@[simp] theorem rawTokens_opening (rest : List Char) :
    rawTokens ('{' :: rest) = .opening :: rawTokens rest := by
  rw [rawTokens, if_pos rfl]

@[simp] theorem rawTokens_closing (rest : List Char) :
    rawTokens ('}' :: rest) = .closing :: rawTokens rest := by
  rw [rawTokens, if_neg (by decide), if_pos rfl]

theorem rawTokens_separator {c : Char} (h : isSeparator c = true) (rest : List Char) :
    rawTokens (c :: rest) = rawTokens rest := by
  have ho : c ≠ '{' := by rintro rfl; exact absurd h (by decide)
  have hc : c ≠ '}' := by rintro rfl; exact absurd h (by decide)
  rw [rawTokens, if_neg ho, if_neg hc, if_pos h]

/-- A run of name characters that nothing continues is one token. -/
theorem rawTokens_word {word : String} (hw : IsWord word) {rest : List Char}
    (hr : rest.head?.all (fun c => !isNameChar c) = true) :
    rawTokens (word.toList ++ rest) = .name word :: rawTokens rest := by
  obtain ⟨hne, hchars⟩ := hw
  cases hl : word.toList with
  | nil => exact absurd (String.toList_eq_nil_iff.mp hl) hne
  | cons c cs =>
    rw [hl, List.all_cons, Bool.and_eq_true] at hchars
    obtain ⟨ho, hc, hs⟩ := ne_of_isNameChar hchars.1
    have hcs : ∀ a ∈ cs, isNameChar a = true := List.all_eq_true.mp hchars.2
    have hstop : rest.takeWhile isNameChar = [] ∧ rest.dropWhile isNameChar = rest := by
      cases rest with
      | nil => exact ⟨rfl, rfl⟩
      | cons a rest =>
        have ha : isNameChar a = false := by simpa using hr
        exact ⟨List.takeWhile_cons_of_neg (by simp [ha]), List.dropWhile_cons_of_neg (by simp [ha])⟩
    rw [List.cons_append, rawTokens, if_neg ho, if_neg hc, hs, if_neg (by decide),
      List.takeWhile_append_of_pos hcs, List.dropWhile_append_of_pos hcs, hstop.1, hstop.2,
      List.append_nil, ← hl, String.ofList_toList]

theorem Written.head?_not_isNameChar {tokens : List Token} {text : List Char}
    (h : Written tokens text) (apart : (∃ next, tokens.head? = some (.name next)) →
      StartsApart text) : text.head?.all (fun c => !isNameChar c) = true := by
  cases h with
  | done => rfl
  | separator blank rest => simp [isNameChar_of_isSeparator blank]
  | opening rest => simp [isNameChar_opening]
  | closing rest => simp [isNameChar_closing]
  | @name tokens text word apart' rest =>
    have hs := apart ⟨word, rfl⟩
    unfold StartsApart at hs
    cases hh : (word.toList ++ text).head? with
    | none => rfl
    | some c =>
      rw [hh] at hs
      simpa using isNameChar_of_isSeparator hs

theorem rawTokens_of_written {tokens : List Token} {text : List Char} (h : Written tokens text)
    (words : ∀ word, .name word ∈ tokens → IsWord word) : rawTokens text = tokens := by
  induction h with
  | done => exact rawTokens_nil
  | separator blank rest ih => rw [rawTokens_separator blank, ih words]
  | opening rest ih =>
    rw [rawTokens_opening, ih fun word hw => words word (List.mem_cons_of_mem _ hw)]
  | closing rest ih =>
    rw [rawTokens_closing, ih fun word hw => words word (List.mem_cons_of_mem _ hw)]
  | @name tokens text word apart rest ih =>
    rw [rawTokens_word (words word List.mem_cons_self) (rest.head?_not_isNameChar apart),
      ih fun other ho => words other (List.mem_cons_of_mem _ ho)]

end FederationGraph.FieldSet
