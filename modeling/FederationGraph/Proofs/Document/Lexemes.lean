import FederationGraph.Document.Token
import FederationGraph.Proofs.Decimal.Digits
import FederationGraph.Proofs.Document.Names
import FederationGraph.Proofs.Text.Quoted

/-!
# Lexemes scanned back

The scan takes as much as it can for one lexeme. A name, an integer or a quoted text
is scanned as what it was written from wherever a mark, an ignored character or the
end of the text follows, and a text of such lexemes is scanned as all of them in
order.
-/
namespace FederationGraph.Document

open Text Decimal

/-! ## Where a lexeme ends -/

/-- The characters at which a lexeme of more than one character begins or may go on. -/
def isInner (c : Char) : Bool := isNamePart c || c == '.' || c == '-' || c == '\x22'

/-- Whether what stands behind a lexeme ends it: nothing, a mark or an ignored character. -/
def EndsLexeme (rest : List Char) : Prop :=
  ∀ c ∈ rest.head?, (mark? c).isSome = true ∨ isIgnored c = true

/-- Characters of which a test holds for one and not for the other are different. -/
theorem ne_of_test {p : Char → Bool} {c d : Char} (hc : p c = true) (hd : p d = false) :
    c ≠ d := by
  rintro rfl
  rw [hc] at hd
  cases hd

theorem of_isInner {c : Char} (h : isInner c = true) :
    mark? c = none ∧ isIgnored c = false ∧ c ≠ '#' := by
  have hne : ∀ d, isInner d = false → c ≠ d := fun _ => ne_of_test h
  refine ⟨?_, ?_, hne '#' (by decide)⟩
  · rw [mark?, if_neg (hne '!' (by decide)), if_neg (hne '$' (by decide)),
      if_neg (hne '&' (by decide)), if_neg (hne '(' (by decide)), if_neg (hne ')' (by decide)),
      if_neg (hne ':' (by decide)), if_neg (hne '=' (by decide)), if_neg (hne '@' (by decide)),
      if_neg (hne '[' (by decide)), if_neg (hne ']' (by decide)), if_neg (hne '{' (by decide)),
      if_neg (hne '|' (by decide)), if_neg (hne '}' (by decide))]
  · simp [isIgnored, hne ' ' (by decide), hne '\t' (by decide), hne ',' (by decide),
      hne '\n' (by decide), hne '\x0d' (by decide), hne '\ufeff' (by decide)]

theorem EndsLexeme.isInner_head {rest : List Char} (h : EndsLexeme rest) :
    ∀ c ∈ rest.head?, isInner c = false := by
  intro c hc
  rw [← Bool.not_eq_true]
  intro hinner
  obtain ⟨hmark, hignored, -⟩ := of_isInner hinner
  rcases h c hc with hm | hi
  · rw [hmark] at hm
    cases hm
  · rw [hignored] at hi
    cases hi

theorem isNamePart_of_isInner {c : Char} (h : isInner c = false) : isNamePart c = false := by
  simp only [isInner, Bool.or_eq_false_iff] at h
  exact h.1.1.1

theorem isDigit_of_isInner {c : Char} (h : isInner c = false) : isDigit c = false := by
  have hpart := isNamePart_of_isInner h
  simp only [isNamePart, Bool.or_eq_false_iff] at hpart
  exact hpart.2

theorem EndsLexeme.ends {rest : List Char} (h : EndsLexeme rest) : Ends rest :=
  fun c hc => isDigit_of_isInner (h.isInner_head c hc)

/-- `LexesTo text lexeme`: a text is scanned as one lexeme in front of all that ends it. -/
def LexesTo (text : List Char) (lexeme : Lexeme) : Prop :=
  ∀ position rest, EndsLexeme rest →
    let behind := scanFrom (position + text.length) rest
    scanFrom position (text ++ rest) = ⟨⟨lexeme, position⟩ :: behind.tokens, behind.fault?⟩

theorem isInner_of_isNamePart {c : Char} (h : isNamePart c = true) : isInner c = true := by
  simp [isInner, h]

theorem isNamePart_of_isNameStart {c : Char} (h : isNameStart c = true) : isNamePart c = true := by
  simp [isNamePart, h]

theorem isDigit_of_isNameStart {c : Char} (h : isNameStart c = true) : isDigit c = false := by
  rw [← Bool.not_eq_true, isDigit_iff]
  rintro ⟨-, hd⟩
  have hdigit : c.toNat ≤ 57 := hd
  simp only [isNameStart, Bool.or_eq_true, Bool.and_eq_true, decide_eq_true_eq, beq_iff_eq,
    Char.le_def, UInt32.le_iff_toNat_le] at h
  rcases h with (h | h) | rfl
  · have hlow : 97 ≤ c.toNat := h.1
    omega
  · have hupper : 65 ≤ c.toNat := h.1
    omega
  · exact absurd hdigit (by decide)

theorem scanToken_of_isNameStart {c : Char} (hc : isNameStart c = true) (rest : List Char) :
    scanToken c rest = .ok (.name (String.ofList (c :: rest.takeWhile isNamePart)),
      (rest.takeWhile isNamePart).length + 1) := by
  have hinner : isInner c = true := isInner_of_isNamePart (isNamePart_of_isNameStart hc)
  have hne : ∀ d, isNameStart d = false → c ≠ d := fun _ => ne_of_test hc
  have hnumber : ¬ (isDigit c || decide (c = '-')) = true := by
    simp [isDigit_of_isNameStart hc, hne '-' (by decide)]
  unfold scanToken
  rw [(of_isInner hinner).1]
  dsimp only
  rw [if_neg (hne '.' (by decide)), if_neg (hne '\x22' (by decide)), if_neg hnumber, if_pos hc,
    List.length_cons]

theorem isInner_of_isNumberStart {c : Char} (hc : isDigit c = true ∨ c = '-') :
    isInner c = true := by
  rcases hc with hc | rfl
  · simp [isInner, isNamePart, hc]
  · rfl

theorem scanToken_of_isNumberStart {c : Char} (hc : isDigit c = true ∨ c = '-')
    (rest : List Char) : scanToken c rest = scanNumber (c :: rest) := by
  have hnumber : (isDigit c || decide (c = '-')) = true := by simpa using hc
  have hne : ∀ d, (isDigit d || decide (d = '-')) = false → c ≠ d :=
    fun _ => ne_of_test (p := fun c => isDigit c || decide (c = '-')) hnumber
  unfold scanToken
  rw [(of_isInner (isInner_of_isNumberStart hc)).1]
  dsimp only
  rw [if_neg (hne '.' (by decide)), if_neg (hne '\x22' (by decide)), if_pos hnumber]

/-- `Scans text lexemes`: wherever the text begins, it is scanned as these lexemes to its end. -/
def Scans (text : List Char) (lexemes : List Lexeme) : Prop :=
  ∀ position, ∃ tokens finish, tokens.map Token.lexeme = lexemes ∧
    scanFrom position text = ⟨tokens ++ [⟨.finish, finish⟩], none⟩

theorem scans_nil : Scans [] [] :=
  fun position => ⟨[], position, rfl, by rw [scanFrom, List.nil_append]⟩

variable {text rest : List Char} {lexeme : Lexeme} {lexemes : List Lexeme}

theorem LexesTo.scans (h : LexesTo text lexeme) (hend : EndsLexeme rest)
    (hs : Scans rest lexemes) : Scans (text ++ rest) (lexeme :: lexemes) := by
  intro position
  obtain ⟨tokens, finish, hlexemes, hscan⟩ := hs (position + text.length)
  refine ⟨⟨lexeme, position⟩ :: tokens, finish, by rw [List.map_cons, hlexemes], ?_⟩
  have hfront := h position rest hend
  simp only [hscan] at hfront
  rw [hfront, List.cons_append]

theorem Scans.ignored {c : Char} (hc : isIgnored c = true) (hs : Scans rest lexemes) :
    Scans (c :: rest) lexemes := by
  intro position
  obtain ⟨tokens, finish, hlexemes, hscan⟩ := hs (position + 1)
  refine ⟨tokens, finish, hlexemes, ?_⟩
  rw [scanFrom, if_pos hc, hscan]

theorem Scans.mark {c : Char} {mark : Mark} (hc : mark? c = some mark)
    (hs : Scans rest lexemes) : Scans (c :: rest) (.mark mark :: lexemes) := by
  intro position
  obtain ⟨tokens, finish, hlexemes, hscan⟩ := hs (position + 1)
  have hne : ∀ d, mark? d = none → c ≠ d := by
    rintro d hd rfl
    rw [hd] at hc
    cases hc
  have hignored : isIgnored c = false := by
    simp [isIgnored, hne ' ' (by decide), hne '\t' (by decide), hne ',' (by decide),
      hne '\n' (by decide), hne '\x0d' (by decide), hne '\ufeff' (by decide)]
  have htoken : scanToken c rest = .ok (.mark mark, 1) := by
    unfold scanToken
    rw [hc]
  refine ⟨⟨.mark mark, position⟩ :: tokens, finish, by rw [List.map_cons, hlexemes], ?_⟩
  rw [scanFrom, hignored, if_neg (by decide), if_neg (hne '#' (by decide)), htoken]
  simp only [Nat.sub_self, List.drop_zero, hscan, List.cons_append]

end FederationGraph.Document
