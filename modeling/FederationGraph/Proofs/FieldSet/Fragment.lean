import FederationGraph.Document.Token
import FederationGraph.Proofs.FieldSet.Forest

/-!
# Field sets with fragment spreads

Spreads are left out of the tokens before the braces are read. The braces of an
inline fragment then stand behind whatever token came before its mark. Where
that is a field without braces, the fields of the fragment are read as fields of
that field and not of the one whose braces enclose the fragment. Everywhere else
a field set is read as if its inline fragments were replaced by what they hold
and its named spreads were not there.
-/
namespace FederationGraph.FieldSet

/-- A name of the query language: letters, digits and underscores, with no digit in front. -/
structure Name where
  text : String
  start : text.toList.head?.any Document.isNameStart = true
  parts : text.toList.all Document.isNamePart = true

/-- What stands in front of the braces of an inline fragment: the mark alone, or a type condition,
whose word may be joined to the mark. -/
inductive Lead where
  | bare
  | on (joined : Bool) (type : Name)

/-- A list of fields, inline fragments and named spreads. The name of a spread may be joined to
its mark, and is not the word that starts a type condition. -/
inductive SelectionSet where
  | nil
  | leaf (name : Name) (rest : SelectionSet)
  | node (name : Name) (children rest : SelectionSet)
  | inline (lead : Lead) (children rest : SelectionSet)
  | spread (joined : Bool) (name : Name) (noCondition : name.text ≠ conditionWord)
      (rest : SelectionSet)

/-- The characters of names stand in no brace, separator or spread mark. -/
theorem isNameChar_of_isNamePart {c : Char} (h : Document.isNamePart c = true) :
    isNameChar c = true ∧ c ≠ '.' := by
  have hn : c.toNat = 95 ∨ (48 ≤ c.toNat ∧ c.toNat ≤ 57) ∨ (65 ≤ c.toNat ∧ c.toNat ≤ 90) ∨
      (97 ≤ c.toNat ∧ c.toNat ≤ 122) := by
    simp only [Document.isNamePart, Document.isNameStart, Decimal.isDigit, Bool.or_eq_true,
      Bool.and_eq_true, decide_eq_true_eq, beq_iff_eq, Char.le_def, UInt32.le_iff_toNat_le] at h
    rcases h with ((h | h) | rfl) | h
    · exact .inr (.inr (.inr h))
    · exact .inr (.inr (.inl h))
    · exact .inl rfl
    · exact .inr (.inl h)
  have hne : ∀ d : Char, d.toNat < 48 ∨ 122 < d.toNat → c ≠ d := by
    rintro d hd rfl
    omega
  refine ⟨?_, hne '.' (by decide)⟩
  have hb : Text.isBlank c = false := by
    simp only [Text.isBlank, Bool.or_eq_false_iff, Bool.and_eq_false_iff, decide_eq_false_iff_not,
      beq_eq_false_iff_ne]
    omega
  simp [isNameChar, isSeparator, hb, hne '{' (by decide), hne '}' (by decide), hne ',' (by decide)]

namespace Name

theorem ne_empty (name : Name) : name.text ≠ "" := by
  intro he
  have hs := name.start
  rw [he] at hs
  exact absurd hs (by decide)

theorem isNamePart_of_mem {name : Name} {c : Char} (h : c ∈ name.text.toList) :
    Document.isNamePart c = true :=
  List.all_eq_true.mp name.parts c h

theorem isWord (name : Name) : IsWord name.text :=
  ⟨name.ne_empty,
    List.all_eq_true.mpr fun _ hc => (isNameChar_of_isNamePart (isNamePart_of_mem hc)).1⟩

theorem not_isSpread (name : Name) : isSpread name.text = false := by
  cases hl : name.text.toList with
  | nil => simp [isSpread, hl, spreadMark]
  | cons c rest =>
    have hc : c ≠ '.' := (isNameChar_of_isNamePart (isNamePart_of_mem (hl ▸ List.mem_cons_self))).2
    have hb : ('.' == c) = false := beq_false_of_ne hc.symm
    simp [isSpread, hl, spreadMark, List.isPrefixOf, hb]

def toFieldName (name : Name) : FieldName := ⟨name.text, name.isWord, name.not_isSpread⟩

end Name

/-- The tokens of a fragment's lead, as they are written. -/
def Lead.tokens : Lead → List Token
  | bare => [.name spreadMark]
  | on true type => [.name (spreadMark ++ conditionWord), .name type.text]
  | on false type => [.name spreadMark, .name conditionWord, .name type.text]

namespace SelectionSet

def tokens : SelectionSet → List Token
  | nil => []
  | leaf name rest => .name name.text :: rest.tokens
  | node name children rest =>
    .name name.text :: .opening :: (children.tokens ++ .closing :: rest.tokens)
  | inline lead children rest =>
    lead.tokens ++ .opening :: (children.tokens ++ .closing :: rest.tokens)
  | spread true name _ rest => .name (spreadMark ++ name.text) :: rest.tokens
  | spread false name _ rest => .name spreadMark :: .name name.text :: rest.tokens

/-- The selection set without spreads: every inline fragment replaced in place by what it holds,
every named spread removed. -/
def flatten : SelectionSet → Forest
  | nil => .nil
  | leaf name rest => .leaf name.toFieldName rest.flatten
  | node name children rest => .node name.toFieldName children.flatten rest.flatten
  | inline _ children rest => children.flatten.append rest.flatten
  | spread _ _ _ rest => rest.flatten

/-- Whether no inline fragment that holds a field stands behind a field without braces, with
nothing but named spreads in between. `bare` says whether such a field stands in front. -/
def Guarded (bare : Bool) : SelectionSet → Prop
  | nil => True
  | leaf _ rest => rest.Guarded true
  | node _ children rest => children.Guarded false ∧ rest.Guarded false
  | inline _ children rest =>
    (bare = true → children.flatten = .nil) ∧ children.Guarded false ∧ rest.Guarded false
  | spread _ _ _ rest => rest.Guarded bare

/-- The tokens that remain when the spreads are left out. -/
def kept : SelectionSet → List Token
  | nil => []
  | leaf name rest => .name name.text :: rest.kept
  | node name children rest =>
    .name name.text :: .opening :: (children.kept ++ .closing :: rest.kept)
  | inline _ children rest => .opening :: (children.kept ++ .closing :: rest.kept)
  | spread _ _ _ rest => rest.kept

/-- The fields of a selection set where the reader sees them: an inline fragment right behind a
field without braces is taken for the braces of that field. -/
def placed (above : List String) (before : Option String) : SelectionSet → List Occurrence
  | nil => []
  | leaf name rest => ⟨above, name.text⟩ :: rest.placed above (some name.text)
  | node name children rest =>
    ⟨above, name.text⟩ ::
      (children.placed (above ++ [name.text]) none ++ rest.placed above none)
  | inline _ children rest =>
    children.placed (above ++ before.toList) none ++ rest.placed above none
  | spread _ _ _ rest => rest.placed above before

/-- The name right behind which the kept tokens end, if they end with a name. -/
def endsWith (before : Option String) : SelectionSet → Option String
  | nil => before
  | leaf name rest => rest.endsWith (some name.text)
  | node _ _ rest => rest.endsWith none
  | inline _ _ rest => rest.endsWith none
  | spread _ _ _ rest => rest.endsWith before

end SelectionSet

theorem isWord_spreadMark : IsWord spreadMark := by decide

theorem isWord_conditionWord : IsWord conditionWord := by decide

theorem isWord_append {a b : String} (ha : IsWord a) (hb : IsWord b) : IsWord (a ++ b) := by
  refine ⟨fun he => ha.1 (String.append_eq_empty_iff.mp he).1, ?_⟩
  rw [String.toList_append, List.all_append, ha.2, hb.2, Bool.and_self]

theorem isWord_of_mem_lead {lead : Lead} {word : String} (h : .name word ∈ lead.tokens) :
    IsWord word := by
  rcases lead with _ | ⟨_ | _, type⟩ <;>
    simp only [Lead.tokens, List.mem_cons, Token.name.injEq, List.not_mem_nil, or_false] at h
  · exact h ▸ isWord_spreadMark
  · rcases h with rfl | rfl | rfl
    · exact isWord_spreadMark
    · exact isWord_conditionWord
    · exact type.isWord
  · rcases h with rfl | rfl
    · exact isWord_append isWord_spreadMark isWord_conditionWord
    · exact type.isWord

theorem isWord_of_mem_tokens {set : SelectionSet} {word : String} (h : .name word ∈ set.tokens) :
    IsWord word := by
  induction set with
  | nil => cases h
  | leaf name rest ih =>
    rcases List.mem_cons.mp h with he | h
    · exact Token.name.inj he ▸ name.isWord
    · exact ih h
  | node name children rest ihc ihr =>
    rcases List.mem_cons.mp h with he | h
    · exact Token.name.inj he ▸ name.isWord
    · simp only [List.mem_cons, reduceCtorEq, List.mem_append, false_or] at h
      exact h.elim ihc ihr
  | inline lead children rest ihc ihr =>
    simp only [SelectionSet.tokens, List.mem_append, List.mem_cons, reduceCtorEq, false_or] at h
    rcases h with h | h | h
    · exact isWord_of_mem_lead h
    · exact ihc h
    · exact ihr h
  | spread joined name noCondition rest ih =>
    cases joined <;>
      simp only [SelectionSet.tokens, List.mem_cons, Token.name.injEq] at h
    · rcases h with rfl | rfl | h
      · exact isWord_spreadMark
      · exact name.isWord
      · exact ih h
    · rcases h with rfl | h
      · exact isWord_append isWord_spreadMark name.isWord
      · exact ih h

theorem dropSpreads_nil : dropSpreads [] = [] := by rw [dropSpreads]

theorem dropSpreads_opening (rest : List Token) :
    dropSpreads (.opening :: rest) = .opening :: dropSpreads rest := by
  rw [dropSpreads]; simp

theorem dropSpreads_closing (rest : List Token) :
    dropSpreads (.closing :: rest) = .closing :: dropSpreads rest := by
  rw [dropSpreads]; simp

theorem dropSpreads_name (name : Name) (rest : List Token) :
    dropSpreads (.name name.text :: rest) = .name name.text :: dropSpreads rest := by
  rw [dropSpreads, name.not_isSpread, if_neg (by decide)]

theorem isSpread_append (text : String) : isSpread (spreadMark ++ text) = true := by
  simp [isSpread]

theorem dropSpreads_lead (lead : Lead) (rest : List Token) :
    dropSpreads (lead.tokens ++ .opening :: rest) = .opening :: dropSpreads rest := by
  rw [← dropSpreads_opening]
  rcases lead with _ | ⟨_ | _, type⟩
  · rw [Lead.tokens, List.singleton_append, dropSpreads, if_pos (by decide)]
    rfl
  · rw [Lead.tokens, List.cons_append, dropSpreads, if_pos (by decide)]
    rfl
  · rw [Lead.tokens, List.cons_append, dropSpreads, if_pos (by decide)]
    rfl

theorem dropSpreads_spread (joined : Bool) (name : Name) (hn : name.text ≠ conditionWord)
    (set : SelectionSet) (rest : List Token) :
    dropSpreads ((SelectionSet.spread joined name hn set).tokens ++ rest) =
      dropSpreads (set.tokens ++ rest) := by
  cases joined with
  | false =>
    rw [SelectionSet.tokens, List.cons_append, List.cons_append, dropSpreads, if_pos (by decide)]
    simp [spreadLength, hn]
  | true =>
    have hm : spreadMark ++ name.text ≠ spreadMark := by
      simpa using name.ne_empty
    have hc : spreadMark ++ name.text ≠ spreadMark ++ conditionWord := by
      simpa using hn
    rw [SelectionSet.tokens, List.cons_append, dropSpreads, isSpread_append, if_pos rfl]
    congr 1
    unfold spreadLength
    split <;> simp [hm, hc]

/-- Leaving out the spreads keeps the fields and every brace. -/
theorem dropSpreads_tokens (set : SelectionSet) (rest : List Token) :
    dropSpreads (set.tokens ++ rest) = set.kept ++ dropSpreads rest := by
  induction set generalizing rest with
  | nil => rfl
  | leaf name siblings ih =>
    rw [SelectionSet.tokens, List.cons_append, dropSpreads_name, ih]
    rfl
  | node name children siblings ihc ihs =>
    simp only [SelectionSet.tokens, List.cons_append, List.append_assoc, dropSpreads_name,
      dropSpreads_opening, dropSpreads_closing, ihc, ihs, SelectionSet.kept]
  | inline lead children siblings ihc ihs =>
    simp only [SelectionSet.tokens, List.cons_append, List.append_assoc, dropSpreads_lead,
      dropSpreads_closing, ihc, ihs, SelectionSet.kept]
  | spread joined name noCondition siblings ih =>
    rw [dropSpreads_spread, ih]
    rfl

theorem tokens_of_written_set {set : SelectionSet} {text : String}
    (h : Written set.tokens text.toList) : FieldSet.tokens text = set.kept := by
  have hd := dropSpreads_tokens set []
  rw [List.append_nil, dropSpreads_nil, List.append_nil] at hd
  rw [FieldSet.tokens, rawTokens_of_written h fun _ => isWord_of_mem_tokens, hd]

/-- The brace structure of what is kept, whatever stands around it. -/
theorem occurrencesFrom_kept (set : SelectionSet) (scopes : List (Option String))
    (before : Option String) (rest : List Token) :
    occurrencesFrom scopes before (set.kept ++ rest) =
      set.placed (openNames scopes).reverse before ++
        occurrencesFrom scopes (set.endsWith before) rest := by
  induction set generalizing scopes before rest with
  | nil => rfl
  | leaf name siblings ih =>
    rw [SelectionSet.kept, List.cons_append, occurrencesFrom, ih]
    rfl
  | node name children siblings ihc ihs =>
    simp only [SelectionSet.kept, List.cons_append, List.append_assoc, occurrencesFrom, ihc, ihs,
      reverse_openNames_cons, Option.toList_some, List.tail_cons, SelectionSet.placed,
      SelectionSet.endsWith]
  | inline lead children siblings ihc ihs =>
    simp only [SelectionSet.kept, List.cons_append, List.append_assoc, occurrencesFrom, ihc, ihs,
      reverse_openNames_cons, List.tail_cons, SelectionSet.placed, SelectionSet.endsWith]
  | spread joined name noCondition siblings ih => exact ih scopes before rest

theorem selections_of_written_set {set : SelectionSet} {text : String}
    (h : Written set.tokens text.toList) :
    selections text = (set.placed [] none).map Occurrence.selection := by
  have hr := occurrencesFrom_kept set [] none []
  rw [List.append_nil] at hr
  rw [selections_eq, tokens_of_written_set h, hr, occurrencesFrom, List.append_nil]
  rfl

/-- Wherever the reader sees the fields, it sees each of them once. -/
theorem length_placed (set : SelectionSet) (above other : List String) (before : Option String) :
    (set.placed above before).length = (set.flatten.occurrences other).length := by
  induction set generalizing above other before with
  | nil => rfl
  | leaf name rest ih =>
    simp only [SelectionSet.placed, SelectionSet.flatten, Forest.occurrences, List.length_cons,
      ih above other]
  | node name children rest ihc ihr =>
    simp only [SelectionSet.placed, SelectionSet.flatten, Forest.occurrences, List.length_cons,
      List.length_append, ihc _ (other ++ [name.toFieldName.text]), ihr above other]
  | inline lead children rest ihc ihr =>
    simp only [SelectionSet.placed, SelectionSet.flatten, Forest.occurrences_append,
      List.length_append, ihc _ other, ihr above other]
  | spread joined name noCondition rest ih => exact ih above other before

theorem placed_eq_nil {set : SelectionSet} (h : set.flatten = .nil) (above : List String)
    (before : Option String) : set.placed above before = [] := by
  have hl := length_placed set above [] before
  rw [h] at hl
  exact List.eq_nil_of_length_eq_zero hl

/-- Behind no name, the first field stands where it stands without spreads. -/
theorem exists_head {set : SelectionSet} (h : set.flatten ≠ .nil) (above : List String) :
    ∃ name rest, set.placed above none = ⟨above, name⟩ :: rest ∧
      ∀ other, ∃ rest', set.flatten.occurrences other = ⟨other, name⟩ :: rest' := by
  induction set with
  | nil => exact absurd rfl h
  | leaf name rest ih => exact ⟨name.text, _, rfl, fun other => ⟨_, rfl⟩⟩
  | node name children rest ihc ihr => exact ⟨name.text, _, rfl, fun other => ⟨_, rfl⟩⟩
  | inline lead children rest ihc ihr =>
    simp only [SelectionSet.placed, SelectionSet.flatten, Forest.occurrences_append,
      Option.toList_none, List.append_nil] at h ⊢
    by_cases hc : children.flatten = .nil
    · rw [hc] at h ⊢
      rw [placed_eq_nil hc]
      exact ihr h
    · obtain ⟨name, tail, hp, ho⟩ := ihc hc
      refine ⟨name, tail ++ rest.placed above none, by rw [hp, List.cons_append], ?_⟩
      intro other
      obtain ⟨tail', ho⟩ := ho other
      exact ⟨tail' ++ rest.flatten.occurrences other, by rw [ho, List.cons_append]⟩
  | spread joined name noCondition rest ih => exact ih h

theorem placed_of_guarded (set : SelectionSet) (before : Option String)
    (h : set.Guarded before.isSome) (above : List String) :
    set.placed above before = set.flatten.occurrences above := by
  induction set generalizing above before with
  | nil => rfl
  | leaf name rest ih =>
    rw [SelectionSet.placed, ih (some name.text) h]
    rfl
  | node name children rest ihc ihr =>
    rw [SelectionSet.placed, ihc none h.1, ihr none h.2]
    rfl
  | inline lead children rest ihc ihr =>
    obtain ⟨hbare, hc, hr⟩ := h
    rw [SelectionSet.placed, SelectionSet.flatten, Forest.occurrences_append, ihr none hr]
    cases before with
    | none => rw [Option.toList_none, List.append_nil, ihc none hc]
    | some name => rw [placed_eq_nil (hbare rfl), hbare rfl]; rfl
  | spread joined name noCondition rest ih => exact ih before h above

theorem selection_ne (above : List String) (between name : String) :
    Occurrence.selection ⟨above ++ [between], name⟩ ≠ Occurrence.selection ⟨above, name⟩ := by
  intro he
  have hl := congrArg String.length (congrArg Selection.path he)
  exact absurd hl (Nat.ne_of_gt (Path.length_ofNames_lt above between name))

/-- Only a guarded selection set is read as the forest it flattens to. -/
theorem guarded_of_selections_eq {set : SelectionSet} {above : List String}
    {before : Option String}
    (h : (set.placed above before).map Occurrence.selection =
      (set.flatten.occurrences above).map Occurrence.selection) :
    set.Guarded before.isSome := by
  induction set generalizing above before with
  | nil => trivial
  | leaf name rest ih => exact ih (List.cons.inj h).2
  | node name children rest ihc ihr =>
    have h := (List.cons.inj h).2
    rw [List.map_append, List.map_append] at h
    obtain ⟨hc, hr⟩ := List.append_inj h (by
      rw [List.length_map, List.length_map]
      exact length_placed children _ _ none)
    exact ⟨ihc hc, ihr hr⟩
  | inline lead children rest ihc ihr =>
    rw [SelectionSet.placed, SelectionSet.flatten, Forest.occurrences_append, List.map_append,
      List.map_append] at h
    obtain ⟨hc, hr⟩ := List.append_inj h (by
      rw [List.length_map, List.length_map]
      exact length_placed children _ _ none)
    cases before with
    | none =>
      rw [Option.toList_none, List.append_nil] at hc
      exact ⟨nofun, ihc hc, ihr hr⟩
    | some between =>
      by_cases hn : children.flatten = .nil
      · have he : (children.placed above none).map Occurrence.selection =
            (children.flatten.occurrences above).map Occurrence.selection := by
          rw [placed_eq_nil hn, hn]; rfl
        exact ⟨fun _ => hn, ihc he, ihr hr⟩
      · -- the fragment's first field is placed one name deeper than it belongs
        obtain ⟨name, tail, hp, ho⟩ := exists_head hn (above ++ [between])
        obtain ⟨tail', ho⟩ := ho above
        rw [Option.toList_some, hp, ho] at hc
        exact absurd (List.cons.inj hc).1 (selection_ne above between name)
  | spread joined name noCondition rest ih => exact ih h

/-- A field set is read like the one without its spreads exactly when no inline fragment that
holds a field stands behind a field without braces, with named spreads at most in between. -/
theorem selections_eq_selections_flatten_iff (set : SelectionSet) (text plain : String)
    (h : Written set.tokens text.toList) (hp : Written set.flatten.tokens plain.toList) :
    selections text = selections plain ↔ set.Guarded false := by
  have hr := occurrencesFrom_forest set.flatten [] none []
  rw [List.append_nil] at hr
  have hf : selections plain = (set.flatten.occurrences []).map Occurrence.selection := by
    rw [selections_eq, tokens_of_written hp, hr, occurrencesFrom, List.append_nil]
    rfl
  rw [selections_of_written_set h, hf]
  constructor
  · exact guarded_of_selections_eq
  · intro hg
    rw [placed_of_guarded set none hg]

/-- Fragments in front, between and behind that have no bare field in front of them. -/
theorem selections_of_fragments_in_front :
    Written [.name "a", .opening, .name "...on", .name "T", .opening, .name "b", .closing,
      .name "...", .name "X", .name "c", .closing] "a{...on T{b}... X,c}".toList ∧
    Written [.name "a", .opening, .name "b", .name "c", .closing] "a{b c}".toList ∧
    selections "a{...on T{b}... X,c}" = selections "a{b c}" := by
  let a : Name := ⟨"a", by decide, by decide⟩
  let b : Name := ⟨"b", by decide, by decide⟩
  let c : Name := ⟨"c", by decide, by decide⟩
  let t : Name := ⟨"T", by decide, by decide⟩
  let x : Name := ⟨"X", by decide, by decide⟩
  let set : SelectionSet :=
    .node a (.inline (.on true t) (.leaf b .nil) (.spread false x (by decide) (.leaf c .nil))) .nil
  have h : Written set.tokens "a{...on T{b}... X,c}".toList := by
    rw [show "a{...on T{b}... X,c}".toList = "a".toList ++ '{' :: ("...on".toList ++ ' ' ::
      ("T".toList ++ '{' :: ("b".toList ++ '}' :: ("...".toList ++ ' ' :: ("X".toList ++ ',' ::
      ("c".toList ++ ['}'])))))) from by decide]
    exact .name nofun <| .opening <| .name (fun _ => by decide) <| .separator (by decide) <|
      .name nofun <| .opening <| .name nofun <| .closing <| .name (fun _ => by decide) <|
      .separator (by decide) <| .name (fun _ => by decide) <| .separator (by decide) <|
      .name nofun <| .closing .done
  have hp : Written set.flatten.tokens "a{b c}".toList := by
    rw [show "a{b c}".toList = "a".toList ++ '{' :: ("b".toList ++ ' ' :: ("c".toList ++ ['}']))
      from by decide]
    exact .name nofun <| .opening <| .name (fun _ => by decide) <| .separator (by decide) <|
      .name nofun <| .closing .done
  have hg : set.Guarded false := by simp [set, SelectionSet.Guarded]
  exact ⟨h, hp, (selections_eq_selections_flatten_iff set _ _ h hp).mpr hg⟩

/-- The field of an inline fragment behind a bare field gets the path of that field. -/
theorem selections_of_fragment_behind_leaf :
    ¬ ∀ (set : SelectionSet) (text plain : String), Written set.tokens text.toList →
      Written set.flatten.tokens plain.toList → selections text = selections plain := by
  intro hall
  let a : Name := ⟨"a", by decide, by decide⟩
  let b : Name := ⟨"b", by decide, by decide⟩
  let t : Name := ⟨"T", by decide, by decide⟩
  let set : SelectionSet := .leaf a (.inline (.on false t) (.leaf b .nil) .nil)
  have h : Written set.tokens "a ... on T { b }".toList := by
    rw [show "a ... on T { b }".toList = "a".toList ++ ' ' :: ("...".toList ++ ' ' ::
      ("on".toList ++ ' ' :: ("T".toList ++ ' ' :: '{' :: ' ' :: ("b".toList ++ [' ', '}']))))
      from by decide]
    exact .name (fun _ => by decide) <| .separator (by decide) <| .name (fun _ => by decide) <|
      .separator (by decide) <| .name (fun _ => by decide) <| .separator (by decide) <|
      .name nofun <| .separator (by decide) <| .opening <| .separator (by decide) <|
      .name nofun <| .separator (by decide) <| .closing .done
  have hp : Written set.flatten.tokens "a b".toList := by
    rw [show "a b".toList = "a".toList ++ ' ' :: ("b".toList ++ []) from by decide]
    exact .name (fun _ => by decide) <| .separator (by decide) <| .name nofun .done
  have ht : selections "a ... on T { b }" = [⟨"a", "a"⟩, ⟨"b", "a.b"⟩] :=
    (selections_of_written_set h).trans (by decide)
  have hf : selections "a b" = [⟨"a", "a"⟩, ⟨"b", "b"⟩] := by
    rw [selections_eq, tokens_of_written hp]
    decide
  have he := hall set _ _ h hp
  rw [ht, hf] at he
  exact absurd he (by decide)

end FederationGraph.FieldSet
