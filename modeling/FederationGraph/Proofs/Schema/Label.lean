import FederationGraph.Document.Token
import FederationGraph.Schema.Label
import Mathlib.Data.List.Forall2
import Mathlib.Data.List.TakeWhile

/-!
# Where a label comes from

A schema is meant to get its label from a comment: the marker and the label behind it
on one line, and the first such place counts; without one the name of the file gives
the label. The blanks around the marker may be line ends as well, so that a marker
without a label takes the first word of what follows it. The label is therefore the
one that is meant just if the first marker with a label, wherever the label stands,
has it on its own line, if there is none, or if both give the same.
-/
namespace FederationGraph.Schema

open Text

/-! ## Marks -/

/-- A place in a text at which the marker stands with a label behind it. The blanks around the
marker's word are of any kind, and the label runs up to a blank or the end of the text. -/
structure LabelMark (text : List Char) where
  front : List Char
  gap : List Char
  word : List Char
  room : List Char
  label : List Char
  behind : List Char
  text_eq : text = front ++ '#' :: (gap ++ (word ++ (room ++ (label ++ behind))))
  blank_gap : ∀ c ∈ gap, isBlank c = true
  is_word : List.Forall₂ (fun letter c => matchesLetter letter c = true) marker word
  blank_room : ∀ c ∈ room, isBlank c = true
  label_ne : label ≠ []
  solid_label : ∀ c ∈ label, isSolid c = true
  blank_behind : ∀ c ∈ behind.head?, isBlank c = true

namespace LabelMark

variable {text : List Char}

/-- Whether no mark stands further in front. -/
def IsFirst (m : LabelMark text) : Prop :=
  ∀ other : LabelMark text, m.front.length ≤ other.front.length

/-- Whether the number sign, the word and the label stand on one line. -/
def OnOneLine (m : LabelMark text) : Prop := ∀ c ∈ m.gap ++ m.room, Document.isLineEnd c = false

/-- Whether a mark stands on one line and none further in front does. -/
def IsFirstOnLine (m : LabelMark text) : Prop :=
  m.OnOneLine ∧ ∀ other : LabelMark text, other.OnOneLine → m.front.length ≤ other.front.length

/-- The mark in a text with one more character in front. -/
def cons (c : Char) (m : LabelMark text) : LabelMark (c :: text) :=
  { m with front := c :: m.front, text_eq := congrArg (c :: ·) m.text_eq }

/-- A mark that is not right in front stands in the text behind the first character. -/
theorem exists_tail {c : Char} (m : LabelMark (c :: text)) (h : m.front ≠ []) :
    ∃ n : LabelMark text, n.label = m.label ∧ n.front.length + 1 = m.front.length := by
  cases hfront : m.front with
  | nil => exact absurd hfront h
  | cons d front =>
    have htext := m.text_eq
    rw [hfront, List.cons_append, List.cons.injEq] at htext
    exact ⟨{ m with front := front, text_eq := htext.2 }, rfl, rfl⟩

/-- Where no mark stands right in front, the first mark behind the first character is the first. -/
theorem isFirst_cons {c : Char} {m : LabelMark text} (h : m.IsFirst)
    (hnone : ∀ other : LabelMark (c :: text), other.front ≠ []) : (m.cons c).IsFirst := by
  intro other
  obtain ⟨n, -, hn⟩ := other.exists_tail (hnone other)
  have hle := h n
  change m.front.length + 1 ≤ _
  omega

end LabelMark

/-! ## The marker -/

theorem behindLetters_eq_some_iff {letters text rest : List Char} :
    behindLetters letters text = some rest ↔ ∃ word, text = word ++ rest ∧
      List.Forall₂ (fun letter c => matchesLetter letter c = true) letters word := by
  induction letters generalizing text with
  | nil =>
    rw [behindLetters]
    constructor
    · rintro ⟨⟩
      exact ⟨[], rfl, .nil⟩
    · rintro ⟨word, rfl, hword⟩
      cases hword
      rfl
  | cons letter letters ih =>
    cases text with
    | nil =>
      refine iff_of_false nofun ?_
      rintro ⟨word, htext, hword⟩
      cases hword
      cases htext
    | cons c text =>
      rw [behindLetters]
      constructor
      · intro h
        split at h
        · rename_i hc
          obtain ⟨word, rfl, hword⟩ := ih.mp h
          exact ⟨c :: word, rfl, .cons hc hword⟩
        · cases h
      · rintro ⟨word, htext, hword⟩
        cases hword with
        | cons hd hword =>
          cases htext
          rw [if_pos hd]
          exact ih.mpr ⟨_, rfl, hword⟩

/-- Blanks in front of what begins with no blank are dropped. -/
theorem dropWhile_isBlank {blanks rest : List Char} (hb : ∀ c ∈ blanks, isBlank c = true)
    (hr : ∀ c ∈ rest.head?, isBlank c = false) : (blanks ++ rest).dropWhile isBlank = rest := by
  rw [List.dropWhile_append_of_pos hb]
  cases rest with
  | nil => rfl
  | cons c rest => rw [List.dropWhile_cons_of_neg (by simp [hr c rfl])]

/-- A solid run is taken up to the blank behind it. -/
theorem takeWhile_isSolid {run rest : List Char} (hs : ∀ c ∈ run, isSolid c = true)
    (hr : ∀ c ∈ rest.head?, isBlank c = true) : (run ++ rest).takeWhile isSolid = run := by
  rw [List.takeWhile_append_of_pos hs]
  cases rest with
  | nil => simp
  | cons c rest => simp [isSolid, hr c rfl]

theorem head?_dropWhile_isBlank (text : List Char) :
    ∀ c ∈ (text.dropWhile isBlank).head?, isBlank c = false := by
  intro c hc
  have h := List.head?_dropWhile_not isBlank text
  rw [Option.mem_def.mp hc] at h
  exact h

/-- The marker's word begins with no blank. -/
theorem isBlank_of_matchesLetter {c : Char} (h : matchesLetter 's' c = true) :
    isBlank c = false := by
  simp only [matchesLetter, Bool.or_eq_true, Bool.and_eq_true, beq_iff_eq] at h
  rcases h with (rfl | rfl) | ⟨-, rfl⟩ <;> decide

theorem isBlank_head_word {word rest : List Char}
    (h : List.Forall₂ (fun letter c => matchesLetter letter c = true) marker word) :
    ∀ c ∈ (word ++ rest).head?, isBlank c = false := by
  cases h with
  | cons hc _ =>
    rintro _ ⟨⟩
    exact isBlank_of_matchesLetter hc

theorem isBlank_head_label {label rest : List Char} (hne : label ≠ [])
    (h : ∀ c ∈ label, isSolid c = true) : ∀ c ∈ (label ++ rest).head?, isBlank c = false := by
  obtain ⟨c, more, rfl⟩ := List.exists_cons_of_ne_nil hne
  rintro _ ⟨⟩
  simpa [isSolid] using h c List.mem_cons_self

/-- Behind a number sign a label is found just if a mark begins with that number sign. -/
theorem labelBehind_eq_some_iff {text label : List Char} :
    labelBehind text = some label ↔
      ∃ m : LabelMark ('#' :: text), m.front = [] ∧ m.label = label := by
  rw [labelBehind, Option.bind_eq_some_iff]
  constructor
  · rintro ⟨rest, hrest, hlabel⟩
    obtain ⟨word, htext, hword⟩ := behindLetters_eq_some_iff.mp hrest
    dsimp only at hlabel
    split at hlabel
    · cases hlabel
    · rename_i hne
      cases hlabel
      have hsplit : rest = rest.takeWhile isBlank ++ ((rest.dropWhile isBlank).takeWhile isSolid ++
          (rest.dropWhile isBlank).dropWhile isSolid) := by
        rw [List.takeWhile_append_dropWhile, List.takeWhile_append_dropWhile]
      refine ⟨{
        front := []
        gap := text.takeWhile isBlank
        word
        room := rest.takeWhile isBlank
        label := (rest.dropWhile isBlank).takeWhile isSolid
        behind := (rest.dropWhile isBlank).dropWhile isSolid
        text_eq := ?_
        blank_gap := fun c hc => List.mem_takeWhile_imp hc
        is_word := hword
        blank_room := fun c hc => List.mem_takeWhile_imp hc
        label_ne := by simpa using hne
        solid_label := fun c hc => List.mem_takeWhile_imp hc
        blank_behind := ?_ }, rfl, rfl⟩
      · rw [← hsplit, ← htext, List.takeWhile_append_dropWhile]
        rfl
      · intro c hc
        have h := List.head?_dropWhile_not isSolid (rest.dropWhile isBlank)
        rw [Option.mem_def.mp hc] at h
        simpa [isSolid] using h
  · rintro ⟨⟨_, gap, word, room, label, behind, htext, hgap, hword, hroom, hne, hlabel, hbehind⟩,
      rfl, rfl⟩
    cases htext
    refine ⟨_, behindLetters_eq_some_iff.mpr
      ⟨word, dropWhile_isBlank hgap (isBlank_head_word hword), hword⟩, ?_⟩
    dsimp only
    rw [dropWhile_isBlank hroom (isBlank_head_label hne hlabel), takeWhile_isSolid hlabel hbehind,
      if_neg (by simpa using hne)]

/-- Runs of blanks in front of what begins with none are the same where the texts are. -/
theorem append_blank_inj {blanks blanks' rest rest' : List Char}
    (h : blanks ++ rest = blanks' ++ rest') (hb : ∀ c ∈ blanks, isBlank c = true)
    (hb' : ∀ c ∈ blanks', isBlank c = true) (hr : ∀ c ∈ rest.head?, isBlank c = false)
    (hr' : ∀ c ∈ rest'.head?, isBlank c = false) : blanks = blanks' ∧ rest = rest' := by
  have hrest : rest = rest' := by
    rw [← dropWhile_isBlank hb hr, h, dropWhile_isBlank hb' hr']
  subst hrest
  exact ⟨List.append_cancel_right h, rfl⟩

/-- A mark is settled by where its number sign stands. -/
theorem LabelMark.eq_of_length {text : List Char} {m n : LabelMark text}
    (h : m.front.length = n.front.length) : m = n := by
  have hlength := m.is_word.length_eq.symm.trans n.is_word.length_eq
  obtain ⟨front, gap, word, room, label, behind, rfl, hgap, hword, hroom, hne, hlabel, hbehind⟩ := m
  obtain ⟨front', gap', word', room', label', behind', htext, hgap', hword', hroom', hne', hlabel',
    hbehind'⟩ := n
  obtain ⟨rfl, hsign⟩ := List.append_inj htext h
  obtain ⟨rfl, hafterGap⟩ := append_blank_inj (List.cons.inj hsign).2 hgap hgap'
    (isBlank_head_word hword) (isBlank_head_word hword')
  obtain ⟨rfl, hafterWord⟩ := List.append_inj hafterGap hlength
  obtain ⟨rfl, hafterRoom⟩ := append_blank_inj hafterWord hroom hroom'
    (isBlank_head_label hne hlabel) (isBlank_head_label hne' hlabel')
  obtain rfl : label = label' := by
    rw [← takeWhile_isSolid hlabel hbehind, hafterRoom, takeWhile_isSolid hlabel' hbehind']
  obtain rfl := List.append_cancel_left hafterRoom
  rfl

/-! ## The first mark -/

/-- The label that a comment gives is that of the first mark, and without a mark there is none. -/
theorem commentLabel?_cases (text : List Char) :
    (∃ m : LabelMark text, m.IsFirst ∧ commentLabel? text = some m.label) ∨
      IsEmpty (LabelMark text) ∧ commentLabel? text = none := by
  induction text with
  | nil => exact .inr ⟨⟨fun m => by simpa using m.text_eq⟩, rfl⟩
  | cons c rest ih =>
    -- what the rest gives is what the whole text gives, unless a mark stands right in front
    have hrest : commentLabel? (c :: rest) = commentLabel? rest →
        (∀ m : LabelMark (c :: rest), m.front ≠ []) →
        (∃ m : LabelMark (c :: rest), m.IsFirst ∧ commentLabel? (c :: rest) = some m.label) ∨
          IsEmpty (LabelMark (c :: rest)) ∧ commentLabel? (c :: rest) = none := by
      intro heq hnone
      rw [heq]
      rcases ih with ⟨m, hfirst, hlabel⟩ | ⟨hempty, hlabel⟩
      · exact .inl ⟨m.cons c, LabelMark.isFirst_cons hfirst hnone, hlabel⟩
      · refine .inr ⟨⟨fun m => ?_⟩, hlabel⟩
        obtain ⟨n, -, -⟩ := m.exists_tail (hnone m)
        exact hempty.false n
    by_cases hc : c = '#'
    · subst hc
      cases hbehind : labelBehind rest with
      | some label =>
        obtain ⟨m, hfront, rfl⟩ := labelBehind_eq_some_iff.mp hbehind
        refine .inl ⟨m, fun other => ?_, ?_⟩
        · rw [hfront]
          exact Nat.zero_le _
        · rw [commentLabel?, if_pos rfl, hbehind]
      | none =>
        refine hrest ?_ fun m hfront => ?_
        · rw [commentLabel?, if_pos rfl, hbehind]
        · rw [labelBehind_eq_some_iff.mpr ⟨m, hfront, rfl⟩] at hbehind
          cases hbehind
    · refine hrest ?_ fun m hfront => ?_
      · rw [commentLabel?, if_neg hc]
      · have htext := m.text_eq
        rw [hfront] at htext
        exact hc (List.cons.inj htext).1

/-! ## The name of the file -/

/-- A path with its last component split: the stem runs up to the first point or hyphen. -/
structure NameParts (path : List Char) where
  folder : List Char
  stem : List Char
  rest : List Char
  path_eq : path = folder ++ (stem ++ rest)
  slash_folder : ∀ c ∈ folder.getLast?, c = '/' ∨ c = '\\'
  no_slash : ∀ c ∈ stem ++ rest, c ≠ '/' ∧ c ≠ '\\'
  is_stem : ∀ c ∈ stem, c ≠ '.' ∧ c ≠ '-'
  ends_stem : ∀ c ∈ rest.head?, c = '.' ∨ c = '-'

/-- The label that the parts of a path give. -/
def NameParts.label {path : List Char} (parts : NameParts path) : String :=
  if parts.stem = [] then unknownLabel else String.ofList parts.stem

theorem exists_nameParts (path : List Char) :
    ∃ parts : NameParts path, parts.stem = fileLabel path := by
  let isPart : Char → Bool := fun c => c != '/' && c != '\\'
  let isStem : Char → Bool := fun c => c != '.' && c != '-'
  have hsplit : path = (path.reverse.dropWhile isPart).reverse ++ lastComponent path := by
    rw [lastComponent, ← List.reverse_append, List.takeWhile_append_dropWhile, List.reverse_reverse]
  have hname : lastComponent path =
      (lastComponent path).takeWhile isStem ++ (lastComponent path).dropWhile isStem :=
    List.takeWhile_append_dropWhile.symm
  refine ⟨{
    folder := (path.reverse.dropWhile isPart).reverse
    stem := fileLabel path
    rest := (lastComponent path).dropWhile isStem
    path_eq := by rw [fileLabel, ← hname, ← hsplit]
    slash_folder := ?_
    no_slash := ?_
    is_stem := fun c hc => by simpa using List.mem_takeWhile_imp hc
    ends_stem := ?_ }, rfl⟩
  · intro c hc
    have h := List.head?_dropWhile_not isPart path.reverse
    rw [List.getLast?_reverse, Option.mem_def] at hc
    rw [hc] at h
    grind
  · intro c hc
    rw [fileLabel, ← hname, lastComponent, List.mem_reverse] at hc
    simpa using List.mem_takeWhile_imp hc
  · intro c hc
    have h := List.head?_dropWhile_not isStem (lastComponent path)
    rw [Option.mem_def.mp hc] at h
    grind

theorem NameParts.label_ne {path : List Char} (parts : NameParts path) : parts.label ≠ "" := by
  rw [label]
  split
  · decide
  · rename_i hne
    intro h
    exact hne (by simpa using congrArg String.toList h)

/-- No part of the empty path is a label. -/
theorem label_nameParts_nil (parts : NameParts []) : parts.label = unknownLabel := by
  have hpath := parts.path_eq
  rw [eq_comm, List.append_eq_nil_iff, List.append_eq_nil_iff] at hpath
  rw [NameParts.label, if_pos hpath.2.1]

/-- A name of one letter is its own label. -/
theorem label_nameParts_letter (parts : NameParts ['a']) : parts.label = "a" := by
  obtain ⟨folder, stem, rest, hpath, hfolder, -, -, hrest⟩ := parts
  have hnil : folder = [] := by
    rcases List.eq_nil_or_concat folder with h | ⟨front, c, rfl⟩
    · exact h
    · have hc : c ∈ ['a'] := by
        rw [hpath]
        simp
      rw [List.mem_singleton.mp hc] at hfolder
      exact absurd (hfolder 'a' (by simp)) (by decide)
  subst hnil
  cases stem with
  | nil =>
    rw [List.nil_append, List.nil_append] at hpath
    rw [← hpath] at hrest
    exact absurd (hrest 'a' rfl) (by decide)
  | cons c stem =>
    rw [List.nil_append, List.cons_append, List.cons.injEq, eq_comm (a := []),
      List.append_eq_nil_iff] at hpath
    obtain ⟨rfl, rfl, -⟩ := hpath
    rfl

/-! ## The label -/

/-- `LineLabel source identifier label`: the label is what the lines of a source say it is. The
first mark on one line gives it, and without one the name of the file. -/
def LineLabel (source identifier label : String) : Prop :=
  (∃ m : LabelMark source.toList, m.IsFirstOnLine ∧ label = String.ofList m.label) ∨
    (∀ m : LabelMark source.toList, ¬ m.OnOneLine) ∧
      ∃ parts : NameParts identifier.toList, label = parts.label

/-- The first mark gives the label, and without a mark the name of the file. -/
theorem label_cases (source identifier : String) :
    (∃ m : LabelMark source.toList, m.IsFirst ∧
      label source identifier = String.ofList m.label) ∨
    IsEmpty (LabelMark source.toList) ∧
      ∃ parts : NameParts identifier.toList, label source identifier = parts.label := by
  rcases commentLabel?_cases source.toList with ⟨m, hfirst, hm⟩ | ⟨hempty, hnone⟩
  · exact .inl ⟨m, hfirst, by rw [label, hm]⟩
  · obtain ⟨parts, hparts⟩ := exists_nameParts identifier.toList
    refine .inr ⟨hempty, parts, ?_⟩
    rw [label, hnone, NameParts.label, hparts]
    simp only [List.isEmpty_iff]

/-- A schema has a label that is not empty, and the first mark gives it, or the name of the file.
Whatever the file is called, the label is the one that the lines give just if the first mark stands
on one line or the first one that does has the same label. -/
theorem label_eq_lineLabel_iff (source : String) :
    (∀ identifier, label source identifier ≠ "" ∧
      ((∃ m : LabelMark source.toList, m.IsFirst ∧
          label source identifier = String.ofList m.label) ∨
        IsEmpty (LabelMark source.toList) ∧
          ∃ parts : NameParts identifier.toList, label source identifier = parts.label)) ∧
    ((∀ identifier, LineLabel source identifier (label source identifier)) ↔
      ∀ m : LabelMark source.toList, m.IsFirst →
        m.OnOneLine ∨ ∃ n : LabelMark source.toList, n.IsFirstOnLine ∧ n.label = m.label) := by
  refine ⟨fun identifier => ⟨?_, label_cases source identifier⟩, fun h m hfirst => ?_, ?_⟩
  · rcases label_cases source identifier with ⟨m, -, hm⟩ | ⟨-, parts, hparts⟩
    · rw [hm]
      intro he
      exact m.label_ne (by simpa using congrArg String.toList he)
    · rw [hparts]
      exact parts.label_ne
  · -- without a mark on one line two files of different names would have the same label
    have hlabel : ∀ identifier, label source identifier = String.ofList m.label := by
      intro identifier
      rcases label_cases source identifier with ⟨n, hn, he⟩ | ⟨hempty, -⟩
      · rw [he, LabelMark.eq_of_length (Nat.le_antisymm (hn m) (hfirst n))]
      · exact (hempty.false m).elim
    have hline : ∀ identifier, LineLabel source identifier (String.ofList m.label) :=
      fun identifier => hlabel identifier ▸ h identifier
    rcases hline "" with ⟨n, hn, he⟩ | ⟨hnone, parts, he⟩
    · exact .inr ⟨n, hn, (String.ofList_injective he).symm⟩
    · rcases hline "a" with ⟨n, hn, -⟩ | ⟨-, parts', he'⟩
      · exact absurd hn.1 (hnone n)
      · rw [label_nameParts_nil parts] at he
        rw [label_nameParts_letter parts', he] at he'
        exact absurd he' (by decide)
  · intro h identifier
    rcases label_cases source identifier with ⟨m, hfirst, hm⟩ | ⟨hempty, hparts⟩
    · rcases h m hfirst with hline | ⟨n, hn, hlabel⟩
      · exact .inl ⟨m, ⟨hline, fun other _ => hfirst other⟩, hm⟩
      · exact .inl ⟨n, hn, hlabel ▸ hm⟩
    · exact .inr ⟨fun m => (hempty.false m).elim, hparts⟩

/-- The only mark in a text in which the marker stands alone on its line. -/
def emptyMarker : LabelMark "# Subgraph:\ntype A".toList where
  front := []
  gap := [' ']
  word := "Subgraph:".toList
  room := ['\n']
  label := "type".toList
  behind := " A".toList
  text_eq := by decide
  blank_gap := List.forall_mem_singleton.mpr (by decide)
  is_word := by decide
  blank_room := List.forall_mem_singleton.mpr (by decide)
  label_ne := by decide
  solid_label := List.all_eq_true.mp (by decide)
  blank_behind := by rintro _ ⟨⟩; decide

/-- Behind a marker that stands alone on its line the next line begins with the label. -/
theorem label_of_empty_marker :
    label "# Subgraph:\ntype A" "a" = "type" ∧
      ¬ LineLabel "# Subgraph:\ntype A" "a" (label "# Subgraph:\ntype A" "a") := by
  have hlabel : label "# Subgraph:\ntype A" "a" = "type" := by decide
  -- the only number sign stands at the front, so that there is no other mark
  have hmark : ∀ m : LabelMark "# Subgraph:\ntype A".toList, m = emptyMarker := by
    intro m
    have htext := m.text_eq
    cases hfront : m.front with
    | nil => exact LabelMark.eq_of_length (congrArg List.length hfront)
    | cons c front =>
      rw [hfront] at htext
      have hmem : '#' ∈ " Subgraph:\ntype A".toList := by
        rw [show " Subgraph:\ntype A".toList = _ from (List.cons.inj htext).2]
        simp
      exact absurd hmem (by decide)
  have hline : ∀ m : LabelMark "# Subgraph:\ntype A".toList, ¬ m.OnOneLine := by
    intro m hm
    rw [hmark m] at hm
    exact absurd (hm '\n' (by decide)) (by decide)
  rw [hlabel]
  refine ⟨rfl, ?_⟩
  rintro (⟨m, hm, -⟩ | ⟨-, parts, hparts⟩)
  · exact hline m hm.1
  · rw [label_nameParts_letter parts] at hparts
    exact absurd hparts (by decide)

end FederationGraph.Schema
