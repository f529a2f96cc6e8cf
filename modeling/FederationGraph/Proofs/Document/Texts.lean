import FederationGraph.Proofs.Document.Division
import FederationGraph.Proofs.Document.Joined
import FederationGraph.Proofs.Schema.Listing

/-!
# Texts in a row

A text is read as a document just if it has no lexical fault and its lexemes are divided into
the definitions of that document. Texts with a line end behind each have the lexemes of all of
them. So texts of which each is read by itself are read together as their documents in a row,
unless one of them ends with a definition that leaves out its body and the next begins with a
brace.
-/
namespace FederationGraph.Document

open Reader

variable {lexemes rest : List Lexeme} {d : Definition} {document : Document} {text : String}

/-! ## Runs over definitions -/

theorem lexeme_eq_finish_iff {i : Input} (hi : i.Whole) (hl : i.lexemes = rest ++ [.finish]) :
    i.front.lexeme = .finish ↔ rest = [] := by
  constructor
  · intro hf
    have hend := hi.atEnd hf
    rw [Input.lexemes, hend.behind, List.map_singleton, hend.front] at hl
    exact List.append_left_eq_self.mp hl.symm
  · rintro rfl
    exact (List.cons.inj hl).1

theorem divides_of_run {fuel : Nat} {i j : Input} (hi : i.Whole)
    (hl : i.lexemes = lexemes ++ [.finish]) (hrun : (definitions fuel).run i = .ok (document, j)) :
    Divides lexemes document := by
  induction fuel generalizing i lexemes document with
  | zero => cases hrun
  | succ fuel ih =>
    obtain ⟨d, mid, hfirst, hrun⟩ := exists_of_run_bind hrun
    obtain ⟨rest, hmid, hrest, hdefines⟩ := exists_defines hi hl hfirst
    rw [run_front] at hrun
    split at hrun
    · rename_i hfinish
      cases hrun
      obtain rfl := (lexeme_eq_finish_iff hmid hrest).mp hfinish
      exact .last hdefines
    · rename_i hfinish
      obtain ⟨others, last, hothers, hrun⟩ := exists_of_run_bind hrun
      cases hrun
      have hne : rest ≠ [] := fun hnil => hfinish ((lexeme_eq_finish_iff hmid hrest).mpr hnil)
      exact .more hdefines hne (ih hmid hrest hothers)

theorem run_of_divides (h : Divides lexemes document) {fuel : Nat} (hfuel : document.length ≤ fuel)
    {i : Input} (hi : i.Whole) (hl : i.lexemes = lexemes ++ [.finish]) :
    ∃ j, (definitions fuel).run i = .ok (document, j) := by
  induction h generalizing fuel i with
  | last hlast =>
    obtain ⟨fuel, rfl⟩ := Nat.exists_eq_succ_of_ne_zero (Nat.ne_of_gt hfuel)
    obtain ⟨j, hrun, hj, hjl⟩ := hlast.run hi hl
    refine ⟨j, ?_⟩
    rw [definitions, run_bind_of_eq_ok hrun, run_front,
      if_pos ((lexeme_eq_finish_iff hj hjl).mpr rfl)]
    rfl
  | more hmore hne _ ih =>
    obtain ⟨fuel, rfl⟩ := Nat.exists_eq_succ_of_ne_zero (Nat.ne_of_gt (Nat.zero_lt_of_lt hfuel))
    obtain ⟨mid, hrun, hmid, hmidl⟩ := hmore.run hi hl
    obtain ⟨j, hothers⟩ := ih (Nat.le_of_succ_le_succ hfuel) hmid hmidl
    refine ⟨j, ?_⟩
    rw [definitions, run_bind_of_eq_ok hrun, run_front,
      if_neg fun hf => hne ((lexeme_eq_finish_iff hmid hmidl).mp hf), run_bind_of_eq_ok hothers]
    rfl

/-- Lexemes in front of a lexical fault are read as no document. -/
theorem run_definitions_of_fault {fuel : Nat} {i j : Input} (hi : Broken 1 i i) :
    (definitions fuel).run i ≠ .ok (document, j) := by
  induction fuel generalizing i j document with
  | zero => exact nofun
  | succ fuel ih =>
    intro hrun
    obtain ⟨d, mid, hfirst, hrun⟩ := exists_of_run_bind hrun
    obtain ⟨opening, reader, hbegins, hopening⟩ := exists_opening hfirst
    rw [hopening.run_definition hbegins] at hfirst
    obtain hfalse | ⟨mid', hsame, hmid⟩ := (hopening.inner likens_broken 0).keeps hi id hfirst
    · exact hfalse
    cases hfirst.symm.trans hsame
    have hne : mid.front.lexeme ≠ .finish := fun hf => hmid.2.2 (hf ▸ List.mem_cons_self)
    rw [run_front, if_neg hne] at hrun
    obtain ⟨others, last, hothers, -⟩ := exists_of_run_bind hrun
    exact ih hmid hothers

/-! ## Texts read -/

/-- The lexemes of a text. -/
def lexemesOf (text : String) : List Lexeme := ((scan text).tokens.map Token.lexeme).dropLast

theorem finish_not_mem_of_fault {position : Nat} {text : List Char}
    (h : (scanFrom position text).fault?.isSome = true) :
    .finish ∉ (scanFrom position text).tokens.map Token.lexeme := by
  fun_induction scanFrom position text with
  | case1 => cases h
  | case2 position c rest hc ih => exact ih h
  | case3 position rest comment hc ih => exact ih h
  | case4 => exact List.not_mem_nil
  | case5 position c rest hc hcomment lexeme width hscan behind ih =>
    rw [List.map_cons]
    rintro (_ | ⟨_, hmem⟩)
    · exact scanToken_ne_finish _ _ _ hscan
    · exact ih h hmem

theorem scan_of_lexed (h : Lexed text.toList lexemes) :
    (scan text).fault? = none ∧ lexemesOf text = lexemes := by
  obtain ⟨tokens, finish, rfl, hscan⟩ := h.scans 0
  refine ⟨by rw [scan, hscan], ?_⟩
  rw [lexemesOf, scan, hscan, List.map_append, List.map_singleton, List.dropLast_concat]

/-- The input that a text without a lexical fault is read from. -/
theorem exists_whole_of_scan (h : (scan text).fault? = none) :
    ∃ i : Input, scan text = ⟨i.front :: i.behind, i.fault?⟩ ∧ i.Whole ∧
      i.lexemes = lexemesOf text ++ [.finish] := by
  obtain ⟨lexemes, hlexed⟩ := exists_lexed h
  obtain ⟨-, hl⟩ := scan_of_lexed hlexed
  obtain ⟨tokens, finish, hlexemes, hscan⟩ := hlexed.scans 0
  obtain ⟨front, behind, hcons⟩ : ∃ front behind, tokens ++ [⟨.finish, finish⟩] = front :: behind :=
    List.exists_cons_of_ne_nil (by simp)
  let i : Input := ⟨front, behind, none⟩
  have hi : i.lexemes = lexemes ++ [.finish] := by
    rw [Input.lexemes, ← hcons, List.map_append, hlexemes, List.map_singleton]
  exact ⟨i, by rw [scan, hscan, hcons], ⟨rfl, lexemes, hlexed.finish_not_mem, hi⟩, by rw [hi, hl]⟩

/-- A text with a lexical fault is no document. -/
theorem read_ne_ok_of_fault (h : (scan text).fault?.isSome = true) : read text ≠ .ok document := by
  intro hread
  have hfinish := finish_not_mem_of_fault h
  rw [read] at hread
  split at hread
  · rename_i front behind fault? hscan
    rw [scan] at hscan h
    rw [hscan] at h hfinish
    obtain ⟨⟨document, j⟩, hrun, rfl⟩ := exists_of_map_eq_ok hread
    exact run_definitions_of_fault (i := ⟨front, behind, fault?⟩) ⟨rfl, h, hfinish⟩ hrun
  · cases hread
  · rename_i hscan
    rw [hscan] at h
    cases h

/-- A text is read as the definitions that its lexemes are divided into. -/
theorem read_eq_ok_iff :
    read text = .ok document ↔ (scan text).fault? = none ∧ Divides (lexemesOf text) document := by
  cases hfault : (scan text).fault? with
  | some fault =>
    have hnot : read text ≠ .ok document := read_ne_ok_of_fault (by rw [hfault]; rfl)
    exact ⟨fun hread => absurd hread hnot, fun h => by cases h.1⟩
  | none =>
    obtain ⟨i, hscan, hi, hl⟩ := exists_whole_of_scan hfault
    rw [read, hscan]
    constructor
    · intro hread
      obtain ⟨⟨document, j⟩, hrun, rfl⟩ := exists_of_map_eq_ok hread
      exact ⟨rfl, divides_of_run hi hl hrun⟩
    · rintro ⟨-, hdivides⟩
      have hlength := congrArg List.length hl
      simp only [Input.lexemes, List.map_cons, List.length_cons, List.length_map,
        List.length_append, List.length_nil] at hlength
      have hfuel : document.length ≤ i.behind.length + 1 := by
        have hle := hdivides.length_le
        omega
      obtain ⟨j, hrun⟩ := run_of_divides hdivides hfuel hi hl
      dsimp only
      rw [hrun]
      rfl

/-- Texts that are read as documents are together read as these documents in a row, just if they
are parted. -/
theorem read_concatenated_iff {texts : List String} {documents : List Document}
    (h : List.Forall₂ (fun text document => read text = .ok document) texts documents)
    (hne : texts ≠ []) :
    read (Schema.concatenated texts) = .ok documents.flatten ↔ Parted (texts.map lexemesOf) := by
  obtain ⟨hscans, hdivides⟩ := (List.forall₂_and_left _ _).mp
    (h.imp fun text document hread => read_eq_ok_iff.mp hread)
  have hlexed : Lexed (Schema.concatenated texts).toList (texts.map lexemesOf).flatten := by
    rw [Schema.toList_concatenated]
    refine Lexed.flatten fun text htext => ?_
    obtain ⟨lexemes, hlexed⟩ := exists_lexed (hscans text htext)
    rwa [(scan_of_lexed hlexed).2]
  obtain ⟨hfault, hl⟩ := scan_of_lexed hlexed
  rw [read_eq_ok_iff, hl, and_iff_right hfault,
    divides_flatten_iff (List.forall₂_map_left_iff.mpr hdivides) (by simpa using hne)]

end FederationGraph.Document
