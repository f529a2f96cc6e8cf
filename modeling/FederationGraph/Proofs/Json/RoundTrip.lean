import FederationGraph.Proofs.Json.Number
import FederationGraph.Proofs.Text.Quoted
import FederationGraph.Proofs.Value
import Mathlib.Data.List.DropRight

/-!
# Values read back from JSON

A reader takes a written value off the front of a text exactly when it takes
lists and objects of that depth and integers of that length; otherwise it refuses
the text. The induction is on the value. It is carried by a statement about the
value with anything behind it that ends a value, for as much fuel as the written
value has characters.
-/
namespace FederationGraph.Json

open Text Binary64

/-- A style whose texts are read back: what is written as itself needs no escape, and no binary64
number is laid out wider than an integer may be long. -/
structure Style.Readable (style : Style) : Prop where
  plain : ∀ c, style.plain c = true → ' ' ≤ c
  narrow : style.numbers.firstScientific.toNat < Decimal.mostDigits

theorem readable_stored : stored.Readable where
  plain c h := by simpa [stored, isPlainText] using h
  narrow := by decide

theorem readable_listed : listed.Readable where
  plain c h := by
    simp only [listed, isPlainAscii, Bool.and_eq_true, decide_eq_true_eq] at h
    exact h.1
  narrow := by decide

/-- Whether a value is within the bounds of a reader. -/
structure Fits (strict : Bool) (depth : Nat) (v : Value) : Prop where
  depth_le : v.depth ≤ depth
  short : ∀ n, .integer n ∈ v.parts → ¬ IsLong strict n

section Fits

variable {strict : Bool} {depth : Nat}

theorem fits_integer {n : Int} : Fits strict depth (.integer n) ↔ ¬ IsLong strict n :=
  ⟨fun h => h.short n (Value.self_mem_parts _), fun h => ⟨Nat.zero_le _, by simpa [Value.parts]⟩⟩

theorem fits_of_parts {v : Value} (hdepth : v.depth = 0) (hparts : v.parts = [v])
    (hn : ∀ n, v ≠ .integer n) : Fits strict depth v :=
  ⟨by omega, fun n h => by rw [hparts, List.mem_singleton] at h; exact absurd h.symm (hn n)⟩

theorem fits_list_zero {items : List Value} (h : items ≠ []) :
    ¬ Fits strict 0 (.list items) := by
  rintro ⟨hd, -⟩
  obtain ⟨item, rest, rfl⟩ := List.exists_cons_of_ne_nil h
  simp [Value.depth, Value.itemsDepth] at hd

theorem fits_list_succ {items : List Value} :
    Fits strict (depth + 1) (.list items) ↔ ∀ item ∈ items, Fits strict depth item := by
  constructor
  · rintro ⟨hd, hs⟩ item hitem
    rw [Value.depth, Value.itemsDepth_le_iff] at hd
    exact ⟨Nat.le_of_succ_le_succ (hd item hitem),
      fun n hn => hs n (Value.parts_subset_of_mem_list hitem hn)⟩
  · intro h
    refine ⟨?_, fun n hn => ?_⟩
    · rw [Value.depth, Value.itemsDepth_le_iff]
      exact fun item hitem => Nat.succ_le_succ (h item hitem).depth_le
    · rw [Value.parts_list, List.mem_cons] at hn
      obtain ⟨item, hitem, hn⟩ := List.mem_flatMap.mp (hn.resolve_left (by simp))
      exact (h item hitem).short n hn

theorem fits_object_zero {entries : Members} (h : entries ≠ []) :
    ¬ Fits strict 0 (.object entries) := by
  rintro ⟨hd, -⟩
  obtain ⟨entry, rest, rfl⟩ := List.exists_cons_of_ne_nil h
  simp [Value.depth, Value.entriesDepth] at hd

theorem fits_object_succ {entries : Members} :
    Fits strict (depth + 1) (.object entries) ↔ ∀ entry ∈ entries, Fits strict depth entry.2 := by
  constructor
  · rintro ⟨hd, hs⟩ entry hentry
    rw [Value.depth, Value.entriesDepth_le_iff] at hd
    exact ⟨Nat.le_of_succ_le_succ (hd entry hentry),
      fun n hn => hs n (Value.parts_subset_of_mem_object hentry hn)⟩
  · intro h
    refine ⟨?_, fun n hn => ?_⟩
    · rw [Value.depth, Value.entriesDepth_le_iff]
      exact fun entry hentry => Nat.succ_le_succ (h entry hentry).depth_le
    · rw [Value.parts_object, List.mem_cons] at hn
      obtain ⟨entry, hentry, hn⟩ := List.mem_flatMap.mp (hn.resolve_left (by simp))
      exact (h entry hentry).short n hn

end Fits

/-! ## Space -/

theorem skipSpace_cons {c : Char} (h : isSpace c = false) (text : List Char) :
    skipSpace (c :: text) = c :: text :=
  List.dropWhile_cons_of_neg (by simp [h])

theorem skipSpace_skipSpace (text : List Char) : skipSpace (skipSpace text) = skipSpace text :=
  List.dropWhile_idempotent isSpace text

theorem skipSpace_lineBreak (indent : Nat) (text : List Char) :
    skipSpace (lineBreak indent ++ text) = skipSpace text := by
  refine List.dropWhile_append_of_pos fun c hc => ?_
  rw [lineBreak, List.mem_cons, List.mem_replicate] at hc
  rcases hc with rfl | ⟨-, rfl⟩ <;> rfl

theorem closes_lineBreak (indent : Nat) (text : List Char) :
    Closes (lineBreak indent ++ text) := by
  simp [Closes, lineBreak]

section Reading

variable {strict : Bool} {fuel depth : Nat}

theorem readValue_congr {text other : List Char} (h : skipSpace text = skipSpace other) :
    readValue strict fuel depth text = readValue strict fuel depth other := by
  cases fuel with
  | zero => rfl
  | succ fuel => rw [readValue, readValue, h]

theorem readItems_congr {text other : List Char} (h : skipSpace text = skipSpace other) :
    readItems strict fuel depth text = readItems strict fuel depth other := by
  cases fuel with
  | zero => rfl
  | succ fuel => rw [readItems, readItems, readValue_congr h]

theorem readEntries_congr {text other : List Char} (h : skipSpace text = skipSpace other) :
    readEntries strict fuel depth text = readEntries strict fuel depth other := by
  cases fuel with
  | zero => rfl
  | succ fuel => rw [readEntries, readEntries, h]

end Reading

/-! ## The first character of a value -/

/-- Whether a character can stand at the front of a written value. -/
def Opens (c : Char) : Prop := isSpace c = false ∧ c ≠ ']' ∧ c ≠ '}'

theorem opens_digit {c : Char} (h : Decimal.isDigit c = true) : Opens c := by
  refine ⟨?_, ?_, ?_⟩
  · simp only [isSpace, Bool.or_eq_false_iff, beq_eq_false_iff_ne]
    refine ⟨⟨⟨?_, ?_⟩, ?_⟩, ?_⟩ <;> (rintro rfl; exact absurd h (by decide))
  all_goals (rintro rfl; exact absurd h (by decide))

theorem exists_opens_signed (negative : Bool) {whole : List Char} (hne : whole ≠ [])
    (hdigits : ∀ c ∈ whole, Decimal.isDigit c = true) (behind : List Char) :
    ∃ c more, (if negative then '-' :: (whole ++ behind) else whole ++ behind) = c :: more ∧
      Opens c := by
  obtain ⟨c, more, rfl⟩ := List.exists_cons_of_ne_nil hne
  cases negative
  · exact ⟨c, _, rfl, opens_digit (hdigits c List.mem_cons_self)⟩
  · exact ⟨'-', _, rfl, by decide, by decide, by decide⟩

theorem exists_opens_write (style : Style) (indent : Nat) {v : Value} (h : v.IsFinite) :
    ∃ c more, write style indent v = c :: more ∧ Opens c := by
  cases v with
  | null => exact ⟨_, _, rfl, by decide, by decide, by decide⟩
  | boolean b => cases b <;> exact ⟨_, _, rfl, by decide, by decide, by decide⟩
  | integer n =>
    have hsigned := exists_opens_signed (decide (n < 0)) (Decimal.digits_ne_nil n.natAbs)
      (fun _ => Decimal.isDigit_of_mem_digits) []
    simpa [write, Decimal.signedDigits] using hsigned
  | float x =>
    cases x with
    | finite x =>
      obtain ⟨whole, fraction, mark, htext, hparts, -⟩ :=
        exists_parts_magnitudeText style.numbers x
      have hsigned := exists_opens_signed x.negative hparts.nonempty hparts.digits
        (pointed fraction ++ mark)
      rw [write, Layout.text, String.toList_ofList, htext]
      exact hsigned
    | _ => exact absurd (h _ (Value.self_mem_parts _)) (by simp [isFinite])
  | text s => exact ⟨_, _, rfl, by decide, by decide, by decide⟩
  | list items => cases items <;> exact ⟨_, _, rfl, by decide, by decide, by decide⟩
  | object entries => cases entries <;> exact ⟨_, _, rfl, by decide, by decide, by decide⟩

/-! ## Reading what was written -/

theorem bind_eq_ok {ε α β : Type} {x : Except ε α} {f : α → Except ε β} {b : β} :
    x.bind f = .ok b ↔ ∃ a, x = .ok a ∧ f a = .ok b := by
  cases x <;> simp [Except.bind]

theorem map_eq_ok {ε α β : Type} {x : Except ε α} {f : α → β} {b : β} :
    x.map f = .ok b ↔ ∃ a, x = .ok a ∧ f a = b := by
  cases x <;> simp [Except.map]

/-- Whether a written value is taken off the front of a text by every reader whose bounds it is
within, and by no other. -/
def Returns (strict : Bool) (style : Style) (v : Value) : Prop :=
  ∀ fuel depth indent rest result, (write style indent v).length ≤ fuel → Closes rest →
    (readValue strict fuel depth (write style indent v ++ rest) = .ok result ↔
      Fits strict depth v ∧ result = (v, rest))

theorem readValue_number (strict : Bool) (fuel depth : Nat) {c : Char} (text : List Char)
    (h : Decimal.isDigit c = true ∨ c = '-') :
    readValue strict (fuel + 1) depth (c :: text) = readNumber strict (c :: text) := by
  have hspace : isSpace c = false := by
    rcases h with h | rfl
    · exact (opens_digit h).1
    · decide
  rw [readValue, skipSpace_cons hspace]
  split
  all_goals first
    | rfl
    | (rename_i heq
       obtain ⟨rfl, -⟩ := List.cons.inj heq
       rcases h with h | h <;> exact absurd h (by decide))

section Returns

variable {strict : Bool} {style : Style}

theorem returns_integer (n : Int) : Returns strict style (.integer n) := by
  intro fuel depth indent rest result hfuel hrest
  obtain ⟨c, more, htext, hc⟩ : ∃ c more, Decimal.signedDigits n = c :: more ∧
      (Decimal.isDigit c = true ∨ c = '-') := by
    obtain ⟨c, more, hdigits⟩ := List.exists_cons_of_ne_nil (Decimal.digits_ne_nil n.natAbs)
    rw [Decimal.signedDigits, hdigits]
    split
    · exact ⟨_, _, rfl, .inr rfl⟩
    · exact ⟨_, _, rfl, .inl (Decimal.isDigit_of_mem_digits (hdigits ▸ List.mem_cons_self))⟩
  rw [write] at hfuel ⊢
  obtain ⟨fuel, rfl⟩ : ∃ k, fuel = k + 1 := ⟨fuel - 1, by rw [htext] at hfuel; simp at hfuel; omega⟩
  rw [fits_integer, ← readNumber_signedDigits strict n hrest, htext]
  exact iff_of_eq (congrArg (· = _) (readValue_number strict fuel depth _ hc))

theorem returns_float (hstyle : style.Readable) {x : Binary64} (hx : x.isFinite = true) :
    Returns strict style (.float x) := by
  intro fuel depth indent rest result hfuel hrest
  obtain ⟨x, rfl⟩ : ∃ y, x = .finite y := by cases x <;> simp [isFinite] at hx ⊢
  have hfits : Fits strict depth (.float (.finite x)) := fits_of_parts rfl rfl (by simp)
  have hread := readNumber_finite strict hstyle.narrow x hrest
  obtain ⟨c, more, htext, hc⟩ : ∃ c more, (style.numbers.text (.finite x)).toList = c :: more ∧
      (Decimal.isDigit c = true ∨ c = '-') := by
    obtain ⟨whole, fraction, mark, htext, hparts, -⟩ := exists_parts_magnitudeText style.numbers x
    obtain ⟨c, more, hwhole⟩ := List.exists_cons_of_ne_nil hparts.nonempty
    rw [Layout.text, String.toList_ofList, htext]
    cases x.negative
    · rw [hwhole]
      exact ⟨_, _, rfl, .inl (hparts.digits c (hwhole ▸ List.mem_cons_self))⟩
    · exact ⟨_, _, rfl, .inr rfl⟩
  rw [write] at hfuel ⊢
  obtain ⟨fuel, rfl⟩ : ∃ k, fuel = k + 1 := ⟨fuel - 1, by rw [htext] at hfuel; simp at hfuel; omega⟩
  rw [htext, List.cons_append, readValue_number strict fuel depth _ hc, ← List.cons_append, ← htext,
    hread]
  simp [hfits, eq_comm]

theorem returns_text (hstyle : style.Readable) (s : String) : Returns strict style (.text s) := by
  intro fuel depth indent rest result hfuel hrest
  have hfits : Fits strict depth (.text s) := fits_of_parts rfl rfl (by simp)
  rw [write, quoteDouble] at hfuel ⊢
  obtain ⟨fuel, rfl⟩ : ∃ k, fuel = k + 1 := ⟨fuel - 1, by simp at hfuel; omega⟩
  rw [List.cons_append, List.append_assoc, readValue, skipSpace_cons (by decide)]
  simp only [List.singleton_append, readQuoted_quoted hstyle.plain, orMalformed]
  simp [hfits, eq_comm, Except.map]

/-- The items of a list are read one by one, each with as much depth as the others. -/
theorem readItems_write {item : Value} {items : List Value}
    (h : ∀ w ∈ item :: items, Returns strict style w) (fuel depth indent outer : Nat)
    (rest : List Char) (result : List Value × List Char)
    (hfuel : (write style indent item).length + (writeItems style indent items).length < fuel) :
    readItems strict fuel depth (write style indent item ++
        (writeItems style indent items ++ (lineBreak outer ++ ']' :: rest))) = .ok result ↔
      (∀ w ∈ item :: items, Fits strict depth w) ∧ result = (item :: items, rest) := by
  induction items generalizing item fuel result with
  | nil =>
    obtain ⟨fuel, rfl⟩ : ∃ k, fuel = k + 1 := ⟨fuel - 1, by omega⟩
    have hitem := fun a => h item List.mem_cons_self fuel depth indent
      (lineBreak outer ++ ']' :: rest) a (by omega) (closes_lineBreak _ _)
    have hclose : skipSpace (lineBreak outer ++ ']' :: rest) = ']' :: rest := by
      rw [skipSpace_lineBreak, skipSpace_cons (by decide)]
    rw [writeItems, List.nil_append, readItems, bind_eq_ok]
    simp only [hitem, and_assoc, exists_and_left, exists_eq_left, hclose]
    simp [eq_comm]
  | cons next items ih =>
    obtain ⟨fuel, rfl⟩ : ∃ k, fuel = k + 1 := ⟨fuel - 1, by omega⟩
    have hcomma : writeItems style indent (next :: items) ++ (lineBreak outer ++ ']' :: rest) =
        ',' :: (lineBreak indent ++ (write style indent next ++
          (writeItems style indent items ++ (lineBreak outer ++ ']' :: rest)))) := by
      simp only [writeItems, List.cons_append, List.append_assoc]
    have hlength : (writeItems style indent (next :: items)).length =
        (lineBreak indent).length + (write style indent next).length +
          (writeItems style indent items).length + 1 := by
      simp only [writeItems, List.length_cons, List.length_append]
    have hitem := fun a => h item List.mem_cons_self fuel depth indent
      (writeItems style indent (next :: items) ++ (lineBreak outer ++ ']' :: rest)) a (by omega)
      (by rw [hcomma]; simp [Closes])
    have hnext : ∀ w ∈ next :: items, Returns strict style w :=
      fun w hw => h w (List.mem_cons_of_mem _ hw)
    have hrest := fun a => ih hnext fuel a (by omega)
    rw [readItems, bind_eq_ok]
    simp only [hitem, and_assoc, exists_and_left, exists_eq_left]
    rw [hcomma, skipSpace_cons (by decide)]
    simp only [map_eq_ok, readItems_congr (skipSpace_lineBreak _ _), hrest, List.forall_mem_cons,
      and_assoc, exists_and_left, exists_eq_left, eq_comm (b := result)]

theorem readEntries_writeKey (hstyle : style.Readable) (fuel depth : Nat) (key : String)
    (text : List Char) :
    readEntries strict (fuel + 1) depth (writeKey style key ++ text) =
      (readValue strict fuel depth text).bind fun (value, rest) =>
        match skipSpace rest with
        | ',' :: rest =>
          (readEntries strict fuel depth rest).map fun (entries, rest) =>
            ((key, value) :: entries, rest)
        | '}' :: rest => .ok ([(key, value)], rest)
        | _ => .error .malformed := by
  obtain ⟨letters, rfl⟩ : ∃ letters, key = String.ofList letters := ⟨key.toList, by simp⟩
  have hkey : writeKey style (String.ofList letters) ++ text =
      '\x22' :: (letters.flatMap (escapeDouble style.plain) ++ '\x22' :: ':' :: ' ' :: text) := by
    simp [writeKey, quoteDouble]
  have hblank : readValue strict fuel depth (' ' :: text) = readValue strict fuel depth text :=
    readValue_congr (List.dropWhile_cons_of_pos rfl)
  rw [hkey, ← hblank, readEntries, skipSpace_cons (by decide)]
  simp only [readQuoted_quoted hstyle.plain]
  rfl

/-- The entries of an object are read one by one, each with as much depth as the others. -/
theorem readEntries_write (hstyle : style.Readable) {key : String} {value : Value}
    {entries : Members} (h : ∀ entry ∈ (key, value) :: entries, Returns strict style entry.2)
    (fuel depth indent outer : Nat) (rest : List Char) (result : Members × List Char)
    (hfuel :
      (write style indent value).length + (writeEntries style indent entries).length < fuel) :
    readEntries strict fuel depth (writeKey style key ++ (write style indent value ++
        (writeEntries style indent entries ++ (lineBreak outer ++ '}' :: rest)))) = .ok result ↔
      (∀ entry ∈ (key, value) :: entries, Fits strict depth entry.2) ∧
        result = ((key, value) :: entries, rest) := by
  induction entries generalizing key value fuel result with
  | nil =>
    obtain ⟨fuel, rfl⟩ : ∃ k, fuel = k + 1 := ⟨fuel - 1, by omega⟩
    have hvalue := fun a => h (key, value) List.mem_cons_self fuel depth indent
      (lineBreak outer ++ '}' :: rest) a (by dsimp only; omega) (closes_lineBreak _ _)
    have hclose : skipSpace (lineBreak outer ++ '}' :: rest) = '}' :: rest := by
      rw [skipSpace_lineBreak, skipSpace_cons (by decide)]
    rw [writeEntries, List.nil_append, readEntries_writeKey hstyle, bind_eq_ok]
    simp only [hvalue, and_assoc, exists_and_left, exists_eq_left, hclose]
    simp [eq_comm]
  | cons next entries ih =>
    obtain ⟨fuel, rfl⟩ : ∃ k, fuel = k + 1 := ⟨fuel - 1, by omega⟩
    have hcomma : writeEntries style indent (next :: entries) ++ (lineBreak outer ++ '}' :: rest) =
        ',' :: (lineBreak indent ++ (writeKey style next.1 ++ (write style indent next.2 ++
          (writeEntries style indent entries ++ (lineBreak outer ++ '}' :: rest))))) := by
      simp only [writeEntries, List.cons_append, List.append_assoc]
    have hlength : (writeEntries style indent (next :: entries)).length =
        (lineBreak indent).length + (writeKey style next.1).length +
          (write style indent next.2).length + (writeEntries style indent entries).length + 1 := by
      simp only [writeEntries, List.length_cons, List.length_append]
    have hvalue := fun a => h (key, value) List.mem_cons_self fuel depth indent
      (writeEntries style indent (next :: entries) ++ (lineBreak outer ++ '}' :: rest)) a
      (by dsimp only; omega) (by rw [hcomma]; simp [Closes])
    have hnext : ∀ entry ∈ (next.1, next.2) :: entries, Returns strict style entry.2 :=
      fun entry hentry => h entry (List.mem_cons_of_mem _ hentry)
    have hrest := fun a => ih hnext fuel a (by omega)
    rw [readEntries_writeKey hstyle, bind_eq_ok]
    simp only [hvalue, and_assoc, exists_and_left, exists_eq_left]
    rw [hcomma, skipSpace_cons (by decide)]
    simp only [map_eq_ok, readEntries_congr (skipSpace_lineBreak _ _), hrest, List.forall_mem_cons,
      and_assoc, exists_and_left, exists_eq_left, eq_comm (b := result)]

/-- The items behind an opening bracket, unless nothing may be nested any more. -/
theorem readValue_bracket (fuel depth : Nat) {text more : List Char} {c : Char}
    (htext : skipSpace text = c :: more) (hc : c ≠ ']') {result : Value × List Char} :
    readValue strict (fuel + 1) depth ('[' :: text) = .ok result ↔
      ∃ inner items rest, depth = inner + 1 ∧
        readItems strict fuel inner text = .ok (items, rest) ∧ (.list items, rest) = result := by
  have hskip : skipSpace text = skipSpace (c :: more) := by rw [← htext, skipSpace_skipSpace]
  rw [readValue, skipSpace_cons (by decide)]
  simp only [htext]
  split
  · rename_i heq
    exact absurd (List.cons.inj heq).1 hc
  · simp
  · rename_i inner _
    rw [map_eq_ok, ← readItems_congr hskip]
    simp

/-- The entries behind an opening brace, unless nothing may be nested any more. -/
theorem readValue_brace (fuel depth : Nat) {text more : List Char} {c : Char}
    (htext : skipSpace text = c :: more) (hc : c ≠ '}') {result : Value × List Char} :
    readValue strict (fuel + 1) depth ('{' :: text) = .ok result ↔
      ∃ inner entries rest, depth = inner + 1 ∧
        readEntries strict fuel inner text = .ok (entries, rest) ∧
        (.object entries, rest) = result := by
  have hskip : skipSpace text = skipSpace (c :: more) := by rw [← htext, skipSpace_skipSpace]
  rw [readValue, skipSpace_cons (by decide)]
  simp only [htext]
  split
  · rename_i heq
    exact absurd (List.cons.inj heq).1 hc
  · simp
  · rename_i inner _
    rw [map_eq_ok, ← readEntries_congr hskip]
    simp

theorem returns_list {items : List Value} (hfinite : (Value.list items).IsFinite)
    (h : ∀ item ∈ items, Returns strict style item) : Returns strict style (.list items) := by
  intro fuel depth indent rest result hfuel hrest
  obtain ⟨fuel, rfl⟩ : ∃ k, fuel = k + 1 :=
    ⟨fuel - 1, by cases items <;> simp [write] at hfuel <;> omega⟩
  cases items with
  | nil =>
    have hfits : Fits strict depth (.list []) := fits_of_parts rfl rfl (by simp)
    simp [write, readValue, skipSpace_cons, isSpace, hfits, eq_comm]
  | cons item items =>
    obtain ⟨c, more, hwrite, hopens⟩ := exists_opens_write style (indent + 2)
      (fun x hx => hfinite x (Value.parts_subset_of_mem_list List.mem_cons_self hx) : item.IsFinite)
    have htext : write style indent (.list (item :: items)) ++ rest =
        '[' :: (lineBreak (indent + 2) ++ (write style (indent + 2) item ++
          (writeItems style (indent + 2) items ++ (lineBreak indent ++ ']' :: rest)))) := by
      simp only [write, List.cons_append, List.append_assoc, List.nil_append]
    have hlength : (write style (indent + 2) item).length +
        (writeItems style (indent + 2) items).length < fuel := by
      simp only [write, lineBreak, List.length_cons, List.length_append] at hfuel
      omega
    have hskip : ∀ text, skipSpace (lineBreak (indent + 2) ++ (write style (indent + 2) item ++
        text)) = c :: (more ++ text) := by
      intro text
      rw [skipSpace_lineBreak, hwrite, List.cons_append, skipSpace_cons hopens.1]
    rw [htext, readValue_bracket fuel depth (hskip _) hopens.2.1]
    simp only [readItems_congr (skipSpace_lineBreak _ _),
      readItems_write h fuel _ (indent + 2) indent rest _ hlength]
    cases depth with
    | zero => simp [fits_list_zero]
    | succ depth =>
      rw [fits_list_succ]
      simp [eq_comm]

theorem returns_object (hstyle : style.Readable) {entries : Members}
    (h : ∀ entry ∈ entries, Returns strict style entry.2) :
    Returns strict style (.object entries) := by
  intro fuel depth indent rest result hfuel hrest
  obtain ⟨fuel, rfl⟩ : ∃ k, fuel = k + 1 :=
    ⟨fuel - 1, by cases entries <;> simp [write] at hfuel <;> omega⟩
  cases entries with
  | nil =>
    have hfits : Fits strict depth (.object []) := fits_of_parts rfl rfl (by simp)
    simp [write, readValue, skipSpace_cons, isSpace, hfits, eq_comm]
  | cons entry entries =>
    obtain ⟨key, value⟩ := entry
    have htext : write style indent (.object ((key, value) :: entries)) ++ rest =
        '{' :: (lineBreak (indent + 2) ++ (writeKey style key ++ (write style (indent + 2) value ++
          (writeEntries style (indent + 2) entries ++ (lineBreak indent ++ '}' :: rest))))) := by
      simp only [write, List.cons_append, List.append_assoc, List.nil_append]
    have hlength : (write style (indent + 2) value).length +
        (writeEntries style (indent + 2) entries).length < fuel := by
      simp only [write, lineBreak, List.length_cons, List.length_append] at hfuel
      omega
    have hskip : ∀ text, skipSpace (lineBreak (indent + 2) ++ (writeKey style key ++ text)) =
        '\x22' :: (key.toList.flatMap (escapeDouble style.plain) ++
          ('\x22' :: ':' :: ' ' :: text)) := by
      intro text
      rw [skipSpace_lineBreak, writeKey, quoteDouble, List.append_assoc, List.cons_append,
        skipSpace_cons (by decide)]
      simp
    rw [htext, readValue_brace fuel depth (hskip _) (by decide)]
    simp only [readEntries_congr (skipSpace_lineBreak _ _),
      readEntries_write hstyle h fuel _ (indent + 2) indent rest _ hlength]
    cases depth with
    | zero => simp [fits_object_zero]
    | succ depth =>
      rw [fits_object_succ]
      simp [eq_comm]

/-- Every value with finite numbers only is read back. -/
theorem returns_of_isFinite (hstyle : style.Readable) {v : Value} (h : v.IsFinite) :
    Returns strict style v := by
  induction v with
  | null =>
    have hfits : ∀ depth, Fits strict depth .null := fun _ => fits_of_parts rfl rfl (by simp)
    rintro (_ | fuel) depth indent rest result hfuel -
    · simp [write] at hfuel
    · simp [write, readValue, skipSpace_cons, isSpace, hfits, eq_comm]
  | boolean b =>
    have hfits : ∀ depth, Fits strict depth (.boolean b) := fun _ => fits_of_parts rfl rfl (by simp)
    rintro (_ | fuel) depth indent rest result hfuel -
    · cases b <;> simp [write] at hfuel
    · cases b <;> simp [write, readValue, skipSpace_cons, isSpace, hfits, eq_comm]
  | integer n => exact returns_integer n
  | float x => exact returns_float hstyle (h x (Value.self_mem_parts _))
  | text s => exact returns_text hstyle s
  | list items ih =>
    exact returns_list h fun item hitem =>
      ih item hitem fun x hx => h x (Value.parts_subset_of_mem_list hitem hx)
  | object entries ih =>
    exact returns_object hstyle fun entry hentry =>
      ih entry hentry fun x hx => h x (Value.parts_subset_of_mem_object hentry hx)

end Returns

/-! ## Whole documents -/

/-- A written document is read exactly when the reader takes its depth and its integers. -/
theorem readAll_write {style : Style} (hstyle : style.Readable) {v : Value} (h : v.IsFinite)
    (strict : Bool) (depth : Nat) {result : Value} :
    readAll strict depth (write style 0 v) = .ok result ↔ Fits strict depth v ∧ result = v := by
  have hreturns : Returns strict style v := returns_of_isFinite hstyle h
  have hread := fun a => hreturns (2 * (write style 0 v).length + 2) depth 0 [] a (by omega)
    (by simp [Closes])
  simp only [List.append_nil] at hread
  rw [readAll]
  constructor
  · intro hresult
    obtain ⟨a, ha, hresult⟩ := bind_eq_ok.mp hresult
    obtain ⟨hfits, rfl⟩ := (hread a).mp ha
    cases hresult
    exact ⟨hfits, rfl⟩
  · rintro ⟨hfits, rfl⟩
    exact bind_eq_ok.mpr ⟨_, (hread _).mpr ⟨hfits, rfl⟩, rfl⟩

theorem read_text {style : Style} (hstyle : style.Readable) {v : Value} (hfinite : v.IsFinite)
    (hkeys : v.KeysDistinct) {result : Value} :
    read (text style v) = .ok result ↔ Fits false documentDepth v ∧ result = v := by
  rw [read, text, String.toList_ofList, map_eq_ok]
  simp only [readAll_write hstyle hfinite]
  constructor
  · rintro ⟨_, ⟨hfits, rfl⟩, rfl⟩
    exact ⟨hfits, Value.merged_eq_self hkeys⟩
  · rintro ⟨hfits, rfl⟩
    exact ⟨_, ⟨hfits, rfl⟩, Value.merged_eq_self hkeys⟩

theorem fits_finitePart {strict : Bool} {depth : Nat} {v : Value} :
    Fits strict depth v.finitePart ↔ Fits strict depth v := by
  constructor
  · rintro ⟨hd, hs⟩
    exact ⟨v.depth_finitePart ▸ hd, fun n hn => hs n (Value.integer_mem_parts_finitePart.mpr hn)⟩
  · rintro ⟨hd, hs⟩
    exact ⟨v.depth_finitePart.symm ▸ hd,
      fun n hn => hs n (Value.integer_mem_parts_finitePart.mp hn)⟩

theorem writeItems_map {style : Style} {f : Value → Value} {items : List Value} {indent : Nat}
    (h : ∀ item ∈ items, write style indent (f item) = write style indent item) :
    writeItems style indent (items.map f) = writeItems style indent items := by
  induction items with
  | nil => rfl
  | cons item items ih =>
    rw [List.map_cons, writeItems, writeItems, h item List.mem_cons_self,
      ih fun w hw => h w (List.mem_cons_of_mem _ hw)]

theorem writeEntries_map {style : Style} {f : Value → Value} {entries : Members} {indent : Nat}
    (h : ∀ entry ∈ entries, write style indent (f entry.2) = write style indent entry.2) :
    writeEntries style indent (entries.map fun entry => (entry.1, f entry.2)) =
      writeEntries style indent entries := by
  induction entries with
  | nil => rfl
  | cons entry entries ih =>
    rw [List.map_cons, writeEntries, writeEntries, h entry List.mem_cons_self,
      ih fun w hw => h w (List.mem_cons_of_mem _ hw)]

/-- What is stored of a value is its finite part. -/
theorem write_finitePart (indent : Nat) (v : Value) :
    write stored indent v.finitePart = write stored indent v := by
  induction v generalizing indent with
  | null | boolean | integer | text => rfl
  | float x =>
    rw [Value.finitePart]
    split
    · rfl
    · rcases x with x | (_ | _) | _
      · exact absurd rfl ‹_›
      all_goals rfl
  | list items ih =>
    rw [Value.finitePart_list]
    cases items with
    | nil => rfl
    | cons item items =>
      rw [List.map_cons, write, write, ih item List.mem_cons_self,
        writeItems_map fun w hw => ih w (List.mem_cons_of_mem _ hw) _]
  | object entries ih =>
    rw [Value.finitePart_object]
    cases entries with
    | nil => rfl
    | cons entry entries =>
      rw [List.map_cons, write, write, ih entry List.mem_cons_self,
        writeEntries_map fun w hw => ih w (List.mem_cons_of_mem _ hw) _]

/-- Whether the reader of stored values takes a value: it is not nested too deeply, and none of its
integers has too long a text, with the sign. -/
structure Storable (v : Value) : Prop where
  depth_le : v.depth ≤ storedDepth
  short : ∀ n, .integer n ∈ v.parts → (Decimal.signedDigits n).length ≤ Decimal.mostDigits

/-- Whether a value is no integer that has too long a text. -/
def isStorableInteger : Value → Bool
  | .integer n => (Decimal.signedDigits n).length ≤ Decimal.mostDigits
  | _ => true

instance (v : Value) : Decidable (Storable v) :=
  decidable_of_iff (v.depth ≤ storedDepth ∧ ∀ w ∈ v.parts, isStorableInteger w = true) <| by
    constructor
    · exact fun ⟨hd, hs⟩ => ⟨hd, fun n hn => by simpa [isStorableInteger] using hs _ hn⟩
    · rintro ⟨hd, hs⟩
      refine ⟨hd, fun w hw => ?_⟩
      cases w with
      | integer n => simpa [isStorableInteger] using hs n hw
      | _ => rfl

theorem fits_iff_storable {v : Value} : Fits true storedDepth v ↔ Storable v := by
  constructor
  · rintro ⟨hd, hs⟩
    exact ⟨hd, fun n hn => Nat.not_lt.mp fun hl => hs n hn ((isLong_true_iff n).mpr hl)⟩
  · rintro ⟨hd, hs⟩
    exact ⟨hd, fun n hn hl => absurd ((isLong_true_iff n).mp hl) (Nat.not_lt.mpr (hs n hn))⟩

/-- A stored value is read back as its finite part, if the reader takes it. -/
theorem readStored_text {v result : Value} :
    readStored (text stored v) = .ok result ↔ Storable v ∧ result = v.finitePart := by
  rw [readStored, text, String.toList_ofList, ← write_finitePart,
    readAll_write readable_stored v.isFinite_finitePart, fits_finitePart, fits_iff_storable]

end FederationGraph.Json
