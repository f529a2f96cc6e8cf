import FederationGraph.Json.Reader
import FederationGraph.Text.Quoted
import Mathlib.Algebra.Group.Nat.Defs
import Mathlib.Data.List.Basic

/-!
# Quoted text read back

What is written between double quotes reads back as it was, whichever characters
are written as themselves: a character that is not is written as a short escape
or as one or two UTF-16 units, and no unit of a character that takes only one is
the first of a pair.
-/
namespace FederationGraph.Text

/-! ## Hexadecimal numbers -/

theorem hexValue?_digitChar {digit : Nat} (h : digit < 16) :
    hexValue? digit.digitChar = some digit := by
  have hall : ∀ d < 16, hexValue? d.digitChar = some d := by decide
  exact hall digit h

theorem isSome_hexValue?_of_mem_toDigits {n : Nat} {c : Char} (h : c ∈ Nat.toDigits 16 n) :
    (hexValue? c).isSome := by
  induction n using Nat.strongRecOn with
  | _ n ih =>
    rw [Nat.toDigits_eq_if (by decide)] at h
    split at h
    · rename_i hn
      rw [List.mem_singleton.mp h, hexValue?_digitChar hn]
      rfl
    · rcases List.mem_append.mp h with h | h
      · exact ih (n / 16) (by omega) h
      · rw [List.mem_singleton.mp h, hexValue?_digitChar (Nat.mod_lt n (by decide))]
        rfl

/-- Numbers in hexadecimal are written in hexadecimal digits. -/
theorem isSome_hexValue?_of_mem_hex {width n : Nat} {c : Char} (h : c ∈ hex width n) :
    (hexValue? c).isSome := by
  rcases List.mem_append.mp h with h | h
  · rw [List.eq_of_mem_replicate h]
    rfl
  · exact isSome_hexValue?_of_mem_toDigits h

theorem foldl_hexValue?_toDigits (n : Nat) :
    (Nat.toDigits 16 n).foldl
      (fun n c => n.bind fun n => (hexValue? c).map fun digit => 16 * n + digit) (some 0) =
      some n := by
  induction n using Nat.strongRecOn with
  | _ n ih =>
    rw [Nat.toDigits_eq_if (by decide)]
    split
    · rename_i hn
      simp [hexValue?_digitChar hn]
    · rename_i hn
      rw [List.foldl_append, ih (n / 16) (by omega)]
      simp only [List.foldl_cons, List.foldl_nil, Option.bind_some,
        hexValue?_digitChar (Nat.mod_lt n (by decide : 16 > 0)), Option.map_some, Option.some.injEq]
      omega

theorem foldl_hexValue?_zeros (count : Nat) :
    (List.replicate count '0').foldl
      (fun n c => n.bind fun n => (hexValue? c).map fun digit => 16 * n + digit) (some 0) =
      some 0 := by
  induction count with
  | zero => rfl
  | succ count ih =>
    rw [List.replicate_succ, List.foldl_cons]
    exact ih

theorem length_hex {width n : Nat} (hw : 0 < width) (hn : n < 16 ^ width) :
    (hex width n).length = width := by
  have hl := (Nat.length_toDigits_le_iff (by decide : 1 < 16) hw).mpr hn
  rw [hex, List.length_append, List.length_replicate]
  omega

/-- A number written to a width is read back from the front of a text. -/
theorem hexPrefix?_hex {width n : Nat} (hw : 0 < width) (hn : n < 16 ^ width) (rest : List Char) :
    hexPrefix? width (hex width n ++ rest) = some n := by
  have hlength := length_hex hw hn
  rw [hexPrefix?, if_neg (by rw [List.length_append, hlength]; omega), List.take_left' hlength,
    hex, List.foldl_append, foldl_hexValue?_zeros, foldl_hexValue?_toDigits]

theorem drop_hex {width n : Nat} (hw : 0 < width) (hn : n < 16 ^ width) (rest : List Char) :
    (hex width n ++ rest).drop width = rest := List.drop_left' (length_hex hw hn)

/-! ## Short escapes -/

/-- The characters that have a short escape, with its letter. -/
def shortEscapes : List (Char × Char) :=
  [('\x22', '\x22'), ('\\', '\\'), ('\x08', 'b'), ('\x0c', 'f'), ('\n', 'n'), ('\x0d', 'r'),
    ('\t', 't')]

theorem mem_shortEscapes {c letter : Char} (h : shortEscape? c = some letter) :
    (c, letter) ∈ shortEscapes := by
  unfold shortEscape? at h
  repeat' split at h
  all_goals cases h
  all_goals
    rename_i hc
    rw [hc]
    decide

/-! ## Units -/

theorem scalar?_toNat (c : Char) : scalar? c.toNat = some c := by
  have h : c.toNat.isValidChar := c.valid
  rw [scalar?, dif_pos h, Option.some.injEq]
  exact Char.ext (UInt32.toNat_inj.mp rfl)

/-- A character of one unit has none that opens a pair. -/
theorem isHighUnit_toNat (c : Char) : isHighUnit c.toNat = false := by
  have h : c.toNat.isValidChar := c.valid
  simp only [Nat.isValidChar] at h
  simp only [isHighUnit, Bool.and_eq_false_iff, decide_eq_false_iff_not]
  omega

theorem toNat_lt (c : Char) : c.toNat < 0x110000 := by
  have h : c.toNat.isValidChar := c.valid
  simp only [Nat.isValidChar] at h
  omega

/-- The two units of a character outside of the first plane give the character back. -/
theorem pair?_units {c : Char} (h : 0x10000 ≤ c.toNat) :
    pair? (0xD800 + (c.toNat - 0x10000) / 0x400) (0xDC00 + (c.toNat - 0x10000) % 0x400) =
      some c := by
  have hlt := toNat_lt c
  have hhigh : isHighUnit (0xD800 + (c.toNat - 0x10000) / 0x400) = true := by
    simp only [isHighUnit, Bool.and_eq_true, decide_eq_true_eq]
    omega
  have hlow : isLowUnit (0xDC00 + (c.toNat - 0x10000) % 0x400) = true := by
    simp only [isLowUnit, Bool.and_eq_true, decide_eq_true_eq]
    omega
  have hvalue : 0x10000 + (0xD800 + (c.toNat - 0x10000) / 0x400 - 0xD800) * 0x400 +
      (0xDC00 + (c.toNat - 0x10000) % 0x400 - 0xDC00) = c.toNat := by omega
  rw [pair?, hhigh, hlow, Bool.and_self, if_pos rfl, hvalue, scalar?_toNat]

end FederationGraph.Text

namespace FederationGraph.Json

open Text

/-! ## One character -/

theorem readEscape_unit {c : Char} (h : c.toNat < 16 ^ 4) (rest : List Char) :
    readEscape ('u' :: (hex 4 c.toNat ++ rest)) = some (c, rest) := by
  simp only [readEscape]
  rw [hexPrefix?_hex (by decide) h, drop_hex (by decide) h, Option.bind_some]
  -- What follows may look like a second unit; it is not read as one.
  split
  · simp [isHighUnit_toNat, scalar?_toNat]
  · simp [scalar?_toNat]

theorem readEscape_pair {high low : Nat} {c : Char} (hhigh : high < 16 ^ 4) (hlow : low < 16 ^ 4)
    (h : pair? high low = some c) (rest : List Char) :
    readEscape ('u' :: (hex 4 high ++ '\\' :: 'u' :: (hex 4 low ++ rest))) = some (c, rest) := by
  have hunit : isHighUnit high = true := by
    by_contra hn
    simp [pair?, hn] at h
  simp only [readEscape]
  rw [hexPrefix?_hex (by decide) hhigh, drop_hex (by decide) hhigh, Option.bind_some]
  simp only
  rw [if_pos hunit, hexPrefix?_hex (by decide) hlow, drop_hex (by decide) hlow,
    Option.bind_some, h, Option.map_some]

theorem flatMap_pair (high low : Nat) (rest : List Char) :
    [high, low].flatMap (fun n => '\\' :: 'u' :: hex 4 n) ++ rest =
      '\\' :: 'u' :: (hex 4 high ++ '\\' :: 'u' :: (hex 4 low ++ rest)) := by
  simp

theorem readEscape_units (c : Char) (rest : List Char) :
    ∃ behind, (units c).flatMap (fun n => '\\' :: 'u' :: hex 4 n) ++ rest = '\\' :: behind ∧
      readEscape behind = some (c, rest) := by
  rw [units]
  split
  · rename_i h
    exact ⟨'u' :: (hex 4 c.toNat ++ rest), by simp, readEscape_unit (by omega) rest⟩
  · rename_i h
    have hlt := toNat_lt c
    exact ⟨_, flatMap_pair _ _ rest,
      readEscape_pair (by omega) (by omega) (pair?_units (by omega)) rest⟩

theorem readEscape_short {c letter : Char} (h : shortEscape? c = some letter)
    (rest : List Char) : readEscape (letter :: rest) = some (c, rest) := by
  have hall : ∀ pair ∈ shortEscapes, readEscape (pair.2 :: rest) = some (pair.1, rest) := by
    simp only [shortEscapes, List.forall_mem_cons]
    exact ⟨rfl, rfl, rfl, rfl, rfl, rfl, rfl, fun _ he => absurd he List.not_mem_nil⟩
  exact hall _ (mem_shortEscapes h)

theorem readQuoted_escape {behind rest : List Char} {c : Char}
    (h : readEscape behind = some (c, rest)) :
    readQuoted ('\\' :: behind) =
      (readQuoted rest).map fun (text, tail) => (c :: text, tail) := by
  rw [readQuoted, if_neg (by decide), if_pos rfl]
  split
  · rename_i c' rest' h'
    cases h'.symm.trans h
    rfl
  · rename_i h'
    cases h'.symm.trans h

theorem readQuoted_plain {c : Char} (hquote : c ≠ '\x22') (hslash : c ≠ '\\') (hspace : ' ' ≤ c)
    (rest : List Char) :
    readQuoted (c :: rest) = (readQuoted rest).map fun (text, tail) => (c :: text, tail) := by
  rw [readQuoted, if_neg hquote, if_neg hslash, if_neg (Char.not_lt.mpr hspace)]

/-- Each way of writing a character is read as that character. -/
theorem readQuoted_escapeDouble {plain : Char → Bool} (hplain : ∀ c, plain c = true → ' ' ≤ c)
    (c : Char) (rest : List Char) :
    readQuoted (escapeDouble plain c ++ rest) =
      (readQuoted rest).map fun (text, tail) => (c :: text, tail) := by
  rw [escapeDouble]
  cases hshort : shortEscape? c with
  | some letter => exact readQuoted_escape (readEscape_short hshort rest)
  | none =>
    dsimp only
    split
    · rename_i h
      have hquote : c ≠ '\x22' := by rintro rfl; simp [shortEscape?] at hshort
      have hslash : c ≠ '\\' := by rintro rfl; simp [shortEscape?] at hshort
      exact readQuoted_plain hquote hslash (hplain c h) rest
    · obtain ⟨behind, htext, hread⟩ := readEscape_units c rest
      rw [htext, readQuoted_escape hread]

/-! ## Whole texts -/

/-- A quoted text is read back, with what stands behind it left over. -/
theorem readQuoted_quoted {plain : Char → Bool} (hplain : ∀ c, plain c = true → ' ' ≤ c)
    (text rest : List Char) :
    readQuoted (text.flatMap (escapeDouble plain) ++ '\x22' :: rest) = some (text, rest) := by
  induction text with
  | nil =>
    rw [List.flatMap_nil, List.nil_append, readQuoted, if_pos rfl]
  | cons c text ih =>
    rw [List.flatMap_cons, List.append_assoc, readQuoted_escapeDouble hplain, ih]
    rfl

end FederationGraph.Json
