import FederationGraph.Proofs.Json.RoundTrip
import FederationGraph.Text.Lines

/-!
# Line ends in written JSON

Lines of written JSON end in a line feed, and a carriage return in a text or a key
is escaped. So reading a file, which unifies line ends, leaves JSON as it was
written.
-/
namespace FederationGraph

theorem Text.unifyLineEnds_eq_self {text : List Char} (h : '\x0d' ∉ text) :
    unifyLineEnds text = text := by
  fun_induction unifyLineEnds text with
  | case1 => rfl
  | case2 => simp at h
  | case3 c rest _ ih =>
    simp only [List.mem_cons, not_or] at h
    rw [ih h.2, if_neg (Ne.symm h.1)]

namespace Json

open Text Binary64

theorem return_not_mem_hex (width n : Nat) : '\x0d' ∉ hex width n :=
  fun h => absurd (isSome_hexValue?_of_mem_hex h) (by decide)

theorem return_not_mem_escapeDouble {plain : Char → Bool}
    (hplain : ∀ c, plain c = true → ' ' ≤ c) (c : Char) : '\x0d' ∉ escapeDouble plain c := by
  rw [escapeDouble]
  split
  · rename_i letter hletter
    unfold shortEscape? at hletter
    repeat' split at hletter
    all_goals first
      | (cases hletter; decide)
      | exact absurd hletter (by simp)
  · split
    · rename_i hc
      rw [List.mem_singleton]
      rintro rfl
      exact absurd (hplain _ hc) (by decide)
    · rw [List.mem_flatMap]
      rintro ⟨n, -, hn⟩
      simp [return_not_mem_hex] at hn

theorem return_not_mem_quoteDouble {plain : Char → Bool}
    (hplain : ∀ c, plain c = true → ' ' ≤ c) (text : List Char) :
    '\x0d' ∉ quoteDouble plain text := by
  simp only [quoteDouble, List.mem_cons, List.mem_append, List.mem_flatMap, not_or, not_exists,
    not_and]
  exact ⟨by decide, fun c _ => return_not_mem_escapeDouble hplain c, by decide, by simp⟩

theorem ne_return_of_isDigit {c : Char} (h : Decimal.isDigit c = true) : '\x0d' ≠ c := by
  rintro rfl
  exact absurd h (by decide)

theorem return_not_mem_finite (layout : Layout) (x : Finite) :
    '\x0d' ∉ (layout.text (.finite x)).toList := by
  obtain ⟨whole, fraction, mark, htext, hparts, -⟩ := exists_parts_magnitudeText layout x
  have hwhole : '\x0d' ∉ whole := fun h => ne_return_of_isDigit (hparts.digits _ h) rfl
  have hfraction : '\x0d' ∉ pointed fraction := by
    rw [pointed]
    split
    · simp
    · rw [List.mem_cons, not_or]
      exact ⟨by decide, fun h => ne_return_of_isDigit (hparts.fraction _ h) rfl⟩
  have hmark : '\x0d' ∉ mark := by
    rcases hparts.mark with rfl | ⟨sign, run, hsign, -, hrun, rfl⟩
    · simp
    · have hr : '\x0d' ∉ run := fun h => ne_return_of_isDigit (hrun _ h) rfl
      rcases hsign with rfl | rfl <;> simp [hr]
  have hall : '\x0d' ∉ layout.magnitudeText x := by simp [htext, hwhole, hfraction, hmark]
  rw [Layout.text, String.toList_ofList]
  split <;> simp [hall]

theorem return_not_mem_lineBreak (indent : Nat) : '\x0d' ∉ lineBreak indent := by
  simp [lineBreak]

section Write

variable {style : Style}

theorem return_not_mem_writeItems {items : List Value} {indent : Nat}
    (h : ∀ item ∈ items, '\x0d' ∉ write style indent item) :
    '\x0d' ∉ writeItems style indent items := by
  induction items with
  | nil => simp [writeItems]
  | cons item items ih =>
    have hitem := h item List.mem_cons_self
    have hrest := ih fun w hw => h w (List.mem_cons_of_mem _ hw)
    simp [writeItems, hitem, hrest, return_not_mem_lineBreak]

theorem return_not_mem_writeKey (hstyle : style.Readable) (key : String) :
    '\x0d' ∉ writeKey style key := by
  simp [writeKey, return_not_mem_quoteDouble hstyle.plain]

theorem return_not_mem_writeEntries (hstyle : style.Readable) {entries : Members} {indent : Nat}
    (h : ∀ entry ∈ entries, '\x0d' ∉ write style indent entry.2) :
    '\x0d' ∉ writeEntries style indent entries := by
  induction entries with
  | nil => simp [writeEntries]
  | cons entry entries ih =>
    have hentry := h entry List.mem_cons_self
    have hrest := ih fun w hw => h w (List.mem_cons_of_mem _ hw)
    simp [writeEntries, hentry, hrest, return_not_mem_lineBreak, return_not_mem_writeKey hstyle]

theorem return_not_mem_write (hstyle : style.Readable) {v : Value} (h : v.IsFinite)
    (indent : Nat) : '\x0d' ∉ write style indent v := by
  induction v generalizing indent with
  | null => simp [write]
  | boolean b => cases b <;> simp [write]
  | integer n =>
    have hdigits : '\x0d' ∉ Decimal.digits n.natAbs :=
      fun hm => ne_return_of_isDigit (Decimal.isDigit_of_mem_digits hm) rfl
    rw [write, Decimal.signedDigits]
    split <;> simp [hdigits]
  | float x =>
    cases x with
    | finite x => exact return_not_mem_finite style.numbers x
    | _ => exact absurd (h _ (Value.self_mem_parts _)) (by simp [isFinite])
  | text s => exact return_not_mem_quoteDouble hstyle.plain _
  | list items ih =>
    have hitems : ∀ item ∈ items, ∀ indent, '\x0d' ∉ write style indent item :=
      fun item hi => ih item hi fun x hx => h x (Value.parts_subset_of_mem_list hi hx)
    cases items with
    | nil => simp [write]
    | cons item items =>
      have hfirst := hitems item List.mem_cons_self (indent + 2)
      have hrest : '\x0d' ∉ writeItems style (indent + 2) items :=
        return_not_mem_writeItems fun w hw => hitems w (List.mem_cons_of_mem _ hw) _
      simp [write, hfirst, hrest, return_not_mem_lineBreak]
  | object entries ih =>
    have hentries : ∀ entry ∈ entries, ∀ indent, '\x0d' ∉ write style indent entry.2 :=
      fun entry he => ih entry he fun x hx => h x (Value.parts_subset_of_mem_object he hx)
    cases entries with
    | nil => simp [write]
    | cons entry entries =>
      have hfirst := hentries entry List.mem_cons_self (indent + 2)
      have hrest : '\x0d' ∉ writeEntries style (indent + 2) entries :=
        return_not_mem_writeEntries hstyle fun w hw => hentries w (List.mem_cons_of_mem _ hw) _
      simp [write, hfirst, hrest, return_not_mem_lineBreak, return_not_mem_writeKey hstyle]

end Write

/-- Unifying the line ends of a written document leaves it as it is. -/
theorem unifyLineEnds_text {style : Style} (hstyle : style.Readable) {v : Value}
    (h : v.IsFinite) :
    String.ofList (unifyLineEnds (text style v).toList) = text style v := by
  have hreturn : '\x0d' ∉ (text style v).toList := by
    rw [text, String.toList_ofList]
    exact return_not_mem_write hstyle h 0
  rw [unifyLineEnds_eq_self hreturn, String.ofList_toList]

theorem unifyLineEnds_stored (v : Value) :
    String.ofList (unifyLineEnds (text stored v).toList) = text stored v := by
  have htext : text stored v = text stored v.finitePart := by rw [text, text, write_finitePart]
  rw [htext, unifyLineEnds_text readable_stored v.isFinite_finitePart]

end Json

end FederationGraph
