import FederationGraph.Proofs.Decimal.Digits
import FederationGraph.Time.Instant

/-!
# Instants read back

The text of an instant of the calendar reads back as the instant, with or without
a fraction of a second and with or without its distance from universal time. Only
a distance of whole minutes has a text that is read; zero is written as a letter.
-/
namespace FederationGraph.Instant

open Decimal

/-- Whether an instant is one of the calendar, in the years of four digits, whose distance from
universal time is less than a day and has no seconds. -/
structure Proper (t : Instant) : Prop where
  year : 1 ≤ t.year ∧ t.year ≤ 9999
  month : 1 ≤ t.month ∧ t.month ≤ 12
  day : 1 ≤ t.day ∧ t.day ≤ daysIn t.year t.month
  hour : t.hour ≤ 23
  minute : t.minute ≤ 59
  second : t.second ≤ 59
  microsecond : t.microsecond < 1000000
  offset : ∀ seconds ∈ t.offset, seconds.natAbs % 60 = 0 ∧ seconds.natAbs < 86400

instance (t : Instant) : Decidable t.Proper :=
  decidable_of_iff ((1 ≤ t.year ∧ t.year ≤ 9999) ∧ (1 ≤ t.month ∧ t.month ≤ 12) ∧
      (1 ≤ t.day ∧ t.day ≤ daysIn t.year t.month) ∧ t.hour ≤ 23 ∧ t.minute ≤ 59 ∧ t.second ≤ 59 ∧
      t.microsecond < 1000000 ∧
      ∀ seconds ∈ t.offset, seconds.natAbs % 60 = 0 ∧ seconds.natAbs < 86400)
    ⟨fun ⟨hy, hm, hd, hh, hi, hs, hu, ho⟩ => ⟨hy, hm, hd, hh, hi, hs, hu, ho⟩,
      fun ⟨hy, hm, hd, hh, hi, hs, hu, ho⟩ => ⟨hy, hm, hd, hh, hi, hs, hu, ho⟩⟩

theorem daysIn_le (year month : Nat) : daysIn year month ≤ 31 := by
  unfold daysIn
  split_ifs <;> omega

/-! ## Numbers of a fixed width -/

theorem readNumber_padded {width n : Nat} (hw : 0 < width) (hn : n < 10 ^ width)
    (rest : List Char) : readNumber width (padded width n ++ rest) = some (n, rest) := by
  have hlength := length_padded hw hn
  have hdigits : (padded width n).all isDigit = true :=
    List.all_eq_true.mpr fun _ => isDigit_of_mem_padded
  simp only [readNumber, List.take_left' hlength, List.drop_left' hlength, hlength, hdigits,
    ofDigits_padded]
  simp

theorem readChar_cons (c : Char) (rest : List Char) : readChar c (c :: rest) = some rest :=
  if_pos rfl

theorem readDate_text {t : Instant} (h : t.Proper) (rest : List Char) :
    readDate (padded 4 t.year ++ '-' :: (padded 2 t.month ++ '-' :: (padded 2 t.day ++ rest))) =
      some ((t.year, t.month, t.day), rest) := by
  have hy : t.year < 10 ^ 4 := by have := h.year; omega
  have hm : t.month < 10 ^ 2 := by have := h.month; omega
  have hd : t.day < 10 ^ 2 := by have := h.day; have := daysIn_le t.year t.month; omega
  rw [readDate, readNumber_padded (by decide) hy]
  simp only [bind, Option.bind, readChar_cons]
  rw [readNumber_padded (by decide) hm]
  simp only [readChar_cons]
  rw [readNumber_padded (by decide) hd]
  exact if_pos ⟨h.month.1, h.month.2, h.day.1, h.day.2⟩

/-! ## The time of day -/

theorem zone_head {offset : Option Int} {c : Char} (h : c ∈ (zoneText offset).head?) :
    c = 'Z' ∨ c = '+' ∨ c = '-' := by
  unfold zoneText offsetText at h
  split_ifs at h
  · exact .inl (by simpa using h.symm)
  · split at h
    · simp at h
    · split_ifs at h
      · exact .inr (.inr (by simpa using h.symm))
      · exact .inr (.inl (by simpa using h.symm))

theorem readFraction_text {t : Instant} (h : t.Proper) :
    readFraction (t.fractionText ++ zoneText t.offset) =
      some (t.microsecond, zoneText t.offset) := by
  have hzone : ∀ c ∈ (zoneText t.offset).head?, c ≠ '.' ∧ c ≠ ',' ∧ isDigit c = false := by
    intro c hc
    rcases zone_head hc with rfl | rfl | rfl <;> decide
  rw [fractionText]
  split
  · rename_i hzero
    rw [List.nil_append, hzero]
    cases htext : zoneText t.offset with
    | nil => rfl
    | cons c rest =>
      obtain ⟨hdot, hcomma, -⟩ := hzone c (by simp [htext])
      simp [readFraction, hdot, hcomma]
  · have hlength := length_padded (by decide : 0 < 6) h.microsecond
    have hrun : ∀ c ∈ padded 6 t.microsecond, isDigit c = true := fun _ => isDigit_of_mem_padded
    have hends : Ends (zoneText t.offset) := fun c hc => (hzone c hc).2.2
    have hne : (padded 6 t.microsecond).isEmpty = false := by simp [padded_ne_nil]
    simp only [readFraction, List.cons_append, takeWhile_isDigit hrun hends, hne,
      List.take_left' hlength, ofDigits_padded, List.drop_left' rfl]
    simp

theorem readTime_text {t : Instant} (h : t.Proper) :
    readTime (padded 2 t.hour ++ ':' :: (padded 2 t.minute ++ ':' :: (padded 2 t.second ++
        (t.fractionText ++ zoneText t.offset)))) =
      some ((t.hour, t.minute, t.second, t.microsecond), zoneText t.offset) := by
  have hh : t.hour < 10 ^ 2 := by have := h.hour; omega
  have hm : t.minute < 10 ^ 2 := by have := h.minute; omega
  have hs : t.second < 10 ^ 2 := by have := h.second; omega
  rw [readTime, readNumber_padded (by decide) hh]
  simp only [bind, Option.bind, readChar_cons]
  rw [readNumber_padded (by decide) hm]
  simp only [readSeconds, bind, Option.bind]
  rw [readNumber_padded (by decide) hs]
  simp only [readFraction_text h]
  exact if_pos ⟨h.hour, h.minute, h.second⟩

/-! ## The distance from universal time -/

theorem readOffset_digits {seconds : Nat} (hminute : seconds % 60 = 0) (hday : seconds < 86400) :
    readOffset (offsetDigits seconds) = some (seconds : Int) := by
  have hh : seconds / 3600 < 10 ^ 2 := by omega
  have hm : seconds / 60 % 60 < 10 ^ 2 := by omega
  rw [offsetDigits, if_pos hminute, readOffset, readNumber_padded (by decide) hh]
  simp only [bind, Option.bind, readChar_cons, Option.getD_some]
  rw [← List.append_nil (padded 2 (seconds / 60 % 60)), readNumber_padded (by decide) hm]
  have hbounds : seconds / 3600 ≤ 23 ∧ seconds / 60 % 60 ≤ 59 := by omega
  have hsum : seconds / 3600 * 3600 + seconds / 60 % 60 * 60 = seconds := by omega
  simp only [List.isEmpty_nil, hbounds, and_self, if_true, hsum]

theorem readZone_text {offset : Option Int}
    (h : ∀ seconds ∈ offset, seconds.natAbs % 60 = 0 ∧ seconds.natAbs < 86400) :
    readZone (zoneText offset) = some offset := by
  rw [zoneText]
  split
  · rename_i hzero
    rw [hzero]
    rfl
  · cases offset with
    | none => rfl
    | some seconds =>
      obtain ⟨hminute, hday⟩ := h seconds rfl
      have hread := readOffset_digits hminute hday
      rw [offsetText]
      split
      · have hvalue : -(seconds.natAbs : Int) = seconds := by omega
        simp only [readZone, hread, Option.map_some, hvalue]
      · have hvalue : (seconds.natAbs : Int) = seconds := by omega
        simp only [readZone, hread, Option.map_some, hvalue]

/-! ## Whole instants -/

theorem secondsText_append (t : Instant) (rest : List Char) :
    t.secondsText ++ rest =
      padded 4 t.year ++ '-' :: (padded 2 t.month ++ '-' :: (padded 2 t.day ++
        ('T' :: (padded 2 t.hour ++ ':' :: (padded 2 t.minute ++ ':' :: (padded 2 t.second ++
          rest)))))) := by
  simp [secondsText]

theorem readCalendar_zonedText {t : Instant} (h : t.Proper) :
    readCalendar t.zonedText.toList = some t := by
  rw [zonedText, String.toList_ofList, List.append_assoc, secondsText_append, readCalendar,
    readDate_text h]
  simp only [bind, Option.bind]
  rw [if_pos (by decide), readTime_text h]
  simp only [readZone_text h.offset]

/-- The text of an instant reads back as the instant. -/
theorem parse?_zonedText {t : Instant} (h : t.Proper) : parse? t.zonedText = some t := by
  rw [parse?, readCalendar_zonedText h]
  rfl

end FederationGraph.Instant
