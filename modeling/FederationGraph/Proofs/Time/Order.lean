import FederationGraph.Proofs.Time.Instant
import Mathlib.Tactic.IntervalCases

/-!
# The order of instants

The days of the calendar are numbered without gaps, month by month and year by
year, so that dates are in the order of their numbers. An instant in universal
time is earlier than another one exactly if its text comes first in the order of
texts. A text has either a fraction of six digits or none; where one text goes on
with its fraction and the other with its distance from universal time, the sign of
the distance comes before the point of the fraction.
-/
namespace FederationGraph.Instant

open Decimal

/-- The microseconds from the start of 1970 in universal time. -/
def moment (t : Instant) : Int := t.toSeconds * 1000000 + t.microsecond

/-- Whether an instant is one of the calendar and given in universal time. -/
structure Utc (t : Instant) : Prop where
  proper : t.Proper
  offset : t.offset = some 0

instance (t : Instant) : Decidable t.Utc :=
  decidable_of_iff (t.Proper ∧ t.offset = some 0) ⟨fun ⟨hp, ho⟩ => ⟨hp, ho⟩, fun h => ⟨h.1, h.2⟩⟩

/-- The number of the day. -/
def days (t : Instant) : Int := dayNumber t.year t.month t.day

/-- The parts of an instant, from the year down. -/
def parts (t : Instant) : List Nat :=
  [t.year, t.month, t.day, t.hour, t.minute, t.second, t.microsecond]

variable {a b : Instant} {year month : Nat}

/-! ## The calendar -/

theorem dayNumber_eq_add (year month day : Nat) :
    dayNumber year month day = dayNumber year month 1 + (day - 1) := by
  simp only [dayNumber]
  omega

/-- Only the end of February depends on the year. -/
theorem dayNumber_march (year : Nat) :
    dayNumber year 3 1 = dayNumber year 2 1 + daysIn year 2 := by
  simp [dayNumber, daysIn, Int.fdiv_eq_ediv_of_nonneg]
  split_ifs <;> omega

theorem dayNumber_next_month (year : Nat) (h : 1 ≤ month ∧ month < 12) :
    dayNumber year (month + 1) 1 = dayNumber year month 1 + daysIn year month := by
  rcases eq_or_ne month 2 with rfl | hmarch
  · exact dayNumber_march year
  · obtain ⟨hfirst, hlast⟩ := h
    interval_cases month <;> simp [dayNumber, daysIn] at hmarch ⊢ <;> omega

theorem dayNumber_next_year (year : Nat) :
    dayNumber (year + 1) 1 1 = dayNumber year 12 1 + daysIn year 12 := by
  simp [dayNumber, daysIn]
  omega

/-- A month is over when a later one of the year begins. -/
theorem add_daysIn_le_of_lt (year : Nat) {later : Nat} (hfirst : 1 ≤ month) (h : month < later)
    (hlast : later ≤ 12) :
    dayNumber year month 1 + daysIn year month ≤ dayNumber year later 1 := by
  induction later, h using Nat.le_induction with
  | base => exact (dayNumber_next_month year ⟨hfirst, hlast⟩).ge
  | succ later h ih =>
    have hnext := dayNumber_next_month year (⟨by omega, hlast⟩ : 1 ≤ later ∧ later < 12)
    have hbefore := ih (by omega)
    omega

theorem january_le (year : Nat) (h : 1 ≤ month ∧ month ≤ 12) :
    dayNumber year 1 1 ≤ dayNumber year month 1 := by
  rcases h.1.eq_or_lt with rfl | hlt
  · exact le_rfl
  · have hover := add_daysIn_le_of_lt year (le_refl 1) hlt h.2
    omega

theorem add_daysIn_le_next_year (year : Nat) (h : 1 ≤ month ∧ month ≤ 12) :
    dayNumber year month 1 + daysIn year month ≤ dayNumber (year + 1) 1 1 := by
  rw [dayNumber_next_year]
  rcases h.2.eq_or_lt with rfl | hlt
  · exact le_rfl
  · have hover := add_daysIn_le_of_lt year h.1 hlt (le_refl 12)
    omega

/-- A month is over when a month of a later year begins. -/
theorem add_daysIn_le_of_year_lt {later other : Nat} (h : 1 ≤ month ∧ month ≤ 12)
    (hlt : year < later) (ho : 1 ≤ other ∧ other ≤ 12) :
    dayNumber year month 1 + daysIn year month ≤ dayNumber later other 1 := by
  refine le_trans ?_ (january_le later ho)
  induction later, hlt using Nat.le_induction with
  | base => exact add_daysIn_le_next_year year h
  | succ later hlt ih =>
    have hjanuary := add_daysIn_le_next_year later (⟨le_rfl, by decide⟩ : 1 ≤ 1 ∧ 1 ≤ 12)
    omega

theorem days_lt_of_month_lt (ha : a.Proper) (hb : b.Proper)
    (h : a.year < b.year ∨ a.year = b.year ∧ a.month < b.month) : a.days < b.days := by
  have hover : dayNumber a.year a.month 1 + daysIn a.year a.month ≤
      dayNumber b.year b.month 1 := by
    rcases h with hyear | ⟨hyear, hmonth⟩
    · exact add_daysIn_le_of_year_lt ha.month hyear hb.month
    · rw [← hyear]
      exact add_daysIn_le_of_lt a.year ha.month.1 hmonth hb.month.2
  have haDay := ha.day
  have hbDay := hb.day
  rw [days, days, dayNumber_eq_add a.year, dayNumber_eq_add b.year]
  omega

/-- Days are numbered in the order of the calendar. -/
theorem days_lt_iff (ha : a.Proper) (hb : b.Proper) :
    a.days < b.days ↔
      a.year < b.year ∨ a.year = b.year ∧
        (a.month < b.month ∨ a.month = b.month ∧ a.day < b.day) := by
  -- within a month the day decides, and of two months one is over when the other begins
  by_cases hmonth : a.year = b.year ∧ a.month = b.month
  · rw [days, days, hmonth.1, hmonth.2, dayNumber_eq_add _ _ a.day, dayNumber_eq_add _ _ b.day]
    omega
  · have hbefore := days_lt_of_month_lt ha hb
    have hafter := days_lt_of_month_lt hb ha
    omega

theorem days_eq_iff (ha : a.Proper) (hb : b.Proper) :
    a.days = b.days ↔ a.year = b.year ∧ a.month = b.month ∧ a.day = b.day := by
  have hbefore := days_lt_iff ha hb
  have hafter := days_lt_iff hb ha
  omega

/-! ## Time -/

theorem toSeconds_eq (h : a.Utc) :
    a.toSeconds = (a.days - epochDay) * 86400 + (a.hour * 3600 + a.minute * 60 + a.second) := by
  rw [toSeconds, h.offset, days]
  exact Int.sub_zero _

/-- The first part in which two instants differ decides which one is earlier. -/
theorem moment_lt_iff (ha : a.Utc) (hb : b.Utc) : a.moment < b.moment ↔ a.parts < b.parts := by
  have hdays := days_lt_iff ha.proper hb.proper
  have hdaysEq := days_eq_iff ha.proper hb.proper
  obtain ⟨-, -, -, hahour, haminute, hasecond, hamicrosecond, -⟩ := ha.proper
  obtain ⟨-, -, -, hbhour, hbminute, hbsecond, hbmicrosecond, -⟩ := hb.proper
  have hdown : a.moment < b.moment ↔ a.days < b.days ∨ a.days = b.days ∧
      (a.hour < b.hour ∨ a.hour = b.hour ∧ (a.minute < b.minute ∨ a.minute = b.minute ∧
        (a.second < b.second ∨ a.second = b.second ∧ a.microsecond < b.microsecond))) := by
    rw [moment, moment, toSeconds_eq ha, toSeconds_eq hb]
    omega
  rw [hdown, hdays, hdaysEq]
  simp only [parts, List.cons_lt_cons_iff, List.lt_irrefl, and_false, or_false, and_or_left,
    or_assoc, and_assoc]

/-! ## Texts -/

/-- A text without a fraction goes on with a sign, which comes before the point of a fraction. -/
theorem fractionText_lt_iff (ha : a.Utc) (hb : b.Utc) :
    a.fractionText ++ offsetText a.offset < b.fractionText ++ offsetText b.offset ↔
      a.microsecond < b.microsecond := by
  have hzone : offsetText (some 0) = '+' :: ['0', '0', ':', '0', '0'] := by decide
  have hless : '+' < '.' := by decide
  rw [ha.offset, hb.offset, hzone, fractionText, fractionText]
  by_cases hza : a.microsecond = 0 <;> by_cases hzb : b.microsecond = 0
  · simp [hza, hzb]
  · have hpos : 0 < b.microsecond := Nat.pos_of_ne_zero hzb
    simp [hza, hzb, List.cons_lt_cons_iff, hless, hpos]
  · have hgreater : ¬ '.' < '+' := by decide
    simp [hza, hzb, List.cons_lt_cons_iff, hgreater]
  · rw [if_neg hza, if_neg hzb, List.cons_append, List.cons_append, List.cons_lt_cons_self,
      padded_append_lt_iff (by decide) ha.proper.microsecond hb.proper.microsecond]
    simp

/-- The first part in which two instants differ decides which text comes first. -/
theorem text_lt_iff (ha : a.Utc) (hb : b.Utc) : a.text < b.text ↔ a.parts < b.parts := by
  obtain ⟨hayear, hamonth, haday, hahour, haminute, hasecond, -, -⟩ := ha.proper
  obtain ⟨hbyear, hbmonth, hbday, hbhour, hbminute, hbsecond, -, -⟩ := hb.proper
  have hadays := daysIn_le a.year a.month
  have hbdays := daysIn_le b.year b.month
  rw [String.lt_iff, text, text, String.toList_ofList, String.toList_ofList, List.append_assoc,
    List.append_assoc, secondsText_append, secondsText_append]
  simp only [parts, List.cons_lt_cons_iff, List.lt_irrefl, and_false, or_false]
  -- every part but the last has one width, so that it meets its counterpart
  rw [padded_append_lt_iff (by decide) (by omega) (by omega), List.cons_lt_cons_self,
    padded_append_lt_iff (by decide) (by omega) (by omega), List.cons_lt_cons_self,
    padded_append_lt_iff (by decide) (by omega) (by omega), List.cons_lt_cons_self,
    padded_append_lt_iff (by decide) (by omega) (by omega), List.cons_lt_cons_self,
    padded_append_lt_iff (by decide) (by omega) (by omega), List.cons_lt_cons_self,
    padded_append_lt_iff (by decide) (by omega) (by omega), fractionText_lt_iff ha hb]

/-- Comparing the texts of instants in universal time compares the instants. -/
theorem text_le_iff (ha : a.Utc) (hb : b.Utc) : a.text ≤ b.text ↔ a.moment ≤ b.moment := by
  rw [← Int.not_lt, moment_lt_iff hb ha, ← text_lt_iff hb ha]
  exact String.not_lt.symm

/-- Elsewhere the texts do not tell which one of two instants is earlier. -/
example :
    let here : Instant := ⟨2024, 1, 1, 1, 0, 0, 0, some 7200⟩
    let there : Instant := ⟨2024, 1, 1, 0, 0, 0, 0, some 0⟩
    there.text < here.text ∧ here.moment < there.moment := by
  decide

end FederationGraph.Instant
