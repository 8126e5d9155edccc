import Taas.Deploy.Schedule

/-!
# Weekly windows

* `isUp_iff` — the schedule is up inside the windows, as intervals of minutes on a week that
  goes round.
-/

namespace Taas.Box

/-! ## The minute of the week -/

/-- The minutes since the midnight of a Monday. -/
def minuteOfWeek (now : ℚ) : Int := ⌊now / 60⌋ % 10080

theorem weekday_eq (now : ℚ) : weekday now = ⌊now / 60⌋ / 1440 % 7 := by
  have hday : now / 86400 = now / 60 / ((1440 : ℕ) : ℚ) := by
    rw [div_div]
    norm_num
  rw [weekday, hday, Int.floor_div_natCast]
  rfl

theorem weekday_lt (now : ℚ) : 0 ≤ weekday now ∧ weekday now < 7 := by
  unfold weekday
  omega

theorem minuteOfDay_lt (now : ℚ) : 0 ≤ minuteOfDay now ∧ minuteOfDay now < 1440 := by
  unfold minuteOfDay
  omega

theorem minuteOfWeek_eq (now : ℚ) :
    minuteOfWeek now = 1440 * weekday now + minuteOfDay now := by
  rw [weekday_eq, minuteOfWeek, minuteOfDay]
  omega

/-! ## One window -/

namespace Window

/-- A window of the week. -/
structure Weekly (window : Window) : Prop where
  days : ∀ d ∈ window.days, 0 ≤ d ∧ d < 7
  start : 0 ≤ window.start ∧ window.start ≤ 1440
  stop : 0 ≤ window.stop ∧ window.stop ≤ 1440
  nonempty : window.start ≠ window.stop

/-- The minutes of the window that begins on day `d`. -/
def Covers (window : Window) (d minute : Int) : Prop :=
  1440 * d + window.start ≤ minute ∧
    minute < 1440 * d + window.stop + if window.stop < window.start then 1440 else 0

variable {window : Window} {now : ℚ} {d : Int}

/-- Between two midnights a window is on its day. -/
theorem Weekly.covers_iff_of_lt (h : window.Weekly) (hd : 0 ≤ d ∧ d < 7)
    (hlt : window.start < window.stop) :
    (∃ k : Int, window.Covers d (minuteOfWeek now + 10080 * k)) ↔
      weekday now = d ∧ window.start ≤ minuteOfDay now ∧ minuteOfDay now < window.stop := by
  have hday := weekday_lt now
  have hminute := minuteOfDay_lt now
  have hstart := h.start
  have hstop := h.stop
  unfold Covers
  rw [minuteOfWeek_eq, if_neg (by omega)]
  constructor
  · rintro ⟨k, hlow, hhigh⟩
    obtain rfl : k = 0 := by omega
    omega
  · rintro ⟨rfl, hlow, hhigh⟩
    exact ⟨0, by omega, by omega⟩

/-- Over a midnight it is on its day and on the next one, and Monday comes after Sunday. -/
theorem Weekly.covers_iff_of_gt (h : window.Weekly) (hd : 0 ≤ d ∧ d < 7)
    (hgt : window.stop < window.start) :
    (∃ k : Int, window.Covers d (minuteOfWeek now + 10080 * k)) ↔
      weekday now = d ∧ window.start ≤ minuteOfDay now ∨
        (weekday now - 1) % 7 = d ∧ minuteOfDay now < window.stop := by
  have hday := weekday_lt now
  have hminute := minuteOfDay_lt now
  have hstart := h.start
  have hstop := h.stop
  unfold Covers
  rw [minuteOfWeek_eq, if_pos hgt]
  constructor
  · rintro ⟨k, hlow, hhigh⟩
    have hk : k = 0 ∨ k = 1 := by omega
    rcases hk with rfl | rfl <;> omega
  · rintro (⟨rfl, hlow⟩ | ⟨rfl, hhigh⟩)
    · exact ⟨0, by omega, by omega⟩
    · -- on a Monday the day before is in the week before
      by_cases hmonday : weekday now = 0
      · exact ⟨1, by omega, by omega⟩
      · exact ⟨0, by omega, by omega⟩

theorem Weekly.holds_iff (h : window.Weekly) : window.holds now = true ↔
    ∃ d ∈ window.days, ∃ k : Int, window.Covers d (minuteOfWeek now + 10080 * k) := by
  unfold Window.holds
  rcases lt_or_gt_of_ne h.nonempty with hlt | hgt
  · simp only [if_pos hlt, Bool.and_eq_true, decide_eq_true_eq]
    constructor
    · rintro ⟨⟨hday, hlow⟩, hhigh⟩
      exact ⟨_, hday, (h.covers_iff_of_lt (h.days _ hday) hlt).mpr ⟨rfl, hlow, hhigh⟩⟩
    · rintro ⟨d, hday, hcovers⟩
      obtain ⟨rfl, hlow, hhigh⟩ := (h.covers_iff_of_lt (h.days d hday) hlt).mp hcovers
      exact ⟨⟨hday, hlow⟩, hhigh⟩
  · simp only [if_neg hgt.asymm, Bool.or_eq_true, Bool.and_eq_true, decide_eq_true_eq]
    constructor
    · rintro (⟨hday, hlow⟩ | ⟨hday, hhigh⟩)
      · exact ⟨_, hday, (h.covers_iff_of_gt (h.days _ hday) hgt).mpr (Or.inl ⟨rfl, hlow⟩)⟩
      · exact ⟨_, hday, (h.covers_iff_of_gt (h.days _ hday) hgt).mpr (Or.inr ⟨rfl, hhigh⟩)⟩
    · rintro ⟨d, hday, hcovers⟩
      rcases (h.covers_iff_of_gt (h.days d hday) hgt).mp hcovers with ⟨rfl, hlow⟩ | ⟨rfl, hhigh⟩
      · exact Or.inl ⟨hday, hlow⟩
      · exact Or.inr ⟨hday, hhigh⟩

end Window

/-- **The schedule is up in its windows.** -/
theorem isUp_iff {windows : List Window} (h : ∀ window ∈ windows, window.Weekly) (now : ℚ) :
    isUp windows now = true ↔ ∃ window ∈ windows, ∃ d ∈ window.days, ∃ k : Int,
      1440 * d + window.start ≤ minuteOfWeek now + 10080 * k ∧
        minuteOfWeek now + 10080 * k <
          1440 * d + window.stop + if window.stop < window.start then 1440 else 0 := by
  rw [isUp, List.any_eq_true]
  exact exists_congr fun window => and_congr_right fun hwindow => (h window hwindow).holds_iff

/-- Friday night, read on a Saturday at 5:59. -/
theorem isUp_iff_sample : ∃ window ∈ [Window.mk {4} 1320 360], ∃ d ∈ window.days, ∃ k : Int,
    1440 * d + window.start ≤ minuteOfWeek 453540 + 10080 * k ∧
      minuteOfWeek 453540 + 10080 * k <
        1440 * d + window.stop + if window.stop < window.start then 1440 else 0 := by
  have hweekly : ∀ window ∈ [Window.mk {4} 1320 360], window.Weekly := by
    intro window hwindow
    obtain rfl := List.mem_singleton.mp hwindow
    exact ⟨by decide, by decide, by decide, by decide⟩
  exact (isUp_iff hweekly 453540).mp (by decide +kernel)

end Taas.Box
