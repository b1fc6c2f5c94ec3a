import Mathlib.Data.ZMod.Defs

/-!
Schedules given by a `Crontab`, which counts the weekdays from Monday, and the
schedules of Celery that are made of them, which count from Sunday. The values of
a field are passed on as numbers, so every named weekday is taken for the one
before it.
-/

namespace Spakky.Celery

/-- `None`, which stands for every value, or a non-empty tuple of values. -/
abbrev CrontabField (α : Type) := Option { values : List α // values ≠ [] }

def CrontabField.admits {α : Type} (field : CrontabField α) (value : α) : Prop :=
  ∀ values, field = some values → value ∈ values.1

/-- A `Weekday` counts from Monday, a `Month` from January, both from 0 here. -/
structure Crontab where
  month : CrontabField (Fin 12) := none
  day : CrontabField Nat := none
  weekday : CrontabField (Fin 7) := none
  hour : Fin 24 := 0
  minute : Fin 60 := 0

def isLeap (year : Nat) : Bool := year % 4 == 0 && (year % 100 != 0 || year % 400 == 0)

def daysInMonth (year : Nat) (month : Fin 12) : Nat :=
  match month.val with
  | 1 => if isLeap year then 29 else 28
  | 3 | 5 | 8 | 10 => 30
  | _ => 31

def daysBeforeYear (year : Nat) : Nat :=
  (year - 1) * 365 + (year - 1) / 4 - (year - 1) / 100 + (year - 1) / 400

def daysBeforeMonth (year : Nat) (month : Fin 12) : Nat :=
  (((List.finRange 12).take month.val).map (daysInMonth year)).sum

/-- A time of the calendar, at the resolution of minutes. -/
structure Time where
  year : Nat
  month : Fin 12
  day : Nat
  hour : Fin 24
  minute : Fin 60
  positive : 1 ≤ year ∧ 1 ≤ day
  inMonth : day ≤ daysInMonth year month

/-- `date.weekday`: Monday is 0, as the first day of the calendar was one. -/
def Time.weekday (time : Time) : Fin 7 :=
  Fin.ofNat 7
    (daysBeforeYear time.year + (daysBeforeMonth time.year time.month + time.day + 6))

def Crontab.Satisfied (cron : Crontab) (time : Time) : Prop :=
  cron.month.admits time.month ∧ cron.day.admits time.day ∧ cron.weekday.admits time.weekday ∧
    time.hour = cron.hour ∧ time.minute = cron.minute

/-- A schedule of Celery, which counts the weekdays from Sunday. -/
structure CeleryCrontab where
  monthOfYear : CrontabField (Fin 12)
  dayOfMonth : CrontabField Nat
  dayOfWeek : CrontabField (Fin 7)
  hour : Fin 24
  minute : Fin 60

/-- All fields of the schedule have the value of the time. -/
def CeleryCrontab.Matches (schedule : CeleryCrontab) (time : Time) : Prop :=
  schedule.monthOfYear.admits time.month ∧ schedule.dayOfMonth.admits time.day ∧
    schedule.dayOfWeek.admits (time.weekday + 1) ∧ time.hour = schedule.hour ∧
    time.minute = schedule.minute

def crontabToCelery (cron : Crontab) : CeleryCrontab where
  monthOfYear := cron.month
  dayOfMonth := cron.day
  dayOfWeek := cron.weekday
  hour := cron.hour
  minute := cron.minute

theorem daysInMonth_le_leap {year leap : Nat} (hleap : isLeap leap = true) (month : Fin 12) :
    daysInMonth year month ≤ daysInMonth leap month := by
  unfold daysInMonth
  split
  · split
    · exact le_rfl
    · simp
  all_goals exact le_rfl

/-- The first days of seven successive leap years are on different weekdays. -/
theorem exists_leap_year : ∀ offset weekday : Fin 7, ∃ step : Fin 7,
    isLeap (2000 + 4 * step.val) = true ∧
      Fin.ofNat 7 (daysBeforeYear (2000 + 4 * step.val) + offset.val) = weekday := by
  decide

theorem daysBeforeMonth_leap {year leap : Nat} (hyear : isLeap year = true)
    (hleap : isLeap leap = true) (month : Fin 12) :
    daysBeforeMonth year month = daysBeforeMonth leap month := by
  have hsame : daysInMonth year = daysInMonth leap := by
    funext month
    rw [daysInMonth, daysInMonth, hyear, hleap]
  rw [daysBeforeMonth, daysBeforeMonth, hsame]

/-- A day of a month that exists in some year falls on every weekday. -/
theorem exists_time (time : Time) (weekday : Fin 7) (hour : Fin 24) (minute : Fin 60) :
    ∃ other : Time, other.month = time.month ∧ other.day = time.day ∧
      other.weekday = weekday ∧ other.hour = hour ∧ other.minute = minute := by
  obtain ⟨step, hleap, hweekday⟩ := exists_leap_year
    (.ofNat 7 (daysBeforeMonth 2000 time.month + time.day + 6)) weekday
  refine ⟨⟨2000 + 4 * step.val, time.month, time.day, hour, minute, ⟨by omega, time.positive.2⟩,
    time.inMonth.trans (daysInMonth_le_leap hleap time.month)⟩, rfl, rfl, ?_, rfl, rfl⟩
  rw [← hweekday, Time.weekday, daysBeforeMonth_leap hleap (by decide : isLeap 2000 = true)]
  apply Fin.ext
  simp only [Fin.val_ofNat]
  rw [Nat.add_mod_mod]

/-- What is closed under the next weekday is empty or has all of them. -/
theorem all_of_closed {values : List (Fin 7)} (hnonempty : values ≠ [])
    (hclosed : ∀ weekday, weekday ∈ values ↔ weekday + 1 ∈ values) (weekday : Fin 7) :
    weekday ∈ values := by
  obtain ⟨first, hfirst⟩ := List.exists_mem_of_ne_nil values hnonempty
  have hsteps : ∀ steps : Nat, first + Fin.ofNat 7 steps ∈ values := by
    intro steps
    induction steps with
    | zero => simpa using hfirst
    | succ _ ih =>
      have hnext := (hclosed _).mp ih
      rw [add_assoc] at hnext
      convert hnext using 2
      apply Fin.ext
      simp [Fin.val_add]
  have hreached := hsteps (weekday - first).val
  simpa using hreached

/-- A schedule fires on the days that its `Crontab` names exactly if no weekdays
are named, or all of them, or no day of the calendar has a month and a day that
are named. -/
theorem schedule_faithful_iff (cron : Crontab) :
    (∀ time, (crontabToCelery cron).Matches time ↔ cron.Satisfied time) ↔
      (∀ weekdays, cron.weekday = some weekdays → ∀ weekday, weekday ∈ weekdays.1) ∨
        ¬ ∃ time : Time, cron.month.admits time.month ∧ cron.day.admits time.day := by
  constructor
  · intro hfaithful
    by_cases hnamed : ∃ time : Time, cron.month.admits time.month ∧ cron.day.admits time.day
    · obtain ⟨time, hmonth, hday⟩ := hnamed
      left
      intro weekdays hweekdays
      refine all_of_closed weekdays.2 fun weekday => ?_
      obtain ⟨other, hm, hd, hw, hhour, hminute⟩ := exists_time time weekday cron.hour cron.minute
      have hagrees := hfaithful other
      simp only [CeleryCrontab.Matches, Crontab.Satisfied, crontabToCelery, hm, hd, hw, hmonth,
        hday, hhour, hminute, true_and, and_true] at hagrees
      simpa [CrontabField.admits, hweekdays] using hagrees.symm
    · exact .inr hnamed
  · rintro (hall | hnone) time
    · have hany : ∀ weekday, cron.weekday.admits weekday :=
        fun weekday values hvalues => hall values hvalues weekday
      simp only [CeleryCrontab.Matches, Crontab.Satisfied, crontabToCelery, hany]
    · constructor
      · exact fun hmatches => absurd ⟨time, hmatches.1, hmatches.2.1⟩ hnone
      · exact fun hsatisfied => absurd ⟨time, hsatisfied.1, hsatisfied.2.1⟩ hnone

/-- Every Monday at midnight: the schedule fires on Sunday, 2 January 2000, and
not on Monday, 3 January 2000. -/
theorem monday_schedule_fires_on_sunday :
    let cron : Crontab := { weekday := some ⟨[0], by decide⟩ }
    let sunday : Time := ⟨2000, 0, 2, 0, 0, by decide, by decide⟩
    let monday : Time := ⟨2000, 0, 3, 0, 0, by decide, by decide⟩
    (crontabToCelery cron).Matches sunday ∧ ¬ cron.Satisfied sunday ∧
      ¬ (crontabToCelery cron).Matches monday ∧ cron.Satisfied monday := by
  simp only [CeleryCrontab.Matches, Crontab.Satisfied, crontabToCelery, CrontabField.admits]
  refine ⟨?_, ?_, ?_, ?_⟩ <;> simp <;> decide

end Spakky.Celery
