import Mathlib.Tactic.Ring

/-!
# Periodic deadlines

A schedule has a deadline at the end of every period after its start. At a time as many have passed
as whole periods fit in between, so whoever acts once for each deadline that has passed has not
acted more often than that.
-/

structure Schedule where
  start : Int
  period : Int
  positive : 0 < period

namespace Schedule

variable (s : Schedule)

def deadline (k : Nat) : Int := s.start + (k + 1) * s.period

/-- How many deadlines have passed at a time. -/
def passed (time : Int) : Int := (time - s.start) / s.period

theorem deadline_succ (k : Nat) : s.deadline (k + 1) = s.deadline k + s.period := by
  simp only [deadline]
  push_cast
  ring

theorem deadline_le_iff {k : Nat} {time : Int} :
    s.deadline k ≤ time ↔ (k : Int) + 1 ≤ s.passed time := by
  rw [passed, Int.le_ediv_iff_mul_le s.positive, deadline]
  omega

theorem passed_nonneg {time : Int} (h : s.start ≤ time) : 0 ≤ s.passed time :=
  Int.ediv_nonneg (by omega) s.positive.le

/-- **Charging.** Who has acted no more often than there are earlier deadlines may act for one that
has passed. -/
theorem succ_le_passed {acts k : Nat} {time : Int} (hacts : acts ≤ k)
    (hpassed : s.deadline k ≤ time) : (acts : Int) + 1 ≤ s.passed time := by
  have hdeadline := s.deadline_le_iff.mp hpassed
  omega

end Schedule
