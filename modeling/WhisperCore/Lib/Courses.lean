import Mathlib.Data.List.GetD
import Mathlib.Order.Basic
import Mathlib.Order.Nat
import WhisperCore.Lib.Transition

/-!
# Runs that never end

On a run without end one can ask what happens at last. The rule here is by descent: a rank that no
step raises and that helpful steps lower comes down to zero, if as long as it is not zero a helpful
step is still to come.
-/

namespace Transition

variable {State Action : Type*}

/-- A run that never ends. -/
structure Course (step : State → Action → Option State) where
  states : Nat → State
  actions : Nat → Action
  step_eq : ∀ n, step (states n) (actions n) = some (states (n + 1))

variable {step : State → Action → Option State}

namespace Course

/-- A rank that no step raises is never higher than it was. -/
theorem never_rises (course : Course step) {Holds : Nat → State → Prop}
    (hstep : ∀ n rank, Holds rank (course.states n) →
      ∃ after ≤ rank, Holds after (course.states (n + 1)))
    {start rank : Nat} (h : Holds rank (course.states start)) {n : Nat} (hn : start ≤ n) :
    ∃ after ≤ rank, Holds after (course.states n) := by
  induction n, hn using Nat.le_induction with
  | base => exact ⟨rank, le_rfl, h⟩
  | succ n _ ih =>
      obtain ⟨middle, hmiddle, hn⟩ := ih
      obtain ⟨after, hafter, hsucc⟩ := hstep n middle hn
      exact ⟨after, hafter.trans hmiddle, hsucc⟩

/-- **Descent rule.** Where no step raises the rank, helpful steps lower it, and one of these is to
come as long as the rank is not zero, the rank is zero from some time on. -/
theorem reaches_zero (course : Course step) {Holds : Nat → State → Prop}
    {Helps : State → Action → Prop}
    (hstep : ∀ n rank, Holds rank (course.states n) →
      ∃ after ≤ rank, Holds after (course.states (n + 1)))
    (hhelps : ∀ n rank, Holds (rank + 1) (course.states n) →
      Helps (course.states n) (course.actions n) →
        ∃ after ≤ rank, Holds after (course.states (n + 1)))
    (hfair : ∀ n rank, Holds (rank + 1) (course.states n) →
      ∃ m ≥ n, Helps (course.states m) (course.actions m))
    {start rank : Nat} (h : Holds rank (course.states start)) :
    ∃ n ≥ start, ∀ m ≥ n, Holds 0 (course.states m) := by
  induction rank using Nat.strong_induction_on generalizing start with
  | _ rank ih =>
      cases rank with
      | zero =>
          refine ⟨start, le_rfl, fun m hm => ?_⟩
          obtain ⟨after, hafter, hm⟩ := course.never_rises hstep h hm
          exact Nat.le_zero.mp hafter ▸ hm
      | succ rank =>
          obtain ⟨m, hm, hhelp⟩ := hfair start rank h
          obtain ⟨middle, hmiddle, hholds⟩ := course.never_rises hstep h hm
          cases middle with
          | zero =>
              obtain ⟨n, hn, hzero⟩ := ih 0 (Nat.succ_pos rank) hholds
              exact ⟨n, le_trans hm hn, hzero⟩
          | succ middle =>
              obtain ⟨after, hafter, hnext⟩ := hhelps m middle hholds hhelp
              obtain ⟨n, hn, hzero⟩ := ih after (by omega) hnext
              exact ⟨n, by omega, hzero⟩

/-- A run that ends where an idle step leads back, and idles there. -/
def idling (start final : State) (actions : List Action) (idle : Action)
    (hrun : run step start actions = some final) (hidle : step final idle = some final) :
    Course step where
  states n := (run step start (actions.take n)).getD final
  actions n := actions.getD n idle
  step_eq n := by
    by_cases hn : n < actions.length
    · have hsplit : actions.take (n + 1) = actions.take n ++ [actions[n]] :=
        List.take_succ_eq_append_getElem hn
      have hwhole : actions = actions.take n ++ (actions[n] :: actions.drop (n + 1)) := by
        rw [List.getElem_cons_drop, List.take_append_drop]
      rw [hwhole, run_append, Option.bind_eq_some_iff] at hrun
      obtain ⟨middle, hmiddle, hrest⟩ := hrun
      obtain ⟨next, hnext, _⟩ := run_cons_eq_some.mp hrest
      have hsucc : run step start (actions.take (n + 1)) = some next := by
        rw [hsplit, run_append, hmiddle]
        simp [run, hnext]
      rw [hmiddle, hsucc, List.getD_eq_getElem _ _ hn]
      exact hnext
    · have hlong : actions.length ≤ n := Nat.le_of_not_lt hn
      rw [List.take_of_length_le hlong, List.take_of_length_le (Nat.le_succ_of_le hlong), hrun,
        List.getD_eq_default _ _ hlong]
      exact hidle

end Course

end Transition
