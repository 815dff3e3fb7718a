import Mathlib.Data.List.Basic

/-!
# Runs of a partial step function

A machine is a step function that may refuse an action. A run takes a list of actions; it is
undefined as soon as one of them is refused. Two predicates are carried along a run: `Along`, a
condition on the state and action of every step, and `Stays`, an invariant of every state visited.
When one step keeps the invariant exactly under the condition, so does every run.
-/

namespace Transition

variable {State Action : Type*} (step : State → Action → Option State)

def run : State → List Action → Option State
  | state, [] => some state
  | state, action :: actions => (step state action).bind fun next => run next actions

/-- The states a run visits, the first one included. -/
def trace : State → List Action → List State
  | state, [] => [state]
  | state, action :: actions =>
      state :: match step state action with
        | some next => trace next actions
        | none => []

/-- Every step the run takes meets the condition, in the state it is taken from. -/
def Along (Cond : State → Action → Prop) : State → List Action → Prop
  | _, [] => True
  | state, action :: actions =>
      Cond state action ∧ ∀ next, step state action = some next → Along Cond next actions

/-- No action of the run is refused, and the invariant holds in every state visited. -/
def Stays (Inv : State → Prop) : State → List Action → Prop
  | state, [] => Inv state
  | state, action :: actions =>
      Inv state ∧ ∃ next, step state action = some next ∧ Stays Inv next actions

@[simp]
theorem run_nil (state : State) : run step state [] = some state := rfl

theorem run_cons (state : State) (action : Action) (actions : List Action) :
    run step state (action :: actions)
      = (step state action).bind fun next => run step next actions := rfl

variable {step}

theorem run_cons_eq_some {state final : State} {action : Action} {actions : List Action} :
    run step state (action :: actions) = some final
      ↔ ∃ next, step state action = some next ∧ run step next actions = some final := by
  rw [run_cons, Option.bind_eq_some_iff]

theorem run_append {state : State} (first second : List Action) :
    run step state (first ++ second)
      = (run step state first).bind fun middle => run step middle second := by
  induction first generalizing state with
  | nil => rfl
  | cons action first ih =>
      rw [List.cons_append, run_cons, run_cons, Option.bind_assoc]
      congr 1
      funext next
      exact ih

/-- A condition on the actions alone. -/
theorem along_of_forall {Cond : Action → Prop} {actions : List Action}
    (h : ∀ action ∈ actions, Cond action) (state : State) :
    Along step (fun _ => Cond) state actions := by
  induction actions generalizing state with
  | nil => trivial
  | cons action actions ih =>
      refine ⟨h action List.mem_cons_self, fun next _ => ?_⟩
      exact ih (fun other hother => h other (List.mem_cons_of_mem action hother)) next

/-- **Invariant rule under a condition.** What every step that meets a condition preserves, every
run along the condition preserves. -/
theorem run_invariant_along {Inv : State → Prop} {Cond : State → Action → Prop}
    (hstep : ∀ state action next, Inv state → Cond state action →
      step state action = some next → Inv next)
    {state final : State} {actions : List Action} (halong : Along step Cond state actions)
    (hrun : run step state actions = some final) (hinv : Inv state) : Inv final := by
  induction actions generalizing state with
  | nil => exact Option.some.inj hrun ▸ hinv
  | cons action actions ih =>
      obtain ⟨next, hnext, hrest⟩ := run_cons_eq_some.mp hrun
      exact ih (halong.2 next hnext) hrest (hstep _ _ _ hinv halong.1 hnext)

/-- **Invariant rule.** What every step preserves, every run preserves. -/
theorem run_invariant {Inv : State → Prop}
    (hstep : ∀ state action next, Inv state → step state action = some next → Inv next)
    {state final : State} {actions : List Action}
    (hrun : run step state actions = some final) (hinv : Inv state) : Inv final := by
  have halong : Along step (fun _ _ => True) state actions :=
    along_of_forall (fun _ _ => trivial) state
  exact run_invariant_along (fun _ _ _ hinv _ => hstep _ _ _ hinv) halong hrun hinv

/-- **Simulation rule.** Where every step has a counterpart, every run has one. -/
theorem run_simulation {Other : Type*} {otherStep : Other → Action → Option Other}
    {Rel : State → Other → Prop}
    (hstep : ∀ state other action next, Rel state other → step state action = some next →
      ∃ otherNext, otherStep other action = some otherNext ∧ Rel next otherNext)
    {state final : State} {other : Other} {actions : List Action} (hrel : Rel state other)
    (hrun : run step state actions = some final) :
    ∃ otherFinal, run otherStep other actions = some otherFinal ∧ Rel final otherFinal := by
  induction actions generalizing state other with
  | nil => exact ⟨other, rfl, Option.some.inj hrun ▸ hrel⟩
  | cons action actions ih =>
      obtain ⟨next, hnext, hrest⟩ := run_cons_eq_some.mp hrun
      obtain ⟨otherNext, hotherNext, hrelNext⟩ := hstep _ _ _ _ hrel hnext
      obtain ⟨otherFinal, hotherRun, hrelFinal⟩ := ih hrelNext hrest
      exact ⟨otherFinal, run_cons_eq_some.mpr ⟨otherNext, hotherNext, hotherRun⟩, hrelFinal⟩

theorem along_append {Cond : State → Action → Prop} {state : State} (first second : List Action) :
    Along step Cond state (first ++ second)
      ↔ Along step Cond state first
        ∧ ∀ middle, run step state first = some middle → Along step Cond middle second := by
  induction first generalizing state with
  | nil => simp [Along]
  | cons action first ih =>
      simp only [List.cons_append, Along, ih, run_cons_eq_some]
      constructor
      · rintro ⟨hcond, hrest⟩
        refine ⟨⟨hcond, fun next hnext => (hrest next hnext).1⟩, ?_⟩
        rintro middle ⟨next, hnext, hmiddle⟩
        exact (hrest next hnext).2 middle hmiddle
      · rintro ⟨⟨hcond, hfirst⟩, hsecond⟩
        refine ⟨hcond, fun next hnext => ⟨hfirst next hnext, fun middle hmiddle => ?_⟩⟩
        exact hsecond middle ⟨next, hnext, hmiddle⟩

/-- Where the first of two conditions keeps an invariant under which both say the same of a step,
they say the same of a run. -/
theorem along_iff_of_invariant {Inv : State → Prop} {Cond Other : State → Action → Prop}
    (hexact : ∀ state action, Inv state → (Cond state action ↔ Other state action))
    (hstep : ∀ state action next, Inv state → Cond state action →
      step state action = some next → Inv next)
    {state : State} (hinv : Inv state) (actions : List Action) :
    Along step Cond state actions ↔ Along step Other state actions := by
  induction actions generalizing state with
  | nil => exact Iff.rfl
  | cons action actions ih =>
      constructor
      · rintro ⟨hcond, hrest⟩
        refine ⟨(hexact state action hinv).mp hcond, fun next hnext => ?_⟩
        exact (ih (hstep _ _ _ hinv hcond hnext)).mp (hrest next hnext)
      · rintro ⟨hother, hrest⟩
        have hcond := (hexact state action hinv).mpr hother
        refine ⟨hcond, fun next hnext => ?_⟩
        exact (ih (hstep _ _ _ hinv hcond hnext)).mpr (hrest next hnext)

/-- Two conditions that say the same of every step say the same of every run. -/
theorem along_congr {Cond Other : State → Action → Prop}
    (hcond : ∀ state action, Cond state action ↔ Other state action) (state : State)
    (actions : List Action) : Along step Cond state actions ↔ Along step Other state actions :=
  have hkept : ∀ state action next, True → Cond state action →
      step state action = some next → True := fun _ _ _ _ _ _ => trivial
  along_iff_of_invariant (fun state action _ => hcond state action) hkept trivial actions

/-- **Exact runs.** When a step from a good state is defined and ends in a good state exactly under
the condition, a run stays good exactly when all its steps meet the condition. -/
theorem stays_iff_along {Inv : State → Prop} {Cond : State → Action → Prop}
    (hexact : ∀ state action, Inv state →
      ((∃ next, step state action = some next ∧ Inv next) ↔ Cond state action))
    {state : State} (hinv : Inv state) (actions : List Action) :
    Stays step Inv state actions ↔ Along step Cond state actions := by
  induction actions generalizing state with
  | nil => exact ⟨fun _ => trivial, fun _ => hinv⟩
  | cons action actions ih =>
      constructor
      · rintro ⟨_, next, hnext, hrest⟩
        have hnextInv : Inv next := by
          cases actions with
          | nil => exact hrest
          | cons _ _ => exact hrest.1
        refine ⟨(hexact state action hinv).mp ⟨next, hnext, hnextInv⟩, fun other hother => ?_⟩
        obtain rfl : next = other := Option.some.inj (hnext.symm.trans hother)
        exact (ih hnextInv).mp hrest
      · rintro ⟨hcond, hrest⟩
        obtain ⟨next, hnext, hnextInv⟩ := (hexact state action hinv).mpr hcond
        exact ⟨hinv, next, hnext, (ih hnextInv).mpr (hrest next hnext)⟩

/-- What every step keeps may be added to an invariant. -/
theorem stays_iff_stays_and {Base Inv : State → Prop}
    (hkept : ∀ state action next, Base state → step state action = some next → Base next)
    {state : State} (hbase : Base state) (actions : List Action) :
    Stays step Inv state actions
      ↔ Stays step (fun state => Base state ∧ Inv state) state actions := by
  induction actions generalizing state with
  | nil => exact (and_iff_right hbase).symm
  | cons action actions ih =>
      constructor
      · rintro ⟨hinv, next, hnext, hrest⟩
        exact ⟨⟨hbase, hinv⟩, next, hnext, (ih (hkept _ _ _ hbase hnext)).mp hrest⟩
      · rintro ⟨⟨_, hinv⟩, next, hnext, hrest⟩
        exact ⟨hinv, next, hnext, (ih (hkept _ _ _ hbase hnext)).mpr hrest⟩

/-- Exact runs, where what every step keeps may be used about a step. -/
theorem stays_iff_along_of_kept {Base Inv : State → Prop} {Cond : State → Action → Prop}
    (hkept : ∀ state action next, Base state → step state action = some next → Base next)
    (hexact : ∀ state action, Base state → Inv state →
      ((∃ next, step state action = some next ∧ Inv next) ↔ Cond state action))
    {state : State} (hbase : Base state) (hinv : Inv state) (actions : List Action) :
    Stays step Inv state actions ↔ Along step Cond state actions := by
  rw [stays_iff_stays_and hkept hbase]
  refine stays_iff_along (fun state action h => ?_) ⟨hbase, hinv⟩ actions
  rw [← hexact state action h.1 h.2]
  constructor
  · rintro ⟨next, hnext, _, hnextInv⟩
    exact ⟨next, hnext, hnextInv⟩
  · rintro ⟨next, hnext, hnextInv⟩
    exact ⟨next, hnext, hkept _ _ _ h.1 hnext, hnextInv⟩

end Transition
