import Mathlib.Data.List.Destutter

/-!
# Sequences that walk along a list of phases

An observed sequence walks along a list of phases when it starts in the first one and each
observation stays in its phase or moves to the next. Its distinct successive observations are then
an initial segment of the list.
-/

namespace Phases

variable {α : Type*} [DecidableEq α]

/-- `observed` continues from the first phase of the list, staying or moving one phase on. -/
def Walks : List α → List α → Prop
  | _, [] => True
  | [], _ :: _ => False
  | phase :: phases, seen :: observed =>
      (seen = phase ∧ Walks (phase :: phases) observed)
        ∨ ∃ following later, phases = following :: later ∧ seen = following
          ∧ Walks (following :: later) observed

theorem destutter'_isPrefix {phase : α} {phases observed : List α}
    (hnodup : (phase :: phases).Nodup) (hwalks : Walks (phase :: phases) observed) :
    observed.destutter' (· ≠ ·) phase <+: phase :: phases := by
  induction observed generalizing phase phases with
  | nil => exact ⟨phases, rfl⟩
  | cons seen observed ih =>
      simp only [Walks] at hwalks
      rcases hwalks with ⟨rfl, hrest⟩ | ⟨following, later, rfl, rfl, hrest⟩
      · rw [List.destutter'_cons_neg _ (by simp)]
        exact ih hnodup hrest
      · have hne : phase ≠ seen := by
          intro heq
          simp [heq] at hnodup
        rw [List.destutter'_cons_pos _ hne]
        exact (List.prefix_cons_inj phase).mpr (ih hnodup.of_cons hrest)

/-- **Walks are monotone.** The distinct successive observations of a walk that starts in the first
phase are an initial segment of the phases. -/
theorem destutter_isPrefix {phase : α} {phases observed : List α}
    (hnodup : (phase :: phases).Nodup) (hwalks : Walks (phase :: phases) observed) :
    (phase :: observed).destutter (· ≠ ·) <+: phase :: phases :=
  destutter'_isPrefix hnodup hwalks

end Phases
