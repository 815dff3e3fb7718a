import Mathlib.Data.List.Basic

/-!
# Generators with a seed

A generator of the kind of `srand` and `rand`: its values are a fixed function of the seed it was
last given and of how many were taken since. What is drawn after a seeding therefore depends on the
seed alone, whatever was drawn before it.
-/

structure Generator (Seed : Type*) where
  seed : Seed
  position : Nat
deriving DecidableEq

namespace Generator

variable {Seed Value : Type*}

def seeded (seed : Seed) : Generator Seed where
  seed := seed
  position := 0

variable (stream : Seed → Nat → Value)

/-- The values a generator has yet to give. -/
def ahead (g : Generator Seed) : Nat → Value := fun j => stream g.seed (g.position + j)

/-- One value, and the generator after it. -/
def next (g : Generator Seed) : Value × Generator Seed :=
  (stream g.seed g.position, { g with position := g.position + 1 })

def draw : Nat → Generator Seed → List Value × Generator Seed
  | 0, g => ([], g)
  | count + 1, g =>
      let (value, g) := g.next stream
      let (values, g) := draw count g
      (value :: values, g)

theorem ahead_succ (g : Generator Seed) (j : Nat) :
    g.ahead stream (j + 1) = (g.next stream).2.ahead stream j := by
  simp only [ahead, next]
  congr 1
  omega

/-- A draw takes the values ahead, in order. -/
theorem draw_eq (count : Nat) (g : Generator Seed) :
    draw stream count g
      = ((List.range count).map (g.ahead stream),
        { g with position := g.position + count }) := by
  induction count generalizing g with
  | zero => rfl
  | succ count ih =>
      have hvalues : (List.range (count + 1)).map (g.ahead stream)
          = g.ahead stream 0 :: (List.range count).map ((g.next stream).2.ahead stream) := by
        rw [List.range_succ_eq_map, List.map_cons, List.map_map]
        congr 1
        apply List.map_congr_left
        intro j _
        exact ahead_succ stream g j
      have hposition : g.position + 1 + count = g.position + (count + 1) := by omega
      simp only [draw, hvalues, ih, next, hposition]
      rfl

end Generator
