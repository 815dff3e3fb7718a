import Mathlib.Logic.Function.Basic
import Mathlib.Data.List.Perm.Basic

/-!
# A memory of objects

An address is given out at most once: it is unused, it holds an object, or its object was freed.
Reading, writing or freeing at an address that holds no object is undefined.
-/

universe u

inductive Cell (α : Type u) where
  | unused
  | live (object : α)
  | freed

structure Heap (α : Type u) where
  cells : Nat → Cell α
  /-- From here on no address has been given out. -/
  next : Nat
  unused_of_le : ∀ address, next ≤ address → cells address = .unused

namespace Heap

variable {α : Type u}

def empty : Heap α where
  cells := fun _ => .unused
  next := 0
  unused_of_le := fun _ _ => rfl

/-- Reads the object at an address. -/
def get? (heap : Heap α) (address : Nat) : Option α :=
  match heap.cells address with
  | .live object => some object
  | _ => none

def write (heap : Heap α) (address : Nat) (cell : Cell α) : Heap α where
  cells := Function.update heap.cells address cell
  next := max heap.next (address + 1)
  unused_of_le := by
    intro other hother
    rw [Function.update_of_ne (by omega)]
    exact heap.unused_of_le other (by omega)

/-- Allocates an object at an address that was not given out before. -/
def place (heap : Heap α) (address : Nat) (object : α) : Option (Heap α) :=
  match heap.cells address with
  | .unused => some (heap.write address (.live object))
  | _ => none

/-- Allocates an object somewhere. -/
def alloc (heap : Heap α) (object : α) : Nat × Heap α :=
  (heap.next, heap.write heap.next (.live object))

/-- Changes the object at an address. -/
def modify (heap : Heap α) (address : Nat) (f : α → α) : Option (Heap α) :=
  (heap.get? address).map fun object => heap.write address (.live (f object))

def free (heap : Heap α) (address : Nat) : Option (Heap α) :=
  (heap.get? address).map fun _ => heap.write address .freed

/-- Frees the objects at some addresses, one after another. -/
def freeAll (heap : Heap α) : List Nat → Option (Heap α)
  | [] => some heap
  | address :: addresses => (heap.free address).bind fun heap => heap.freeAll addresses

variable {heap : Heap α} {address other : Nat} {object : α}

theorem get?_eq_some_iff : heap.get? address = some object ↔ heap.cells address = .live object := by
  unfold get?
  cases heap.cells address <;> simp

theorem cells_write_self (heap : Heap α) (address : Nat) (cell : Cell α) :
    (heap.write address cell).cells address = cell :=
  Function.update_self ..

theorem cells_write_of_ne (heap : Heap α) (cell : Cell α) (hne : other ≠ address) :
    (heap.write address cell).cells other = heap.cells other :=
  Function.update_of_ne hne ..

@[simp]
theorem get?_write_live (heap : Heap α) (address : Nat) (object : α) :
    (heap.write address (.live object)).get? address = some object :=
  get?_eq_some_iff.mpr (heap.cells_write_self address _)

@[simp]
theorem get?_write_freed (heap : Heap α) (address : Nat) :
    (heap.write address .freed).get? address = none := by
  simp [get?, cells_write_self]

theorem get?_write_of_ne (heap : Heap α) (cell : Cell α) (hne : other ≠ address) :
    (heap.write address cell).get? other = heap.get? other := by
  rw [get?, get?, heap.cells_write_of_ne cell hne]

theorem get?_of_unused (hunused : heap.cells address = .unused) : heap.get? address = none := by
  rw [get?, hunused]

theorem place_of_unused (hunused : heap.cells address = .unused) (object : α) :
    heap.place address object = some (heap.write address (.live object)) := by
  rw [place, hunused]

theorem modify_of_live (hlive : heap.get? address = some object) (f : α → α) :
    heap.modify address f = some (heap.write address (.live (f object))) := by
  rw [modify, hlive, Option.map_some]

theorem free_of_live (hlive : heap.get? address = some object) :
    heap.free address = some (heap.write address .freed) := by
  rw [free, hlive, Option.map_some]

theorem lt_next_of_live (hlive : heap.get? address = some object) : address < heap.next := by
  by_contra hle
  rw [get?_of_unused (heap.unused_of_le address (Nat.not_lt.mp hle))] at hlive
  cases hlive

/-! ### Owners -/

/-- Each of some addresses holds an object, no two of them are the same, and no other address holds
one: whoever keeps them owns all there is. -/
structure OwnedBy (heap : Heap α) (owners : List Nat) : Prop where
  nodup : owners.Nodup
  live_iff : ∀ address, (heap.get? address).isSome ↔ address ∈ owners

theorem OwnedBy.perm {owners others : List Nat} (h : heap.OwnedBy owners)
    (hperm : owners.Perm others) : heap.OwnedBy others where
  nodup := hperm.nodup_iff.mp h.nodup
  live_iff address := (h.live_iff address).trans hperm.mem_iff

theorem OwnedBy.place {owners : List Nat} (h : heap.OwnedBy owners)
    (hunused : heap.cells address = .unused) (object : α) :
    (heap.write address (.live object)).OwnedBy (address :: owners) where
  nodup := by
    refine List.nodup_cons.mpr ⟨fun hmem => ?_, h.nodup⟩
    have hlive := (h.live_iff address).mpr hmem
    rw [get?_of_unused hunused] at hlive
    cases hlive
  live_iff other := by
    by_cases hother : other = address
    · simp [hother]
    · rw [get?_write_of_ne heap _ hother, h.live_iff, List.mem_cons]
      simp [hother]

theorem OwnedBy.modify {owners : List Nat} (h : heap.OwnedBy owners)
    (hlive : heap.get? address = some object) (new : α) :
    (heap.write address (.live new)).OwnedBy owners where
  nodup := h.nodup
  live_iff other := by
    by_cases hother : other = address
    · subst hother
      have hmem := (h.live_iff other).mp (Option.isSome_of_eq_some hlive)
      simp [hmem]
    · rw [get?_write_of_ne heap _ hother, h.live_iff]

theorem OwnedBy.exists_object {owners : List Nat} (h : heap.OwnedBy owners)
    (hmem : address ∈ owners) : ∃ object, heap.get? address = some object :=
  Option.isSome_iff_exists.mp ((h.live_iff address).mpr hmem)

theorem OwnedBy.free {owners : List Nat} (h : heap.OwnedBy (address :: owners)) :
    (heap.write address .freed).OwnedBy owners where
  nodup := (List.nodup_cons.mp h.nodup).2
  live_iff other := by
    by_cases hother : other = address
    · subst hother
      simp [(List.nodup_cons.mp h.nodup).1]
    · rw [get?_write_of_ne heap _ hother, h.live_iff, List.mem_cons]
      simp [hother]

/-- Whoever owns all there is can free it, and nothing is left. -/
theorem OwnedBy.freeAll {owners : List Nat} (h : heap.OwnedBy owners) :
    ∃ emptied, heap.freeAll owners = some emptied ∧ ∀ address, emptied.get? address = none := by
  induction owners generalizing heap with
  | nil =>
      refine ⟨heap, rfl, fun address => ?_⟩
      rw [← Option.not_isSome_iff_eq_none, h.live_iff]
      exact List.not_mem_nil
  | cons first owners ih =>
      obtain ⟨object, hobject⟩ := h.exists_object List.mem_cons_self
      obtain ⟨emptied, hfreed, hnone⟩ := ih h.free
      refine ⟨emptied, ?_, hnone⟩
      rw [Heap.freeAll, free_of_live hobject, Option.bind_some, hfreed]

end Heap
