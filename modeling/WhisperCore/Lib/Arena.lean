import Mathlib.Data.List.Basic
import Mathlib.Data.List.Nodup

/-!
# Lists of allocated objects

A program that keeps pointers to the objects of a list needs two readings of it: as a list, searched
from the front, and as a memory, read and written at an address. An arena is such a list; each
object stands in it with the address it was allocated at, and no address is given out twice.
-/

universe u

structure Arena (α : Type u) where
  entries : List (Nat × α)
  /-- The next address to give out. -/
  next : Nat
  nodup : (entries.map Prod.fst).Nodup
  lt_next : ∀ entry ∈ entries, entry.1 < next

namespace Arena

variable {α : Type u}

def empty : Arena α where
  entries := []
  next := 0
  nodup := List.nodup_nil
  lt_next := by simp

/-- Allocates an object and appends it to the list. -/
def add (arena : Arena α) (object : α) : Arena α where
  entries := arena.entries ++ [(arena.next, object)]
  next := arena.next + 1
  nodup := by
    rw [List.map_append, List.nodup_append]
    refine ⟨arena.nodup, List.nodup_singleton _, ?_⟩
    intro address haddress other hother
    obtain ⟨entry, hentry, rfl⟩ := List.mem_map.mp haddress
    obtain rfl : other = arena.next := by simpa using hother
    exact Nat.ne_of_lt (arena.lt_next entry hentry)
  lt_next := by
    intro entry hentry
    rcases List.mem_append.mp hentry with hold | hnew
    · exact Nat.lt_succ_of_lt (arena.lt_next entry hold)
    · obtain rfl := List.mem_singleton.mp hnew
      exact Nat.lt_succ_self _

private theorem map_fst_write (entries : List (Nat × α)) (address : Nat) (object : α) :
    (entries.map fun entry => if entry.1 = address then (address, object) else entry).map Prod.fst
      = entries.map Prod.fst := by
  rw [List.map_map]
  apply List.map_congr_left
  intro entry _
  by_cases h : entry.1 = address <;> simp [h]

/-- Writes the object at an address; does nothing where no object stands. -/
def set (arena : Arena α) (address : Nat) (object : α) : Arena α where
  entries := arena.entries.map fun entry =>
    if entry.1 = address then (address, object) else entry
  next := arena.next
  nodup := by rw [map_fst_write]; exact arena.nodup
  lt_next := by
    intro entry hentry
    have hmem : entry.1 ∈ arena.entries.map Prod.fst := by
      rw [← map_fst_write arena.entries address object]
      exact List.mem_map_of_mem hentry
    obtain ⟨old, hold, heq⟩ := List.mem_map.mp hmem
    exact heq ▸ arena.lt_next old hold

/-- Takes the first object that satisfies a test out of the list; its address is not given out
again. -/
def removeFirst (arena : Arena α) (test : α → Bool) : Arena α where
  entries := arena.entries.eraseP fun entry => test entry.2
  next := arena.next
  nodup := arena.nodup.sublist (List.eraseP_sublist.map Prod.fst)
  lt_next := fun entry hentry => arena.lt_next entry (List.mem_of_mem_eraseP hentry)

/-- Reads the object at an address. -/
def get? (arena : Arena α) (address : Nat) : Option α :=
  (arena.entries.find? fun entry => entry.1 = address).map Prod.snd

/-- The first object that satisfies a test, with its address. -/
def find? (arena : Arena α) (test : α → Bool) : Option (Nat × α) :=
  arena.entries.find? fun entry => test entry.2

/-- All objects that satisfy a test, with their addresses. -/
def select (arena : Arena α) (test : α → Bool) : List (Nat × α) :=
  arena.entries.filter fun entry => test entry.2

theorem get?_eq_some_iff {arena : Arena α} {address : Nat} {object : α} :
    arena.get? address = some object ↔ (address, object) ∈ arena.entries := by
  have hfind : ∀ entries : List (Nat × α), (entries.map Prod.fst).Nodup →
      ((entries.find? fun entry => entry.1 = address).map Prod.snd = some object
        ↔ (address, object) ∈ entries) := by
    intro entries hnodup
    induction entries with
    | nil => simp
    | cons entry entries ih =>
        rw [List.map_cons, List.nodup_cons] at hnodup
        obtain ⟨hnotMem, hnodup⟩ := hnodup
        by_cases haddress : entry.1 = address
        · have habsent : (address, object) ∉ entries := fun hmem =>
            hnotMem (haddress ▸ List.mem_map_of_mem hmem)
          subst haddress
          simp [habsent, Prod.ext_iff, eq_comm]
        · have hne : (address, object) ≠ entry := fun heq => haddress (by rw [← heq])
          simp [haddress, hne, ih hnodup]
  exact hfind arena.entries arena.nodup

theorem get?_add_eq_some_iff {arena : Arena α} {address : Nat} {new object : α} :
    (arena.add new).get? address = some object
      ↔ arena.get? address = some object ∨ (address = arena.next ∧ object = new) := by
  rw [get?_eq_some_iff, get?_eq_some_iff]
  simp [add]

@[simp]
theorem get?_add_next (arena : Arena α) (object : α) :
    (arena.add object).get? arena.next = some object :=
  get?_add_eq_some_iff.mpr (Or.inr ⟨rfl, rfl⟩)

theorem get?_set_eq_some_iff {arena : Arena α} {address other : Nat} {new object : α} :
    (arena.set address new).get? other = some object
      ↔ (other ≠ address ∧ arena.get? other = some object)
        ∨ (other = address ∧ object = new ∧ (arena.get? address).isSome) := by
  rw [get?_eq_some_iff]
  simp only [set, List.mem_map]
  constructor
  · rintro ⟨⟨old, content⟩, hmem, heq⟩
    by_cases hold : old = address
    · subst hold
      simp only [if_true, Prod.mk.injEq] at heq
      obtain ⟨rfl, rfl⟩ := heq
      exact Or.inr ⟨rfl, rfl, Option.isSome_iff_exists.mpr ⟨content, get?_eq_some_iff.mpr hmem⟩⟩
    · simp only [hold, if_false, Prod.mk.injEq] at heq
      obtain ⟨rfl, rfl⟩ := heq
      exact Or.inl ⟨hold, get?_eq_some_iff.mpr hmem⟩
  · rintro (⟨hne, hget⟩ | ⟨rfl, rfl, hsome⟩)
    · exact ⟨(other, object), get?_eq_some_iff.mp hget, by simp [hne]⟩
    · obtain ⟨content, hcontent⟩ := Option.isSome_iff_exists.mp hsome
      exact ⟨(other, content), get?_eq_some_iff.mp hcontent, by simp⟩

theorem get?_set_self {arena : Arena α} {address : Nat} {old : α} (object : α)
    (h : arena.get? address = some old) : (arena.set address object).get? address = some object :=
  get?_set_eq_some_iff.mpr (Or.inr ⟨rfl, rfl, by simp [h]⟩)

theorem get?_set_of_ne {arena : Arena α} {address other : Nat} (object : α)
    (hne : other ≠ address) : (arena.set address object).get? other = arena.get? other := by
  apply Option.ext
  intro content
  rw [get?_set_eq_some_iff]
  exact ⟨fun h => (h.resolve_right fun h => hne h.1).2, fun h => Or.inl ⟨hne, h⟩⟩

/-- A search that succeeds returns an object of the arena that passes the test. -/
theorem get?_of_find? {arena : Arena α} {test : α → Bool} {address : Nat} {object : α}
    (h : arena.find? test = some (address, object)) :
    arena.get? address = some object ∧ test object = true :=
  ⟨get?_eq_some_iff.mpr (List.mem_of_find?_eq_some h), by simpa using List.find?_some h⟩

theorem not_of_find?_eq_none {arena : Arena α} {test : α → Bool} (h : arena.find? test = none)
    {address : Nat} {object : α} (hget : arena.get? address = some object) :
    test object = false := by
  have hentry := List.find?_eq_none.mp h (address, object) (get?_eq_some_iff.mp hget)
  simpa using hentry

theorem get?_next (arena : Arena α) : arena.get? arena.next = none := by
  apply Option.eq_none_iff_forall_ne_some.mpr
  intro object hget
  exact Nat.lt_irrefl _ (arena.lt_next _ (get?_eq_some_iff.mp hget))

theorem find?_eq_none_iff {arena : Arena α} {test : α → Bool} :
    arena.find? test = none ↔ ∀ address object, arena.get? address = some object →
      test object = false := by
  constructor
  · intro h address object hget
    exact not_of_find?_eq_none h hget
  · intro h
    apply List.find?_eq_none.mpr
    rintro ⟨address, object⟩ hentry
    simpa using h address object (get?_eq_some_iff.mpr hentry)

theorem isSome_get?_add {arena : Arena α} {address : Nat} {new : α} :
    ((arena.add new).get? address).isSome
      ↔ (arena.get? address).isSome ∨ address = arena.next := by
  simp only [Option.isSome_iff_exists, get?_add_eq_some_iff]
  constructor
  · rintro ⟨object, hold | ⟨rfl, _⟩⟩
    · exact Or.inl ⟨object, hold⟩
    · exact Or.inr rfl
  · rintro (⟨object, hold⟩ | rfl)
    · exact ⟨object, Or.inl hold⟩
    · exact ⟨new, Or.inr ⟨rfl, rfl⟩⟩

theorem isSome_get?_set {arena : Arena α} {address other : Nat} {new : α} :
    ((arena.set address new).get? other).isSome ↔ (arena.get? other).isSome := by
  by_cases hother : other = address
  · subst hother
    simp only [Option.isSome_iff_exists, get?_set_eq_some_iff]
    simp
  · rw [get?_set_of_ne new hother]

/-! ### Removal -/

theorem removeFirst_of_find?_eq_none {arena : Arena α} {test : α → Bool}
    (h : arena.find? test = none) : arena.removeFirst test = arena := by
  have hentries : arena.entries.eraseP (fun entry => test entry.2) = arena.entries :=
    List.eraseP_of_forall_not (List.find?_eq_none.mp h)
  obtain ⟨entries, next, _, _⟩ := arena
  simp only [removeFirst] at hentries ⊢
  congr

/-- The object found is gone, the others are where they were. -/
theorem get?_removeFirst_eq_some_iff {arena : Arena α} {test : α → Bool} {target address : Nat}
    {found object : α} (h : arena.find? test = some (target, found)) :
    (arena.removeFirst test).get? address = some object
      ↔ address ≠ target ∧ arena.get? address = some object := by
  obtain ⟨hpass, before, after, hsplit, hbefore⟩ := List.find?_eq_some_iff_append.mp h
  have herase : (arena.removeFirst test).entries = before ++ after := by
    calc arena.entries.eraseP (fun entry => test entry.2)
        = (before ++ (target, found) :: after).eraseP fun entry => test entry.2 := by rw [hsplit]
      _ = before ++ ((target, found) :: after).eraseP fun entry => test entry.2 :=
          List.eraseP_append_right _ (by simpa using hbefore)
      _ = before ++ after := congrArg (before ++ ·) (List.eraseP_cons_of_pos hpass)
  have hnodup := arena.nodup
  rw [hsplit, List.map_append, List.map_cons, List.nodup_middle, List.nodup_cons,
    List.mem_append, not_or] at hnodup
  obtain ⟨⟨hnotBefore, hnotAfter⟩, _⟩ := hnodup
  rw [get?_eq_some_iff, get?_eq_some_iff, herase, hsplit]
  simp only [List.mem_append, List.mem_cons, Prod.mk.injEq]
  constructor
  · intro hmem
    refine ⟨?_, hmem.imp_right Or.inr⟩
    rintro rfl
    rcases hmem with hmem | hmem
    · exact hnotBefore (List.mem_map.mpr ⟨_, hmem, rfl⟩)
    · exact hnotAfter (List.mem_map.mpr ⟨_, hmem, rfl⟩)
  · rintro ⟨hne, hmem | ⟨rfl, _⟩ | hmem⟩
    · exact Or.inl hmem
    · exact absurd rfl hne
    · exact Or.inr hmem

/-! ### Copies -/

section Copies

variable {β : Type*} (f : α → β)

/-- A function applied to every object in its place. -/
def map (arena : Arena α) : Arena β where
  entries := arena.entries.map fun entry => (entry.1, f entry.2)
  next := arena.next
  nodup := by
    rw [List.map_map]
    exact arena.nodup
  lt_next := by
    intro entry hentry
    obtain ⟨old, hold, rfl⟩ := List.mem_map.mp hentry
    exact arena.lt_next old hold

theorem ext {arena other : Arena α} (hentries : arena.entries = other.entries)
    (hnext : arena.next = other.next) : arena = other := by
  cases arena
  cases other
  congr

theorem map_add (arena : Arena α) (object : α) :
    (arena.add object).map f = (arena.map f).add (f object) := by
  apply Arena.ext
  · simp [map, add]
  · rfl

theorem map_set (arena : Arena α) (address : Nat) (object : α) :
    (arena.set address object).map f = (arena.map f).set address (f object) := by
  apply Arena.ext
  · simp only [map, set, List.map_map]
    apply List.map_congr_left
    intro entry _
    by_cases haddress : entry.1 = address <;> simp [haddress]
  · rfl

theorem get?_map (arena : Arena α) (address : Nat) :
    (arena.map f).get? address = (arena.get? address).map f := by
  rw [get?, get?, map, List.find?_map, Option.map_map, Option.map_map]
  rfl

theorem find?_map (arena : Arena α) (test : β → Bool) :
    (arena.map f).find? test
      = (arena.find? fun object => test (f object)).map fun entry => (entry.1, f entry.2) := by
  rw [find?, find?, map, List.find?_map]
  rfl

end Copies

/-! ### Images -/

section Images

variable {β : Type*} (f : α → β)

/-- What a function makes of the objects, in the order of the list. -/
def image (arena : Arena α) : List β := arena.entries.map fun entry => f entry.2

variable {f}

theorem mem_image {arena : Arena α} {b : β} :
    b ∈ arena.image f ↔ ∃ address object, arena.get? address = some object ∧ f object = b := by
  constructor
  · intro hmem
    obtain ⟨⟨address, object⟩, hentry, rfl⟩ := List.mem_map.mp hmem
    exact ⟨address, object, get?_eq_some_iff.mpr hentry, rfl⟩
  · rintro ⟨address, object, hget, rfl⟩
    exact List.mem_map.mpr ⟨(address, object), get?_eq_some_iff.mp hget, rfl⟩

theorem image_add (arena : Arena α) (object : α) :
    (arena.add object).image f = arena.image f ++ [f object] := by
  simp [image, add]

/-- A write that keeps the image of the object keeps the image of the list. -/
theorem image_set {arena : Arena α} {address : Nat} {old new : α}
    (hget : arena.get? address = some old) (hsame : f new = f old) :
    (arena.set address new).image f = arena.image f := by
  simp only [image, set, List.map_map]
  apply List.map_congr_left
  rintro ⟨other, content⟩ hentry
  by_cases haddress : other = address
  · subst haddress
    obtain rfl : old = content :=
      Option.some.inj (hget.symm.trans (get?_eq_some_iff.mpr hentry))
    simp [hsame]
  · simp [haddress]

end Images

/-! ### Selections -/

theorem find?_eq_head?_select (arena : Arena α) (test : α → Bool) :
    arena.find? test = (arena.select test).head? :=
  List.head?_filter.symm

theorem mem_select {arena : Arena α} {test : α → Bool} {address : Nat} {object : α} :
    (address, object) ∈ arena.select test
      ↔ arena.get? address = some object ∧ test object = true := by
  rw [select, List.mem_filter, get?_eq_some_iff]

theorem select_add (arena : Arena α) (test : α → Bool) (object : α) :
    (arena.add object).select test
      = arena.select test ++ if test object then [(arena.next, object)] else [] := by
  simp only [select, add, List.filter_append, List.filter_singleton]
  cases test object <;> rfl

/-- A write that does not change what a test says of the object changes one entry of the selection,
at most. -/
theorem select_set {arena : Arena α} {test : α → Bool} {address : Nat} {old new : α}
    (hget : arena.get? address = some old) (htest : test new = test old) :
    (arena.set address new).select test
      = (arena.select test).map fun entry =>
          if entry.1 = address then (address, new) else entry := by
  simp only [select, set, List.filter_map]
  congr 1
  apply List.filter_congr
  intro entry hentry
  by_cases haddress : entry.1 = address
  · obtain ⟨other, content⟩ := entry
    obtain rfl : other = address := haddress
    obtain rfl : old = content :=
      Option.some.inj (hget.symm.trans (get?_eq_some_iff.mpr hentry))
    simp [htest]
  · simp [haddress]

theorem select_set_of_false {arena : Arena α} {test : α → Bool} {address : Nat} {old new : α}
    (hget : arena.get? address = some old) (hold : test old = false) (hnew : test new = false) :
    (arena.set address new).select test = arena.select test := by
  rw [select_set hget (hnew.trans hold.symm)]
  have hkept : ∀ entry ∈ arena.select test,
      (if entry.1 = address then (address, new) else entry) = entry := by
    rintro ⟨other, content⟩ hentry
    obtain ⟨hother, hpass⟩ := mem_select.mp hentry
    apply if_neg
    rintro rfl
    obtain rfl : old = content := Option.some.inj (hget.symm.trans hother)
    simp [hold] at hpass
  rw [List.map_congr_left hkept, List.map_id']

theorem select_set_of_eq_singleton {arena : Arena α} {test : α → Bool} {address : Nat}
    {old new : α} (hselect : arena.select test = [(address, old)]) (hnew : test new = true) :
    (arena.set address new).select test = [(address, new)] := by
  obtain ⟨hget, hold⟩ := mem_select.mp (hselect ▸ List.mem_singleton_self (address, old))
  rw [select_set hget (hnew.trans hold.symm), hselect]
  simp

end Arena
