import Mathlib.Data.Set.Insert
import Mathlib.Logic.Function.Basic
import Mathlib.Order.WellFounded
import WhisperCore.Lib.Transition

/-!
# Calls under locks

Threads share resources, and each resource has a lock. A call takes locks, reads and writes what
they guard, and at its end gives its locks back and returns; so it never takes a lock after it has
given one back. Where every call takes its locks in one order and touches nothing it has not locked,
what the threads observe of their interleaved calls they could have observed of calls that are
served in one piece, and they never all wait for each other.
-/

namespace Monitor

variable {Lock Thread Op Answer : Type} {Res : Lock → Type}

/-- What is left of a call. -/
inductive Program (Res : Lock → Type) (Answer : Type) where
  | acquire (l : Lock) (rest : Program Res Answer)
  | access (l : Lock) (write : Res l → Option (Res l)) (rest : Res l → Program Res Answer)
  | finish (locks : List Lock) (answer : Answer)

/-- The call in one piece. -/
def Program.run [DecidableEq Lock] :
    Program Res Answer → ((l : Lock) → Res l) → Option (((l : Lock) → Res l) × Answer)
  | acquire _ rest, shared => rest.run shared
  | access l write rest, shared =>
      (write (shared l)).bind fun after => (rest (shared l)).run (Function.update shared l after)
  | finish _ answer, shared => some (shared, answer)

/-- The discipline: locks are taken in increasing order, only what is locked is touched, and in the
end every lock is given back once. -/
def Program.Orderly [Preorder Lock] : Program Res Answer → Set Lock → Prop
  | acquire l rest, held => (∀ k ∈ held, k < l) ∧ rest.Orderly (insert l held)
  | access l _ rest, held => l ∈ held ∧ ∀ value, (rest value).Orderly held
  | finish locks _, held => locks.Nodup ∧ ∀ l, l ∈ locks ↔ l ∈ held

/-- No access changes what `read` reads of the resources. -/
def Program.Spares [DecidableEq Lock] {α : Type} (read : ((l : Lock) → Res l) → α) :
    Program Res Answer → Prop
  | acquire _ rest => rest.Spares read
  | access l write rest =>
      (∀ shared after, write (shared l) = some after →
        read (Function.update shared l after) = read shared) ∧ ∀ value, (rest value).Spares read
  | finish _ _ => True

/-! ### Interleaved calls -/

inductive Activity (Res : Lock → Type) (Op Answer : Type) where
  | idle
  | working (op : Op) (rest : Program Res Answer)
  | leaving (op : Op) (locks : List Lock) (answer : Answer)

/-- What a thread observes. -/
inductive Observation (Thread Op Answer : Type) where
  | began (t : Thread) (op : Op)
  | returned (t : Thread) (op : Op) (answer : Answer)
deriving DecidableEq

structure Machine (Thread : Type) (Res : Lock → Type) (Op Answer : Type) where
  shared : (l : Lock) → Res l
  owner : Lock → Option Thread
  threads : Thread → Activity Res Op Answer
  history : List (Observation Thread Op Answer)

inductive Action (Thread Op : Type) where
  | begins (t : Thread) (op : Op)
  | moves (t : Thread)
  | returns (t : Thread)

section Steps

variable [DecidableEq Lock] [DecidableEq Thread]

namespace Machine

def start (shared : (l : Lock) → Res l) : Machine Thread Res Op Answer where
  shared := shared
  owner _ := none
  threads _ := .idle
  history := []

def setThread (c : Machine Thread Res Op Answer) (t : Thread) (activity : Activity Res Op Answer) :
    Machine Thread Res Op Answer :=
  { c with threads := Function.update c.threads t activity }

/-- One step of one thread; a lock that is not free is waited for. -/
def step (calls : Op → Program Res Answer) (c : Machine Thread Res Op Answer) :
    Action Thread Op → Option (Machine Thread Res Op Answer)
  | .begins t op =>
      match c.threads t with
      | .idle => some { c.setThread t (.working op (calls op)) with
          history := c.history ++ [.began t op] }
      | _ => none
  | .moves t =>
      match c.threads t with
      | .working op (.acquire l rest) =>
          if (c.owner l).isNone then
            some { c.setThread t (.working op rest) with
              owner := Function.update c.owner l (some t) }
          else none
      | .working op (.access l write rest) =>
          (write (c.shared l)).map fun after =>
            { c.setThread t (.working op (rest (c.shared l))) with
              shared := Function.update c.shared l after }
      | .working op (.finish locks answer) => some (c.setThread t (.leaving op locks answer))
      | .leaving op (l :: locks) answer =>
          some { c.setThread t (.leaving op locks answer) with
            owner := Function.update c.owner l none }
      | _ => none
  | .returns t =>
      match c.threads t with
      | .leaving op [] answer => some { c.setThread t .idle with
          history := c.history ++ [.returned t op answer] }
      | _ => none

end Machine

/-! ### Calls in one piece -/

inductive Status (Op Answer : Type) where
  | idle
  | called (op : Op)
  | served (op : Op) (answer : Answer)

/-- A server that serves each call in one step, at some time between its beginning and its
return. -/
structure Server (Thread : Type) (Res : Lock → Type) (Op Answer : Type) where
  shared : (l : Lock) → Res l
  threads : Thread → Status Op Answer
  history : List (Observation Thread Op Answer)

namespace Server

def start (shared : (l : Lock) → Res l) : Server Thread Res Op Answer where
  shared := shared
  threads _ := .idle
  history := []

def setThread (a : Server Thread Res Op Answer) (t : Thread) (status : Status Op Answer) :
    Server Thread Res Op Answer :=
  { a with threads := Function.update a.threads t status }

def step (serve : Op → ((l : Lock) → Res l) → Option (((l : Lock) → Res l) × Answer))
    (a : Server Thread Res Op Answer) :
    Action Thread Op → Option (Server Thread Res Op Answer)
  | .begins t op =>
      match a.threads t with
      | .idle => some { a.setThread t (.called op) with history := a.history ++ [.began t op] }
      | _ => none
  | .moves t =>
      match a.threads t with
      | .called op =>
          (serve op a.shared).map fun (shared, answer) =>
            { a.setThread t (.served op answer) with shared := shared }
      | _ => none
  | .returns t =>
      match a.threads t with
      | .served op answer => some { a.setThread t .idle with
          history := a.history ++ [.returned t op answer] }
      | _ => none

end Server

/-! ### What a step can do -/

/-- The steps of a thread. -/
inductive Moved (calls : Op → Program Res Answer) (c : Machine Thread Res Op Answer) :
    Machine Thread Res Op Answer → Prop where
  | began (t : Thread) (op : Op) (hidle : c.threads t = .idle) :
      Moved calls c { c.setThread t (.working op (calls op)) with
        history := c.history ++ [.began t op] }
  | acquired (t : Thread) (op : Op) (l : Lock) (rest : Program Res Answer)
      (hworking : c.threads t = .working op (.acquire l rest)) (hfree : c.owner l = none) :
      Moved calls c { c.setThread t (.working op rest) with
        owner := Function.update c.owner l (some t) }
  | accessed (t : Thread) (op : Op) (l : Lock) (write : Res l → Option (Res l))
      (rest : Res l → Program Res Answer) (after : Res l)
      (hworking : c.threads t = .working op (.access l write rest))
      (hwrite : write (c.shared l) = some after) :
      Moved calls c { c.setThread t (.working op (rest (c.shared l))) with
        shared := Function.update c.shared l after }
  | finished (t : Thread) (op : Op) (locks : List Lock) (answer : Answer)
      (hworking : c.threads t = .working op (.finish locks answer)) :
      Moved calls c (c.setThread t (.leaving op locks answer))
  | released (t : Thread) (op : Op) (l : Lock) (locks : List Lock) (answer : Answer)
      (hleaving : c.threads t = .leaving op (l :: locks) answer) :
      Moved calls c { c.setThread t (.leaving op locks answer) with
        owner := Function.update c.owner l none }
  | returned (t : Thread) (op : Op) (answer : Answer)
      (hleaving : c.threads t = .leaving op [] answer) :
      Moved calls c { c.setThread t .idle with history := c.history ++ [.returned t op answer] }

theorem step_cases {calls : Op → Program Res Answer} {c next : Machine Thread Res Op Answer}
    {action : Action Thread Op} (h : c.step calls action = some next) : Moved calls c next := by
  cases action with
  | begins t op =>
      simp only [Machine.step] at h
      split at h
      next hidle =>
        obtain rfl := Option.some.inj h
        exact .began t op hidle
      next => cases h
  | moves t =>
      simp only [Machine.step] at h
      split at h
      next op l rest hworking =>
        obtain ⟨hfree, hnext⟩ := Option.ite_none_right_eq_some.mp h
        obtain rfl := Option.some.inj hnext
        exact .acquired t op l rest hworking (Option.isNone_iff_eq_none.mp hfree)
      next op l write rest hworking =>
        obtain ⟨after, hwrite, rfl⟩ := Option.map_eq_some_iff.mp h
        exact .accessed t op l write rest after hworking hwrite
      next op locks answer hworking =>
        obtain rfl := Option.some.inj h
        exact .finished t op locks answer hworking
      next op l locks answer hleaving =>
        obtain rfl := Option.some.inj h
        exact .released t op l locks answer hleaving
      next => cases h
  | returns t =>
      simp only [Machine.step] at h
      split at h
      next op answer hleaving =>
        obtain rfl := Option.some.inj h
        exact .returned t op answer hleaving
      next => cases h

theorem Moved.history_subset {calls : Op → Program Res Answer}
    {c next : Machine Thread Res Op Answer} (h : Moved calls c next) :
    c.history ⊆ next.history := by
  cases h with
  | began => exact List.subset_append_left ..
  | returned => exact List.subset_append_left ..
  | _ => exact fun _ hmem => hmem

/-- The steps of the server. -/
inductive Serves (serve : Op → ((l : Lock) → Res l) → Option (((l : Lock) → Res l) × Answer))
    (a : Server Thread Res Op Answer) : Server Thread Res Op Answer → Prop where
  | began (t : Thread) (op : Op) (hidle : a.threads t = .idle) :
      Serves serve a { a.setThread t (.called op) with history := a.history ++ [.began t op] }
  | served (t : Thread) (op : Op) (shared : (l : Lock) → Res l) (answer : Answer)
      (hcalled : a.threads t = .called op) (hserve : serve op a.shared = some (shared, answer)) :
      Serves serve a { a.setThread t (.served op answer) with shared := shared }
  | returned (t : Thread) (op : Op) (answer : Answer) (hserved : a.threads t = .served op answer) :
      Serves serve a { a.setThread t .idle with history := a.history ++ [.returned t op answer] }

omit [DecidableEq Lock] in
theorem server_step_cases
    {serve : Op → ((l : Lock) → Res l) → Option (((l : Lock) → Res l) × Answer)}
    {a after : Server Thread Res Op Answer} {action : Action Thread Op}
    (h : a.step serve action = some after) : Serves serve a after := by
  cases action with
  | begins t op =>
      simp only [Server.step] at h
      split at h
      next hidle =>
        obtain rfl := Option.some.inj h
        exact .began t op hidle
      next => cases h
  | moves t =>
      simp only [Server.step] at h
      split at h
      next op hcalled =>
        obtain ⟨⟨shared, answer⟩, hserve, rfl⟩ := Option.map_eq_some_iff.mp h
        exact .served t op shared answer hcalled hserve
      next => cases h
  | returns t =>
      simp only [Server.step] at h
      split at h
      next op answer hserved =>
        obtain rfl := Option.some.inj h
        exact .returned t op answer hserved
      next => cases h

end Steps

/-! ### What is held -/

/-- The locks a thread holds. -/
def heldBy (owner : Lock → Option Thread) (t : Thread) : Set Lock := {l | owner l = some t}

@[simp]
theorem mem_heldBy {owner : Lock → Option Thread} {t : Thread} {l : Lock} :
    l ∈ heldBy owner t ↔ owner l = some t := Iff.rfl

section Held

variable [DecidableEq Lock] {owner : Lock → Option Thread} {l : Lock} {t other : Thread}

theorem heldBy_acquire_self :
    heldBy (Function.update owner l (some t)) t = insert l (heldBy owner t) := by
  ext k
  by_cases hk : k = l
  · simp [hk]
  · simp [hk]

theorem heldBy_acquire_of_ne (hfree : owner l = none) (hne : other ≠ t) :
    heldBy (Function.update owner l (some t)) other = heldBy owner other := by
  ext k
  by_cases hk : k = l
  · simp [hk, hfree, hne.symm]
  · simp [hk]

theorem mem_heldBy_release {k : Lock} :
    k ∈ heldBy (Function.update owner l none) t ↔ k ≠ l ∧ k ∈ heldBy owner t := by
  by_cases hk : k = l
  · simp [hk]
  · simp [hk]

theorem heldBy_release_of_ne (howner : owner l = some t) (hne : other ≠ t) :
    heldBy (Function.update owner l none) other = heldBy owner other := by
  ext k
  rw [mem_heldBy_release, and_iff_right_iff_imp]
  rintro hk rfl
  exact hne (Option.some.inj ((mem_heldBy.mp hk).symm.trans howner))

end Held

/-! ### Discipline -/

/-- What a thread holds is what its call has taken and not yet given back. -/
def Activity.Keeps [Preorder Lock] : Activity Res Op Answer → Set Lock → Prop
  | idle, held => held = ∅
  | working _ rest, held => rest.Orderly held
  | leaving _ locks _, held => locks.Nodup ∧ ∀ l, l ∈ locks ↔ l ∈ held

def Disciplined [Preorder Lock] (c : Machine Thread Res Op Answer) : Prop :=
  ∀ t, (c.threads t).Keeps (heldBy c.owner t)

/-- What one thread does leaves the others as they are. -/
structure OnlyMoves (t : Thread) (c next : Machine Thread Res Op Answer) : Prop where
  threads : ∀ other ≠ t, next.threads other = c.threads other
  held : ∀ other ≠ t, heldBy next.owner other = heldBy c.owner other
  shared : ∀ l, l ∉ heldBy c.owner t → next.shared l = c.shared l

section OnlyMoves

variable [DecidableEq Thread] {c : Machine Thread Res Op Answer} {t : Thread}
  {activity : Activity Res Op Answer}

theorem onlyMoves_setThread (history : List (Observation Thread Op Answer)) :
    OnlyMoves t c { c.setThread t activity with history := history } where
  threads _ hne := Function.update_of_ne hne ..
  held _ _ := rfl
  shared _ _ := rfl

variable [DecidableEq Lock] {l : Lock}

theorem onlyMoves_acquired (hfree : c.owner l = none) :
    OnlyMoves t c { c.setThread t activity with
      owner := Function.update c.owner l (some t) } where
  threads _ hne := Function.update_of_ne hne ..
  held _ hne := heldBy_acquire_of_ne hfree hne
  shared _ _ := rfl

theorem onlyMoves_accessed (hheld : l ∈ heldBy c.owner t) (after : Res l) :
    OnlyMoves t c { c.setThread t activity with
      shared := Function.update c.shared l after } where
  threads _ hne := Function.update_of_ne hne ..
  held _ _ := rfl
  shared k hk := by
    have hne : k ≠ l := by
      rintro rfl
      exact hk hheld
    exact Function.update_of_ne hne ..

theorem onlyMoves_released (hheld : l ∈ heldBy c.owner t) :
    OnlyMoves t c { c.setThread t activity with owner := Function.update c.owner l none } where
  threads _ hne := Function.update_of_ne hne ..
  held _ hne := heldBy_release_of_ne hheld hne
  shared _ _ := rfl

end OnlyMoves

section Discipline

variable [Preorder Lock] {calls : Op → Program Res Answer} {c next : Machine Thread Res Op Answer}
  {t : Thread}

theorem disciplined_start (shared : (l : Lock) → Res l) :
    Disciplined (Machine.start shared : Machine Thread Res Op Answer) :=
  fun _ => Set.eq_empty_iff_forall_notMem.mpr fun _ hk => nomatch hk

theorem Disciplined.keeps_of {activity : Activity Res Op Answer} (h : Disciplined c)
    (hactivity : c.threads t = activity) : activity.Keeps (heldBy c.owner t) :=
  hactivity ▸ h t

theorem Disciplined.moves (h : Disciplined c) (honly : OnlyMoves t c next)
    (ht : (next.threads t).Keeps (heldBy next.owner t)) : Disciplined next := by
  intro other
  by_cases hother : other = t
  · exact hother ▸ ht
  · rw [honly.threads other hother, honly.held other hother]
    exact h other

variable [DecidableEq Lock] [DecidableEq Thread]

theorem Disciplined.step (horderly : ∀ op, (calls op).Orderly ∅) (h : Disciplined c)
    (hmoved : Moved calls c next) : Disciplined next := by
  cases hmoved with
  | began t op hidle =>
      have hnone : heldBy c.owner t = ∅ := h.keeps_of hidle
      refine h.moves (onlyMoves_setThread _) ?_
      simpa [Machine.setThread, hnone, Activity.Keeps] using horderly op
  | acquired t op l rest hworking hfree =>
      obtain ⟨_, hrest⟩ := h.keeps_of hworking
      refine h.moves (onlyMoves_acquired hfree) ?_
      simpa [Machine.setThread, heldBy_acquire_self, Activity.Keeps] using hrest
  | accessed t op l write rest after hworking hwrite =>
      obtain ⟨hheld, hrest⟩ := h.keeps_of hworking
      refine h.moves (onlyMoves_accessed hheld after) ?_
      simpa [Machine.setThread, Activity.Keeps] using hrest (c.shared l)
  | finished t op locks answer hworking =>
      have hlocks : locks.Nodup ∧ ∀ l, l ∈ locks ↔ l ∈ heldBy c.owner t := h.keeps_of hworking
      refine h.moves (onlyMoves_setThread c.history) ?_
      simpa [Machine.setThread, Activity.Keeps] using hlocks
  | released t op l locks answer hleaving =>
      obtain ⟨hnodup, hlocks⟩ := h.keeps_of hleaving
      obtain ⟨hnotMem, hnodup⟩ := List.nodup_cons.mp hnodup
      refine h.moves (onlyMoves_released ((hlocks l).mp List.mem_cons_self)) ?_
      have hrest : ∀ k, k ∈ locks ↔ k ∈ heldBy (Function.update c.owner l none) t := by
        intro k
        rw [mem_heldBy_release, ← hlocks k, List.mem_cons]
        constructor
        · intro hk
          exact ⟨fun heq => hnotMem (heq ▸ hk), Or.inr hk⟩
        · rintro ⟨hne, heq | hk⟩
          · exact absurd heq hne
          · exact hk
      simpa [Machine.setThread, Activity.Keeps] using ⟨hnodup, hrest⟩
  | returned t op answer hleaving =>
      obtain ⟨_, hlocks⟩ := h.keeps_of hleaving
      refine h.moves (onlyMoves_setThread _) ?_
      have hnone : heldBy c.owner t = ∅ :=
        Set.eq_empty_iff_forall_notMem.mpr fun k hk => List.not_mem_nil ((hlocks k).mpr hk)
      simpa [Machine.setThread, Activity.Keeps] using hnone

theorem disciplined_run (horderly : ∀ op, (calls op).Orderly ∅) {shared : (l : Lock) → Res l}
    {actions : List (Action Thread Op)}
    (hrun : Transition.run (Machine.step calls) (Machine.start shared) actions = some c) :
    Disciplined c :=
  Transition.run_invariant (fun _ _ _ hc hstep => hc.step horderly (step_cases hstep)) hrun
    (disciplined_start shared)

/-! ### No deadlock -/

/-- The thread waits for a lock somebody holds. -/
def Machine.Waits (c : Machine Thread Res Op Answer) (t : Thread) (l : Lock) : Prop :=
  (∃ op rest, c.threads t = .working op (.acquire l rest)) ∧ c.owner l ≠ none

/-- The thread's next access is undefined. -/
def Machine.Faults (c : Machine Thread Res Op Answer) (t : Thread) : Prop :=
  ∃ op l write rest, c.threads t = .working op (.access l write rest) ∧ write (c.shared l) = none

/-- The thread can take its next step, or that step is undefined. -/
def Machine.Goes (calls : Op → Program Res Answer) (c : Machine Thread Res Op Answer)
    (t : Thread) : Prop :=
  (c.step calls (.moves t)).isSome ∨ (c.step calls (.returns t)).isSome ∨ c.Faults t

omit [Preorder Lock] in
/-- Only a lock can stop a call. -/
theorem goes_of_not_waits (hbusy : c.threads t ≠ .idle)
    (hwaits : ∀ l, ¬ c.Waits t l) : c.Goes calls t := by
  match hactivity : c.threads t with
  | .idle => exact absurd hactivity hbusy
  | .working op (.acquire l rest) =>
      have hfree : c.owner l = none := by
        by_contra howned
        exact hwaits l ⟨⟨op, rest, hactivity⟩, howned⟩
      exact Or.inl (by simp [Machine.step, hactivity, hfree])
  | .working op (.access l write rest) =>
      cases hwrite : write (c.shared l) with
      | none => exact Or.inr (Or.inr ⟨op, l, write, rest, hactivity, hwrite⟩)
      | some after => exact Or.inl (by simp [Machine.step, hactivity, hwrite])
  | .working op (.finish locks answer) => exact Or.inl (by simp [Machine.step, hactivity])
  | .leaving op (l :: locks) answer => exact Or.inl (by simp [Machine.step, hactivity])
  | .leaving op [] answer => exact Or.inr (Or.inl (by simp [Machine.step, hactivity]))

/-- Whoever waits, waits for a thread that goes on, through a chain of greater and greater locks. -/
theorem Disciplined.exists_goes_of_waits [WellFoundedGT Lock] (h : Disciplined c) {l : Lock}
    (hwaits : c.Waits t l) : ∃ other, c.threads other ≠ .idle ∧ c.Goes calls other := by
  induction l using WellFoundedGT.induction generalizing t with
  | ind l ih =>
      obtain ⟨holder, hholder⟩ := Option.ne_none_iff_exists'.mp hwaits.2
      have hheld : l ∈ heldBy c.owner holder := hholder
      have hbusy : c.threads holder ≠ .idle := by
        intro hidle
        have hnone : heldBy c.owner holder = ∅ := h.keeps_of hidle
        rw [hnone] at hheld
        exact hheld
      by_cases hnext : ∃ k, c.Waits holder k
      · obtain ⟨k, hk⟩ := hnext
        obtain ⟨op, rest, hworking⟩ := hk.1
        obtain ⟨hbelow, _⟩ := h.keeps_of hworking
        exact ih k (hbelow l hheld) hk
      · exact ⟨holder, hbusy, goes_of_not_waits hbusy fun k hk => hnext ⟨k, hk⟩⟩

/-- **No deadlock.** As long as some call is under way, some call under way can go on. -/
theorem Disciplined.exists_goes [WellFoundedGT Lock] (h : Disciplined c)
    (hbusy : c.threads t ≠ .idle) : ∃ other, c.threads other ≠ .idle ∧ c.Goes calls other := by
  by_cases hwaits : ∃ l, c.Waits t l
  · obtain ⟨l, hl⟩ := hwaits
    exact h.exists_goes_of_waits hl
  · exact ⟨t, hbusy, goes_of_not_waits hbusy fun l hl => hwaits ⟨l, hl⟩⟩

end Discipline

/-! ### Linearizability

A call is served when it comes to its end: then it holds all the locks it took, so what it has read
and written in parts nobody else has read or written in between. -/

section Linearizability

variable [DecidableEq Lock] [DecidableEq Thread]

/-- The resources as a thread sees them that holds some of the locks: its own as they are, the
others as they may be. -/
def view (owner : Lock → Option Thread) (t : Thread) (own others : (l : Lock) → Res l) (l : Lock) :
    Res l :=
  if owner l = some t then own l else others l

section View

omit [DecidableEq Lock]

variable {owner : Lock → Option Thread} {t : Thread} {own others : (l : Lock) → Res l}

theorem view_of_mem {l : Lock} (h : l ∈ heldBy owner t) : view owner t own others l = own l :=
  if_pos h

theorem view_of_notMem {l : Lock} (h : l ∉ heldBy owner t) :
    view owner t own others l = others l := if_neg h

theorem view_of_empty (h : heldBy owner t = ∅) : view owner t own others = others :=
  funext fun l => view_of_notMem fun hl => Set.notMem_empty l (h ▸ hl)

variable [DecidableEq Lock]

/-- Taking a free lock changes nothing in what the thread sees, if it saw the resource as it is. -/
theorem view_acquire {l : Lock} (hfree : owner l = none) (hsame : others l = own l) :
    view (Function.update owner l (some t)) t own others = view owner t own others := by
  funext k
  by_cases hk : k = l
  · subst hk
    have hnotMem : k ∉ heldBy owner t := fun hmem => nomatch hfree.symm.trans hmem
    rw [view_of_notMem hnotMem, hsame]
    exact if_pos (Function.update_self ..)
  · rw [view, view, Function.update_of_ne hk]

theorem view_write {l : Lock} (hmem : l ∈ heldBy owner t) (after : Res l) :
    view owner t (Function.update own l after) others
      = Function.update (view owner t own others) l after := by
  funext k
  by_cases hk : k = l
  · subst hk
    rw [view_of_mem hmem, Function.update_self, Function.update_self]
  · rw [Function.update_of_ne hk, view, Function.update_of_ne hk]
    rfl

end View

variable {calls : Op → Program Res Answer}
  {serve : Op → ((l : Lock) → Res l) → Option (((l : Lock) → Res l) × Answer)}
  {c next : Machine Thread Res Op Answer} {a after : Server Thread Res Op Answer} {t : Thread}

/-- How a call under way and the call as the server has it belong together. A working call, whatever
the resources are that it does not hold, does with what is left of it what it would do from its
beginning on the resources of the server. -/
def Matches (serve : Op → ((l : Lock) → Res l) → Option (((l : Lock) → Res l) × Answer))
    (owner : Lock → Option Thread) (own served : (l : Lock) → Res l) (t : Thread) :
    Activity Res Op Answer → Status Op Answer → Prop
  | .idle, status => status = .idle
  | .working op rest, status => status = .called op
      ∧ ∀ others, (∀ l ∈ heldBy owner t, others l = served l) →
        serve op others = rest.run (view owner t own others)
  | .leaving op _ answer, status => status = .served op answer
      ∧ ∀ l ∈ heldBy owner t, served l = own l

/-- The machine and the server agree. -/
structure Linearizes (serve : Op → ((l : Lock) → Res l) → Option (((l : Lock) → Res l) × Answer))
    (c : Machine Thread Res Op Answer) (a : Server Thread Res Op Answer) : Prop where
  free : ∀ l, c.owner l = none → a.shared l = c.shared l
  threads : ∀ t, Matches serve c.owner c.shared a.shared t (c.threads t) (a.threads t)
  history : a.history = c.history

/-- The calls of the other threads are matched as before. -/
theorem Matches.frame {other : Thread} (honly : OnlyMoves t c next) (hne : other ≠ t)
    (hstatus : after.threads other = a.threads other)
    (hserved : ∀ l, l ∉ heldBy c.owner t → after.shared l = a.shared l)
    (h : Matches serve c.owner c.shared a.shared other (c.threads other) (a.threads other)) :
    Matches serve next.owner next.shared after.shared other (next.threads other)
      (after.threads other) := by
  have howner : ∀ l, next.owner l = some other ↔ c.owner l = some other :=
    fun l => Set.ext_iff.mp (honly.held other hne) l
  have hapart : ∀ l, c.owner l = some other → l ∉ heldBy c.owner t :=
    fun l hl ht => hne (Option.some.inj (hl.symm.trans ht))
  rw [honly.threads other hne, hstatus]
  cases hactivity : c.threads other with
  | idle =>
      rw [hactivity] at h
      exact h
  | working op rest =>
      rw [hactivity] at h
      refine ⟨h.1, fun others hothers => ?_⟩
      have hview : view next.owner other next.shared others
          = view c.owner other c.shared others := by
        funext l
        by_cases hl : c.owner l = some other
        · rw [view, view, if_pos hl, if_pos ((howner l).mpr hl), honly.shared l (hapart l hl)]
        · rw [view, view, if_neg hl, if_neg fun hnext => hl ((howner l).mp hnext)]
      rw [hview]
      refine h.2 others fun l hl => ?_
      rw [hothers l ((howner l).mpr hl), hserved l (hapart l hl)]
  | leaving op locks answer =>
      rw [hactivity] at h
      refine ⟨h.1, fun l hl => ?_⟩
      have hl : c.owner l = some other := (howner l).mp hl
      rw [hserved l (hapart l hl), honly.shared l (hapart l hl)]
      exact h.2 l hl

/-- A step of one thread is accounted for by that thread and by what is free after it. -/
theorem Linearizes.moves (h : Linearizes serve c a) (honly : OnlyMoves t c next)
    (hstatus : ∀ other ≠ t, after.threads other = a.threads other)
    (hserved : ∀ l, l ∉ heldBy c.owner t → after.shared l = a.shared l)
    (hfree : ∀ l, next.owner l = none → after.shared l = next.shared l)
    (ht : Matches serve next.owner next.shared after.shared t (next.threads t) (after.threads t))
    (hhistory : after.history = next.history) : Linearizes serve next after where
  free := hfree
  threads other := by
    by_cases hother : other = t
    · exact hother ▸ ht
    · exact (h.threads other).frame honly hother (hstatus other hother) hserved
  history := hhistory

theorem Linearizes.matches_of {activity : Activity Res Op Answer} (h : Linearizes serve c a)
    (hactivity : c.threads t = activity) :
    Matches serve c.owner c.shared a.shared t activity (a.threads t) :=
  hactivity ▸ h.threads t

variable [Preorder Lock]

/-- A step of the machine is a step of the server or none. -/
theorem Linearizes.step (hserve : ∀ op shared, (calls op).run shared = serve op shared)
    (hdisciplined : Disciplined c) (h : Linearizes serve c a) (hmoved : Moved calls c next) :
    ∃ actions after, Transition.run (Server.step serve) a actions = some after
      ∧ Linearizes serve next after := by
  cases hmoved with
  | began t op hidle =>
      have hstatus : a.threads t = .idle := h.matches_of hidle
      have hnone : heldBy c.owner t = ∅ := hdisciplined.keeps_of hidle
      have hstep : a.step serve (.begins t op)
          = some { a.setThread t (.called op) with history := a.history ++ [.began t op] } := by
        simp [Server.step, hstatus]
      refine ⟨[.begins t op], _, Transition.run_cons_eq_some.mpr ⟨_, hstep, rfl⟩,
        h.moves (onlyMoves_setThread _) (fun _ hne => Function.update_of_ne hne ..)
          (fun _ _ => rfl) h.free ?_ (congrArg (· ++ [.began t op]) h.history)⟩
      simp only [Machine.setThread, Server.setThread, Function.update_self]
      refine ⟨rfl, fun others _ => ?_⟩
      rw [view_of_empty hnone, hserve]
  | acquired t op l rest hworking hfree =>
      obtain ⟨hstatus, hruns⟩ := h.matches_of hworking
      refine ⟨[], a, rfl, h.moves (onlyMoves_acquired hfree) (fun _ _ => rfl) (fun _ _ => rfl)
        (fun k hk => ?_) ?_ h.history⟩
      · by_cases hkl : k = l
        · simp [hkl] at hk
        · exact h.free k (by simpa [hkl] using hk)
      · simp only [Machine.setThread, Function.update_self]
        refine ⟨hstatus, fun others hothers => ?_⟩
        rw [heldBy_acquire_self] at hothers
        have hsame : others l = c.shared l :=
          (hothers l (Set.mem_insert l _)).trans (h.free l hfree)
        rw [view_acquire hfree hsame]
        exact hruns others fun k hk => hothers k (Set.mem_insert_of_mem l hk)
  | accessed t op l write rest after hworking hwrite =>
      obtain ⟨hstatus, hruns⟩ := h.matches_of hworking
      obtain ⟨hheld, _⟩ := hdisciplined.keeps_of hworking
      refine ⟨[], a, rfl, h.moves (onlyMoves_accessed hheld after) (fun _ _ => rfl)
        (fun _ _ => rfl) (fun k hk => ?_) ?_ h.history⟩
      · have hkl : k ≠ l := by
          rintro rfl
          exact nomatch hk.symm.trans hheld
        exact (h.free k hk).trans (Function.update_of_ne hkl ..).symm
      · simp only [Machine.setThread, Function.update_self]
        refine ⟨hstatus, fun others hothers => ?_⟩
        rw [hruns others hothers, Program.run, view_of_mem hheld, hwrite, view_write hheld]
        rfl
  | finished t op locks answer hworking =>
      obtain ⟨hstatus, hruns⟩ := h.matches_of hworking
      have hstep : a.step serve (.moves t) = some { a.setThread t (.served op answer) with
          shared := view c.owner t c.shared a.shared } := by
        simp [Server.step, hstatus, hruns a.shared fun _ _ => rfl, Program.run]
      refine ⟨[.moves t], _, Transition.run_cons_eq_some.mpr ⟨_, hstep, rfl⟩,
        h.moves (onlyMoves_setThread c.history) (fun _ hne => Function.update_of_ne hne ..)
          (fun _ hl => view_of_notMem hl) (fun l hl => ?_) ?_ h.history⟩
      · have hnotMem : l ∉ heldBy c.owner t := fun hmem => nomatch hl.symm.trans hmem
        exact (view_of_notMem hnotMem).trans (h.free l hl)
      · simp only [Machine.setThread, Server.setThread, Function.update_self]
        exact ⟨rfl, fun _ hl => view_of_mem hl⟩
  | released t op l locks answer hleaving =>
      obtain ⟨hstatus, hserved⟩ := h.matches_of hleaving
      obtain ⟨_, hlocks⟩ := hdisciplined.keeps_of hleaving
      have hheld := (hlocks l).mp List.mem_cons_self
      refine ⟨[], a, rfl, h.moves (onlyMoves_released hheld) (fun _ _ => rfl) (fun _ _ => rfl)
        (fun k hk => ?_) ?_ h.history⟩
      · by_cases hkl : k = l
        · exact hkl ▸ hserved l hheld
        · exact h.free k (by simpa [hkl] using hk)
      · simp only [Machine.setThread, Function.update_self]
        exact ⟨hstatus, fun k hk => hserved k (mem_heldBy_release.mp hk).2⟩
  | returned t op answer hleaving =>
      obtain ⟨hstatus, _⟩ := h.matches_of hleaving
      have hstep : a.step serve (.returns t) = some { a.setThread t .idle with
          history := a.history ++ [.returned t op answer] } := by
        simp [Server.step, hstatus]
      refine ⟨[.returns t], _, Transition.run_cons_eq_some.mpr ⟨_, hstep, rfl⟩,
        h.moves (onlyMoves_setThread _) (fun _ hne => Function.update_of_ne hne ..)
          (fun _ _ => rfl) h.free ?_ (congrArg (· ++ [.returned t op answer]) h.history)⟩
      simp only [Machine.setThread, Server.setThread, Function.update_self]
      exact rfl

omit [Preorder Lock] in
theorem linearizes_start (shared : (l : Lock) → Res l) :
    Linearizes serve (Machine.start shared : Machine Thread Res Op Answer) (Server.start shared) :=
  ⟨fun _ _ => rfl, fun _ => rfl, rfl⟩

/-- **Linearizability.** Whatever the threads observe in an interleaved run, they may observe in a
run in which every call is served in one piece, on the same resources, at some time between its
beginning and its return; and what nobody has locked is then as the server has it. -/
theorem linearizable (horderly : ∀ op, (calls op).Orderly ∅)
    (hserve : ∀ op shared, (calls op).run shared = serve op shared) {shared : (l : Lock) → Res l}
    {actions : List (Action Thread Op)}
    (hrun : Transition.run (Machine.step calls) (Machine.start shared) actions = some c) :
    ∃ served a, Transition.run (Server.step serve) (Server.start shared) served = some a
      ∧ Linearizes serve c a := by
  let Inv (c : Machine Thread Res Op Answer) : Prop := Disciplined c ∧ ∃ served a,
    Transition.run (Server.step serve) (Server.start shared) served = some a
      ∧ Linearizes serve c a
  have hinv : Inv c := by
    refine Transition.run_invariant ?_ hrun
      ⟨disciplined_start shared, [], _, rfl, linearizes_start shared⟩
    rintro c action next ⟨hdisciplined, served, a, hserved, hlinearizes⟩ hstep
    have hmoved := step_cases hstep
    obtain ⟨more, after, hmore, hafter⟩ := hlinearizes.step hserve hdisciplined hmoved
    refine ⟨hdisciplined.step horderly hmoved, served ++ more, after, ?_, hafter⟩
    rw [Transition.run_append, hserved]
    exact hmore
  exact hinv.2

end Linearizability

end Monitor
