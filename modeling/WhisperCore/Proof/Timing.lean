import WhisperCore.Concrete
import WhisperCore.Lib.Schedule
import WhisperCore.UpdateLoops

/-!
# When the update loops send and sleep

The deadline of either loop moves on by one interval with every iteration, whatever the clock does.
The polling loop therefore never sends more requests than deadlines have passed. But a loop that is
late for its deadline asks to sleep for a negative time, and `sleep` takes that for more than a
hundred years.
-/

namespace WhisperCore

variable {protobuf : PeerProtobuf} {strategy : UpdateStrategy} {peerUpdateInterval : Int}
  {loop next final : UpdateLoop} {event : LoopEvent} {events : List LoopEvent} {now : Int}

/-! ### Deadlines -/

/-- The time a loop would sleep until. The polling loop moves `next_update` on before it sleeps. -/
def UpdateStrategy.deadline (strategy : UpdateStrategy) (peerUpdateInterval : Int)
    (loop : UpdateLoop) : Int :=
  match strategy with
  | .polling => loop.nextUpdate + peerUpdateInterval
  | .broadcast => loop.nextUpdate

/-- A step that asks for no sleep leaves the deadline as it is. -/
theorem step_quiet (hquiet : event.sleepReading = none)
    (h : strategy.step protobuf peerUpdateInterval loop event = some next) :
    next.nextUpdate = loop.nextUpdate ∧ next.slept = loop.slept := by
  cases event with
  | pass now =>
      cases strategy with
      | polling | broadcast =>
          obtain ⟨_, hnext⟩ := Option.ite_none_right_eq_some.mp h
          obtain rfl := Option.some.inj hnext
          exact ⟨rfl, rfl⟩
  | sleep now => cases hquiet
  | others isrunning svc =>
      cases strategy with
      | polling | broadcast =>
          obtain rfl := Option.some.inj h
          exact ⟨rfl, rfl⟩

/-- A sleep is asked for until the deadline, which then moves on by one interval. -/
theorem step_sleep (h : strategy.step protobuf peerUpdateInterval loop (.sleep now) = some next) :
    next.nextUpdate = loop.nextUpdate + peerUpdateInterval
      ∧ next.slept
        = loop.slept ++ [sleepSeconds (strategy.deadline peerUpdateInterval loop) now] := by
  cases strategy with
  | polling | broadcast =>
      obtain ⟨_, hnext⟩ := Option.ite_none_right_eq_some.mp h
      obtain rfl := Option.some.inj hnext
      exact ⟨rfl, rfl⟩

theorem deadline_congr (h : next.nextUpdate = loop.nextUpdate) :
    strategy.deadline peerUpdateInterval next = strategy.deadline peerUpdateInterval loop := by
  cases strategy <;> simp [UpdateStrategy.deadline, h]

theorem deadline_succ (h : next.nextUpdate = loop.nextUpdate + peerUpdateInterval) :
    strategy.deadline peerUpdateInterval next
      = strategy.deadline peerUpdateInterval loop + peerUpdateInterval := by
  cases strategy <;> simp [UpdateStrategy.deadline, h]

/-- The readings at which a loop asked to sleep. -/
def sleepReadings (events : List LoopEvent) : List Int := events.filterMap LoopEvent.sleepReading

/-- What a run asks to sleep: at each reading, what is left until a deadline an interval after the
one before. -/
theorem slept_run
    (hrun : Transition.run (strategy.step protobuf peerUpdateInterval) loop events = some final) :
    final.slept = loop.slept ++ (sleepReadings events).mapIdx fun k now =>
      sleepSeconds (strategy.deadline peerUpdateInterval loop + k * peerUpdateInterval) now := by
  induction events generalizing loop with
  | nil =>
      obtain rfl := Option.some.inj hrun
      simp [sleepReadings]
  | cons event events ih =>
      obtain ⟨next, hnext, hrest⟩ := Transition.run_cons_eq_some.mp hrun
      have hfinal := ih hrest
      cases hreading : event.sleepReading with
      | none =>
          obtain ⟨hupdate, hslept⟩ := step_quiet hreading hnext
          have hreadings : sleepReadings (event :: events) = sleepReadings events := by
            simp [sleepReadings, hreading]
          rw [hslept, deadline_congr hupdate] at hfinal
          rw [hfinal, hreadings]
      | some now =>
          obtain rfl := LoopEvent.sleepReading_eq_some_iff.mp hreading
          obtain ⟨hupdate, hslept⟩ := step_sleep hnext
          have hshift : ∀ k : Nat, strategy.deadline peerUpdateInterval loop + peerUpdateInterval
              + k * peerUpdateInterval
              = strategy.deadline peerUpdateInterval loop
                + ((k + 1 : Nat) : Int) * peerUpdateInterval := by
            intro k
            push_cast
            ring
          have hreadings : sleepReadings (.sleep now :: events) = now :: sleepReadings events := rfl
          rw [hslept, deadline_succ hupdate, List.append_assoc] at hfinal
          rw [hfinal, hreadings, List.mapIdx_cons]
          simp [hshift]

/-! ### Sleep -/

theorem toNat_sleepSeconds (nextUpdate now : Int) :
    ((sleepSeconds nextUpdate now).toNat : Int) = (nextUpdate - now) % 2 ^ 32 := by
  simp only [sleepSeconds, UInt32.ofInt, UInt32.toNat_ofNat']
  omega

/-- The reading is not after the deadline, and at most two intervals before it, but for a multiple
of the `2 ^ 32` seconds that `sleep` cannot tell from none. -/
def OnTime (peerUpdateInterval deadline now : Int) : Prop :=
  ∃ wraps : Int, deadline - 2 * peerUpdateInterval ≤ now + wraps * 2 ^ 32
    ∧ now + wraps * 2 ^ 32 ≤ deadline

theorem sleepSeconds_le_iff {deadline : Int} :
    ((sleepSeconds deadline now).toNat : Int) ≤ 2 * peerUpdateInterval
      ↔ OnTime peerUpdateInterval deadline now := by
  rw [toNat_sleepSeconds]
  constructor
  · intro hle
    refine ⟨(deadline - now) / 2 ^ 32, ?_, ?_⟩ <;> omega
  · rintro ⟨wraps, hearly, hlate⟩
    have hwraps : (deadline - now) % 2 ^ 32
        = (deadline - (now + wraps * 2 ^ 32)) % 2 ^ 32 := by
      rw [← sub_sub, Int.sub_mul_emod_self_right]
    rw [hwraps]
    omega

/-- How many intervals after the reading a loop starts from its first sleep is to end. -/
def UpdateStrategy.ahead : UpdateStrategy → Int
  | .polling => 2
  | .broadcast => 1

/-- When sleep number `k` of a loop is to end. -/
def UpdateStrategy.due (strategy : UpdateStrategy) (peerUpdateInterval reading : Int) (k : Nat) :
    Int :=
  reading + (strategy.ahead + k) * peerUpdateInterval

theorem due_succ (reading : Int) (k : Nat) :
    strategy.due peerUpdateInterval reading (k + 1)
      = strategy.due peerUpdateInterval reading k + peerUpdateInterval := by
  simp only [UpdateStrategy.due]
  push_cast
  ring

theorem deadline_start (svc : DiscoveryService) (reading : Int) :
    strategy.deadline peerUpdateInterval (.start peerUpdateInterval reading svc)
      = strategy.due peerUpdateInterval reading 0 := by
  cases strategy with
  | polling =>
      simp only [UpdateStrategy.deadline, UpdateLoop.start, UpdateStrategy.due,
        UpdateStrategy.ahead]
      push_cast
      ring
  | broadcast =>
      simp [UpdateStrategy.deadline, UpdateLoop.start, UpdateStrategy.due, UpdateStrategy.ahead]

/-- What a loop asks to sleep from its start on. -/
theorem slept_start {reading : Int} {svc : DiscoveryService}
    (hrun : Transition.run (strategy.step protobuf peerUpdateInterval)
      (.start peerUpdateInterval reading svc) events = some final) :
    final.slept = (sleepReadings events).mapIdx fun k now =>
      sleepSeconds (strategy.due peerUpdateInterval reading k) now := by
  have hdue : ∀ k : Nat, strategy.due peerUpdateInterval reading 0 + k * peerUpdateInterval
      = strategy.due peerUpdateInterval reading k := by
    intro k
    simp only [UpdateStrategy.due]
    push_cast
    ring
  have hslept := slept_run hrun
  simp only [deadline_start, hdue] at hslept
  exact hslept

/-- No sleep is asked for that is longer than two intervals. -/
def NeverOversleeps (peerUpdateInterval : Int) (loop : UpdateLoop) : Prop :=
  ∀ seconds ∈ loop.slept, (seconds.toNat : Int) ≤ 2 * peerUpdateInterval

/-- Each sleep is asked for on time. -/
def Punctual (strategy : UpdateStrategy) (peerUpdateInterval reading : Int)
    (readings : List Int) : Prop :=
  ∀ (k : Nat) (now : Int), readings[k]? = some now →
    OnTime peerUpdateInterval (strategy.due peerUpdateInterval reading k) now

theorem asked_le_iff {reading : Int} {readings : List Int} :
    (∀ seconds ∈ readings.mapIdx fun k now =>
        sleepSeconds (strategy.due peerUpdateInterval reading k) now,
      (seconds.toNat : Int) ≤ 2 * peerUpdateInterval)
      ↔ Punctual strategy peerUpdateInterval reading readings := by
  constructor
  · intro hnever k now hnow
    rw [← sleepSeconds_le_iff]
    apply hnever
    obtain ⟨hk, rfl⟩ := List.getElem?_eq_some_iff.mp hnow
    exact List.mem_mapIdx.mpr ⟨k, hk, rfl⟩
  · intro hpunctual seconds hseconds
    obtain ⟨k, hk, rfl⟩ := List.mem_mapIdx.mp hseconds
    exact sleepSeconds_le_iff.mpr (hpunctual k _ (List.getElem?_eq_getElem hk))

/-- **Oversleeping, exactly.** Whatever the clock reads, a loop has never asked for a sleep of more
than two intervals if and only if it asked for each on time. -/
theorem neverOversleeps_iff {reading : Int} {svc : DiscoveryService}
    (hrun : Transition.run (strategy.step protobuf peerUpdateInterval)
      (.start peerUpdateInterval reading svc) events = some final) :
    NeverOversleeps peerUpdateInterval final
      ↔ Punctual strategy peerUpdateInterval reading (sleepReadings events) := by
  rw [NeverOversleeps, slept_start hrun]
  exact asked_le_iff

/-- Every sleep lasts at least as long as was asked for. -/
def SleepsOut (slept : List UInt32) (readings : List Int) : Prop :=
  ∀ (k : Nat) (seconds : UInt32) (now later : Int), slept[k]? = some seconds →
    readings[k]? = some now → readings[k + 1]? = some later → now + seconds.toNat ≤ later

/-- No sleep is cut short, and none is asked for late. -/
structure NeverLate (strategy : UpdateStrategy) (peerUpdateInterval reading : Int)
    (slept : List UInt32) (readings : List Int) : Prop where
  first : ∀ now, readings[0]? = some now → reading ≤ now
  full : SleepsOut slept readings
  notLate : ∀ (k : Nat) (now : Int), readings[k]? = some now →
    now ≤ strategy.due peerUpdateInterval reading k

/-- Then none is asked for more than two intervals before it is to end. -/
theorem NeverLate.due_le {reading : Int} {svc : DiscoveryService}
    (h : NeverLate strategy peerUpdateInterval reading final.slept (sleepReadings events))
    (hpositive : 0 < peerUpdateInterval) (hint : peerUpdateInterval < 2 ^ 31)
    (hrun : Transition.run (strategy.step protobuf peerUpdateInterval)
      (.start peerUpdateInterval reading svc) events = some final)
    (k : Nat) (now : Int) (hnow : (sleepReadings events)[k]? = some now) :
    strategy.due peerUpdateInterval reading k ≤ now + 2 * peerUpdateInterval := by
  induction k generalizing now with
  | zero =>
      have hreading := h.first now hnow
      cases strategy <;> simp only [UpdateStrategy.due, UpdateStrategy.ahead] <;> omega
  | succ k ih =>
      obtain ⟨before, hbefore⟩ : ∃ before, (sleepReadings events)[k]? = some before := by
        rw [List.getElem?_eq_some_iff] at hnow
        obtain ⟨hk, _⟩ := hnow
        exact ⟨_, List.getElem?_eq_getElem (Nat.lt_of_succ_lt hk)⟩
      have hasked : final.slept[k]?
          = some (sleepSeconds (strategy.due peerUpdateInterval reading k) before) := by
        rw [slept_start hrun, List.getElem?_mapIdx, hbefore, Option.map_some]
      have hwoken := h.full k _ before now hasked hbefore hnow
      rw [toNat_sleepSeconds] at hwoken
      have hearly := ih before hbefore
      have hlate := h.notLate k before hbefore
      rw [due_succ]
      omega

/-- **Late loops.** Of sleeps that are never cut short only one that is asked for late is too
long. -/
theorem neverOversleeps_of_neverLate {reading : Int} {svc : DiscoveryService}
    (h : NeverLate strategy peerUpdateInterval reading final.slept (sleepReadings events))
    (hpositive : 0 < peerUpdateInterval) (hint : peerUpdateInterval < 2 ^ 31)
    (hrun : Transition.run (strategy.step protobuf peerUpdateInterval)
      (.start peerUpdateInterval reading svc) events = some final) :
    NeverOversleeps peerUpdateInterval final := by
  rw [NeverOversleeps, slept_start hrun, asked_le_iff]
  intro k now hnow
  have hearly := h.due_le hpositive hint hrun k now hnow
  have hlate := h.notLate k now hnow
  exact ⟨0, by omega, by omega⟩

section Run

open Concrete

/-- The service of Al's node. -/
def alsService : DiscoveryService := ⟨freshStore⟩

/-- Started at 100, a broadcast loop that is suspended in sending asks at 111 to sleep until 110. -/
def lateBroadcast : List LoopEvent := [.pass 100, .sleep 111]

/-- Started at 100, a polling loop asks at 121 to sleep until 120. -/
def latePolling : List LoopEvent := [.pass 100, .sleep 121]

theorem neverOversleeps_iff_lateBroadcast :
    ∃ final, Transition.run (UpdateStrategy.broadcast.step Concrete.protobuf 10)
        (.start 10 100 alsService) lateBroadcast = some final
      ∧ (NeverOversleeps 10 final
        ↔ Punctual .broadcast 10 100 (sleepReadings lateBroadcast)) := by
  obtain ⟨final, hrun⟩ : ∃ final, Transition.run
      (UpdateStrategy.broadcast.step Concrete.protobuf 10) (.start 10 100 alsService)
      lateBroadcast = some final := ⟨_, rfl⟩
  exact ⟨final, hrun, neverOversleeps_iff hrun⟩

/-- A second late, either loop asks to sleep for more than a hundred years. -/
theorem not_neverOversleeps_late :
    (100 :: lateBroadcast.filterMap LoopEvent.reading).Pairwise (· ≤ ·)
      ∧ (∃ final, Transition.run (UpdateStrategy.broadcast.step Concrete.protobuf 10)
        (.start 10 100 alsService) lateBroadcast = some final
      ∧ final.slept = [4294967295] ∧ ¬ NeverOversleeps 10 final)
      ∧ (100 :: latePolling.filterMap LoopEvent.reading).Pairwise (· ≤ ·)
      ∧ ∃ final, Transition.run (UpdateStrategy.polling.step Concrete.protobuf 10)
        (.start 10 100 alsService) latePolling = some final
      ∧ final.slept = [4294967295] ∧ ¬ NeverOversleeps 10 final := by
  have hlong : ∀ loop : UpdateLoop, loop.slept = [4294967295] → ¬ NeverOversleeps 10 loop := by
    intro loop hslept hnever
    have hshort := hnever 4294967295 (by simp [hslept])
    revert hshort
    decide
  have hbroadcast : ∀ final, Transition.run (UpdateStrategy.broadcast.step Concrete.protobuf 10)
      (.start 10 100 alsService) lateBroadcast = some final → final.slept = [4294967295] := by
    rintro final hfinal
    obtain rfl := Option.some.inj hfinal
    rfl
  have hpolling : ∀ final, Transition.run (UpdateStrategy.polling.step Concrete.protobuf 10)
      (.start 10 100 alsService) latePolling = some final → final.slept = [4294967295] := by
    rintro final hfinal
    obtain rfl := Option.some.inj hfinal
    rfl
  exact ⟨by decide, ⟨_, rfl, hbroadcast _ rfl, hlong _ (hbroadcast _ rfl)⟩,
    by decide, ⟨_, rfl, hpolling _ rfl, hlong _ (hpolling _ rfl)⟩⟩

end Run

/-! ### Requests -/

/-- How often the loop has asked for the packets of other peers. -/
def UpdateLoop.requests (loop : UpdateLoop) : Nat := loop.sent.count discoveryRequest

/-- How often the loop has passed its top. -/
def UpdateLoop.passes (loop : UpdateLoop) : Nat :=
  loop.slept.length + if loop.point = .sleep then 1 else 0

/-- Every packet the polling loop has sent is charged to a pass of its own, and to a deadline that
has passed by a time. -/
structure Charged (schedule : Schedule) (time : Int) (loop : UpdateLoop) : Prop where
  scheduled : loop.nextUpdate = schedule.deadline loop.slept.length
  distinct : loop.sent.length ≤ loop.passes
  passed : (loop.sent.length : Int) ≤ schedule.passed time

theorem Charged.step {schedule : Schedule} {time : Int} (h : Charged schedule time loop)
    (hclock : ∀ now, event.reading = some now → now ≤ time)
    (hstep : pollingUpdateLoop schedule.period loop event = some next) :
    Charged schedule time next := by
  cases event with
  | pass now =>
      obtain ⟨⟨htop, _⟩, hnext⟩ := Option.ite_none_right_eq_some.mp hstep
      obtain rfl := Option.some.inj hnext
      have hdistinct : loop.sent.length ≤ loop.slept.length := by
        simpa [UpdateLoop.passes, htop] using h.distinct
      by_cases hdue : loop.nextUpdate ≤ now
      · have hpassed : schedule.deadline loop.slept.length ≤ time := by
          rw [← h.scheduled]
          exact hdue.trans (hclock now rfl)
        refine ⟨h.scheduled, ?_, ?_⟩
        · simp [UpdateLoop.passes, hdue, hdistinct]
        · simpa [hdue] using schedule.succ_le_passed hdistinct hpassed
      · refine ⟨h.scheduled, ?_, ?_⟩
        · simp only [UpdateLoop.passes, if_neg hdue]
          omega
        · simpa [hdue] using h.passed
  | sleep now =>
      obtain ⟨hsleep, hnext⟩ := Option.ite_none_right_eq_some.mp hstep
      obtain rfl := Option.some.inj hnext
      refine ⟨?_, ?_, h.passed⟩
      · simp [h.scheduled, schedule.deadline_succ]
      · simpa [UpdateLoop.passes, hsleep] using h.distinct
  | others isrunning svc =>
      obtain rfl := Option.some.inj hstep
      exact ⟨h.scheduled, h.distinct, h.passed⟩

/-- **Polling is limited.** At any time not before any reading of the clock so far, the polling loop
has sent at most as many requests as intervals fit in since the last update it started from. -/
theorem requests_le {lastUpdate time : Int} {svc : DiscoveryService}
    (hpositive : 0 < peerUpdateInterval) (hstart : lastUpdate ≤ time)
    (hclock : (events.filterMap LoopEvent.reading ++ [time]).Pairwise (· ≤ ·))
    (hrun : Transition.run (pollingUpdateLoop peerUpdateInterval)
      (.start peerUpdateInterval lastUpdate svc) events = some loop) :
    (loop.requests : Int) ≤ (time - lastUpdate) / peerUpdateInterval := by
  let schedule : Schedule := ⟨lastUpdate, peerUpdateInterval, hpositive⟩
  have hinit : Charged schedule time (.start peerUpdateInterval lastUpdate svc) :=
    ⟨by simp [UpdateLoop.start, Schedule.deadline, schedule], by simp [UpdateLoop.start],
      by simpa [UpdateLoop.start] using schedule.passed_nonneg hstart⟩
  have hreadings : ∀ event ∈ events, ∀ now, event.reading = some now → now ≤ time := by
    intro event hevent now hnow
    have hmem : now ∈ events.filterMap LoopEvent.reading :=
      List.mem_filterMap.mpr ⟨event, hevent, hnow⟩
    exact (List.pairwise_append.mp hclock).2.2 now hmem time (List.mem_singleton_self time)
  have hcharged : Charged schedule time loop :=
    Transition.run_invariant_along (fun _ _ _ hinv hclock hstep => hinv.step hclock hstep)
      (Transition.along_of_forall hreadings _) hrun hinit
  calc
    (loop.requests : Int) ≤ loop.sent.length := by exact_mod_cast List.count_le_length
    _ ≤ (time - lastUpdate) / peerUpdateInterval := hcharged.passed

section Run

open Concrete

/-- Suspended for three intervals and a half, a polling loop makes up for three requests. -/
def catchesUp : List LoopEvent :=
  [.pass 135, .sleep 135, .pass 135, .sleep 135, .pass 135, .sleep 135, .pass 135]

theorem requests_le_catchesUp :
    ∃ loop, Transition.run (pollingUpdateLoop 10) (.start 10 100 alsService) catchesUp = some loop
      ∧ loop.requests = 3 ∧ (loop.requests : Int) ≤ (135 - 100) / 10 := by
  obtain ⟨loop, hrun, hthree⟩ : ∃ loop, Transition.run (pollingUpdateLoop 10)
      (.start 10 100 alsService) catchesUp = some loop ∧ loop.requests = 3 :=
    ⟨_, rfl, rfl⟩
  exact ⟨loop, hrun, hthree, requests_le (by decide) (by decide) (by decide) hrun⟩

end Run

end WhisperCore
