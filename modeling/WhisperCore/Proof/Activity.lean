import WhisperCore.Concrete
import WhisperCore.Lib.Transition
import WhisperCore.Proof.PeerstoreCases

/-!
# Two missed intervals

Under the periodic predicate a record should go once two of the peer's own intervals have passed.
The predicate doubles the interval in 32 bits. An interval that has the highest bit set loses it,
and the record is dropped too soon: while the time passed is more than what is left of the double
and not more than the double itself.
-/

namespace WhisperCore

variable {strings : GuidStrings} {ps : Peerstore} {guidStr : CString} {r : Peer}

/-- More than two of the peer's intervals have passed since it was seen. -/
def MissedTwoIntervals (r : Peer) (lastUpdate : Int) : Prop :=
  r.lastSeen + 2 * r.discoveryInterval.toNat < lastUpdate

/-- The record is evicted by lookups, and left out of the list, exactly when two intervals were
missed. -/
structure DroppedWhenDue (strings : GuidStrings) (ps : Peerstore) (guidStr : CString) (r : Peer) :
    Prop where
  lookup : (peerstoreLookup strings ps r.guid).2.peers.lookup guidStr = none
    ↔ MissedTwoIntervals r ps.lastUpdate
  lookupByUsername : ∀ username, ps.namestore.lookup username = some (.live guidStr) →
    ∃ result after, peerstoreLookupByUsername ps username = some (result, after)
      ∧ (after.peers.lookup guidStr = none ↔ MissedTwoIntervals r ps.lastUpdate)
  listed : r.guid ∉ peerstoreGetActiveGuids ps ↔ MissedTwoIntervals r ps.lastUpdate

/-- Twice the interval does not fit in 32 bits, and the update comes after what is left of it but
not after all of it. -/
structure DroppedTooSoon (r : Peer) (lastUpdate : Int) : Prop where
  wraps : 2 ^ 31 ≤ r.discoveryInterval.toNat
  dropped : r.lastSeen + (2 * r.discoveryInterval.toNat - 2 ^ 32) < lastUpdate
  notDue : lastUpdate ≤ r.lastSeen + 2 * r.discoveryInterval.toNat

/-! ### The predicate -/

theorem toNat_double (interval : UInt32) :
    (2 * interval).toNat
      = if interval.toNat < 2 ^ 31 then 2 * interval.toNat else 2 * interval.toNat - 2 ^ 32 := by
  have hbound := interval.toNat_lt
  rw [UInt32.toNat_mul]
  have htwo : (2 : UInt32).toNat = 2 := rfl
  rw [htwo]
  split_ifs with hsmall <;> omega

/-- The predicate is right about a record unless it drops it too soon. -/
theorem inactive_iff_missed_iff (lastUpdate : Int) (r : Peer) :
    (isActivePeerPeriodicUpdate lastUpdate r = false ↔ MissedTwoIntervals r lastUpdate)
      ↔ ¬ DroppedTooSoon r lastUpdate := by
  have hinactive : isActivePeerPeriodicUpdate lastUpdate r = false
      ↔ r.lastSeen + (2 * r.discoveryInterval).toNat < lastUpdate := by
    simp only [isActivePeerPeriodicUpdate, decide_eq_false_iff_not]
    omega
  have hbound := r.discoveryInterval.toNat_lt
  rw [hinactive, toNat_double, MissedTwoIntervals]
  constructor
  · rintro hexact ⟨hwraps, hdropped, hnotDue⟩
    rw [if_neg (by omega)] at hexact
    omega
  · intro hnot
    split_ifs with hsmall
    · simp
    · constructor
      · intro hdropped
        by_contra hdue
        exact hnot ⟨by omega, by omega, by omega⟩
      · intro hmissed
        omega

/-! ### The paths -/

theorem evicted_by_lookup_iff (hr : ps.peers.lookup (strings.toString r.guid) = some r) :
    (peerstoreLookup strings ps r.guid).2.peers.lookup (strings.toString r.guid) = none
      ↔ isPeerActive ps r = false := by
  cases hactive : isPeerActive ps r <;> simp [peerstoreLookup, hr, hactive]

theorem evicted_by_name_iff {username : CString}
    (hname : ps.namestore.lookup username = some (.live guidStr))
    (hr : ps.peers.lookup guidStr = some r) :
    ∃ result after, peerstoreLookupByUsername ps username = some (result, after)
      ∧ (after.peers.lookup guidStr = none ↔ isPeerActive ps r = false) := by
  cases hactive : isPeerActive ps r with
  | true =>
      refine ⟨some r, ps, ?_, by simp [hr]⟩
      simp [peerstoreLookupByUsername, hname, hr, hactive]
  | false =>
      refine ⟨none, { ps with peers := ps.peers.erase guidStr }, ?_, by simp⟩
      simp [peerstoreLookupByUsername, hname, hr, hactive]

theorem notMem_activeGuids_iff (hfiled : FiledByGuid strings ps)
    (hr : ps.peers.lookup guidStr = some r) :
    r.guid ∉ peerstoreGetActiveGuids ps ↔ isPeerActive ps r = false := by
  rw [← Bool.not_eq_true, not_iff_not, mem_activeGuids]
  constructor
  · rintro ⟨other, found, hfound, hactive, hguid⟩
    have hsame : other = guidStr := by
      rw [hfiled other found hfound, hfiled guidStr r hr, hguid]
    obtain rfl : found = r := Option.some.inj (hfound.symm.trans (hsame ▸ hr))
    exact hactive
  · intro hactive
    exact ⟨guidStr, r, hr, hactive, rfl⟩

/-- What decides on a record is whether it is active. -/
theorem droppedWhenDue_iff_of_filed (hfiled : FiledByGuid strings ps)
    (hr : ps.peers.lookup guidStr = some r) :
    DroppedWhenDue strings ps guidStr r
      ↔ (isPeerActive ps r = false ↔ MissedTwoIntervals r ps.lastUpdate) := by
  obtain rfl := hfiled guidStr r hr
  constructor
  · intro h
    rw [← evicted_by_lookup_iff hr]
    exact h.lookup
  · intro hexact
    refine ⟨?_, fun username hname => ?_, ?_⟩
    · rw [evicted_by_lookup_iff hr, hexact]
    · obtain ⟨result, after, hlookup, hevicted⟩ := evicted_by_name_iff hname hr
      exact ⟨result, after, hlookup, hevicted.trans hexact⟩
    · rw [notMem_activeGuids_iff hfiled hr, hexact]

/-- **Two missed intervals, exactly.** Whatever calls a store with the periodic predicate has seen,
a stored record is dropped exactly when it is due unless it is dropped too soon. -/
theorem droppedWhenDue_iff {localPeer : Peer} {now : Int} {calls : List PeerstoreCall}
    (hrun : Transition.run (PeerstoreCall.step strings)
      (peerstoreInit localPeer (some isActivePeerPeriodicUpdate) now) calls = some ps)
    (hr : ps.peers.lookup guidStr = some r) :
    DroppedWhenDue strings ps guidStr r ↔ ¬ DroppedTooSoon r ps.lastUpdate := by
  let Inv : Peerstore → Prop := fun ps =>
    FiledByGuid strings ps ∧ ps.isActivePeer = isActivePeerPeriodicUpdate
  have hinit : Inv (peerstoreInit localPeer (some isActivePeerPeriodicUpdate) now) :=
    ⟨by simp [FiledByGuid, peerstoreInit], rfl⟩
  obtain ⟨hfiled, hperiodic⟩ := Transition.run_invariant
    (fun _ _ _ h hstep => ⟨h.1.step hstep, (isActivePeer_step hstep).trans h.2⟩) hrun hinit
  rw [droppedWhenDue_iff_of_filed hfiled hr, isPeerActive, hperiodic, inactive_iff_missed_iff]

section Run

open Concrete

/-- Al announces an interval of `2 ^ 31` seconds, and a second later the store is updated. -/
def patientCalls : List PeerstoreCall :=
  [.storePeer 1 { peer 1 al with discoveryInterval := 0x80000000 }, .setLastUpdateTime 2]

def patientRecord : Peer := { peer 1 al with discoveryInterval := 0x80000000, lastSeen := 1 }

theorem patientRecord_stored (hrun : Transition.run (PeerstoreCall.step guidStrings)
      (peerstoreInit (peer 0 bob) (some isActivePeerPeriodicUpdate) 0) patientCalls = some ps) :
    ps.peers.lookup (guidStrings.toString (guid 1)) = some patientRecord ∧ ps.lastUpdate = 2 := by
  obtain rfl := Option.some.inj hrun
  decide +kernel

theorem droppedWhenDue_iff_patientCalls :
    ∃ ps, Transition.run (PeerstoreCall.step guidStrings)
        (peerstoreInit (peer 0 bob) (some isActivePeerPeriodicUpdate) 0) patientCalls = some ps
      ∧ ps.peers.lookup (guidStrings.toString (guid 1)) = some patientRecord
      ∧ (DroppedWhenDue guidStrings ps (guidStrings.toString (guid 1)) patientRecord
        ↔ ¬ DroppedTooSoon patientRecord ps.lastUpdate) := by
  obtain ⟨ps, hrun⟩ : ∃ ps, Transition.run (PeerstoreCall.step guidStrings)
      (peerstoreInit (peer 0 bob) (some isActivePeerPeriodicUpdate) 0) patientCalls = some ps :=
    ⟨_, rfl⟩
  obtain ⟨hstored, _⟩ := patientRecord_stored hrun
  exact ⟨ps, hrun, hstored, droppedWhenDue_iff hrun hstored⟩

/-- Twice the interval is nothing in 32 bits, and the record is dropped a second after it was
stored. -/
theorem not_droppedWhenDue_patientCalls :
    ∃ ps, Transition.run (PeerstoreCall.step guidStrings)
        (peerstoreInit (peer 0 bob) (some isActivePeerPeriodicUpdate) 0) patientCalls = some ps
      ∧ ps.peers.lookup (guidStrings.toString (guid 1)) = some patientRecord
      ∧ (peerstoreLookup guidStrings ps (guid 1)).2.peers.lookup (guidStrings.toString (guid 1))
        = none
      ∧ ¬ MissedTwoIntervals patientRecord ps.lastUpdate
      ∧ ¬ DroppedWhenDue guidStrings ps (guidStrings.toString (guid 1)) patientRecord := by
  obtain ⟨ps, hrun⟩ : ∃ ps, Transition.run (PeerstoreCall.step guidStrings)
      (peerstoreInit (peer 0 bob) (some isActivePeerPeriodicUpdate) 0) patientCalls = some ps :=
    ⟨_, rfl⟩
  obtain ⟨hstored, htime⟩ := patientRecord_stored hrun
  have hevicted : (peerstoreLookup guidStrings ps (guid 1)).2.peers.lookup
      (guidStrings.toString (guid 1)) = none := by
    obtain rfl := Option.some.inj hrun
    decide +kernel
  have hnotDue : ¬ MissedTwoIntervals patientRecord ps.lastUpdate := by
    rw [MissedTwoIntervals, htime]
    decide
  exact ⟨ps, hrun, hstored, hevicted, hnotDue, fun h => hnotDue (h.lookup.mp hevicted)⟩

end Run

end WhisperCore
