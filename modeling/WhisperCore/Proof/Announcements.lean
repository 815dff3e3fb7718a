import WhisperCore.Concrete
import WhisperCore.Proof.PeerstoreCases

/-!
# The latest announcement

A peer that is announced again has its record updated in place: the address and the time are copied,
the discovery interval is not. The record therefore speaks for the latest announcement as long as no
peer changes its interval while it is stored.
-/

namespace WhisperCore

variable {strings : GuidStrings}

/-- A store, and the most recent announcement it was given for each guid. -/
structure Heard where
  store : Peerstore
  latest : Guid → Option (Int × Peer)

namespace Heard

def start (localPeer : Peer) (isActivePeer : Option (Int → Peer → Bool)) (now : Int) : Heard where
  store := peerstoreInit localPeer isActivePeer now
  latest := fun _ => none

def record (latest : Guid → Option (Int × Peer)) : PeerstoreCall → Guid → Option (Int × Peer)
  | .storePeer now p => Function.update latest p.guid (some (now, p))
  | _ => latest

def step (strings : GuidStrings) (heard : Heard) (call : PeerstoreCall) : Option Heard :=
  (call.step strings heard.store).map fun store => ⟨store, record heard.latest call⟩

/-- Every record stored says what the latest announcement of its guid said, and when. -/
def LatestWins (strings : GuidStrings) (heard : Heard) : Prop :=
  ∀ guid r, heard.store.peers.lookup (strings.toString guid) = some r →
    ∃ now p, heard.latest guid = some (now, p) ∧ r.hostAddress = p.hostAddress
      ∧ r.discoveryInterval = p.discoveryInterval ∧ r.lastSeen = now

/-- A peer that is announced while it has a record announces the interval of the record. (A store
that reads a freed name entry goes no further.) -/
def KeepsInterval (strings : GuidStrings) (heard : Heard) : PeerstoreCall → Prop
  | .storePeer _ p => heard.store.namestore.lookup p.userName ≠ some .freed →
      ∀ old, heard.store.peers.lookup (strings.toString p.guid) = some old →
        p.discoveryInterval = old.discoveryInterval
  | _ => True

variable {heard next : Heard}

theorem step_eq_some_iff {call : PeerstoreCall} :
    heard.step strings call = some next
      ↔ call.step strings heard.store = some next.store
        ∧ next.latest = record heard.latest call := by
  rw [step, Option.map_eq_some_iff]
  constructor
  · rintro ⟨store, hstore, rfl⟩
    exact ⟨hstore, rfl⟩
  · rintro ⟨hstore, hlatest⟩
    exact ⟨next.store, hstore, by rw [← hlatest]⟩

theorem LatestWins.storePeer_iff (h : LatestWins strings heard) {now : Int} {p : Peer}
    (hstore : peerstoreStorePeer strings heard.store now p = some next.store)
    (hlatest : next.latest = Function.update heard.latest p.guid (some (now, p))) :
    LatestWins strings next
      ↔ ∀ old, heard.store.peers.lookup (strings.toString p.guid) = some old →
        p.discoveryInterval = old.discoveryInterval := by
  obtain ⟨middle, hmiddle, hstored⟩ := storePeer_cases hstore
  obtain ⟨r, hr, hhost, hseen, hinterval⟩ := hstored.exists_record
  rw [handlePeerReconnection_lookup_self hmiddle] at hinterval
  have hself : next.latest p.guid = some (now, p) := by rw [hlatest, Function.update_self]
  constructor
  · intro hwins old hold
    obtain ⟨_, p', hp', _, hsame, _⟩ := hwins p.guid r hr
    obtain rfl : p = p' := (Prod.mk.inj (Option.some.inj (hself.symm.trans hp'))).2
    rw [← hsame, hinterval, hold, Option.getD_some]
  · intro hkeeps guid r' hr'
    by_cases hguid : guid = p.guid
    · subst hguid
      obtain rfl : r = r' := Option.some.inj (hr.symm.trans hr')
      refine ⟨now, p, hself, hhost, ?_, hseen⟩
      cases hold : heard.store.peers.lookup (strings.toString p.guid) with
      | none => rw [hinterval, hold, Option.getD_none]
      | some old => rw [hinterval, hold, Option.getD_some, hkeeps old hold]
    · have hne : strings.toString guid ≠ strings.toString p.guid := fun heq =>
        hguid (strings.toString_injective heq)
      rw [hlatest, Function.update_of_ne hguid]
      exact h guid r' (storePeer_lookup_of_ne hstore hne hr')

/-- **One call.** Where every record speaks for the latest announcement, a call keeps it so exactly
when it announces no other interval for a record. -/
theorem LatestWins.step_iff (h : LatestWins strings heard) (call : PeerstoreCall) :
    (∀ next, heard.step strings call = some next → LatestWins strings next)
      ↔ KeepsInterval strings heard call := by
  have hother : (∀ now p, call ≠ .storePeer now p) → (record heard.latest call = heard.latest) →
      ∀ next, heard.step strings call = some next → LatestWins strings next := by
    intro hcall hrecord next hstep guid r hr
    obtain ⟨hstore, hlatest⟩ := step_eq_some_iff.mp hstep
    rw [hlatest, hrecord]
    exact h guid r (lookup_of_step hstore (fun now p heq => absurd heq (hcall now p)) hr)
  cases call with
  | storePeer now p =>
      constructor
      · intro hwins hname
        obtain ⟨after, hafter⟩ : ∃ after, peerstoreStorePeer strings heard.store now p
            = some after := storePeer_defined_iff.mpr hname
        let next : Heard := ⟨after, record heard.latest (.storePeer now p)⟩
        have hnext : heard.step strings (.storePeer now p) = some next :=
          step_eq_some_iff.mpr ⟨hafter, rfl⟩
        exact (h.storePeer_iff hafter rfl).mp (hwins next hnext)
      · intro hkeeps next hstep
        obtain ⟨hstore, hlatest⟩ := step_eq_some_iff.mp hstep
        exact (h.storePeer_iff hstore hlatest).mpr
          (hkeeps (storePeer_defined_iff.mp ⟨_, hstore⟩))
  | lookup guid => exact iff_of_true (hother (fun _ _ => nofun) rfl) trivial
  | lookupByUsername username => exact iff_of_true (hother (fun _ _ => nofun) rfl) trivial
  | setLastUpdateTime lastUpdate => exact iff_of_true (hother (fun _ _ => nofun) rfl) trivial

theorem latestWins_start (localPeer : Peer) (isActivePeer : Option (Int → Peer → Bool))
    (now : Int) : LatestWins strings (start localPeer isActivePeer now) := by
  intro guid r hr
  cases hr

/-- **The latest announcement wins, exactly.** Over any calls of a store just created, every record
speaks for the latest announcement of its guid in every state reached if and only if no call
announces, for a peer that has a record, another interval than the record's. -/
theorem along_latestWins_iff (strings : GuidStrings) (localPeer : Peer)
    (isActivePeer : Option (Int → Peer → Bool)) (now : Int) (calls : List PeerstoreCall) :
    Transition.Along (step strings)
        (fun heard call => ∀ next, heard.step strings call = some next → LatestWins strings next)
        (start localPeer isActivePeer now) calls
      ↔ Transition.Along (step strings) (KeepsInterval strings)
        (start localPeer isActivePeer now) calls :=
  Transition.along_iff_of_invariant (fun _ call h => h.step_iff call)
    (fun _ _ next _ hkept hstep => hkept next hstep) (latestWins_start _ _ _) calls

section Run

open Concrete

/-- Al announces an interval of five seconds, then one of nine. -/
def slowerCalls : List PeerstoreCall :=
  [.storePeer 1 (peer 1 al), .storePeer 2 { peer 1 al with discoveryInterval := 9 }]

theorem not_latestWins_slowerCalls :
    ∃ heard, Transition.run (step guidStrings) (start (peer 0 bob) none 0) slowerCalls = some heard
      ∧ heard.latest (guid 1) = some (2, { peer 1 al with discoveryInterval := 9 })
      ∧ heard.store.peers.lookup (guidStrings.toString (guid 1))
        = some { peer 1 al with lastSeen := 2 }
      ∧ ¬ LatestWins guidStrings heard := by
  obtain ⟨heard, hrun⟩ : ∃ heard, Transition.run (step guidStrings) (start (peer 0 bob) none 0)
      slowerCalls = some heard := ⟨_, rfl⟩
  have hlatest : heard.latest (guid 1) = some (2, { peer 1 al with discoveryInterval := 9 }) := by
    obtain rfl := Option.some.inj hrun
    decide +kernel
  have hrecord : heard.store.peers.lookup (guidStrings.toString (guid 1))
      = some { peer 1 al with lastSeen := 2 } := by
    obtain rfl := Option.some.inj hrun
    decide +kernel
  refine ⟨heard, hrun, hlatest, hrecord, fun hwins => ?_⟩
  obtain ⟨_, p, hp, _, hinterval, _⟩ := hwins (guid 1) _ hrecord
  obtain rfl := (Prod.mk.inj (Option.some.inj (hlatest.symm.trans hp))).2
  cases hinterval

end Run

end Heard

end WhisperCore
