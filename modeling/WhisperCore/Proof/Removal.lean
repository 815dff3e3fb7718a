import WhisperCore.Concrete
import WhisperCore.Lib.Transition
import WhisperCore.Proof.PeerstoreCases

/-!
# Removing a peer

`peerstore_peer_no_longer_active` finds the record to remove through the name the peer announces,
not through its guid. That is the right record when the name leads to the peer's guid, and the right
name entry when the record has that name; a peer that is not known is not passed over.
-/

namespace WhisperCore

variable {strings : GuidStrings} {ps after : Peerstore} {p : Peer}

theorem peerstorePeerNoLongerActive_eq_some_iff :
    peerstorePeerNoLongerActive ps p = some after
      ↔ ∃ guidStr r, ps.namestore.lookup p.userName = some (.live guidStr)
        ∧ ps.peers.lookup guidStr = some r ∧ after = { ps with
          namestore := ps.namestore.erase p.userName
          peers := ps.peers.erase guidStr } := by
  constructor
  · intro hremove
    cases hname : ps.namestore.lookup p.userName with
    | none => simp [peerstorePeerNoLongerActive, hname] at hremove
    | some entry =>
        cases entry with
        | freed => simp [peerstorePeerNoLongerActive, hname] at hremove
        | live guidStr =>
            cases hr : ps.peers.lookup guidStr with
            | none => simp [peerstorePeerNoLongerActive, hname, hr] at hremove
            | some r =>
                simp only [peerstorePeerNoLongerActive, hname, hr, Option.some.injEq] at hremove
                exact ⟨guidStr, r, rfl, hr, hremove.symm⟩
  · rintro ⟨guidStr, r, hname, hr, rfl⟩
    simp only [peerstorePeerNoLongerActive, hname, hr]

/-- The record of the peer's guid goes with its name entry; other records and the name entries of
other guids stay, and all stays when the guid has no record. -/
structure RemovesExactly (strings : GuidStrings) (ps : Peerstore) (p : Peer) (after : Peerstore) :
    Prop where
  removed : ∀ r, ps.peers.lookup (strings.toString p.guid) = some r →
    after.peers.lookup (strings.toString p.guid) = none
      ∧ after.namestore.lookup r.userName ≠ some (.live (strings.toString p.guid))
  others : ∀ guidStr, guidStr ≠ strings.toString p.guid →
    after.peers.lookup guidStr = ps.peers.lookup guidStr
  names : ∀ username, ps.namestore.lookup username ≠ some (.live (strings.toString p.guid)) →
    after.namestore.lookup username = ps.namestore.lookup username
  absent : ps.peers.lookup (strings.toString p.guid) = none → after = ps

/-- The call returns, and has removed the peer and nothing else. -/
def RemovesPeer (strings : GuidStrings) (ps : Peerstore) (p : Peer) : Prop :=
  ∃ after, peerstorePeerNoLongerActive ps p = some after ∧ RemovesExactly strings ps p after

/-- The guid has a record, the announced name leads to it, and it has no other name that does. -/
def KnownByName (strings : GuidStrings) (ps : Peerstore) (p : Peer) : Prop :=
  ∃ r, ps.peers.lookup (strings.toString p.guid) = some r
    ∧ ps.namestore.lookup p.userName = some (.live (strings.toString p.guid))
    ∧ (ps.namestore.lookup r.userName = some (.live (strings.toString p.guid)) →
      r.userName = p.userName)

theorem removesPeer_iff : RemovesPeer strings ps p ↔ KnownByName strings ps p := by
  constructor
  · rintro ⟨after, hremove, hexactly⟩
    obtain ⟨guidStr, found, hname, hfound, rfl⟩ :=
      peerstorePeerNoLongerActive_eq_some_iff.mp hremove
    have hown : guidStr = strings.toString p.guid := by
      by_contra hother
      have hkept := hexactly.others guidStr hother
      rw [hfound, AList.lookup_erase] at hkept
      cases hkept
    subst hown
    refine ⟨found, hfound, hname, fun hlive => ?_⟩
    by_contra hother
    refine (hexactly.removed found hfound).2 ?_
    exact lookup_erase_eq_some_iff.mpr ⟨hother, hlive⟩
  · rintro ⟨r, hr, hname, honly⟩
    refine ⟨_, peerstorePeerNoLongerActive_eq_some_iff.mpr ⟨_, r, hname, hr, rfl⟩, ?_⟩
    refine ⟨fun found hfound => ⟨AList.lookup_erase _ _, fun hlive => ?_⟩,
      fun guidStr hother => AList.lookup_erase_ne hother, fun username hother => ?_,
      fun habsent => ?_⟩
    · obtain rfl : r = found := Option.some.inj (hr.symm.trans hfound)
      obtain ⟨hkept, hlive⟩ := lookup_erase_eq_some_iff.mp hlive
      exact hkept (honly hlive)
    · refine AList.lookup_erase_ne ?_
      rintro rfl
      exact hother hname
    · cases hr.symm.trans habsent

/-! ### Runs -/

/-- A condition on the removals of a run. -/
def OnRemoval (Cond : Peerstore → Peer → Prop) (ps : Peerstore) : PeerstoreEvent → Prop
  | .noLongerActive p => Cond ps p
  | .call _ => True

/-- **Removal, exactly.** Along any run of calls and removals from a fresh store every removal
removes the departing peer and nothing else if and only if every peer removed is known by the name
it announces. -/
theorem along_removesPeer_iff (strings : GuidStrings) (localPeer : Peer)
    (iap : Option (Int → Peer → Bool)) (now : Int) (events : List PeerstoreEvent) :
    Transition.Along (PeerstoreEvent.step strings) (OnRemoval (RemovesPeer strings))
        (peerstoreInit localPeer iap now) events
      ↔ Transition.Along (PeerstoreEvent.step strings) (OnRemoval (KnownByName strings))
        (peerstoreInit localPeer iap now) events := by
  refine Transition.along_congr (fun ps event => ?_) _ events
  cases event with
  | noLongerActive p => exact removesPeer_iff
  | call made => exact Iff.rfl

section Run

open Concrete

/-- Two peers named Bob; the second is stored under the name and a suffix. -/
def twoBobs : Peerstore := storeAfter [.storePeer 1 (peer 1 bob), .storePeer 2 (peer 2 bob)]

/-- When the second Bob departs the record of the first goes, and a peer nobody knows is looked up
by a NULL string. -/
theorem not_removesPeer_twoBobs :
    Transition.run (PeerstoreCall.step guidStrings) freshStore
        [.storePeer 1 (peer 1 bob), .storePeer 2 (peer 2 bob)] = some twoBobs
      ∧ (∃ after, peerstorePeerNoLongerActive twoBobs (peer 2 bob) = some after
        ∧ after.peers.lookup (guidStrings.toString (guid 1)) = none
        ∧ (after.peers.lookup (guidStrings.toString (guid 2))).isSome)
      ∧ (¬ RemovesPeer guidStrings twoBobs (peer 2 bob))
      ∧ peerstorePeerNoLongerActive twoBobs (peer 3 al) = none
      ∧ ¬ RemovesPeer guidStrings twoBobs (peer 3 al) := by
  have hafter : ∀ after, peerstorePeerNoLongerActive twoBobs (peer 2 bob) = some after →
      after.peers.lookup (guidStrings.toString (guid 1)) = none
        ∧ (after.peers.lookup (guidStrings.toString (guid 2))).isSome := by
    rintro after hafter
    obtain rfl := Option.some.inj hafter
    decide +kernel
  refine ⟨rfl, ⟨_, rfl, hafter _ rfl⟩, ?_, rfl, ?_⟩
  · rintro ⟨after, hremove, hexactly⟩
    obtain ⟨hgone, _⟩ := hafter after hremove
    have hkept := hexactly.others (guidStrings.toString (guid 1)) (by decide +kernel)
    rw [hgone] at hkept
    revert hkept
    decide +kernel
  · rintro ⟨after, hremove, _⟩
    cases hremove

end Run

end WhisperCore
