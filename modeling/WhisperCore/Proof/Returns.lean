import WhisperCore.Concrete
import WhisperCore.Lib.Transition
import WhisperCore.Proof.PeerstoreCases

/-!
# Peers that come back

A peer comes back with a new guid, or with the one it had before it was evicted. Either way its name
should be its own again. `ensure_username_unique` gives out a name only when the namestore has no
entry for it, and both ways leave one: a reconnection frees the guid string of the entry and keeps
the entry, and an eviction removes the record alone.
-/

namespace WhisperCore

variable {strings : GuidStrings} {ps after : Peerstore} {p q : Peer} {now : Int}

/-- The record of `p` has the announced name, and a lookup of the name returns it when active. -/
def StoredUnderName (strings : GuidStrings) (ps : Peerstore) (p : Peer) : Prop :=
  ∃ r, ps.peers.lookup (strings.toString p.guid) = some r ∧ r.userName = p.userName
    ∧ (isPeerActive ps r = true →
      ∃ next, peerstoreLookupByUsername ps p.userName = some (some r, next))

/-- A peer without a record gets its name when there is no entry for it. -/
theorem storedUnderName_iff (hstore : peerstoreStorePeer strings ps now p = some after)
    (habsent : ps.peers.lookup (strings.toString p.guid) = none) :
    StoredUnderName strings after p ↔ ps.namestore.lookup p.userName = none := by
  obtain ⟨r, hr, hname, hlive⟩ := storePeer_of_absent hstore habsent
  rw [← filedName_eq_userName_iff, ← hname]
  constructor
  · rintro ⟨found, hfound, hsame, _⟩
    obtain rfl : r = found := Option.some.inj (hr.symm.trans hfound)
    exact hsame
  · intro hsame
    refine ⟨r, hr, hsame, fun hactive => ⟨after, ?_⟩⟩
    rw [hsame] at hlive
    simp [peerstoreLookupByUsername, hlive, hr, hactive]

/-! ### With a new guid -/

/-- The store drops the record at `guidStr` and files `p` under its name. -/
def TakesOverName (strings : GuidStrings) (ps : Peerstore) (now : Int) (p : Peer)
    (guidStr : CString) : Prop :=
  ∃ after, peerstoreStorePeer strings ps now p = some after
    ∧ after.peers.lookup guidStr = none ∧ StoredUnderName strings after p

/-- **Reconnection never takes over a name.** The entry of the old record still stands when the name
is checked for a clash. -/
theorem not_takesOverName {guidStr : CString} (hre : Reconnects strings ps p guidStr q)
    (habsent : ps.peers.lookup (strings.toString p.guid) = none) (now : Int) :
    ¬ TakesOverName strings ps now p guidStr := by
  rintro ⟨after, hstore, _, hunder⟩
  cases ((storedUnderName_iff hstore habsent).mp hunder).symm.trans hre.named

section Run

open Concrete

def knowsBob : Peerstore := storeAfter [.storePeer 1 (peer 1 bob)]

/-- Bob with a new guid. -/
def newBob : Peer := { peer 2 bob with hostAddress := host 1 }

theorem reconnects_newBob :
    Reconnects guidStrings knowsBob newBob (guidStrings.toString (guid 1))
      { peer 1 bob with lastSeen := 1 } where
  named := by decide +kernel
  other := by decide +kernel
  filed := by decide +kernel
  address := rfl

theorem not_takesOverName_newBob :
    knowsBob.peers.lookup (guidStrings.toString (guid 1)) = some { peer 1 bob with lastSeen := 1 }
      ∧ knowsBob.peers.lookup (guidStrings.toString newBob.guid) = none
      ∧ ¬ TakesOverName guidStrings knowsBob 2 newBob (guidStrings.toString (guid 1)) := by
  have habsent : knowsBob.peers.lookup (guidStrings.toString newBob.guid) = none := by
    decide +kernel
  exact ⟨reconnects_newBob.filed, habsent, not_takesOverName reconnects_newBob habsent 2⟩

/-- Bob is stored under his name and a suffix. -/
theorem suffixed_newBob :
    Transition.run (PeerstoreCall.step guidStrings) freshStore [.storePeer 1 (peer 1 bob)]
        = some knowsBob
      ∧ knowsBob.namestore.lookup bob = some (.live (guidStrings.toString (guid 1)))
      ∧ ∃ after, peerstoreStorePeer guidStrings knowsBob 2 newBob = some after
      ∧ after.peers.lookup (guidStrings.toString (guid 2)) = some { newBob with
        userName := uniqueUsername bob (guidStrings.toString (guid 2)), lastSeen := 2 }
      ∧ ¬ TakesOverName guidStrings knowsBob 2 newBob (guidStrings.toString (guid 1)) := by
  have hfiled : ∀ after, peerstoreStorePeer guidStrings knowsBob 2 newBob = some after →
      after.peers.lookup (guidStrings.toString (guid 2)) = some { newBob with
        userName := uniqueUsername bob (guidStrings.toString (guid 2)), lastSeen := 2 } := by
    rintro after hafter
    obtain rfl := Option.some.inj hafter
    decide +kernel
  refine ⟨rfl, reconnects_newBob.named, _, rfl, hfiled _ rfl, ?_⟩
  rintro ⟨after, hafter, _, r, hr, hname, _⟩
  obtain rfl := Option.some.inj ((hfiled after hafter).symm.trans hr)
  revert hname
  decide +kernel

end Run

/-! ### With the guid it had -/

/-- A lookup finds the record of a guid and evicts it. -/
inductive Evicts (strings : GuidStrings) (ps : Peerstore) (guid : Guid) : PeerstoreCall → Prop where
  | lookup : Evicts strings ps guid (.lookup guid)
  | lookupByUsername (username : CString)
      (hname : ps.namestore.lookup username = some (.live (strings.toString guid))) :
      Evicts strings ps guid (.lookupByUsername username)

/-- The call is no announcement of the peer, nor of its name by another. -/
def LeavesAlone (p : Peer) : PeerstoreCall → Prop
  | .storePeer _ other => other.guid ≠ p.guid ∧ other.userName ≠ p.userName
  | _ => True

/-- The history of a store at which `p` announces itself again: its record `q`, which the name it
announces led to, was inactive and evicted, and after that it was left alone. -/
inductive ComesBack (strings : GuidStrings) (p q : Peer) (ps : Peerstore) : Prop where
  | intro (localPeer : Peer) (iap : Option (Int → Peer → Bool)) (start : Int)
      (earlier between : List PeerstoreCall) (stored evicted : Peerstore) (call : PeerstoreCall)
      (hearlier : Transition.run (PeerstoreCall.step strings) (peerstoreInit localPeer iap start)
        earlier = some stored)
      (hfiled : stored.peers.lookup (strings.toString p.guid) = some q)
      (hname : q.userName = p.userName) (haddress : q.hostAddress = p.hostAddress)
      (hnamed : stored.namestore.lookup p.userName = some (.live (strings.toString p.guid)))
      (hinactive : isPeerActive stored q = false) (hevicts : Evicts strings stored p.guid call)
      (hevicted : call.step strings stored = some evicted)
      (hbetween : ∀ call ∈ between, LeavesAlone p call)
      (hrun : Transition.run (PeerstoreCall.step strings) evicted between = some ps)

theorem Evicts.step {call : PeerstoreCall} (h : Evicts strings ps p.guid call)
    (hfiled : ps.peers.lookup (strings.toString p.guid) = some q)
    (hinactive : isPeerActive ps q = false) (hstep : call.step strings ps = some after) :
    after = { ps with peers := ps.peers.erase (strings.toString p.guid) } := by
  cases h with
  | lookup =>
      obtain rfl := Option.some.inj hstep
      simp [peerstoreLookup, hfiled, hinactive]
  | lookupByUsername username hname =>
      obtain ⟨⟨result, next⟩, hlookup, rfl⟩ := Option.map_eq_some_iff.mp hstep
      simp only [peerstoreLookupByUsername, hname, hfiled, hinactive, Bool.false_eq_true, if_false,
        Option.some.injEq, Prod.mk.injEq] at hlookup
      exact hlookup.2.symm

/-- Only an announcement of its own brings a record back. -/
theorem LeavesAlone.step {call : PeerstoreCall} (h : LeavesAlone p call)
    (habsent : ps.peers.lookup (strings.toString p.guid) = none)
    (hstep : call.step strings ps = some after) :
    after.peers.lookup (strings.toString p.guid) = none := by
  refine absent_of_step hstep (fun now other heq hguid => ?_) habsent
  subst heq
  exact h.1 (strings.toString_injective hguid).symm

theorem ComesBack.absent (h : ComesBack strings p q ps) :
    ps.peers.lookup (strings.toString p.guid) = none := by
  obtain ⟨localPeer, iap, start, earlier, between, stored, evicted, call, hearlier, hfiled, hname,
    haddress, hnamed, hinactive, hevicts, hevicted, hbetween, hrun⟩ := h
  have habsent : evicted.peers.lookup (strings.toString p.guid) = none := by
    rw [hevicts.step hfiled hinactive hevicted]
    exact AList.lookup_erase _ _
  exact Transition.run_invariant_along
    (fun _ _ _ habsent hleaves hstep => LeavesAlone.step hleaves habsent hstep)
    (Transition.along_of_forall hbetween evicted) hrun habsent

/-- The store at which a peer comes back files it under its name. -/
def GetsNameBack (strings : GuidStrings) (ps : Peerstore) (now : Int) (p : Peer) : Prop :=
  ∃ after, peerstoreStorePeer strings ps now p = some after ∧ StoredUnderName strings after p

/-- **Coming back, exactly.** An evicted peer gets its name back if and only if the name entry that
its record left behind is gone by then. -/
theorem getsNameBack_iff (h : ComesBack strings p q ps) (now : Int) :
    GetsNameBack strings ps now p ↔ ps.namestore.lookup p.userName = none := by
  have habsent := h.absent
  constructor
  · rintro ⟨after, hstore, hunder⟩
    exact (storedUnderName_iff hstore habsent).mp hunder
  · intro hfree
    have halive : ps.namestore.lookup p.userName ≠ some .freed := by simp [hfree]
    obtain ⟨after, hstore⟩ : ∃ after, peerstoreStorePeer strings ps now p = some after :=
      storePeer_defined_iff.mpr halive
    exact ⟨after, hstore, (storedUnderName_iff hstore habsent).mpr hfree⟩

/-! ### When the entry goes -/

/-- Of the calls that are no announcement, only a lookup by a name touches the entry of the name. -/
theorem namestore_lookup_of_step {call : PeerstoreCall} {username : CString}
    (hstep : call.step strings ps = some after) (hstore : ∀ now p, call ≠ .storePeer now p)
    (hname : call ≠ .lookupByUsername username) :
    after.namestore.lookup username = ps.namestore.lookup username := by
  cases call with
  | storePeer now p => exact absurd rfl (hstore now p)
  | lookup guid =>
      obtain rfl := Option.some.inj hstep
      rcases peerstoreLookup_cases strings ps guid with
        ⟨_, _, _, heq⟩ | ⟨_, _, _, heq⟩ | ⟨_, heq⟩ <;> rw [heq]
  | lookupByUsername other =>
      obtain ⟨⟨result, next⟩, hlookup, rfl⟩ := Option.map_eq_some_iff.mp hstep
      have hother : username ≠ other := fun heq => hname (by rw [heq])
      rcases lookupByUsername_cases hlookup with
        ⟨_, _, _, _, _, _, rfl⟩ | ⟨_, _, _, _, _, _, rfl⟩ | ⟨_, _, _, _, rfl⟩ | ⟨_, _, rfl⟩
      · rfl
      · rfl
      · exact AList.lookup_erase_ne hother
      · rfl
  | setLastUpdateTime lastUpdate =>
      obtain rfl := Option.some.inj hstep
      rfl

/-- A lookup by the name of an evicted record removes the entry, or finds it removed. -/
theorem lookupByUsername_step_of_absent {guidStr username : CString}
    (hname : ps.namestore.lookup username = some (.live guidStr)
      ∨ ps.namestore.lookup username = none)
    (habsent : ps.peers.lookup guidStr = none)
    (hstep : (PeerstoreCall.lookupByUsername username).step strings ps = some after) :
    after.namestore.lookup username = none := by
  rcases hname with hlive | hnone
  · simp only [PeerstoreCall.step, peerstoreLookupByUsername, hlive, habsent, Option.map_some,
      Option.some.injEq] at hstep
    rw [← hstep]
    exact AList.lookup_erase _ _
  · simp only [PeerstoreCall.step, peerstoreLookupByUsername, hnone, Option.map_some,
      Option.some.injEq] at hstep
    rw [← hstep]
    exact hnone

/-- Between an eviction and a comeback without announcements, the name entry goes exactly with a
lookup by that name. -/
theorem namestore_eq_none_iff_lookedUp {username : CString} {calls : List PeerstoreCall}
    {final : Peerstore} {entry : Option GuidStr}
    (hcalls : ∀ call ∈ calls, ∀ now p, call ≠ .storePeer now p)
    (hentry : ps.namestore.lookup username = entry)
    (hname : entry = some (.live (strings.toString p.guid)) ∨ entry = none)
    (habsent : ps.peers.lookup (strings.toString p.guid) = none)
    (hrun : Transition.run (PeerstoreCall.step strings) ps calls = some final) :
    final.namestore.lookup username = none
      ↔ entry = none ∨ .lookupByUsername username ∈ calls := by
  induction calls generalizing ps entry with
  | nil =>
      obtain rfl := Option.some.inj hrun
      simp [hentry]
  | cons call calls ih =>
      obtain ⟨next, hnext, hrest⟩ := Transition.run_cons_eq_some.mp hrun
      obtain ⟨hcall, hlater⟩ := List.forall_mem_cons.mp hcalls
      have hgone : next.peers.lookup (strings.toString p.guid) = none :=
        absent_of_step hnext (fun now p heq => absurd heq (hcall now p)) habsent
      by_cases hsame : call = .lookupByUsername username
      · subst hsame
        have hnone := lookupByUsername_step_of_absent (hentry ▸ hname) habsent hnext
        rw [ih hlater hnone (Or.inr rfl) hgone hrest]
        simp
      · have hkept := (namestore_lookup_of_step hnext hcall hsame).trans hentry
        rw [ih hlater hkept hname hgone hrest]
        simp [Ne.symm hsame]

section Run

open Concrete

/-- Bob is evicted. -/
def evictsBob : Peerstore :=
  storeAfter [.storePeer 1 (peer 1 bob), .setLastUpdateTime 12, .lookup (guid 1)]

theorem comesBack_evictsBob :
    ComesBack guidStrings (peer 1 bob) { peer 1 bob with lastSeen := 1 } evictsBob := by
  refine .intro (peer 0 al) (some isActivePeerPeriodicUpdate) 0
    [.storePeer 1 (peer 1 bob), .setLastUpdateTime 12] [] _ _ (.lookup (guid 1)) rfl ?_ rfl rfl ?_
    rfl .lookup rfl nofun rfl
  · decide +kernel
  · decide +kernel

theorem getsNameBack_iff_evictsBob :
    ComesBack guidStrings (peer 1 bob) { peer 1 bob with lastSeen := 1 } evictsBob
      ∧ (GetsNameBack guidStrings evictsBob 13 (peer 1 bob)
        ↔ evictsBob.namestore.lookup bob = none) :=
  ⟨comesBack_evictsBob, getsNameBack_iff comesBack_evictsBob 13⟩

/-- Bob announces himself again and gets his name with a suffix. -/
theorem not_getsNameBack_evictsBob :
    ComesBack guidStrings (peer 1 bob) { peer 1 bob with lastSeen := 1 } evictsBob
      ∧ (∃ after, peerstoreStorePeer guidStrings evictsBob 13 (peer 1 bob) = some after
        ∧ after.peers.lookup (guidStrings.toString (guid 1)) = some { peer 1 bob with
          userName := uniqueUsername bob (guidStrings.toString (guid 1)), lastSeen := 13 })
      ∧ ¬ GetsNameBack guidStrings evictsBob 13 (peer 1 bob) := by
  have hfiled : ∀ after, peerstoreStorePeer guidStrings evictsBob 13 (peer 1 bob) = some after →
      after.peers.lookup (guidStrings.toString (guid 1)) = some { peer 1 bob with
        userName := uniqueUsername bob (guidStrings.toString (guid 1)), lastSeen := 13 } := by
    rintro after hafter
    obtain rfl := Option.some.inj hafter
    decide +kernel
  refine ⟨comesBack_evictsBob, ⟨_, rfl, hfiled _ rfl⟩, ?_⟩
  rintro ⟨after, hafter, r, hr, hname, _⟩
  obtain rfl := Option.some.inj ((hfiled after hafter).symm.trans hr)
  revert hname
  decide +kernel

end Run

end WhisperCore
