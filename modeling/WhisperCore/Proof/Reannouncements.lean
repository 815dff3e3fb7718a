import WhisperCore.Concrete
import WhisperCore.Lib.Transition
import WhisperCore.Proof.PeerstoreCases

/-!
# Announcements of known names

What an announcement does when the store has met its peer or its name before. A new name takes
effect unless the old one starts with it; another peer's record goes whenever the name entry leads
to it, whatever name it has by now; and an announcement that took a record away cannot be repeated,
since it leaves a freed guid string behind.
-/

namespace WhisperCore

variable {strings : GuidStrings} {ps after : Peerstore} {p : Peer} {now : Int}

/-- A condition on the stores of a run. -/
def OnStore (Cond : Peerstore → Int → Peer → Prop) (ps : Peerstore) : PeerstoreCall → Prop
  | .storePeer now p => Cond ps now p
  | _ => True

theorem along_onStore_congr {Cond Other : Peerstore → Int → Peer → Prop}
    (h : ∀ ps now p, Cond ps now p ↔ Other ps now p) (ps : Peerstore)
    (calls : List PeerstoreCall) :
    Transition.Along (PeerstoreCall.step strings) (OnStore Cond) ps calls
      ↔ Transition.Along (PeerstoreCall.step strings) (OnStore Other) ps calls := by
  refine Transition.along_congr (fun ps call => ?_) ps calls
  cases call with
  | storePeer now p => exact h ps now p
  | _ => exact Iff.rfl

/-! ### Renames -/

/-- A stored peer that announces a name gets it, or the name and a suffix; the name leads to it, and
the name it had before, if that was another, does not. -/
def RenameTakesEffect (strings : GuidStrings) (ps : Peerstore) (now : Int) (p : Peer) : Prop :=
  p.userName.bytes ≠ [] → ∀ old, ps.peers.lookup (strings.toString p.guid) = some old →
    ∃ after r, peerstoreStorePeer strings ps now p = some after
      ∧ after.peers.lookup (strings.toString p.guid) = some r
      ∧ (r.userName = p.userName
        ∨ r.userName = uniqueUsername p.userName (strings.toString p.guid))
      ∧ after.namestore.lookup r.userName = some (.live (strings.toString p.guid))
      ∧ (r.userName ≠ old.userName →
        after.namestore.lookup old.userName ≠ some (.live (strings.toString p.guid)))

/-- The announced name has no freed entry. If the record's name starts with it, the record has that
name, with or without the suffix, and is found by it. -/
def RenameSeen (strings : GuidStrings) (ps : Peerstore) (p : Peer) : Prop :=
  p.userName.bytes ≠ [] → ∀ old, ps.peers.lookup (strings.toString p.guid) = some old →
    ps.namestore.lookup p.userName ≠ some .freed
      ∧ (p.userName.bytes <+: old.userName.bytes →
        (old.userName = p.userName
          ∨ old.userName = uniqueUsername p.userName (strings.toString p.guid))
        ∧ ps.namestore.lookup old.userName = some (.live (strings.toString p.guid)))

theorem filedName_cases (namestore : JnxHash GuidStr) (p : Peer) (guidStr : CString) :
    filedName namestore p guidStr = p.userName
      ∨ filedName namestore p guidStr = uniqueUsername p.userName guidStr := by
  cases h : namestore.lookup p.userName with
  | none => exact Or.inl (filedName_of_none h)
  | some entry => exact Or.inr (filedName_of_some h)

theorem prefix_filedName (namestore : JnxHash GuidStr) (p : Peer) (guidStr : CString) :
    p.userName.bytes <+: (filedName namestore p guidStr).bytes := by
  rcases filedName_cases namestore p guidStr with hname | hname
  · rw [hname]
  · rw [hname]
    show p.userName.bytes <+: (p.userName.bytes ++ dash.bytes) ++ (guidStr.take 4).bytes
    rw [List.append_assoc]
    exact List.prefix_append _ _

/-- A name that leads to the announced guid is not touched by the reconnection. -/
theorem named_reconnection_iff {middle : Peerstore} {username : CString}
    (hmiddle : handlePeerReconnection strings ps p = some middle) :
    middle.namestore.lookup username = some (.live (strings.toString p.guid))
      ↔ ps.namestore.lookup username = some (.live (strings.toString p.guid)) := by
  rcases handlePeerReconnection_cases hmiddle with ⟨rfl, _⟩ | ⟨_, _, hre, rfl⟩
  · exact Iff.rfl
  · rw [lookup_insert_eq_some_iff]
    constructor
    · rintro (⟨_, hfreed⟩ | ⟨_, hname⟩)
      · cases hfreed
      · exact hname
    · intro hname
      refine Or.inr ⟨?_, hname⟩
      rintro rfl
      exact hre.other (by simpa using hre.named.symm.trans hname)

theorem renameTakesEffect_iff (now : Int) :
    RenameTakesEffect strings ps now p ↔ RenameSeen strings ps p := by
  refine forall_congr' fun _ => forall₂_congr fun old hold => ?_
  constructor
  · rintro ⟨after, r, hstore, hr, hname, hlive, _⟩
    refine ⟨storePeer_defined_iff.mp ⟨after, hstore⟩, fun hstarts => ?_⟩
    obtain ⟨middle, hmiddle, hstored⟩ := storePeer_cases hstore
    rw [← handlePeerReconnection_lookup_self hmiddle] at hold
    cases hstored with
    | updated found hfiled _ =>
        obtain rfl : found = old := Option.some.inj (hfiled.symm.trans hold)
        obtain rfl := Option.some.inj ((AList.lookup_insert _).symm.trans hr)
        exact ⟨hname, (named_reconnection_iff hmiddle).mp hlive⟩
    | renamed found name hfiled hdiffers _ =>
        obtain rfl : found = old := Option.some.inj (hfiled.symm.trans hold)
        exact absurd hstarts hdiffers
    | inserted name hfiled _ => cases hfiled.symm.trans hold
  · rintro ⟨halive, hsame⟩
    obtain ⟨after, hstore⟩ : ∃ after, peerstoreStorePeer strings ps now p = some after :=
      storePeer_defined_iff.mpr halive
    obtain ⟨middle, hmiddle, hstored⟩ := storePeer_cases hstore
    rw [← handlePeerReconnection_lookup_self hmiddle] at hold
    refine ⟨after, ?_⟩
    cases hstored with
    | updated found hfiled hstarts =>
        obtain rfl : found = old := Option.some.inj (hfiled.symm.trans hold)
        obtain ⟨hname, hlive⟩ := hsame hstarts
        refine ⟨_, hstore, AList.lookup_insert _, hname, ?_, fun hother => absurd rfl hother⟩
        exact (named_reconnection_iff hmiddle).mpr hlive
    | renamed found name hfiled hdiffers hname =>
        obtain rfl : found = old := Option.some.inj (hfiled.symm.trans hold)
        refine ⟨_, hstore, AList.lookup_insert _, ?_, AList.lookup_insert _, fun hother hlive => ?_⟩
        · rw [hname]
          exact filedName_cases _ _ _
        · -- the entry of the former name was erased, and the new one is under another
          rcases lookup_insert_eq_some_iff.mp hlive with ⟨hsame, _⟩ | ⟨_, hold⟩
          · exact hother hsame.symm
          · exact (lookup_erase_eq_some_iff.mp hold).1 rfl
    | inserted name hfiled _ => cases hfiled.symm.trans hold

/-- **Renames, exactly.** Along a run of calls from a fresh store every rename takes effect if and
only if no stored peer announces a proper beginning of the name it has, or a name that no longer
leads to it, or one whose entry is freed. -/
theorem along_renameTakesEffect_iff (strings : GuidStrings) (localPeer : Peer)
    (iap : Option (Int → Peer → Bool)) (now : Int) (calls : List PeerstoreCall) :
    Transition.Along (PeerstoreCall.step strings) (OnStore (RenameTakesEffect strings))
        (peerstoreInit localPeer iap now) calls
      ↔ Transition.Along (PeerstoreCall.step strings)
        (OnStore fun ps _ p => RenameSeen strings ps p)
        (peerstoreInit localPeer iap now) calls :=
  along_onStore_congr (fun _ now _ => renameTakesEffect_iff now) _ calls

section Run

open Concrete

/-- "Bo" -/
def bo : CString := ⟨[0x42, 0x6F], by decide⟩

/-- Bob calls himself Bo, and keeps the name Bob. -/
theorem not_renameTakesEffect_bo :
    ∃ ps after, Transition.run (PeerstoreCall.step guidStrings) freshStore
        [.storePeer 1 (peer 1 bob)] = some ps
      ∧ peerstoreStorePeer guidStrings ps 2 (peer 1 bo) = some after
      ∧ after.peers.lookup (guidStrings.toString (guid 1)) = some { peer 1 bob with lastSeen := 2 }
      ∧ ¬ RenameTakesEffect guidStrings ps 2 (peer 1 bo) := by
  have hafter : ∀ ps after, Transition.run (PeerstoreCall.step guidStrings) freshStore
      [.storePeer 1 (peer 1 bob)] = some ps →
      peerstoreStorePeer guidStrings ps 2 (peer 1 bo) = some after →
      ps.peers.lookup (guidStrings.toString (guid 1)) = some { peer 1 bob with lastSeen := 1 }
        ∧ after.peers.lookup (guidStrings.toString (guid 1))
          = some { peer 1 bob with lastSeen := 2 } := by
    rintro ps after hps hafter
    obtain rfl := Option.some.inj hps
    obtain rfl := Option.some.inj hafter
    decide +kernel
  refine ⟨_, _, rfl, rfl, (hafter _ _ rfl rfl).2, fun htakes => ?_⟩
  obtain ⟨after, r, hstore, hr, hname, _⟩ := htakes (by decide) _ (hafter _ _ rfl rfl).1
  obtain rfl := Option.some.inj ((hafter _ _ rfl hstore).2.symm.trans hr)
  revert hname
  decide +kernel

end Run

/-! ### Strangers -/

/-- The store changes no record of another guid but one of the announced name and address. -/
def SparesStrangers (strings : GuidStrings) (ps : Peerstore) (now : Int) (p : Peer) : Prop :=
  ∃ after, peerstoreStorePeer strings ps now p = some after
    ∧ ∀ guidStr r, guidStr ≠ strings.toString p.guid → ps.peers.lookup guidStr = some r →
      after.peers.lookup guidStr = some r
        ∨ (r.userName = p.userName ∧ r.hostAddress = p.hostAddress)

/-- The announced name has no freed entry, and a record it leads to at the announced address has
that name. -/
def NamesNoStranger (strings : GuidStrings) (ps : Peerstore) (p : Peer) : Prop :=
  ps.namestore.lookup p.userName ≠ some .freed
    ∧ ∀ guidStr old, Reconnects strings ps p guidStr old → old.userName = p.userName

theorem sparesStrangers_iff (now : Int) :
    SparesStrangers strings ps now p ↔ NamesNoStranger strings ps p := by
  constructor
  · rintro ⟨after, hstore, hspared⟩
    refine ⟨storePeer_defined_iff.mp ⟨after, hstore⟩, fun guidStr old hre => ?_⟩
    rcases hspared guidStr old hre.other hre.filed with hkept | ⟨hname, _⟩
    · cases (hre.lookup_after hstore).symm.trans hkept
    · exact hname
  · rintro ⟨halive, hnames⟩
    obtain ⟨after, hstore⟩ : ∃ after, peerstoreStorePeer strings ps now p = some after :=
      storePeer_defined_iff.mpr halive
    refine ⟨after, hstore, fun guidStr r hother hr => ?_⟩
    obtain ⟨middle, hmiddle, hstored⟩ := storePeer_cases hstore
    by_cases hre : Reconnects strings ps p guidStr r
    · exact Or.inr ⟨hnames guidStr r hre, hre.address.symm⟩
    · left
      rw [hstored.lookup_of_ne hother]
      exact (lookup_peers_reconnection hmiddle).mpr ⟨hr, hre⟩

/-- **Strangers, exactly.** Along a run of calls from a fresh store no announcement touches the
record of another name or address if and only if none finds a name entry that leads, at its own
address, to a record of another name, or one that is freed. -/
theorem along_sparesStrangers_iff (strings : GuidStrings) (localPeer : Peer)
    (iap : Option (Int → Peer → Bool)) (now : Int) (calls : List PeerstoreCall) :
    Transition.Along (PeerstoreCall.step strings) (OnStore (SparesStrangers strings))
        (peerstoreInit localPeer iap now) calls
      ↔ Transition.Along (PeerstoreCall.step strings)
        (OnStore fun ps _ p => NamesNoStranger strings ps p)
        (peerstoreInit localPeer iap now) calls :=
  along_onStore_congr (fun _ now _ => sparesStrangers_iff now) _ calls

section Run

open Concrete

/-- Bob is evicted and comes back as Al; his old name still leads to his guid. -/
def bobRenamed : List PeerstoreCall :=
  [.storePeer 1 (peer 1 bob), .setLastUpdateTime 12, .lookup (guid 1), .storePeer 13 (peer 1 al)]

/-- Somebody who is called Bob, at the same address, removes the record of Al. -/
theorem not_sparesStrangers_bobRenamed :
    ∃ ps after, Transition.run (PeerstoreCall.step guidStrings) freshStore bobRenamed = some ps
      ∧ ps.peers.lookup (guidStrings.toString (guid 1)) = some { peer 1 al with lastSeen := 13 }
      ∧ peerstoreStorePeer guidStrings ps 14 { peer 2 bob with hostAddress := host 1 } = some after
      ∧ after.peers.lookup (guidStrings.toString (guid 1)) = none
      ∧ ¬ SparesStrangers guidStrings ps 14 { peer 2 bob with hostAddress := host 1 } := by
  have hafter : ∀ ps after, Transition.run (PeerstoreCall.step guidStrings) freshStore bobRenamed
      = some ps →
      peerstoreStorePeer guidStrings ps 14 { peer 2 bob with hostAddress := host 1 } = some after →
      ps.peers.lookup (guidStrings.toString (guid 1)) = some { peer 1 al with lastSeen := 13 }
        ∧ after.peers.lookup (guidStrings.toString (guid 1)) = none := by
    rintro ps after hps hafter
    obtain rfl := Option.some.inj hps
    obtain rfl := Option.some.inj hafter
    decide +kernel
  obtain ⟨hstored, hgone⟩ := hafter _ _ rfl rfl
  refine ⟨_, _, rfl, hstored, rfl, hgone, fun hspares => ?_⟩
  obtain ⟨after, hstore, hspared⟩ := hspares
  rcases hspared _ _ (by decide +kernel) hstored with hkept | ⟨hname, _⟩
  · cases (hafter _ _ rfl hstore).2.symm.trans hkept
  · revert hname
    decide

end Run

/-! ### Repetition -/

/-- A record but for where it is and when it was seen. -/
def Peer.value (p : Peer) : Peer := { p with address := 0, lastSeen := 0 }

/-- The tables have the same contents. -/
structure SameTables (first second : Peerstore) : Prop where
  namestore : ∀ username, first.namestore.lookup username = second.namestore.lookup username
  peers : ∀ guidStr, (first.peers.lookup guidStr).map Peer.value
    = (second.peers.lookup guidStr).map Peer.value

/-- An announcement made again, at any time and in any peer object, leaves the tables alone. -/
def RepeatsQuietly (strings : GuidStrings) (ps : Peerstore) (now : Int) (p : Peer) : Prop :=
  p.userName.bytes ≠ [] → ∀ later address, ∃ once twice,
    peerstoreStorePeer strings ps now p = some once
      ∧ peerstoreStorePeer strings once later { p with address := address } = some twice
      ∧ SameTables once twice

/-- The announcement reads no freed entry, and takes no record away. -/
def TakesNoRecord (strings : GuidStrings) (ps : Peerstore) (p : Peer) : Prop :=
  p.userName.bytes ≠ [] → ps.namestore.lookup p.userName ≠ some .freed
    ∧ ∀ guidStr old, ¬ Reconnects strings ps p guidStr old

/-- After a store the peer has a record whose name starts with the announced one. -/
theorem Stored.exists_prefixed (h : Stored strings ps now p after) :
    ∃ r, after.peers.lookup (strings.toString p.guid) = some r ∧ r.hostAddress = p.hostAddress
      ∧ p.userName.bytes <+: r.userName.bytes := by
  cases h with
  | updated old hfiled hstarts => exact ⟨_, AList.lookup_insert _, rfl, hstarts⟩
  | renamed old name hfiled hdiffers hname =>
      exact ⟨_, AList.lookup_insert _, rfl, hname ▸ prefix_filedName _ _ _⟩
  | inserted name hfiled hname =>
      exact ⟨_, AList.lookup_insert _, rfl, hname ▸ prefix_filedName _ _ _⟩

/-- A peer whose record has the announced name and address keeps its record when it is stored. -/
theorem Stored.sameTables (h : Stored strings ps now p after) {r : Peer}
    (hr : ps.peers.lookup (strings.toString p.guid) = some r)
    (haddress : r.hostAddress = p.hostAddress) (hstarts : p.userName.bytes <+: r.userName.bytes) :
    SameTables ps after := by
  cases h with
  | updated old hfiled _ =>
      obtain rfl : r = old := Option.some.inj (hr.symm.trans hfiled)
      refine ⟨fun _ => rfl, fun guidStr => ?_⟩
      by_cases hown : guidStr = strings.toString p.guid
      · subst hown
        rw [hr, AList.lookup_insert]
        simp [Peer.value, haddress]
      · rw [AList.lookup_insert_ne hown]
  | renamed old name hfiled hdiffers hname =>
      obtain rfl : r = old := Option.some.inj (hr.symm.trans hfiled)
      exact absurd hstarts hdiffers
  | inserted name hfiled hname => cases hfiled.symm.trans hr

/-- What took no record away takes none when it is announced again. -/
theorem TakesNoRecord.again (h : TakesNoRecord strings ps p)
    (hstored : Stored strings ps now p after) (address : Nat) :
    TakesNoRecord strings after { p with address := address } := by
  intro hname
  obtain ⟨halive, hkeeps⟩ := h hname
  refine ⟨fun hfreed => halive (hstored.entry_before hfreed nofun), fun guidStr old hre => ?_⟩
  have hnamed := hstored.entry_before hre.named (by simpa using hre.other)
  have hfiled := hre.filed
  rw [hstored.lookup_of_ne hre.other] at hfiled
  exact hkeeps guidStr old ⟨hnamed, hre.other, hfiled, hre.address⟩

theorem repeatsQuietly_iff (now : Int) :
    RepeatsQuietly strings ps now p ↔ TakesNoRecord strings ps p := by
  constructor
  · intro hquiet hname
    obtain ⟨once, twice, honce, htwice, _⟩ := hquiet hname now p.address
    refine ⟨storePeer_defined_iff.mp ⟨once, honce⟩, fun guidStr old hre => ?_⟩
    have halive : once.namestore.lookup p.userName ≠ some .freed :=
      storePeer_defined_iff.mp ⟨twice, htwice⟩
    exact halive (hre.freed_after honce)
  · intro htakes hname later address
    obtain ⟨halive, hkeeps⟩ := htakes hname
    obtain ⟨once, honce⟩ : ∃ once, peerstoreStorePeer strings ps now p = some once :=
      storePeer_defined_iff.mpr halive
    have hstored := storePeer_of_forall_not honce hkeeps
    let again : Peer := { p with address := address }
    obtain ⟨haliveOnce, hkeepsOnce⟩ := htakes.again hstored address hname
    obtain ⟨twice, htwice⟩ : ∃ twice, peerstoreStorePeer strings once later again = some twice :=
      storePeer_defined_iff.mpr haliveOnce
    have hstoredTwice := storePeer_of_forall_not htwice hkeepsOnce
    obtain ⟨r, hr, haddress, hstarts⟩ := hstored.exists_prefixed
    exact ⟨once, twice, honce, htwice, hstoredTwice.sameTables hr haddress hstarts⟩

/-- **Repetition, exactly.** Along a run of calls from a fresh store every announcement can be
repeated without a change to the tables if and only if none takes the record of another peer away
and none reads a freed entry. -/
theorem along_repeatsQuietly_iff (strings : GuidStrings) (localPeer : Peer)
    (iap : Option (Int → Peer → Bool)) (now : Int) (calls : List PeerstoreCall) :
    Transition.Along (PeerstoreCall.step strings) (OnStore (RepeatsQuietly strings))
        (peerstoreInit localPeer iap now) calls
      ↔ Transition.Along (PeerstoreCall.step strings)
        (OnStore fun ps _ p => TakesNoRecord strings ps p)
        (peerstoreInit localPeer iap now) calls :=
  along_onStore_congr (fun _ now _ => repeatsQuietly_iff now) _ calls

section Run

open Concrete

/-- Another Bob takes the place of the first, and when he announces himself again a freed guid
string is read. -/
theorem not_repeatsQuietly_otherBob :
    ∃ ps once, Transition.run (PeerstoreCall.step guidStrings) freshStore
        [.storePeer 1 (peer 1 bob)] = some ps
      ∧ peerstoreStorePeer guidStrings ps 2 { peer 2 bob with hostAddress := host 1 } = some once
      ∧ peerstoreStorePeer guidStrings once 3 { peer 2 bob with hostAddress := host 1 } = none
      ∧ ¬ RepeatsQuietly guidStrings ps 2 { peer 2 bob with hostAddress := host 1 } := by
  have honce : ∀ ps once, Transition.run (PeerstoreCall.step guidStrings) freshStore
      [.storePeer 1 (peer 1 bob)] = some ps →
      peerstoreStorePeer guidStrings ps 2 { peer 2 bob with hostAddress := host 1 } = some once →
      peerstoreStorePeer guidStrings once 3 { peer 2 bob with hostAddress := host 1 } = none := by
    rintro ps once hps honce
    obtain rfl := Option.some.inj hps
    obtain rfl := Option.some.inj honce
    rfl
  refine ⟨_, _, rfl, rfl, honce _ _ rfl rfl, fun hquiet => ?_⟩
  obtain ⟨once, twice, hfirst, hsecond, _⟩ := hquiet (by decide) 3 2
  cases (honce _ _ rfl hfirst).symm.trans hsecond

end Run

end WhisperCore
