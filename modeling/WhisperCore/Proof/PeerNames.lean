import WhisperCore.Concrete
import WhisperCore.Proof.PeerstoreCases
import WhisperCore.Lib.Transition

/-!
# Names of stored peers

Every stored record should be reachable by a user name of its own. Lookups keep this. A store keeps
it exactly when it neither reads a freed name entry nor files the record under a suffixed name that
another record already has: `ensure_username_unique` adds the suffix once and does not look again.
-/

namespace WhisperCore

variable {strings : GuidStrings} {ps after : Peerstore} {p : Peer} {now : Int}

/-- Every record is filed under its own guid, and its user name leads to it and to no other. -/
structure EveryPeerReachable (strings : GuidStrings) (ps : Peerstore) : Prop where
  filed : ∀ {guidStr r}, ps.peers.lookup guidStr = some r → guidStr = strings.toString r.guid
  named : ∀ {guidStr r}, ps.peers.lookup guidStr = some r →
    ps.namestore.lookup r.userName = some (.live guidStr)
  unique : ∀ {guidStr guidStr' r r'}, ps.peers.lookup guidStr = some r →
    ps.peers.lookup guidStr' = some r' → r.userName = r'.userName → guidStr = guidStr' ∧ r = r'
  reached : ∀ {guidStr r}, ps.peers.lookup guidStr = some r →
    peerstoreLookupByUsername ps r.userName
      = some (if isPeerActive ps r then (some r, ps)
          else (none, { ps with peers := ps.peers.erase guidStr }))

theorem everyPeerReachable_of
    (filed : ∀ {guidStr r}, ps.peers.lookup guidStr = some r → guidStr = strings.toString r.guid)
    (named : ∀ {guidStr r}, ps.peers.lookup guidStr = some r →
      ps.namestore.lookup r.userName = some (.live guidStr)) :
    EveryPeerReachable strings ps where
  filed := filed
  named := named
  unique := by
    intro guidStr guidStr' r r' hr hr' hname
    have hfirst := named hr
    rw [hname, named hr'] at hfirst
    obtain rfl : guidStr' = guidStr := by simpa using hfirst
    exact ⟨rfl, Option.some.inj (hr.symm.trans hr')⟩
  reached := by
    intro guidStr r hr
    cases hactive : isPeerActive ps r <;>
      simp [peerstoreLookupByUsername, named hr, hr, hactive]

theorem everyPeerReachable_init (localPeer : Peer) (iap : Option (Int → Peer → Bool)) (now : Int) :
    EveryPeerReachable strings (peerstoreInit localPeer iap now) :=
  everyPeerReachable_of (by simp [peerstoreInit]) (by simp [peerstoreInit])

/-! ### Lookups -/

theorem EveryPeerReachable.erase_peer (h : EveryPeerReachable strings ps) (guidStr : CString) :
    EveryPeerReachable strings { ps with peers := ps.peers.erase guidStr } := by
  apply everyPeerReachable_of
  · intro other r hr
    exact h.filed (lookup_erase_eq_some_iff.mp hr).2
  · intro other r hr
    exact h.named (lookup_erase_eq_some_iff.mp hr).2

theorem EveryPeerReachable.erase_name (h : EveryPeerReachable strings ps) {username : CString}
    (hunused : ∀ guidStr r, ps.peers.lookup guidStr = some r → r.userName ≠ username) :
    EveryPeerReachable strings { ps with namestore := ps.namestore.erase username } := by
  refine everyPeerReachable_of h.filed ?_
  intro guidStr r hr
  exact lookup_erase_eq_some_iff.mpr ⟨hunused guidStr r hr, h.named hr⟩

theorem EveryPeerReachable.lookup (h : EveryPeerReachable strings ps) (guid : Guid) :
    EveryPeerReachable strings (peerstoreLookup strings ps guid).2 :=
  peerstoreLookup_invariant h h.erase_peer guid

theorem EveryPeerReachable.lookupByUsername (h : EveryPeerReachable strings ps)
    {username : CString} {result : Option Peer}
    (hlookup : peerstoreLookupByUsername ps username = some (result, after)) :
    EveryPeerReachable strings after := by
  refine lookupByUsername_invariant h h.erase_peer (fun guidStr hname hgone => ?_) hlookup
  apply h.erase_name
  intro other r hr hsame
  have hlive := h.named hr
  rw [hsame, hname] at hlive
  obtain rfl : guidStr = other := by simpa using hlive
  rw [hgone] at hr
  cases hr

/-! ### Storing -/

/-- A store of `p` goes under its suffixed name, and a record of another guid, other than the one
the store itself removes, has that name already. -/
structure SuffixTaken (strings : GuidStrings) (ps : Peerstore) (p : Peer) (guidStr : CString)
    (r : Peer) : Prop where
  clash : (ps.namestore.lookup p.userName).isSome
  renames : ∀ old, ps.peers.lookup (strings.toString p.guid) = some old →
    ¬ p.userName.bytes <+: old.userName.bytes
  filed : ps.peers.lookup guidStr = some r
  other : guidStr ≠ strings.toString p.guid
  stays : ¬ Reconnects strings ps p guidStr r
  suffixed : r.userName = uniqueUsername p.userName (strings.toString p.guid)

theorem EveryPeerReachable.reconnection {middle : Peerstore} (h : EveryPeerReachable strings ps)
    (hmiddle : handlePeerReconnection strings ps p = some middle) :
    EveryPeerReachable strings middle := by
  rcases handlePeerReconnection_cases hmiddle with ⟨rfl, _⟩ | ⟨removed, old, hre, rfl⟩
  · exact h
  · apply everyPeerReachable_of (fun hr => h.filed (lookup_erase_eq_some_iff.mp hr).2)
    intro guidStr r hr
    obtain ⟨hne, hr⟩ := lookup_erase_eq_some_iff.mp hr
    refine lookup_insert_eq_some_iff.mpr (Or.inr ⟨fun hname => hne ?_, h.named hr⟩)
    have hlive := h.named hr
    rw [hname, hre.named] at hlive
    exact (by simpa using hlive : removed = guidStr).symm

/-- After a store under `name`, the others are still reachable if none of them has that name. -/
theorem EveryPeerReachable.file {namestore : JnxHash GuidStr} (h : EveryPeerReachable strings ps)
    {name : CString} {record : Peer} (hguid : record.guid = p.guid) (hname : record.userName = name)
    (hnamestore : ∀ guidStr r, ps.peers.lookup guidStr = some r →
      guidStr ≠ strings.toString p.guid → namestore.lookup r.userName = some (.live guidStr))
    (hfree : ∀ guidStr r, ps.peers.lookup guidStr = some r →
      guidStr ≠ strings.toString p.guid → r.userName ≠ name) :
    EveryPeerReachable strings { ps with
      namestore := namestore.insert name (.live (strings.toString p.guid))
      peers := ps.peers.insert (strings.toString p.guid) record } := by
  apply everyPeerReachable_of
  · intro guidStr r hr
    rcases lookup_insert_eq_some_iff.mp hr with ⟨rfl, rfl⟩ | ⟨_, hr⟩
    · rw [hguid]
    · exact h.filed hr
  · intro guidStr r hr
    rcases lookup_insert_eq_some_iff.mp hr with ⟨rfl, rfl⟩ | ⟨hne, hr⟩
    · rw [hname]
      exact AList.lookup_insert _
    · exact lookup_insert_eq_some_iff.mpr
        (Or.inr ⟨hfree guidStr r hr hne, hnamestore guidStr r hr hne⟩)

/-- The record of another guid that has the name a store files under is the obstacle of
`SuffixTaken`: a name that is not suffixed is free. -/
theorem SuffixTaken.of_filedName {namestore : JnxHash GuidStr} {guidStr : CString} {r : Peer}
    (hr : ps.peers.lookup guidStr = some r) (hother : guidStr ≠ strings.toString p.guid)
    (hstays : ¬ Reconnects strings ps p guidStr r)
    (hrenames : ∀ old, ps.peers.lookup (strings.toString p.guid) = some old →
      ¬ p.userName.bytes <+: old.userName.bytes)
    (hclash : (namestore.lookup p.userName).isSome → (ps.namestore.lookup p.userName).isSome)
    (hnamed : namestore.lookup r.userName = some (.live guidStr))
    (hname : r.userName = filedName namestore p (strings.toString p.guid)) :
    SuffixTaken strings ps p guidStr r := by
  cases hentry : namestore.lookup p.userName with
  | none =>
      rw [filedName_of_none hentry] at hname
      rw [hname, hentry] at hnamed
      cases hnamed
  | some entry =>
      rw [filedName_of_some hentry] at hname
      exact ⟨hclash (by simp [hentry]), hrenames, hr, hother, hstays, hname⟩

theorem EveryPeerReachable.storePeer (h : EveryPeerReachable strings ps)
    (hstore : peerstoreStorePeer strings ps now p = some after)
    (hfree : ∀ guidStr r, ¬ SuffixTaken strings ps p guidStr r) :
    EveryPeerReachable strings after := by
  obtain ⟨middle, hmiddle, hstored⟩ := storePeer_cases hstore
  have hreach := h.reconnection hmiddle
  have hclash := isSome_namestore_reconnection hmiddle
  cases hstored with
  | updated old hfiled hstarts =>
      have holdFiled : strings.toString p.guid = strings.toString old.guid := hreach.filed hfiled
      have holdNamed := hreach.named hfiled
      apply everyPeerReachable_of
      · intro guidStr r hr
        rcases lookup_insert_eq_some_iff.mp hr with ⟨rfl, rfl⟩ | ⟨_, hr⟩
        · exact holdFiled
        · exact hreach.filed hr
      · intro guidStr r hr
        rcases lookup_insert_eq_some_iff.mp hr with ⟨rfl, rfl⟩ | ⟨_, hr⟩
        · exact holdNamed
        · exact hreach.named hr
  | renamed old name hfiled hstarts hname =>
      have hguid : old.guid = p.guid := (strings.toString_injective (hreach.filed hfiled)).symm
      have hannounced : p.userName ≠ old.userName := fun heq =>
        hstarts (heq ▸ List.prefix_refl _)
      have hothers : ∀ guidStr r, middle.peers.lookup guidStr = some r →
          guidStr ≠ strings.toString p.guid →
          (middle.namestore.erase old.userName).lookup r.userName = some (.live guidStr) := by
        intro guidStr r hr hne
        exact lookup_erase_eq_some_iff.mpr
          ⟨fun heq => hne (hreach.unique hr hfiled heq).1, hreach.named hr⟩
      refine hreach.file hguid rfl hothers fun guidStr r hr hne heq => ?_
      obtain ⟨hr', hstays⟩ := (lookup_peers_reconnection hmiddle).mp hr
      refine hfree guidStr r (SuffixTaken.of_filedName hr' hne hstays ?_ ?_ (hothers _ _ hr hne)
        (heq.trans hname))
      · intro found hfound
        rw [← handlePeerReconnection_lookup_self hmiddle, hfiled] at hfound
        exact Option.some.inj hfound ▸ hstarts
      · rw [← hclash, AList.lookup_erase_ne hannounced]
        exact id
  | inserted name hfiled hname =>
      refine hreach.file rfl rfl (fun _ _ hr _ => hreach.named hr) fun guidStr r hr hne heq => ?_
      obtain ⟨hr', hstays⟩ := (lookup_peers_reconnection hmiddle).mp hr
      refine hfree guidStr r (SuffixTaken.of_filedName hr' hne hstays ?_ ?_ (hreach.named hr)
        (heq.trans hname))
      · intro found hfound
        rw [← handlePeerReconnection_lookup_self hmiddle, hfiled] at hfound
        cases hfound
      · rw [hclash]
        exact id

/-- A suffixed name that is taken goes to the new record, and the old holder loses it. -/
theorem SuffixTaken.not_everyPeerReachable {guidStr : CString} {r : Peer}
    (htaken : SuffixTaken strings ps p guidStr r)
    (hstore : peerstoreStorePeer strings ps now p = some after) :
    ¬ EveryPeerReachable strings after := by
  obtain ⟨middle, hmiddle, hstored⟩ := storePeer_cases hstore
  have hr := (lookup_peers_reconnection hmiddle).mpr ⟨htaken.filed, htaken.stays⟩
  obtain ⟨entry, hentry⟩ := Option.isSome_iff_exists.mp
    ((isSome_namestore_reconnection hmiddle).trans htaken.clash)
  intro hreach
  have hlost : after.peers.lookup guidStr = some r →
      after.namestore.lookup r.userName = some (.live (strings.toString p.guid)) → False := by
    intro hkept hname
    rw [hreach.named hkept] at hname
    exact htaken.other (by simpa using hname)
  cases hstored with
  | updated old hfiled hstarts =>
      rw [handlePeerReconnection_lookup_self hmiddle] at hfiled
      exact htaken.renames old hfiled hstarts
  | renamed old name hfiled hstarts hname =>
      have hannounced : p.userName ≠ old.userName := fun heq =>
        hstarts (heq ▸ List.prefix_refl _)
      have hkept : (middle.namestore.erase old.userName).lookup p.userName = some entry :=
        lookup_erase_eq_some_iff.mpr ⟨hannounced, hentry⟩
      rw [filedName_of_some hkept] at hname
      refine hlost (lookup_insert_eq_some_iff.mpr (Or.inr ⟨htaken.other, hr⟩)) ?_
      rw [htaken.suffixed, ← hname]
      exact AList.lookup_insert _
  | inserted name hfiled hname =>
      rw [filedName_of_some hentry] at hname
      refine hlost (lookup_insert_eq_some_iff.mpr (Or.inr ⟨htaken.other, hr⟩)) ?_
      rw [htaken.suffixed, ← hname]
      exact AList.lookup_insert _

/-! ### Runs -/

/-- The call reads no freed name entry, and a store files no record under a suffixed name another
record has. -/
def NamesApart (strings : GuidStrings) (ps : Peerstore) : PeerstoreCall → Prop
  | .storePeer _ p => ps.namestore.lookup p.userName ≠ some .freed
      ∧ ∀ guidStr r, ¬ SuffixTaken strings ps p guidStr r
  | .lookup _ => True
  | .lookupByUsername username => ps.namestore.lookup username ≠ some .freed
  | .setLastUpdateTime _ => True

theorem everyPeerReachable_step_iff (h : EveryPeerReachable strings ps) (call : PeerstoreCall) :
    (∃ next, call.step strings ps = some next ∧ EveryPeerReachable strings next)
      ↔ NamesApart strings ps call := by
  cases call with
  | storePeer now p =>
      constructor
      · rintro ⟨next, hnext, hreach⟩
        refine ⟨fun hfreed => ?_, fun guidStr r htaken => ?_⟩
        · rw [PeerstoreCall.step, (storePeer_eq_none_iff now).mpr hfreed] at hnext
          cases hnext
        · exact htaken.not_everyPeerReachable hnext hreach
      · rintro ⟨hfreed, hfree⟩
        obtain ⟨next, hnext⟩ := storePeer_defined_iff.mpr hfreed
        exact ⟨next, hnext, h.storePeer hnext hfree⟩
  | lookup guid => exact ⟨fun _ => trivial, fun _ => ⟨_, rfl, h.lookup guid⟩⟩
  | lookupByUsername username =>
      constructor
      · rintro ⟨next, hnext, _⟩ hfreed
        rw [PeerstoreCall.step, lookupByUsername_eq_none_iff.mpr hfreed] at hnext
        cases hnext
      · intro hfreed
        obtain ⟨result, next, hlookup⟩ := lookupByUsername_defined_iff.mpr hfreed
        exact ⟨next, by simp [PeerstoreCall.step, hlookup], h.lookupByUsername hlookup⟩
  | setLastUpdateTime lastUpdate =>
      refine ⟨fun _ => trivial, fun _ => ⟨_, rfl, ?_⟩⟩
      exact everyPeerReachable_of h.filed h.named

/-- **Reachable names, exactly.** Along a run of calls from a fresh store no call is undefined and
every stored peer stays reachable by its own name, exactly when no call reads a freed name entry and
no store files a record under a suffixed name another record has. -/
theorem stays_everyPeerReachable_iff (localPeer : Peer) (iap : Option (Int → Peer → Bool))
    (now : Int) (calls : List PeerstoreCall) :
    Transition.Stays (PeerstoreCall.step strings) (EveryPeerReachable strings)
        (peerstoreInit localPeer iap now) calls
      ↔ Transition.Along (PeerstoreCall.step strings) (NamesApart strings)
        (peerstoreInit localPeer iap now) calls :=
  Transition.stays_iff_along (fun _ call h => everyPeerReachable_step_iff h call)
    (everyPeerReachable_init localPeer iap now) calls

section Run

open Concrete

/-- Three peers named Bob, at three addresses, whose guids start with the same four digits. -/
def threeBobs : List PeerstoreCall :=
  [.storePeer 1 (peer 1 bob), .storePeer 2 (peer 2 bob), .storePeer 3 (peer 3 bob)]

theorem not_everyPeerReachable_threeBobs :
    ∃ ps r, Transition.run (PeerstoreCall.step guidStrings) (peerstoreInit (peer 0 al) none 0)
        threeBobs = some ps
      ∧ ps.peers.lookup (guidStrings.toString (guid 2)) = some r
      ∧ ps.namestore.lookup r.userName = some (.live (guidStrings.toString (guid 3)))
      ∧ ¬ EveryPeerReachable guidStrings ps := by
  have hfiled : ∀ ps, Transition.run (PeerstoreCall.step guidStrings)
      (peerstoreInit (peer 0 al) none 0) threeBobs = some ps →
      ps.peers.lookup (guidStrings.toString (guid 2))
        = some { peer 2 bob with
            userName := uniqueUsername bob (guidStrings.toString (guid 2)), lastSeen := 2 } := by
    rintro ps hps
    obtain rfl := Option.some.inj hps
    decide +kernel
  refine ⟨_, _, rfl, hfiled _ rfl, by decide +kernel, fun hreach => ?_⟩
  have hown := hreach.named (hfiled _ rfl)
  revert hown
  decide +kernel

end Run

end WhisperCore
