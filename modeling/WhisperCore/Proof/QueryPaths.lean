import WhisperCore.Proof.NameResolution

/-!
# Three ways to ask

A store shows of each peer its record, as long as that is active. The list of active guids, a lookup
and a lookup by name are three views of this one function, and lookups evict only what it does not
show. They disagree where there is no answer: after a reconnection the announced name leads to a
freed guid string.
-/

namespace WhisperCore

variable {strings : GuidStrings} {ps after : Peerstore} {guid : Guid} {r : Peer}

/-- What the store shows of a peer. -/
def shown (strings : GuidStrings) (ps : Peerstore) (guid : Guid) : Option Peer :=
  (ps.peers.lookup (strings.toString guid)).filter (isPeerActive ps)

theorem shown_eq_some_iff :
    shown strings ps guid = some r
      ↔ ps.peers.lookup (strings.toString guid) = some r ∧ isPeerActive ps r = true :=
  Option.filter_eq_some_iff

/-! ### The views -/

theorem peerstoreLookup_fst (strings : GuidStrings) (ps : Peerstore) (guid : Guid) :
    (peerstoreLookup strings ps guid).1 = shown strings ps guid := by
  rcases peerstoreLookup_cases strings ps guid with
    ⟨r, hr, hactive, heq⟩ | ⟨r, hr, hinactive, heq⟩ | ⟨hr, heq⟩
  · rw [heq, shown_eq_some_iff.mpr ⟨hr, hactive⟩]
  · simp [heq, shown, hr, Option.filter_some, hinactive]
  · simp [heq, shown, hr]

/-- A lookup by a name that leads to a guid is a lookup of the guid. -/
theorem lookupByUsername_of_live {username : CString}
    (hname : ps.namestore.lookup username = some (.live (strings.toString guid))) :
    ∃ after, peerstoreLookupByUsername ps username
        = some ((peerstoreLookup strings ps guid).1, after)
      ∧ after.peers = (peerstoreLookup strings ps guid).2.peers := by
  rcases peerstoreLookup_cases strings ps guid with
    ⟨r, hr, hactive, heq⟩ | ⟨r, hr, hinactive, heq⟩ | ⟨hr, heq⟩
  · exact ⟨ps, by simp [peerstoreLookupByUsername, hname, hr, hactive, heq], by rw [heq]⟩
  · exact ⟨_, by simp [peerstoreLookupByUsername, hname, hr, hinactive, heq]; rfl, by rw [heq]⟩
  · exact ⟨_, by simp [peerstoreLookupByUsername, hname, hr, heq]; rfl, by rw [heq]⟩

theorem mem_activeGuids_iff_shown (hfiled : FiledByGuid strings ps) :
    guid ∈ peerstoreGetActiveGuids ps ↔ ∃ r, shown strings ps guid = some r := by
  simp only [mem_activeGuids, shown_eq_some_iff]
  constructor
  · rintro ⟨guidStr, r, hr, hactive, rfl⟩
    exact ⟨r, hfiled guidStr r hr ▸ hr, hactive⟩
  · rintro ⟨r, hr, hactive⟩
    exact ⟨_, r, hr, hactive, (strings.toString_injective (hfiled _ r hr)).symm⟩

/-- Records have different guids, since they are filed under different strings. -/
theorem nodup_activeGuids (hfiled : FiledByGuid strings ps) :
    (peerstoreGetActiveGuids ps).Nodup := by
  let active := ps.peers.entries.filter fun entry => isPeerActive ps entry.2
  have hkeys : (active.map Sigma.fst).Nodup :=
    (List.filter_sublist.map Sigma.fst).nodup ps.peers.nodupKeys
  have hstrings : (peerstoreGetActiveGuids ps).map strings.toString = active.map Sigma.fst := by
    rw [peerstoreGetActiveGuids, List.map_map]
    apply List.map_congr_left
    intro entry hentry
    have hlookup : ps.peers.lookup entry.1 = some entry.2 :=
      AList.mem_lookup_iff.mpr (List.mem_of_mem_filter hentry)
    exact (hfiled entry.1 entry.2 hlookup).symm
  rw [← hstrings] at hkeys
  exact hkeys.of_map

/-! ### What lookups evict -/

theorem shown_erase {guidStr : CString} (hr : ps.peers.lookup guidStr = some r)
    (hinactive : isPeerActive ps r = false) (guid : Guid) :
    shown strings { ps with peers := ps.peers.erase guidStr } guid = shown strings ps guid := by
  apply Option.ext
  intro found
  rw [shown_eq_some_iff, shown_eq_some_iff, lookup_erase_eq_some_iff]
  constructor
  · rintro ⟨⟨_, hfound⟩, hactive⟩
    exact ⟨hfound, hactive⟩
  · rintro ⟨hfound, hactive⟩
    refine ⟨⟨fun heq => ?_, hfound⟩, hactive⟩
    obtain rfl : r = found := Option.some.inj (hr.symm.trans (heq ▸ hfound))
    cases hinactive.symm.trans hactive

theorem shown_lookup (strings : GuidStrings) (ps : Peerstore) (guid other : Guid) :
    shown strings (peerstoreLookup strings ps guid).2 other = shown strings ps other := by
  rcases peerstoreLookup_cases strings ps guid with
    ⟨_, _, _, heq⟩ | ⟨r, hr, hinactive, heq⟩ | ⟨_, heq⟩
  · rw [heq]
  · rw [heq]
    exact shown_erase hr hinactive other
  · rw [heq]

theorem shown_lookupByUsername {username : CString} {result : Option Peer}
    (h : peerstoreLookupByUsername ps username = some (result, after)) (guid : Guid) :
    shown strings after guid = shown strings ps guid := by
  rcases lookupByUsername_cases h with
    ⟨_, _, _, _, _, _, rfl⟩ | ⟨_, r, _, hr, hinactive, _, rfl⟩ | ⟨_, _, _, _, rfl⟩ | ⟨_, _, rfl⟩
  · rfl
  · exact shown_erase hr hinactive guid
  · rfl
  · rfl

/-! ### Agreement -/

/-- The active guids are, each once, those a lookup finds; a name that leads to a guid finds what
the guid finds; and no lookup changes what is active. -/
structure QueriesAgree (strings : GuidStrings) (ps : Peerstore) : Prop where
  once : (peerstoreGetActiveGuids ps).Nodup
  listed : ∀ guid, guid ∈ peerstoreGetActiveGuids ps
    ↔ ∃ r, (peerstoreLookup strings ps guid).1 = some r
  own : ∀ guid r, (peerstoreLookup strings ps guid).1 = some r → r.guid = guid
  named : ∀ username guid, ps.namestore.lookup username = some (.live (strings.toString guid)) →
    ∃ after, peerstoreLookupByUsername ps username
        = some ((peerstoreLookup strings ps guid).1, after)
      ∧ after.peers = (peerstoreLookup strings ps guid).2.peers
  lookup : ∀ guid other, other ∈ peerstoreGetActiveGuids (peerstoreLookup strings ps guid).2
    ↔ other ∈ peerstoreGetActiveGuids ps
  lookupByUsername : ∀ username, ∃ result after,
    peerstoreLookupByUsername ps username = some (result, after)
      ∧ ∀ other, other ∈ peerstoreGetActiveGuids after ↔ other ∈ peerstoreGetActiveGuids ps

/-- No name entry points to a freed guid string. -/
def NamesAlive (ps : Peerstore) : Prop :=
  ∀ username, ps.namestore.lookup username ≠ some .freed

theorem queriesAgree_iff (hfiled : FiledByGuid strings ps) :
    QueriesAgree strings ps ↔ NamesAlive ps := by
  constructor
  · intro h username hfreed
    obtain ⟨result, after, hlookup, _⟩ := h.lookupByUsername username
    cases (lookupByUsername_eq_none_iff.mpr hfreed).symm.trans hlookup
  · intro halive
    refine ⟨nodup_activeGuids hfiled, fun guid => ?_, fun guid r hr => ?_,
      fun username guid hname => lookupByUsername_of_live hname, fun guid other => ?_,
      fun username => ?_⟩
    · rw [mem_activeGuids_iff_shown hfiled, peerstoreLookup_fst]
    · rw [peerstoreLookup_fst, shown_eq_some_iff] at hr
      exact (strings.toString_injective (hfiled _ r hr.1)).symm
    · have hafter : FiledByGuid strings (peerstoreLookup strings ps guid).2 :=
        peerstoreLookup_invariant hfiled (fun guidStr => hfiled.erase guidStr ps.namestore) guid
      rw [mem_activeGuids_iff_shown hfiled, mem_activeGuids_iff_shown hafter, shown_lookup]
    · obtain ⟨result, after, hlookup⟩ := lookupByUsername_defined_iff.mpr (halive username)
      have hafter : FiledByGuid strings after :=
        lookupByUsername_invariant hfiled (fun guidStr => hfiled.erase guidStr ps.namestore)
          (fun _ _ _ => hfiled) hlookup
      refine ⟨result, after, hlookup, fun other => ?_⟩
      rw [mem_activeGuids_iff_shown hfiled, mem_activeGuids_iff_shown hafter,
        shown_lookupByUsername hlookup]

/-! ### Runs -/

/-- A store removes no reconnecting peer's record. -/
def KeepsRecords (strings : GuidStrings) (ps : Peerstore) : PeerstoreCall → Prop
  | .storePeer _ p => ∀ guidStr old, ¬ Reconnects strings ps p guidStr old
  | .lookup _ => True
  | .lookupByUsername _ => True
  | .setLastUpdateTime _ => True

theorem NamesAlive.storePeer {p : Peer} {now : Int} (h : NamesAlive ps)
    (hkeeps : ∀ guidStr old, ¬ Reconnects strings ps p guidStr old)
    (hstore : peerstoreStorePeer strings ps now p = some after) : NamesAlive after := by
  intro username hfreed
  have hstored := storePeer_of_forall_not hstore hkeeps
  exact h username (hstored.entry_before hfreed nofun)

theorem namesAlive_step_iff (h : NamesAlive ps) (call : PeerstoreCall) :
    (∃ next, call.step strings ps = some next ∧ NamesAlive next)
      ↔ KeepsRecords strings ps call := by
  cases call with
  | storePeer now p =>
      constructor
      · rintro ⟨next, hnext, halive⟩ guidStr old hre
        exact halive _ (hre.freed_after hnext)
      · intro hkeeps
        obtain ⟨next, hnext⟩ := storePeer_defined_iff.mpr (h p.userName)
        exact ⟨next, hnext, h.storePeer hkeeps hnext⟩
  | lookup guid =>
      exact ⟨fun _ => trivial, fun _ => ⟨_, rfl, peerstoreLookup_invariant h (fun _ => h) guid⟩⟩
  | lookupByUsername username =>
      refine ⟨fun _ => trivial, fun _ => ?_⟩
      obtain ⟨result, next, hlookup⟩ := lookupByUsername_defined_iff.mpr (h username)
      refine ⟨next, by simp [PeerstoreCall.step, hlookup], ?_⟩
      exact lookupByUsername_invariant h (fun _ => h)
        (fun _ _ _ other hfreed => h other (lookup_erase_eq_some_iff.mp hfreed).2) hlookup
  | setLastUpdateTime lastUpdate => exact ⟨fun _ => trivial, fun _ => ⟨_, rfl, h⟩⟩

/-- **Agreement, exactly.** Along a run of calls from a fresh store, under any activity predicate,
every call is defined and the three queries agree in every state reached, exactly when no store
removes a reconnecting peer's record. -/
theorem stays_queriesAgree_iff (localPeer : Peer) (iap : Option (Int → Peer → Bool)) (now : Int)
    (calls : List PeerstoreCall) :
    Transition.Stays (PeerstoreCall.step strings) (QueriesAgree strings)
        (peerstoreInit localPeer iap now) calls
      ↔ Transition.Along (PeerstoreCall.step strings) (KeepsRecords strings)
        (peerstoreInit localPeer iap now) calls := by
  have hfiled : FiledByGuid strings (peerstoreInit localPeer iap now) := by
    simp [FiledByGuid, peerstoreInit]
  refine Transition.stays_iff_along_of_kept (fun _ _ _ h hstep => h.step hstep)
    (fun ps call hfiled hagree => ?_) hfiled ((queriesAgree_iff hfiled).mpr ?_) calls
  · rw [← namesAlive_step_iff ((queriesAgree_iff hfiled).mp hagree) call]
    refine exists_congr fun next => and_congr_right fun hnext => ?_
    exact queriesAgree_iff (hfiled.step hnext)
  · simp [NamesAlive, peerstoreInit]

section Run

open Concrete

/-- Bob announces himself, and then another peer of that name from the same address. -/
def bobReplaced : List PeerstoreCall :=
  [.storePeer 1 (peer 1 bob), .storePeer 2 { peer 2 bob with hostAddress := host 1 }]

theorem not_queriesAgree_bobReplaced :
    ∃ ps, Transition.run (PeerstoreCall.step guidStrings) (peerstoreInit (peer 0 al) none 0)
        bobReplaced = some ps
      ∧ peerstoreLookupByUsername ps bob = none
      ∧ ¬ QueriesAgree guidStrings ps := by
  have hundefined : ∀ ps, Transition.run (PeerstoreCall.step guidStrings)
      (peerstoreInit (peer 0 al) none 0) bobReplaced = some ps →
      peerstoreLookupByUsername ps bob = none := by
    rintro ps hps
    obtain rfl := Option.some.inj hps
    rfl
  refine ⟨_, rfl, hundefined _ rfl, fun hagree => ?_⟩
  obtain ⟨result, after, hlookup, _⟩ := hagree.lookupByUsername bob
  cases (hundefined _ rfl).symm.trans hlookup

end Run

end WhisperCore
