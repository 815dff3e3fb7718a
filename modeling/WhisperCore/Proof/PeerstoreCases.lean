import WhisperCore.Peerstore

/-!
# What the peerstore's calls can do

Inversion lemmas for the calls of the peerstore. Every later fact about a call is read off these and
never off the definition: a reconnection either changes nothing or removes one record and frees one
name entry, and storing a peer then updates a record, renames it or inserts a new one.
-/

namespace WhisperCore

variable {strings : GuidStrings} {ps after : Peerstore} {p : Peer} {now : Int}

/-! ### Hash tables -/

section Hash

variable {α : Type} {table : JnxHash α} {key other : CString} {value found : α}

theorem lookup_erase_eq_some_iff :
    (table.erase key).lookup other = some found
      ↔ other ≠ key ∧ table.lookup other = some found := by
  by_cases h : other = key
  · subst h
    simp
  · simp [h]

theorem lookup_insert_eq_some_iff :
    (table.insert key value).lookup other = some found
      ↔ (other = key ∧ found = value) ∨ (other ≠ key ∧ table.lookup other = some found) := by
  by_cases h : other = key
  · subst h
    simp [eq_comm]
  · simp [h]

end Hash

/-! ### Lookups -/

theorem peerstoreLookup_cases (strings : GuidStrings) (ps : Peerstore) (guid : Guid) :
    (∃ r, ps.peers.lookup (strings.toString guid) = some r ∧ isPeerActive ps r = true
        ∧ peerstoreLookup strings ps guid = (some r, ps))
      ∨ (∃ r, ps.peers.lookup (strings.toString guid) = some r ∧ isPeerActive ps r = false
        ∧ peerstoreLookup strings ps guid
          = (none, { ps with peers := ps.peers.erase (strings.toString guid) }))
      ∨ (ps.peers.lookup (strings.toString guid) = none
        ∧ peerstoreLookup strings ps guid = (none, ps)) := by
  cases hlookup : ps.peers.lookup (strings.toString guid) with
  | none => exact Or.inr (Or.inr ⟨rfl, by simp [peerstoreLookup, hlookup]⟩)
  | some r =>
      cases hactive : isPeerActive ps r with
      | true => exact Or.inl ⟨r, rfl, hactive, by simp [peerstoreLookup, hlookup, hactive]⟩
      | false =>
          exact Or.inr (Or.inl ⟨r, rfl, hactive, by simp [peerstoreLookup, hlookup, hactive]⟩)

theorem peerstoreLookup_eq_some {guid : Guid} {r : Peer}
    (h : peerstoreLookup strings ps guid = (some r, after)) :
    ps.peers.lookup (strings.toString guid) = some r ∧ isPeerActive ps r = true ∧ after = ps := by
  rcases peerstoreLookup_cases strings ps guid with
    ⟨found, hfound, hactive, heq⟩ | ⟨_, _, _, heq⟩ | ⟨_, heq⟩
  · obtain ⟨hsome, rfl⟩ := Prod.ext_iff.mp (heq.symm.trans h)
    obtain rfl : found = r := Option.some.inj hsome
    exact ⟨hfound, hactive, rfl⟩
  · simp [heq] at h
  · simp [heq] at h

theorem lookupByUsername_eq_none_iff {username : CString} :
    peerstoreLookupByUsername ps username = none ↔ ps.namestore.lookup username = some .freed := by
  unfold peerstoreLookupByUsername
  cases ps.namestore.lookup username with
  | none => simp
  | some entry =>
      cases entry with
      | freed => simp
      | live guidStr =>
          cases hlookup : ps.peers.lookup guidStr with
          | none => simp [hlookup]
          | some r => cases hactive : isPeerActive ps r <;> simp [hlookup, hactive]

theorem lookupByUsername_defined_iff {username : CString} :
    (∃ result after, peerstoreLookupByUsername ps username = some (result, after))
      ↔ ps.namestore.lookup username ≠ some .freed := by
  rw [ne_eq, ← lookupByUsername_eq_none_iff, ← ne_eq, Option.ne_none_iff_exists', Prod.exists]

/-- What a lookup by name does to the store: nothing, the removal of a name whose record is gone,
or the eviction of the record it found. -/
theorem lookupByUsername_cases {username : CString} {result : Option Peer}
    (h : peerstoreLookupByUsername ps username = some (result, after)) :
    (∃ guidStr r, ps.namestore.lookup username = some (.live guidStr)
        ∧ ps.peers.lookup guidStr = some r ∧ isPeerActive ps r = true
        ∧ result = some r ∧ after = ps)
      ∨ (∃ guidStr r, ps.namestore.lookup username = some (.live guidStr)
        ∧ ps.peers.lookup guidStr = some r ∧ isPeerActive ps r = false
        ∧ result = none ∧ after = { ps with peers := ps.peers.erase guidStr })
      ∨ (∃ guidStr, ps.namestore.lookup username = some (.live guidStr)
        ∧ ps.peers.lookup guidStr = none ∧ result = none
        ∧ after = { ps with namestore := ps.namestore.erase username })
      ∨ (ps.namestore.lookup username = none ∧ result = none ∧ after = ps) := by
  unfold peerstoreLookupByUsername at h
  cases hname : ps.namestore.lookup username with
  | none =>
      simp only [hname, Option.some.injEq, Prod.mk.injEq] at h
      exact Or.inr (Or.inr (Or.inr ⟨rfl, h.1.symm, h.2.symm⟩))
  | some entry =>
      cases entry with
      | freed => simp [hname] at h
      | live guidStr =>
          cases hlookup : ps.peers.lookup guidStr with
          | none =>
              simp only [hname, hlookup, Option.some.injEq, Prod.mk.injEq] at h
              exact Or.inr (Or.inr (Or.inl ⟨guidStr, rfl, hlookup, h.1.symm, h.2.symm⟩))
          | some r =>
              cases hactive : isPeerActive ps r with
              | true =>
                  simp only [hname, hlookup, hactive, if_true, Option.some.injEq,
                    Prod.mk.injEq] at h
                  exact Or.inl ⟨guidStr, r, rfl, hlookup, hactive, h.1.symm, h.2.symm⟩
              | false =>
                  simp only [hname, hlookup, hactive, Bool.false_eq_true, if_false,
                    Option.some.injEq, Prod.mk.injEq] at h
                  exact Or.inr (Or.inl ⟨guidStr, r, rfl, hlookup, hactive, h.1.symm, h.2.symm⟩)

/-- What an eviction keeps, a lookup keeps. -/
theorem peerstoreLookup_invariant {Inv : Peerstore → Prop} (hinv : Inv ps)
    (herase : ∀ guidStr, Inv { ps with peers := ps.peers.erase guidStr }) (guid : Guid) :
    Inv (peerstoreLookup strings ps guid).2 := by
  rcases peerstoreLookup_cases strings ps guid with
    ⟨_, _, _, heq⟩ | ⟨_, _, _, heq⟩ | ⟨_, heq⟩
  · rw [heq]
    exact hinv
  · rw [heq]
    exact herase _
  · rw [heq]
    exact hinv

/-- What an eviction and the removal of a name without a record keep, a lookup by name keeps. -/
theorem lookupByUsername_invariant {Inv : Peerstore → Prop} {username : CString}
    {result : Option Peer} (hinv : Inv ps)
    (herase : ∀ guidStr, Inv { ps with peers := ps.peers.erase guidStr })
    (hforget : ∀ guidStr, ps.namestore.lookup username = some (.live guidStr) →
      ps.peers.lookup guidStr = none → Inv { ps with namestore := ps.namestore.erase username })
    (h : peerstoreLookupByUsername ps username = some (result, after)) : Inv after := by
  rcases lookupByUsername_cases h with
    ⟨_, _, _, _, _, _, rfl⟩ | ⟨guidStr, _, _, _, _, _, rfl⟩ | ⟨guidStr, hname, hgone, _, rfl⟩
      | ⟨_, _, rfl⟩
  · exact hinv
  · exact herase guidStr
  · exact hforget guidStr hname hgone
  · exact hinv

/-! ### Reconnection -/

/-- The announcement `p` removes the record filed under `guidStr`: the namestore maps the announced
name to it, it belongs to another guid and stands at the announced address. -/
structure Reconnects (strings : GuidStrings) (ps : Peerstore) (p : Peer) (guidStr : CString)
    (oldPeer : Peer) : Prop where
  named : ps.namestore.lookup p.userName = some (.live guidStr)
  other : guidStr ≠ strings.toString p.guid
  filed : ps.peers.lookup guidStr = some oldPeer
  address : p.hostAddress = oldPeer.hostAddress

theorem handlePeerReconnection_eq_none_iff :
    handlePeerReconnection strings ps p = none ↔ ps.namestore.lookup p.userName = some .freed := by
  unfold handlePeerReconnection
  cases ps.namestore.lookup p.userName with
  | none => simp
  | some entry =>
      cases entry with
      | freed => simp
      | live guidStr =>
          by_cases hother : guidStr = strings.toString p.guid
          · simp [hother]
          · cases hlookup : ps.peers.lookup guidStr with
            | none => simp [hother, hlookup]
            | some old =>
                by_cases haddress : p.hostAddress = old.hostAddress <;>
                  simp [hother, hlookup, haddress]

theorem handlePeerReconnection_of_reconnects {guidStr : CString} {old : Peer}
    (h : Reconnects strings ps p guidStr old) :
    handlePeerReconnection strings ps p = some { ps with
      peers := ps.peers.erase guidStr
      namestore := ps.namestore.insert p.userName .freed } := by
  simp [handlePeerReconnection, h.named, h.other, h.filed, h.address]

theorem handlePeerReconnection_of_forall_not
    (hname : ps.namestore.lookup p.userName ≠ some .freed)
    (h : ∀ guidStr old, ¬ Reconnects strings ps p guidStr old) :
    handlePeerReconnection strings ps p = some ps := by
  unfold handlePeerReconnection
  cases hnamed : ps.namestore.lookup p.userName with
  | none => rfl
  | some entry =>
      cases entry with
      | freed => exact absurd hnamed hname
      | live guidStr =>
          by_cases hother : guidStr = strings.toString p.guid
          · simp [hother]
          · cases hfiled : ps.peers.lookup guidStr with
            | none => simp [hother, hfiled]
            | some old =>
                have haddress : p.hostAddress ≠ old.hostAddress := fun haddress =>
                  h guidStr old ⟨hnamed, hother, hfiled, haddress⟩
                simp [hother, hfiled, haddress]

theorem handlePeerReconnection_cases (h : handlePeerReconnection strings ps p = some after) :
    (after = ps ∧ ∀ guidStr old, ¬ Reconnects strings ps p guidStr old)
      ∨ ∃ guidStr old, Reconnects strings ps p guidStr old
        ∧ after = { ps with
            peers := ps.peers.erase guidStr
            namestore := ps.namestore.insert p.userName .freed } := by
  by_cases hre : ∃ guidStr old, Reconnects strings ps p guidStr old
  · obtain ⟨guidStr, old, hre⟩ := hre
    rw [handlePeerReconnection_of_reconnects hre] at h
    exact Or.inr ⟨guidStr, old, hre, (Option.some.inj h).symm⟩
  · have hnone : ∀ guidStr old, ¬ Reconnects strings ps p guidStr old := fun guidStr old hold =>
      hre ⟨guidStr, old, hold⟩
    have hname : ps.namestore.lookup p.userName ≠ some .freed := fun hfreed => by
      rw [handlePeerReconnection_eq_none_iff.mpr hfreed] at h
      cases h
    rw [handlePeerReconnection_of_forall_not hname hnone] at h
    exact Or.inl ⟨(Option.some.inj h).symm, hnone⟩

/-- A reconnection removes the record it was about and no other. -/
theorem lookup_peers_reconnection (hmiddle : handlePeerReconnection strings ps p = some after)
    {guidStr : CString} {r : Peer} :
    after.peers.lookup guidStr = some r
      ↔ ps.peers.lookup guidStr = some r ∧ ¬ Reconnects strings ps p guidStr r := by
  rcases handlePeerReconnection_cases hmiddle with ⟨rfl, hnone⟩ | ⟨removed, old, hre, rfl⟩
  · exact ⟨fun h => ⟨h, hnone guidStr r⟩, And.left⟩
  · rw [lookup_erase_eq_some_iff]
    constructor
    · rintro ⟨hne, hr⟩
      refine ⟨hr, fun hother => hne ?_⟩
      have hsame := hother.named.symm.trans hre.named
      simpa using hsame
    · rintro ⟨hr, hstays⟩
      refine ⟨fun heq => hstays ?_, hr⟩
      subst heq
      obtain rfl : old = r := Option.some.inj (hre.filed.symm.trans hr)
      exact hre

theorem isSome_namestore_reconnection
    (hmiddle : handlePeerReconnection strings ps p = some after) :
    (after.namestore.lookup p.userName).isSome = (ps.namestore.lookup p.userName).isSome := by
  rcases handlePeerReconnection_cases hmiddle with ⟨rfl, _⟩ | ⟨_, _, hre, rfl⟩
  · rfl
  · simp [hre.named]

/-! ### Storing -/

/-- The name a record is filed under: the announced one, or the suffixed one where that is taken. -/
def filedName (namestore : JnxHash GuidStr) (p : Peer) (guidStr : CString) : CString :=
  (ensureUsernameUnique namestore p guidStr).userName

theorem filedName_of_none {namestore : JnxHash GuidStr} {guidStr : CString}
    (h : namestore.lookup p.userName = none) : filedName namestore p guidStr = p.userName := by
  simp [filedName, ensureUsernameUnique, h]

theorem filedName_of_some {namestore : JnxHash GuidStr} {guidStr : CString} {entry : GuidStr}
    (h : namestore.lookup p.userName = some entry) :
    filedName namestore p guidStr = uniqueUsername p.userName guidStr := by
  simp [filedName, ensureUsernameUnique, h]

theorem filedName_congr {namestore other : JnxHash GuidStr} (guidStr : CString)
    (h : (namestore.lookup p.userName).isSome = (other.lookup p.userName).isSome) :
    filedName namestore p guidStr = filedName other p guidStr := by
  simp [filedName, ensureUsernameUnique, h]

theorem uniqueUsername_ne (userName guidStr : CString) :
    uniqueUsername userName guidStr ≠ userName := by
  intro heq
  have hlength := congrArg (fun name : CString => name.bytes.length) heq
  simp [uniqueUsername, CString.append, dash] at hlength

theorem filedName_eq_userName_iff {namestore : JnxHash GuidStr} {guidStr : CString} :
    filedName namestore p guidStr = p.userName ↔ namestore.lookup p.userName = none := by
  cases h : namestore.lookup p.userName with
  | none => exact iff_of_true (filedName_of_none h) rfl
  | some entry =>
      rw [filedName_of_some h]
      exact iff_of_false (uniqueUsername_ne _ _) nofun

/-- The three ways in which `peerstore_store_peer` goes on after the reconnection check. -/
inductive Stored (strings : GuidStrings) (ps : Peerstore) (now : Int) (p : Peer) : Peerstore → Prop
  where
  | updated (old : Peer) (hfiled : ps.peers.lookup (strings.toString p.guid) = some old)
      (hname : p.userName.bytes <+: old.userName.bytes) :
      Stored strings ps now p { ps with
        peers := ps.peers.insert (strings.toString p.guid)
          { old with hostAddress := p.hostAddress, lastSeen := now } }
  | renamed (old : Peer) (name : CString)
      (hfiled : ps.peers.lookup (strings.toString p.guid) = some old)
      (hname : ¬ p.userName.bytes <+: old.userName.bytes)
      (hfiledName : name
        = filedName (ps.namestore.erase old.userName) p (strings.toString p.guid)) :
      Stored strings ps now p { ps with
        namestore := (ps.namestore.erase old.userName).insert name
          (.live (strings.toString p.guid))
        peers := ps.peers.insert (strings.toString p.guid)
          { old with hostAddress := p.hostAddress, lastSeen := now, userName := name } }
  | inserted (name : CString) (hfiled : ps.peers.lookup (strings.toString p.guid) = none)
      (hfiledName : name = filedName ps.namestore p (strings.toString p.guid)) :
      Stored strings ps now p { ps with
        namestore := ps.namestore.insert name (.live (strings.toString p.guid))
        peers := ps.peers.insert (strings.toString p.guid)
          { p with lastSeen := now, userName := name } }

theorem ensureUsernameUnique_lastSeen (namestore : JnxHash GuidStr) (p : Peer) (now : Int)
    (guidStr : CString) :
    ensureUsernameUnique namestore { p with lastSeen := now } guidStr
      = { p with lastSeen := now, userName := filedName namestore p guidStr } := by
  cases h : namestore.lookup p.userName <;>
    simp [filedName, ensureUsernameUnique, h]

theorem storePeer_cases (h : peerstoreStorePeer strings ps now p = some after) :
    ∃ middle, handlePeerReconnection strings ps p = some middle
      ∧ Stored strings middle now p after := by
  unfold peerstoreStorePeer at h
  obtain ⟨middle, hmiddle, hafter⟩ := Option.map_eq_some_iff.mp h
  refine ⟨middle, hmiddle, ?_⟩
  simp only [ensureUsernameUnique_lastSeen] at hafter
  cases hlookup : middle.peers.lookup (strings.toString p.guid) with
  | none =>
      simp only [hlookup] at hafter
      exact hafter ▸ Stored.inserted _ hlookup rfl
  | some old =>
      simp only [hlookup] at hafter
      by_cases hname : p.userName.bytes <+: old.userName.bytes
      · rw [if_pos (strncmpEqual_length_iff.mpr hname)] at hafter
        exact hafter ▸ Stored.updated old hlookup hname
      · rw [if_neg fun hequal => hname (strncmpEqual_length_iff.mp hequal)] at hafter
        exact hafter ▸ Stored.renamed old _ hlookup hname rfl

theorem storePeer_eq_none_iff (now : Int) :
    peerstoreStorePeer strings ps now p = none ↔ ps.namestore.lookup p.userName = some .freed := by
  rw [peerstoreStorePeer, Option.map_eq_none_iff, handlePeerReconnection_eq_none_iff]

theorem storePeer_defined_iff :
    (∃ after, peerstoreStorePeer strings ps now p = some after)
      ↔ ps.namestore.lookup p.userName ≠ some .freed := by
  rw [← Option.ne_none_iff_exists']
  exact (storePeer_eq_none_iff now).not

/-- An announcement that takes no record away goes on with the store as it is. -/
theorem storePeer_of_forall_not (h : peerstoreStorePeer strings ps now p = some after)
    (hkeeps : ∀ guidStr old, ¬ Reconnects strings ps p guidStr old) :
    Stored strings ps now p after := by
  obtain ⟨middle, hmiddle, hstored⟩ := storePeer_cases h
  rcases handlePeerReconnection_cases hmiddle with ⟨rfl, _⟩ | ⟨guidStr, old, hre, _⟩
  · exact hstored
  · exact absurd hre (hkeeps guidStr old)

theorem Stored.lookup_of_ne (h : Stored strings ps now p after) {guidStr : CString}
    (hne : guidStr ≠ strings.toString p.guid) :
    after.peers.lookup guidStr = ps.peers.lookup guidStr := by
  cases h <;> exact AList.lookup_insert_ne hne

/-- A name entry after a store, if it does not lead to the announced guid, was there before. -/
theorem Stored.entry_before (h : Stored strings ps now p after) {username : CString}
    {entry : GuidStr} (hentry : after.namestore.lookup username = some entry)
    (hother : entry ≠ .live (strings.toString p.guid)) :
    ps.namestore.lookup username = some entry := by
  cases h with
  | updated old hfiled hstarts => exact hentry
  | renamed old name hfiled hdiffers hname =>
      rcases lookup_insert_eq_some_iff.mp hentry with ⟨_, hown⟩ | ⟨_, hold⟩
      · exact absurd hown hother
      · exact (lookup_erase_eq_some_iff.mp hold).2
  | inserted name hfiled hname =>
      rcases lookup_insert_eq_some_iff.mp hentry with ⟨_, hown⟩ | ⟨_, hold⟩
      · exact absurd hown hother
      · exact hold

/-- The record a peer has once it is stored. The address and the time are the announcement's, the
interval is that of the record it had before, if any. -/
theorem Stored.exists_record (h : Stored strings ps now p after) :
    ∃ r, after.peers.lookup (strings.toString p.guid) = some r
      ∧ r.hostAddress = p.hostAddress ∧ r.lastSeen = now
      ∧ r.discoveryInterval = ((ps.peers.lookup (strings.toString p.guid)).getD p).discoveryInterval
      := by
  cases h with
  | updated old hfiled hname => exact ⟨_, AList.lookup_insert _, rfl, rfl, by simp [hfiled]⟩
  | renamed old name hfiled hname hfiledName =>
      exact ⟨_, AList.lookup_insert _, rfl, rfl, by simp [hfiled]⟩
  | inserted name hfiled hfiledName =>
      exact ⟨_, AList.lookup_insert _, rfl, rfl, by simp [hfiled]⟩

/-- A reconnection removes another peer's record. -/
theorem handlePeerReconnection_lookup_self (h : handlePeerReconnection strings ps p = some after) :
    after.peers.lookup (strings.toString p.guid) = ps.peers.lookup (strings.toString p.guid) := by
  rcases handlePeerReconnection_cases h with ⟨rfl, _⟩ | ⟨_, _, hre, rfl⟩
  · rfl
  · exact AList.lookup_erase_ne hre.other.symm

/-- The entry a reconnection freed outlives the store. -/
theorem Reconnects.freed_after {guidStr : CString} {old : Peer}
    (hre : Reconnects strings ps p guidStr old)
    (hstore : peerstoreStorePeer strings ps now p = some after) :
    after.namestore.lookup p.userName = some .freed := by
  obtain ⟨middle, hmiddle, hstored⟩ := storePeer_cases hstore
  rw [handlePeerReconnection_of_reconnects hre, Option.some.injEq] at hmiddle
  have hfreed : middle.namestore.lookup p.userName = some .freed := by
    rw [← hmiddle]
    exact AList.lookup_insert _
  cases hstored with
  | updated found hfiled hstarts => exact hfreed
  | renamed found name hfiled hstarts hname =>
      have hannounced : p.userName ≠ found.userName := fun heq =>
        hstarts (heq ▸ List.prefix_refl _)
      have hkept : (middle.namestore.erase found.userName).lookup p.userName = some .freed :=
        lookup_erase_eq_some_iff.mpr ⟨hannounced, hfreed⟩
      rw [filedName_of_some hkept] at hname
      exact lookup_insert_eq_some_iff.mpr
        (Or.inr ⟨fun heq => uniqueUsername_ne _ _ (heq.trans hname).symm, hkept⟩)
  | inserted name hfiled hname =>
      rw [filedName_of_some hfreed] at hname
      exact lookup_insert_eq_some_iff.mpr
        (Or.inr ⟨fun heq => uniqueUsername_ne _ _ (heq.trans hname).symm, hfreed⟩)

/-- The record a reconnection was about is gone. -/
theorem Reconnects.lookup_after {guidStr : CString} {old : Peer}
    (hre : Reconnects strings ps p guidStr old)
    (hstore : peerstoreStorePeer strings ps now p = some after) :
    after.peers.lookup guidStr = none := by
  obtain ⟨middle, hmiddle, hstored⟩ := storePeer_cases hstore
  rw [handlePeerReconnection_of_reconnects hre, Option.some.injEq] at hmiddle
  rw [hstored.lookup_of_ne hre.other, ← hmiddle]
  exact AList.lookup_erase _ _

/-- A peer without a record gets one under the name it is filed under, which leads to it. -/
theorem storePeer_of_absent (h : peerstoreStorePeer strings ps now p = some after)
    (habsent : ps.peers.lookup (strings.toString p.guid) = none) :
    ∃ r, after.peers.lookup (strings.toString p.guid) = some r
      ∧ r.userName = filedName ps.namestore p (strings.toString p.guid)
      ∧ after.namestore.lookup r.userName = some (.live (strings.toString p.guid)) := by
  obtain ⟨middle, hmiddle, hstored⟩ := storePeer_cases h
  rw [← handlePeerReconnection_lookup_self hmiddle] at habsent
  cases hstored with
  | updated old hfiled hstarts => cases hfiled.symm.trans habsent
  | renamed old name hfiled hstarts hname => cases hfiled.symm.trans habsent
  | inserted name hfiled hname =>
      refine ⟨_, AList.lookup_insert _, ?_, AList.lookup_insert _⟩
      exact hname.trans (filedName_congr _ (isSome_namestore_reconnection hmiddle))

/-- Another peer's record after a store is the one it had before. -/
theorem storePeer_lookup_iff (h : peerstoreStorePeer strings ps now p = some after)
    {guidStr : CString} {r : Peer} (hne : guidStr ≠ strings.toString p.guid) :
    after.peers.lookup guidStr = some r
      ↔ ps.peers.lookup guidStr = some r ∧ ¬ Reconnects strings ps p guidStr r := by
  obtain ⟨middle, hmiddle, hstored⟩ := storePeer_cases h
  rw [hstored.lookup_of_ne hne]
  exact lookup_peers_reconnection hmiddle

theorem storePeer_lookup_of_ne (h : peerstoreStorePeer strings ps now p = some after)
    {guidStr : CString} {r : Peer} (hne : guidStr ≠ strings.toString p.guid)
    (hr : after.peers.lookup guidStr = some r) : ps.peers.lookup guidStr = some r :=
  ((storePeer_lookup_iff h hne).mp hr).1

/-- Only an announcement of its own brings a record. -/
theorem lookup_of_step {call : PeerstoreCall} (h : call.step strings ps = some after)
    {guidStr : CString}
    (hcall : ∀ now p, call = .storePeer now p → guidStr ≠ strings.toString p.guid) {r : Peer}
    (hr : after.peers.lookup guidStr = some r) : ps.peers.lookup guidStr = some r := by
  let Kept : Peerstore → Prop := fun after =>
    ∀ guidStr r, after.peers.lookup guidStr = some r → ps.peers.lookup guidStr = some r
  have hsame : Kept ps := fun _ _ hr => hr
  have herase : ∀ guidStr, Kept { ps with peers := ps.peers.erase guidStr } :=
    fun _ _ _ hr => (lookup_erase_eq_some_iff.mp hr).2
  cases call with
  | storePeer now p => exact storePeer_lookup_of_ne h (hcall now p rfl) hr
  | lookup guid =>
      obtain rfl := Option.some.inj h
      exact peerstoreLookup_invariant hsame herase guid guidStr r hr
  | lookupByUsername username =>
      obtain ⟨⟨result, next⟩, hlookup, rfl⟩ := Option.map_eq_some_iff.mp h
      exact lookupByUsername_invariant hsame herase (fun _ _ _ => hsame) hlookup guidStr r hr
  | setLastUpdateTime lastUpdate =>
      obtain rfl := Option.some.inj h
      exact hr

theorem absent_of_step {call : PeerstoreCall} (h : call.step strings ps = some after)
    {guidStr : CString}
    (hcall : ∀ now p, call = .storePeer now p → guidStr ≠ strings.toString p.guid)
    (habsent : ps.peers.lookup guidStr = none) : after.peers.lookup guidStr = none := by
  apply Option.eq_none_iff_forall_ne_some.mpr
  intro r hr
  cases habsent.symm.trans (lookup_of_step h hcall hr)

/-! ### What no call changes -/

/-- What does not depend on the tables and the update time is the same after a call. -/
theorem kept_of_step {α : Type} {f : Peerstore → α}
    (hf : ∀ ps lastUpdate namestore peers, f { ps with
      lastUpdate := lastUpdate, namestore := namestore, peers := peers } = f ps)
    {call : PeerstoreCall} (h : call.step strings ps = some after) : f after = f ps := by
  have hkept : ∀ (ps : Peerstore) namestore peers,
      f { ps with namestore := namestore, peers := peers } = f ps :=
    fun ps => hf ps ps.lastUpdate
  cases call with
  | storePeer now p =>
      obtain ⟨middle, hmiddle, hstored⟩ := storePeer_cases h
      have hreconnection : f middle = f ps := by
        rcases handlePeerReconnection_cases hmiddle with ⟨rfl, _⟩ | ⟨_, _, _, rfl⟩
        · rfl
        · exact hkept ps _ _
      rw [← hreconnection]
      cases hstored with
      | updated old hfiled hname => exact hkept middle middle.namestore _
      | renamed old name hfiled hname hfiledName => exact hkept middle _ _
      | inserted name hfiled hfiledName => exact hkept middle _ _
  | lookup guid =>
      obtain rfl := Option.some.inj h
      rcases peerstoreLookup_cases strings ps guid with
        ⟨_, _, _, heq⟩ | ⟨_, _, _, heq⟩ | ⟨_, heq⟩
      · rw [heq]
      · rw [heq]
        exact hkept ps ps.namestore _
      · rw [heq]
  | lookupByUsername username =>
      obtain ⟨⟨result, next⟩, hlookup, rfl⟩ := Option.map_eq_some_iff.mp h
      rcases lookupByUsername_cases hlookup with
        ⟨_, _, _, _, _, _, rfl⟩ | ⟨_, _, _, _, _, _, rfl⟩ | ⟨_, _, _, _, rfl⟩ | ⟨_, _, rfl⟩
      · rfl
      · exact hkept ps ps.namestore _
      · exact hkept ps _ ps.peers
      · rfl
  | setLastUpdateTime lastUpdate =>
      obtain rfl := Option.some.inj h
      exact hf ps lastUpdate ps.namestore ps.peers

theorem localPeer_step {call : PeerstoreCall} (h : call.step strings ps = some after) :
    after.localPeer = ps.localPeer :=
  kept_of_step (fun _ _ _ _ => rfl) h

theorem isActivePeer_step {call : PeerstoreCall} (h : call.step strings ps = some after) :
    after.isActivePeer = ps.isActivePeer :=
  kept_of_step (fun _ _ _ _ => rfl) h

/-- Every record is filed under the string of its own guid. -/
def FiledByGuid (strings : GuidStrings) (ps : Peerstore) : Prop :=
  ∀ guidStr r, ps.peers.lookup guidStr = some r → guidStr = strings.toString r.guid

theorem FiledByGuid.erase (h : FiledByGuid strings ps) (guidStr : CString)
    (namestore : JnxHash GuidStr) :
    FiledByGuid strings { ps with peers := ps.peers.erase guidStr, namestore := namestore } :=
  fun other r hr => h other r (lookup_erase_eq_some_iff.mp hr).2

theorem FiledByGuid.insert (h : FiledByGuid strings ps) {r : Peer} (hguid : r.guid = p.guid)
    (namestore : JnxHash GuidStr) :
    FiledByGuid strings { ps with
      peers := ps.peers.insert (strings.toString p.guid) r
      namestore := namestore } := by
  intro other found hfound
  rcases lookup_insert_eq_some_iff.mp hfound with ⟨rfl, rfl⟩ | ⟨_, hfound⟩
  · rw [hguid]
  · exact h other found hfound

theorem FiledByGuid.storePeer (h : FiledByGuid strings ps)
    (hstore : peerstoreStorePeer strings ps now p = some after) : FiledByGuid strings after := by
  obtain ⟨middle, hmiddle, hstored⟩ := storePeer_cases hstore
  have hfiledMiddle : FiledByGuid strings middle := by
    rcases handlePeerReconnection_cases hmiddle with ⟨rfl, _⟩ | ⟨_, _, _, rfl⟩
    · exact h
    · exact h.erase _ _
  have hown : ∀ old, middle.peers.lookup (strings.toString p.guid) = some old →
      old.guid = p.guid := fun old hold =>
    (strings.toString_injective (hfiledMiddle _ old hold)).symm
  cases hstored with
  | updated old hfiled hname =>
      refine hfiledMiddle.insert ?_ _
      exact hown old hfiled
  | renamed old name hfiled hname hfiledName =>
      refine hfiledMiddle.insert ?_ _
      exact hown old hfiled
  | inserted name hfiled hfiledName =>
      refine hfiledMiddle.insert ?_ _
      rfl

theorem FiledByGuid.step (h : FiledByGuid strings ps) {call : PeerstoreCall}
    (hstep : call.step strings ps = some after) : FiledByGuid strings after := by
  cases call with
  | storePeer now p => exact h.storePeer hstep
  | lookup guid =>
      obtain rfl := Option.some.inj hstep
      exact peerstoreLookup_invariant h (fun guidStr => h.erase guidStr ps.namestore) guid
  | lookupByUsername username =>
      obtain ⟨⟨result, next⟩, hlookup, rfl⟩ := Option.map_eq_some_iff.mp hstep
      exact lookupByUsername_invariant h (fun guidStr => h.erase guidStr ps.namestore)
        (fun _ _ _ => h) hlookup
  | setLastUpdateTime lastUpdate =>
      obtain rfl := Option.some.inj hstep
      exact h

/-! ### Listings -/

theorem mem_activeGuids {guid : Guid} :
    guid ∈ peerstoreGetActiveGuids ps
      ↔ ∃ guidStr r, ps.peers.lookup guidStr = some r ∧ isPeerActive ps r = true
        ∧ r.guid = guid := by
  have hentry : ∀ guidStr r, (⟨guidStr, r⟩ : Sigma fun _ : CString => Peer) ∈ ps.peers.entries
      ↔ ps.peers.lookup guidStr = some r := fun guidStr r => AList.mem_lookup_iff.symm
  simp only [peerstoreGetActiveGuids, List.mem_map, List.mem_filter, Sigma.exists, hentry,
    and_assoc]

end WhisperCore
