import WhisperCore.Concrete
import WhisperCore.Proof.DiscoveryNetworkCases
import WhisperCore.Proof.Reannouncements

/-!
# What a service knows of its peers

In a network of services that announce themselves, a record says of a peer what is true, whatever
happens to packets on the way. Where no two services stand at one address and each has a name, no
process crashes.
-/

namespace WhisperCore

namespace Lan

variable {strings : GuidStrings} {protobuf : PeerProtobuf} {lan next : Lan} {event : LanEvent}
  {g h : Guid} {profile : Guid → Peer} {heard : Guid → Option Int} {ps after : Peerstore}

/-! ### True records -/

/-- A peer is filed under its name or under its name with a suffix. -/
def GoesBy (strings : GuidStrings) (profile : Guid → Peer) (h : Guid) (username : CString) : Prop :=
  username = (profile h).userName
    ∨ username = uniqueUsername (profile h).userName (strings.toString h)

/-- The record is true of its peer, and was last written when the peer was last heard. -/
structure TrueRecord (strings : GuidStrings) (profile : Guid → Peer) (heard : Guid → Option Int)
    (r : Peer) : Prop where
  hostAddress : r.hostAddress = (profile r.guid).hostAddress
  discoveryInterval : r.discoveryInterval = (profile r.guid).discoveryInterval
  userName : GoesBy strings profile r.guid r.userName
  lastSeen : heard r.guid = some r.lastSeen

structure Truthful (strings : GuidStrings) (profile : Guid → Peer) (heard : Guid → Option Int)
    (ps : Peerstore) : Prop where
  filed : FiledByGuid strings ps
  records : ∀ guidStr r, ps.peers.lookup guidStr = some r → TrueRecord strings profile heard r
  names : ∀ username guidStr, ps.namestore.lookup username = some (.live guidStr) →
    ∃ h, guidStr = strings.toString h ∧ GoesBy strings profile h username

theorem Truthful.of_tables (ht : Truthful strings profile heard ps)
    (hpeers : after.peers = ps.peers) (hnamestore : after.namestore = ps.namestore) :
    Truthful strings profile heard after where
  filed := by
    rw [FiledByGuid, hpeers]
    exact ht.filed
  records := by
    rw [hpeers]
    exact ht.records
  names := by
    rw [hnamestore]
    exact ht.names

theorem Truthful.erase_peer (ht : Truthful strings profile heard ps) (guidStr : CString) :
    Truthful strings profile heard { ps with peers := ps.peers.erase guidStr } where
  filed := ht.filed.erase guidStr ps.namestore
  records other r hr := ht.records other r (lookup_erase_eq_some_iff.mp hr).2
  names := ht.names

theorem Truthful.erase_name (ht : Truthful strings profile heard ps) (username : CString) :
    Truthful strings profile heard { ps with namestore := ps.namestore.erase username } where
  filed := ht.filed
  records := ht.records
  names other guidStr hname := ht.names other guidStr (lookup_erase_eq_some_iff.mp hname).2

theorem Truthful.reconnection {p : Peer} (ht : Truthful strings profile heard ps)
    (h : handlePeerReconnection strings ps p = some after) :
    Truthful strings profile heard after := by
  rcases handlePeerReconnection_cases h with ⟨rfl, _⟩ | ⟨guidStr, old, _, rfl⟩
  · exact ht
  · refine ⟨ht.filed.erase guidStr _, ?_, fun username other hname => ?_⟩
    · exact (ht.erase_peer guidStr).records
    · rcases lookup_insert_eq_some_iff.mp hname with ⟨_, hfreed⟩ | ⟨_, hold⟩
      · cases hfreed
      · exact ht.names username other hold

/-- The name of a peer starts every name it goes by. -/
theorem GoesBy.isPrefix {username : CString} (hgoes : GoesBy strings profile h username) :
    (profile h).userName.bytes <+: username.bytes := by
  rcases hgoes with rfl | rfl
  · exact List.prefix_rfl
  · show (profile h).userName.bytes
      <+: ((profile h).userName.bytes ++ dash.bytes) ++ ((strings.toString h).take 4).bytes
    rw [List.append_assoc]
    exact List.prefix_append _ _

theorem goesBy_filedName (namestore : JnxHash GuidStr) (env : PacketSurroundings) (h : Guid) :
    GoesBy strings profile h
      (filedName namestore (announcedPeer env (profile h)) (strings.toString h)) :=
  filedName_cases namestore (announcedPeer env (profile h)) (strings.toString h)

theorem TrueRecord.heard_update {r : Peer} (hr : TrueRecord strings profile heard r)
    (hne : r.guid ≠ h) (now : Int) :
    TrueRecord strings profile (Function.update heard h (some now)) r where
  hostAddress := hr.hostAddress
  discoveryInterval := hr.discoveryInterval
  userName := hr.userName
  lastSeen := by
    rw [Function.update_of_ne hne]
    exact hr.lastSeen

/-- A true announcement keeps the records true, and never renames one. -/
theorem Truthful.storePeer (ht : Truthful strings profile heard ps)
    (hguid : (profile h).guid = h) {env : PacketSurroundings}
    (hstore : peerstoreStorePeer strings ps env.now (announcedPeer env (profile h)) = some after) :
    Truthful strings profile (Function.update heard h (some env.now)) after := by
  have hfiled := ht.filed.storePeer hstore
  obtain ⟨middle, hmiddle, hstored⟩ := storePeer_cases hstore
  replace ht := ht.reconnection hmiddle
  have hstring : strings.toString (announcedPeer env (profile h)).guid = strings.toString h :=
    congrArg strings.toString hguid
  have hown : ∀ old, middle.peers.lookup (strings.toString h) = some old → old.guid = h :=
    fun old hold => (strings.toString_injective (ht.filed _ old hold)).symm
  -- Records of other peers were last written when these were last heard, which was not now.
  have hothers : ∀ guidStr r, guidStr ≠ strings.toString h →
      middle.peers.lookup guidStr = some r →
        TrueRecord strings profile (Function.update heard h (some env.now)) r := by
    intro guidStr r hne hr
    refine (ht.records guidStr r hr).heard_update (fun hsame => hne ?_) env.now
    rw [ht.filed guidStr r hr, hsame]
  cases hstored with
  | updated old hfound hname =>
      rw [hstring] at hfound
      have hguidOld := hown old hfound
      have htrue := ht.records _ old hfound
      refine ⟨hfiled, fun guidStr r hr => ?_, ht.names⟩
      rcases lookup_insert_eq_some_iff.mp hr with ⟨_, rfl⟩ | ⟨hne, hr⟩
      · refine ⟨?_, htrue.discoveryInterval, htrue.userName, ?_⟩
        · exact congrArg (fun g => (profile g).hostAddress) hguidOld.symm
        · show Function.update heard h (some env.now) old.guid = some env.now
          rw [hguidOld, Function.update_self]
      · exact hothers guidStr r (hstring ▸ hne) hr
  | renamed old name hfound hdiffers hname =>
      rw [hstring] at hfound
      have hgoes := (ht.records _ old hfound).userName
      rw [hown old hfound] at hgoes
      exact absurd hgoes.isPrefix hdiffers
  | inserted name hfound hname =>
      have hgoes : GoesBy strings profile h name := by
        rw [hname, hstring]
        exact goesBy_filedName _ _ _
      refine ⟨hfiled, fun guidStr r hr => ?_, fun username guidStr hentry => ?_⟩
      · rcases lookup_insert_eq_some_iff.mp hr with ⟨_, rfl⟩ | ⟨hne, hr⟩
        · have hguidNew : (announcedPeer env (profile h)).guid = h := hguid
          refine ⟨?_, ?_, ?_, ?_⟩
          · exact congrArg (fun g => (profile g).hostAddress) hguidNew.symm
          · exact congrArg (fun g => (profile g).discoveryInterval) hguidNew.symm
          · show GoesBy strings profile (announcedPeer env (profile h)).guid name
            rw [hguidNew]
            exact hgoes
          · show Function.update heard h (some env.now) (announcedPeer env (profile h)).guid
              = some env.now
            rw [hguidNew, Function.update_self]
        · exact hothers guidStr r (hstring ▸ hne) hr
      · rcases lookup_insert_eq_some_iff.mp hentry with ⟨rfl, hlive⟩ | ⟨_, hold⟩
        · exact ⟨h, (GuidStr.live.inj hlive).trans hstring, hgoes⟩
        · exact ht.names username guidStr hold

theorem Truthful.step (ht : Truthful strings profile (lan.heard g) (lan.store g))
    (hguid : ∀ g, (profile g).guid = g)
    (hmoves : StoreMoves strings profile lan g event after heard) :
    Truthful strings profile heard after := by
  cases hmoves with
  | kept after hpeers hnamestore hactive => exact ht.of_tables hpeers hnamestore
  | lookedUp guid => exact peerstoreLookup_invariant ht ht.erase_peer guid
  | lookedUpByUsername username result after hlookup =>
      exact lookupByUsername_invariant ht ht.erase_peer (fun _ _ _ => ht.erase_name username)
        hlookup
  | stored packet h env after hsent hannounced hstore => exact ht.storePeer (hguid h) hstore

/-! ### Runs -/

section Runs

variable {start : Lan} {events : List LanEvent} {members : Set Guid}

theorem Initial.store_eq (hstart : start.Initial) (g : Guid) :
    ∃ localPeer iap now, localPeer.guid = g
      ∧ start.store g = peerstoreInit localPeer iap now := by
  obtain ⟨localPeer, iap, now, hguid, hnode⟩ := hstart.fresh g
  exact ⟨localPeer, iap, now, hguid, congrArg (fun node => node.svc.peers) hnode⟩

theorem Initial.localPeer_guid (hstart : start.Initial) (g : Guid) :
    (start.localPeer g).guid = g := by
  obtain ⟨localPeer, iap, now, hguid, hstore⟩ := hstart.store_eq g
  rw [Lan.localPeer, hstore]
  exact hguid

theorem Initial.posted (hstart : start.Initial) :
    Posted protobuf start.localPeer members start where
  own g := rfl
  genuine := by
    rw [hstart.sent]
    exact fun _ hpacket => absurd hpacket List.not_mem_nil
  started g hg := by
    obtain ⟨localPeer, iap, now, _, hnode⟩ := hstart.fresh g
    have hidle : start.status g = .idle := congrArg LanNode.status hnode
    rw [Listens, hidle] at hg
    rcases hg with hg | hg
    · cases hg
    · cases hg
  announcer := by
    rw [hstart.sent]
    exact fun _ hpacket => absurd hpacket List.not_mem_nil

theorem Initial.truthful (hstart : start.Initial) (g : Guid) :
    Truthful strings start.localPeer (start.heard g) (start.store g) := by
  obtain ⟨localPeer, iap, now, _, hstore⟩ := hstart.store_eq g
  rw [hstore]
  refine ⟨fun guidStr r hr => ?_, fun guidStr r hr => ?_, fun username guidStr hname => ?_⟩
  · simp [peerstoreInit] at hr
  · simp [peerstoreInit] at hr
  · simp [peerstoreInit] at hname

/-- **Invariant rule for stores.** What holds of the fresh stores, and of every store that an event
moves if it held before, holds of every store after a run. -/
theorem run_stores {Inv : Guid → (Guid → Option Int) → Peerstore → Prop} (hstart : start.Initial)
    (hstarts : ∀ g, .starts g ∈ events → g ∈ members)
    (hinitial : ∀ g, Inv g (start.heard g) (start.store g))
    (hmoves : ∀ lan event g heard after, event ∈ events →
      Posted protobuf start.localPeer members lan → Inv g (lan.heard g) (lan.store g) →
        StoreMoves strings start.localPeer lan g event after heard → Inv g heard after)
    (hrun : Transition.run (step strings protobuf) start events = some lan) :
    Posted protobuf start.localPeer members lan ∧ ∀ g, Inv g (lan.heard g) (lan.store g) := by
  let Good (lan : Lan) : Prop :=
    Posted protobuf start.localPeer members lan ∧ ∀ g, Inv g (lan.heard g) (lan.store g)
  have hgood : Good start := ⟨hstart.posted, hinitial⟩
  have hstep : ∀ lan event next, Good lan → event ∈ events →
      lan.step strings protobuf event = some next → Good next := by
    rintro lan event next ⟨hposted, hstores⟩ hevent hstep
    refine ⟨hposted.step (fun g hg => hstarts g (hg ▸ hevent)) hstep, fun g => ?_⟩
    exact hmoves lan event g _ _ hevent hposted (hstores g) (store_moves hposted.genuine hstep g)
  exact Transition.run_invariant_along hstep
    (Transition.along_of_forall (fun _ hevent => hevent) start) hrun hgood

/-- **No lookup answers with anything untrue.** In every state that services on one network can
reach, whatever was lost, repeated or delayed, a record that a lookup answers with has the guid, the
host address, the interval and a name of one service, the one that was asked for, and the time at
which that service was last heard. A listing lists services that were heard. -/
theorem lookups_truthful (h : lan.Reachable strings protobuf) (g : Guid) :
    (∀ guid r after, peerstoreLookup strings (lan.store g) guid = (some r, after) →
        r.guid = guid ∧ TrueRecord strings lan.localPeer (lan.heard g) r)
      ∧ (∀ username r after, peerstoreLookupByUsername (lan.store g) username
          = some (some r, after) →
        GoesBy strings lan.localPeer r.guid username
          ∧ TrueRecord strings lan.localPeer (lan.heard g) r)
      ∧ ∀ guid ∈ peerstoreGetActiveGuids (lan.store g), ∃ t, lan.heard g guid = some t := by
  obtain ⟨start, events, hstart, hrun⟩ := h
  let Inv (_ : Guid) (heard : Guid → Option Int) (ps : Peerstore) : Prop :=
    Truthful strings start.localPeer heard ps
  have hinitial : ∀ g, Inv g (start.heard g) (start.store g) := hstart.truthful
  have hrunning : Posted protobuf start.localPeer Set.univ lan
      ∧ ∀ g, Inv g (lan.heard g) (lan.store g) :=
    run_stores hstart (fun _ _ => Set.mem_univ _) hinitial
      (fun _ _ _ _ _ _ _ ht hmoves => ht.step hstart.localPeer_guid hmoves) hrun
  obtain ⟨hposted, htruthful⟩ := hrunning
  have hown : start.localPeer = lan.localPeer := funext fun g => (hposted.own g).symm
  have ht : Truthful strings start.localPeer (lan.heard g) (lan.store g) := htruthful g
  rw [hown] at ht
  refine ⟨fun guid r after hlookup => ?_, fun username r after hlookup => ?_, fun guid hguid => ?_⟩
  · obtain ⟨hr, _⟩ := peerstoreLookup_eq_some hlookup
    exact ⟨(strings.toString_injective (ht.filed _ r hr)).symm, ht.records _ r hr⟩
  · rcases lookupByUsername_cases hlookup with
      ⟨guidStr, found, hname, hfound, _, hresult, _⟩ | ⟨_, _, _, _, _, hresult, _⟩
        | ⟨_, _, _, hresult, _⟩ | ⟨_, hresult, _⟩
    · obtain rfl : found = r := (Option.some.inj hresult).symm
      obtain ⟨h, rfl, hgoes⟩ := ht.names username guidStr hname
      have hguid := strings.toString_injective (ht.filed _ found hfound)
      exact ⟨hguid ▸ hgoes, ht.records _ found hfound⟩
    · cases hresult
    · cases hresult
    · cases hresult
  · obtain ⟨guidStr, r, hr, _, rfl⟩ := mem_activeGuids.mp hguid
    exact ⟨_, (ht.records guidStr r hr).lastSeen⟩

section Run

open Concrete

/-- Al, and Bobs everywhere else. -/
def lanPeer (g : Guid) : Peer := if g = guid 1 then peer 1 al else { peer 2 bob with guid := g }

/-- Services without a strategy, none of them started. -/
def freshLan : Lan where
  nodes g := ⟨⟨peerstoreInit (lanPeer g) none 0⟩, .idle⟩
  sent := []
  heard := fun _ _ => none

theorem freshLan_initial : freshLan.Initial where
  fresh g := by
    refine ⟨lanPeer g, none, 0, ?_, rfl⟩
    by_cases hg : g = guid 1
    · rw [lanPeer, if_pos hg, hg]
      rfl
    · rw [lanPeer, if_neg hg]
  sent := rfl
  heard := rfl

/-- Al asks, and Bob receives the request. -/
def askEvents : List LanEvent := [.starts (guid 1), .starts (guid 2), .asks (guid 1)]

/-- Bob answers, and Al receives the answer. -/
def answerEvents : List LanEvent :=
  [.receives (guid 2) 0 ⟨⟨7, []⟩, 1⟩ [], .receives (guid 1) 1 ⟨⟨7, []⟩, 2⟩ []]

def lanAfter (events : List LanEvent) : Lan :=
  (Transition.run (step guidStrings Concrete.protobuf) freshLan events).getD freshLan

theorem run_lanAfter {events : List LanEvent}
    (h : (Transition.run (step guidStrings Concrete.protobuf) freshLan events).isSome = true) :
    Transition.run (step guidStrings Concrete.protobuf) freshLan events
      = some (lanAfter events) := by
  obtain ⟨final, hfinal⟩ := Option.isSome_iff_exists.mp h
  rw [lanAfter, hfinal]
  rfl

def answeredLan : Lan := lanAfter (askEvents ++ answerEvents)

theorem run_answeredLan :
    Transition.run (step guidStrings Concrete.protobuf) freshLan (askEvents ++ answerEvents)
      = some answeredLan := run_lanAfter (by decide +kernel)

example : answeredLan.heard (guid 1) (guid 2) = some 2 := by decide +kernel

theorem lookups_truthful_run :
    (∀ guid r after, peerstoreLookup guidStrings (answeredLan.store (Concrete.guid 1)) guid
        = (some r, after) →
      r.guid = guid ∧ TrueRecord guidStrings answeredLan.localPeer
        (answeredLan.heard (Concrete.guid 1)) r)
      ∧ (∀ username r after, peerstoreLookupByUsername (answeredLan.store (guid 1)) username
          = some (some r, after) →
        GoesBy guidStrings answeredLan.localPeer r.guid username
          ∧ TrueRecord guidStrings answeredLan.localPeer (answeredLan.heard (guid 1)) r)
      ∧ ∀ guid ∈ peerstoreGetActiveGuids (answeredLan.store (Concrete.guid 1)),
        ∃ t, answeredLan.heard (Concrete.guid 1) guid = some t :=
  lookups_truthful ⟨freshLan, _, freshLan_initial, run_answeredLan⟩ (guid 1)

end Run

end Runs

/-! ### No crashes -/

section Members

variable {members : Set Guid}

/-- Only members are heard, and no guid string was freed. -/
structure Settled (strings : GuidStrings) (profile : Guid → Peer) (members : Set Guid)
    (heard : Guid → Option Int) (ps : Peerstore) : Prop extends
    Truthful strings profile heard ps where
  members : ∀ h, heard h ≠ none → h ∈ members
  unfreed : ∀ username, ps.namestore.lookup username ≠ some .freed

/-- Where no two members stand at one address, no announcement takes a record away. -/
theorem Settled.not_reconnects (hs : Settled strings profile members heard ps)
    (haddresses : Set.InjOn (fun g => (profile g).hostAddress) members)
    (hguid : (profile h).guid = h) (hmember : h ∈ members) {env : PacketSurroundings}
    (guidStr : CString) (old : Peer) :
    ¬ Reconnects strings ps (announcedPeer env (profile h)) guidStr old := by
  intro hre
  have hold := hs.records guidStr old hre.filed
  have hmemberOld : old.guid ∈ members := hs.members old.guid (by simp [hold.lastSeen])
  have hsame : h = old.guid :=
    haddresses hmember hmemberOld (hre.address.trans hold.hostAddress)
  apply hre.other
  rw [hs.filed guidStr old hre.filed, ← hsame]
  exact congrArg strings.toString hguid.symm

theorem Settled.step (hs : Settled strings profile members (lan.heard g) (lan.store g))
    (hposted : Posted protobuf profile members lan)
    (haddresses : Set.InjOn (fun g => (profile g).hostAddress) members)
    (hguid : ∀ g, (profile g).guid = g)
    (hmoves : StoreMoves strings profile lan g event after heard) :
    Settled strings profile members heard after := by
  have ht := hs.toTruthful.step hguid hmoves
  cases hmoves with
  | kept after hpeers hnamestore hactive =>
      refine ⟨ht, hs.members, ?_⟩
      rw [hnamestore]
      exact hs.unfreed
  | lookedUp guid =>
      refine ⟨ht, hs.members, ?_⟩
      let Unfreed (ps : Peerstore) : Prop :=
        ∀ username, ps.namestore.lookup username ≠ some .freed
      have hunfreed : Unfreed (lan.store g) := hs.unfreed
      exact peerstoreLookup_invariant hunfreed (fun _ => hs.unfreed) guid
  | lookedUpByUsername username result after hlookup =>
      refine ⟨ht, hs.members, ?_⟩
      let Unfreed (ps : Peerstore) : Prop :=
        ∀ username, ps.namestore.lookup username ≠ some .freed
      have hunfreed : Unfreed (lan.store g) := hs.unfreed
      refine lookupByUsername_invariant hunfreed (fun _ => hs.unfreed) ?_ hlookup
      intro guidStr _ _ other hfreed
      exact hs.unfreed other (lookup_erase_eq_some_iff.mp hfreed).2
  | stored packet h env after hsent hannounced hstore =>
      have hmember := hposted.announcer packet hsent h hannounced
      refine ⟨ht, fun other hother => ?_, fun username hfreed => ?_⟩
      · by_cases hsame : other = h
        · exact hsame ▸ hmember
        · rw [Function.update_of_ne hsame] at hother
          exact hs.members other hother
      · have hstored := storePeer_of_forall_not hstore
          (hs.not_reconnects haddresses (hguid h) hmember)
        exact hs.unfreed username (hstored.entry_before hfreed (by simp))

section Runs

variable {start : Lan} {events : List LanEvent}

theorem Initial.settled (hstart : start.Initial) (g : Guid) :
    Settled strings start.localPeer members (start.heard g) (start.store g) where
  toTruthful := hstart.truthful g
  members h hh := by
    rw [hstart.heard] at hh
    exact absurd rfl hh
  unfreed username := by
    obtain ⟨localPeer, iap, now, _, hstore⟩ := hstart.store_eq g
    rw [hstore]
    simp [peerstoreInit]

theorem settled_run (hstart : start.Initial)
    (hrun : Transition.run (step strings protobuf) start events = some lan)
    (haddresses : Set.InjOn (fun g => (start.localPeer g).hostAddress) {g | .starts g ∈ events})
    (hnames : ∀ g, .starts g ∈ events → (start.localPeer g).userName.bytes ≠ []) :
    (∀ g, Settled strings start.localPeer {g | .starts g ∈ events} (lan.heard g) (lan.store g))
      ∧ ∀ g, lan.status g ≠ .crashed := by
  let members : Set Guid := {g | .starts g ∈ events}
  let Good (lan : Lan) : Prop := Posted protobuf start.localPeer members lan
    ∧ (∀ g, Settled strings start.localPeer members (lan.heard g) (lan.store g))
    ∧ ∀ g, lan.status g ≠ .crashed
  have hgood : Good start := by
    refine ⟨hstart.posted, hstart.settled, fun g => ?_⟩
    obtain ⟨localPeer, iap, now, _, hnode⟩ := hstart.fresh g
    rw [status, hnode]
    exact (by decide : ServiceStatus.idle ≠ .crashed)
  have hstep : ∀ lan event next, Good lan → event ∈ events →
      lan.step strings protobuf event = some next → Good next := by
    rintro lan event next ⟨hposted, hsettled, hup⟩ hevent hstep
    have hstarts : ∀ g, event = .starts g → g ∈ members := by
      rintro g rfl
      exact hevent
    refine ⟨hposted.step hstarts hstep, fun g => ?_, fun g hcrashed => ?_⟩
    · exact (hsettled g).step hposted haddresses hstart.localPeer_guid
        (store_moves hposted.genuine hstep g)
    · rcases crash_cases hposted.genuine hstep hcrashed with
        hold | ⟨username, hfreed⟩ | ⟨packet, hsent, h, hannounced, hempty⟩
      · exact hup g hold
      · exact (hsettled g).unfreed username hfreed
      · exact hnames h (hposted.announcer packet hsent h hannounced) hempty
  have hfinal : Good lan := Transition.run_invariant_along hstep
    (Transition.along_of_forall (fun _ hevent => hevent) start) hrun hgood
  exact hfinal.2

/-- **No crashes.** Where no two services that are started stand at one host address, and each has
a name, no process crashes in any run: no announcement reaches a store that cannot take it, and
every lookup by name answers. -/
theorem never_crashes (hstart : start.Initial)
    (hrun : Transition.run (step strings protobuf) start events = some lan)
    (haddresses : Set.InjOn (fun g => (start.localPeer g).hostAddress) {g | .starts g ∈ events})
    (hnames : ∀ g, .starts g ∈ events → (start.localPeer g).userName.bytes ≠ []) (g : Guid) :
    lan.status g ≠ .crashed
      ∧ ∀ username, ∃ answer, peerstoreLookupByUsername (lan.store g) username = some answer := by
  obtain ⟨hsettled, hup⟩ := settled_run hstart hrun haddresses hnames
  refine ⟨hup g, fun username => ?_⟩
  obtain ⟨result, after, hanswer⟩ :=
    lookupByUsername_defined_iff.mpr ((hsettled g).unfreed username)
  exact ⟨_, hanswer⟩

section Run

open Concrete

theorem starts_iff (g : Guid) :
    LanEvent.starts g ∈ askEvents ++ answerEvents ↔ g = guid 1 ∨ g = guid 2 := by
  simp [askEvents, answerEvents]

/-- What differs between Al and Bob differs between them and nobody else. -/
theorem injOn_of_ne {β : Type} {f : Peer → β} (hf : f (lanPeer (guid 1)) ≠ f (lanPeer (guid 2)))
    {both : Set Guid} (hboth : ∀ g ∈ both, g = guid 1 ∨ g = guid 2) :
    Set.InjOn (fun g => f (freshLan.localPeer g)) both := by
  intro first hfirst second hsecond hsame
  rcases hboth first hfirst with rfl | rfl
  · rcases hboth second hsecond with rfl | rfl
    · rfl
    · exact absurd hsame hf
  · rcases hboth second hsecond with rfl | rfl
    · exact absurd hsame.symm hf
    · rfl

theorem injOn_started {β : Type} {f : Peer → β} (hf : f (lanPeer (guid 1)) ≠ f (lanPeer (guid 2))) :
    Set.InjOn (fun g => f (freshLan.localPeer g))
      {g | LanEvent.starts g ∈ askEvents ++ answerEvents} :=
  injOn_of_ne hf fun g hg => (starts_iff g).mp hg

theorem named_started (g : Guid) (hg : .starts g ∈ askEvents ++ answerEvents) :
    (freshLan.localPeer g).userName.bytes ≠ [] := by
  rcases (starts_iff g).mp hg with rfl | rfl
  · decide +kernel
  · decide +kernel

theorem never_crashes_run : answeredLan.status (guid 1) ≠ .crashed
    ∧ ∀ username, ∃ answer, peerstoreLookupByUsername
        (answeredLan.store (guid 1)) username = some answer :=
  never_crashes freshLan_initial run_answeredLan
    (injOn_started (f := Peer.hostAddress) (by decide +kernel)) named_started (guid 1)

end Run

end Runs

end Members

end Lan

end WhisperCore
