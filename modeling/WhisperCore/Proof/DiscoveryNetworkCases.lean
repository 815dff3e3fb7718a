import WhisperCore.DiscoveryNetwork
import WhisperCore.Proof.DiscoveryPackets

/-!
# What an event of the discovery network can do

Every packet that was broadcast is one of the three kinds that services send, and announcements say
of their sender what is true. An event then does one of four things to a store, and only an
announcement or a lookup by name can crash a process.
-/

namespace WhisperCore

namespace Lan

variable {strings : GuidStrings} {protobuf : PeerProtobuf} {lan next : Lan} {event : LanEvent}
  {g h : Guid}

/-! ### Updates -/

section Updates

variable {svc : DiscoveryService} {status : ServiceStatus} {packets : List Bytes}
  {announced : Option Guid} {now : Int}

@[simp] theorem store_setService_self : (lan.setService g svc).store g = svc.peers := by
  simp [setService, store]

theorem store_setService_of_ne (hne : h ≠ g) : (lan.setService g svc).store h = lan.store h := by
  simp [setService, store, hne]

@[simp] theorem status_setService : (lan.setService g svc).status h = lan.status h := by
  by_cases hg : h = g
  · subst hg
    simp [setService, Lan.status]
  · simp [setService, Lan.status, hg]

@[simp] theorem sent_setService : (lan.setService g svc).sent = lan.sent := rfl

@[simp] theorem heard_setService : (lan.setService g svc).heard = lan.heard := rfl

@[simp] theorem store_setStatus : (lan.setStatus g status).store h = lan.store h := by
  by_cases hg : h = g
  · subst hg
    simp [setStatus, store]
  · simp [setStatus, store, hg]

@[simp] theorem status_setStatus_self : (lan.setStatus g status).status g = status := by
  simp [setStatus, Lan.status]

theorem status_setStatus_of_ne (hne : h ≠ g) :
    (lan.setStatus g status).status h = lan.status h := by
  simp [setStatus, Lan.status, hne]

@[simp] theorem sent_setStatus : (lan.setStatus g status).sent = lan.sent := rfl

@[simp] theorem heard_setStatus : (lan.setStatus g status).heard = lan.heard := rfl

@[simp] theorem store_broadcast : (lan.broadcast packets announced).store h = lan.store h := rfl

@[simp] theorem status_broadcast : (lan.broadcast packets announced).status h = lan.status h := rfl

@[simp] theorem sent_broadcast : (lan.broadcast packets announced).sent
    = lan.sent ++ packets.map fun bytes => ⟨bytes, announced⟩ := rfl

@[simp] theorem heard_broadcast : (lan.broadcast packets announced).heard = lan.heard := rfl

@[simp] theorem store_hear : (lan.hear g announced now).store h = lan.store h := by
  cases announced <;> rfl

@[simp] theorem status_hear : (lan.hear g announced now).status h = lan.status h := by
  cases announced <;> rfl

@[simp] theorem sent_hear : (lan.hear g announced now).sent = lan.sent := by
  cases announced <;> rfl

theorem heard_hear_of_ne (hne : h ≠ g) : (lan.hear g announced now).heard h = lan.heard h := by
  cases announced with
  | none => rfl
  | some other => simp [hear, hne]

theorem heard_hear_self {other : Guid} :
    (lan.hear g (some other) now).heard g = Function.update (lan.heard g) other (some now) := by
  simp [hear]

end Updates

/-! ### Packets -/

/-- What a service broadcasts: a request, its own peer, or a farewell. -/
def Genuine (protobuf : PeerProtobuf) (profile : Guid → Peer) (packet : Broadcast) : Prop :=
  match packet.announced with
  | some h => packet.bytes = peerCommand.bytes ++ peerton protobuf (profile h)
  | none => packet.bytes = discoveryRequest ∨ ∃ p, packet.bytes = stopPacket protobuf p

/-- The record `ntopeer` makes of a peer that was announced. -/
def announcedPeer (env : PacketSurroundings) (p : Peer) : Peer :=
  { p with address := env.address, lastSeen := 0 }

/-- What the handler does with an announcement of `p`. -/
theorem handler_of_announcement (env : PacketSurroundings) (svc : DiscoveryService) (p : Peer)
    (beyond : Bytes) (outcome : PacketOutcome) :
    (discoveryReceiveHandler strings protobuf env svc
        ((peerCommand.bytes ++ peerton protobuf p) ++ beyond)
        (peerCommand.bytes ++ peerton protobuf p).length).result = .ok outcome
      ↔ p.userName.bytes ≠ [] ∧ outcome.sent = []
        ∧ peerstoreStorePeer strings svc.peers env.now (announcedPeer env p)
          = some outcome.svc.peers := by
  rw [handler_of_peer]
  have hhandled : ∀ after, handlePeer strings protobuf env svc (peerton protobuf p)
      (peerton protobuf p).length = .ok after
        ↔ p.userName.bytes ≠ [] ∧ peerstoreStorePeer strings svc.peers env.now
          (announcedPeer env p) = some after.peers := by
    intro after
    rw [handlePeer_eq_ok_iff, ntopeer_peerton]
    constructor
    · rintro ⟨created, userName, hcreated, huserName, hstore⟩
      cases hcreated
      obtain ⟨hnonempty, rfl⟩ := peerCreate_userName_eq_some_iff.mp huserName
      exact ⟨hnonempty, hstore⟩
    · rintro ⟨hnonempty, hstore⟩
      exact ⟨_, p.userName, rfl, peerCreate_userName_eq_some_iff.mpr ⟨hnonempty, rfl⟩, hstore⟩
  cases hresult : handlePeer strings protobuf env svc (peerton protobuf p)
      (peerton protobuf p).length with
  | error fault =>
      constructor
      · intro hok
        cases hok
      · rintro ⟨hnonempty, _, hstore⟩
        cases hresult.symm.trans ((hhandled outcome.svc).mpr ⟨hnonempty, hstore⟩)
  | ok after =>
      obtain ⟨hnonempty, hstore⟩ := (hhandled after).mp hresult
      constructor
      · intro hok
        obtain rfl := Except.ok.inj hok
        exact ⟨hnonempty, rfl, hstore⟩
      · rintro ⟨_, hsent, hother⟩
        obtain ⟨⟨peers⟩, sent⟩ := outcome
        obtain rfl : sent = [] := hsent
        obtain rfl : after = ⟨peers⟩ :=
          congrArg DiscoveryService.mk (Option.some.inj (hstore.symm.trans hother))
        rfl

/-! ### Receiving -/

/-- What a service does with a packet that was broadcast: it answers a request with its own peer,
stores an announced one or crashes on it, and lets a farewell pass. -/
inductive Received (strings : GuidStrings) (protobuf : PeerProtobuf) (profile : Guid → Peer)
    (lan : Lan) (g : Guid) (packet : Broadcast) (env : PacketSurroundings) : Lan → Prop where
  | answered (hannounced : packet.announced = none) :
      Received strings protobuf profile lan g packet env
        ((lan.setService g ⟨peerstoreSetLastUpdateTime (lan.store g) env.now⟩).broadcast
          [peerCommand.bytes ++ peerton protobuf (lan.localPeer g)] (some g))
  | ignored (hannounced : packet.announced = none) :
      Received strings protobuf profile lan g packet env lan
  | stored (h : Guid) (peers : Peerstore) (hannounced : packet.announced = some h)
      (hnamed : (profile h).userName.bytes ≠ [])
      (hstore : peerstoreStorePeer strings (lan.store g) env.now (announcedPeer env (profile h))
        = some peers) :
      Received strings protobuf profile lan g packet env
        ((lan.setService g ⟨peers⟩).hear g (some h) env.now)
  | crashed (h : Guid) (hannounced : packet.announced = some h)
      (hcrash : (profile h).userName.bytes = []
        ∨ (lan.store g).namestore.lookup (profile h).userName = some .freed) :
      Received strings protobuf profile lan g packet env (lan.setStatus g .crashed)

theorem receive_cases {profile : Guid → Peer} {packet : Broadcast}
    (hgenuine : Genuine protobuf profile packet) (g : Guid) (env : PacketSurroundings)
    (beyond : Bytes) :
    Received strings protobuf profile lan g packet env
      (lan.receive strings protobuf g packet env beyond) := by
  obtain ⟨bytes, announced⟩ := packet
  cases announced with
  | none =>
      rcases hgenuine with hrequest | ⟨p, hstop⟩
      · obtain rfl : bytes = listCommand.bytes ++ [0] := hrequest
        simp only [receive]
        rw [handler_of_list]
        exact .answered rfl
      · obtain rfl : bytes = stopPacket protobuf p := hstop
        have hlength : 4 ≤ (stopPacket protobuf p).length := by simp [stopPacket, stopCommand]
        have hlist : ¬ ∃ rest, stopPacket protobuf p = listCommand.bytes ++ rest := by
          simp [stopPacket, stopCommand, listCommand]
        have hpeer : ¬ ∃ payload, stopPacket protobuf p = peerCommand.bytes ++ payload := by
          simp [stopPacket, stopCommand, peerCommand]
        have hsame : lan.setService g (lan.nodes g).svc = lan := by
          rw [setService, Function.update_eq_self]
        have hquiet : lan.broadcast [] (some g) = lan := by
          rw [broadcast, List.map_nil, List.append_nil]
        simp only [receive]
        rw [handler_of_other hlength beyond hlist hpeer]
        simp only [hsame, hquiet, hear]
        exact .ignored rfl
  | some h =>
      obtain rfl : bytes = peerCommand.bytes ++ peerton protobuf (profile h) := hgenuine
      simp only [receive]
      cases hresult : (discoveryReceiveHandler strings protobuf env (lan.nodes g).svc
          ((peerCommand.bytes ++ peerton protobuf (profile h)) ++ beyond)
          (peerCommand.bytes ++ peerton protobuf (profile h)).length).result with
      | error fault =>
          refine .crashed h rfl ?_
          by_contra hfine
          obtain ⟨hnamed, halive⟩ := not_or.mp hfine
          have hdefined : ∃ peers, peerstoreStorePeer strings (lan.store g) env.now
              (announcedPeer env (profile h)) = some peers := storePeer_defined_iff.mpr halive
          obtain ⟨peers, hstore⟩ := hdefined
          cases hresult.symm.trans ((handler_of_announcement env _ _ beyond ⟨⟨peers⟩, []⟩).mpr
            ⟨hnamed, rfl, hstore⟩)
      | ok outcome =>
          obtain ⟨hnamed, hsent, hstore⟩ := (handler_of_announcement env _ _ beyond _).mp hresult
          obtain ⟨⟨peers⟩, sent⟩ := outcome
          obtain rfl : sent = [] := hsent
          have hquiet : (lan.setService g ⟨peers⟩).broadcast [] (some g)
              = lan.setService g ⟨peers⟩ := by
            rw [broadcast, List.map_nil, List.append_nil]
          simp only [hquiet]
          exact .stored h peers rfl hnamed hstore

/-! ### Moves -/

/-- The listening thread of the service has not ended. -/
def Listens (lan : Lan) (g : Guid) : Prop := lan.status g = .running ∨ lan.status g = .stopping

/-- The ways an event can change the network. -/
inductive LanMoves (strings : GuidStrings) (protobuf : PeerProtobuf) (profile : Guid → Peer)
    (lan : Lan) : LanEvent → Lan → Prop where
  | started (g : Guid) :
      LanMoves strings protobuf profile lan (.starts g) (lan.setStatus g .running)
  | ended (event : LanEvent) (g : Guid) :
      LanMoves strings protobuf profile lan event (lan.setStatus g .idle)
  | settled (g : Guid) (strategy : Option UpdateStrategy) (packets : List Bytes)
      (hpackets : ∀ bytes ∈ packets, bytes = discoveryRequest) :
      LanMoves strings protobuf profile lan (.settles g strategy)
        ((lan.setService g ((lan.nodes g).svc.adopt strategy)).broadcast packets none)
  | told (event : LanEvent) (packet : Bytes)
      (hpacket : packet = discoveryRequest ∨ ∃ p, packet = stopPacket protobuf p) :
      LanMoves strings protobuf profile lan event (lan.broadcast [packet] none)
  | stopped (event : LanEvent) (g : Guid) (hlistens : lan.Listens g) :
      LanMoves strings protobuf profile lan event
        ((lan.setStatus g .stopping).broadcast [stopPacket protobuf (lan.localPeer g)] none)
  | announced (event : LanEvent) (g : Guid) (now : Int) (hlistens : lan.Listens g) :
      LanMoves strings protobuf profile lan event
        ((lan.setService g ⟨peerstoreSetLastUpdateTime (lan.store g) now⟩).broadcast
          [peerCommand.bytes ++ peerton protobuf (lan.localPeer g)] (some g))
  | rested (event : LanEvent) : LanMoves strings protobuf profile lan event lan
  | stored (event : LanEvent) (g h : Guid) (packet : Broadcast) (env : PacketSurroundings)
      (peers : Peerstore) (hsent : packet ∈ lan.sent) (hannounced : packet.announced = some h)
      (hstore : peerstoreStorePeer strings (lan.store g) env.now (announcedPeer env (profile h))
        = some peers) :
      LanMoves strings protobuf profile lan event
        ((lan.setService g ⟨peers⟩).hear g (some h) env.now)
  | crashed (event : LanEvent) (g : Guid) (hlistens : lan.Listens g)
      (packet : Broadcast) (h : Guid) (hsent : packet ∈ lan.sent)
      (hannounced : packet.announced = some h)
      (hcrash : (profile h).userName.bytes = []
        ∨ (lan.store g).namestore.lookup (profile h).userName = some .freed) :
      LanMoves strings protobuf profile lan event (lan.setStatus g .crashed)
  | lookedUp (event : LanEvent) (g guid : Guid) :
      LanMoves strings protobuf profile lan event
        (lan.setService g ⟨(peerstoreLookup strings (lan.store g) guid).2⟩)
  | lookedUpByUsername (event : LanEvent) (g : Guid) (username : CString) (result : Option Peer)
      (peers : Peerstore)
      (hlookup : peerstoreLookupByUsername (lan.store g) username = some (result, peers)) :
      LanMoves strings protobuf profile lan event (lan.setService g ⟨peers⟩)
  | tripped (g : Guid) (username : CString)
      (hfreed : (lan.store g).namestore.lookup username = some .freed) :
      LanMoves strings protobuf profile lan (.looksUpByUsername g username)
        (lan.setStatus g .crashed)

theorem lan_step_cases {profile : Guid → Peer}
    (hgenuine : ∀ packet ∈ lan.sent, Genuine protobuf profile packet)
    (hstep : lan.step strings protobuf event = some next) :
    LanMoves strings protobuf profile lan event next := by
  cases event with
  | starts g =>
      obtain ⟨_, hnext⟩ := Option.ite_none_right_eq_some.mp hstep
      obtain rfl := Option.some.inj hnext
      exact .started g
  | settles g strategy =>
      obtain ⟨_, hnext⟩ := Option.ite_none_right_eq_some.mp hstep
      obtain rfl := Option.some.inj hnext
      refine .settled g strategy _ fun bytes hbytes => ?_
      by_cases hnone : strategy = none
      · simpa [hnone] using hbytes
      · simp [hnone] at hbytes
  | asks g =>
      obtain ⟨_, hnext⟩ := Option.ite_none_right_eq_some.mp hstep
      obtain rfl := Option.some.inj hnext
      exact .told _ _ (Or.inl rfl)
  | announces g now =>
      obtain ⟨hrunning, hnext⟩ := Option.ite_none_right_eq_some.mp hstep
      obtain rfl := Option.some.inj hnext
      exact .announced _ g now (Or.inl hrunning)
  | receives g index env beyond =>
      obtain ⟨hlistens, hnext⟩ := Option.ite_none_right_eq_some.mp hstep
      obtain ⟨packet, hpacket, rfl⟩ := Option.map_eq_some_iff.mp hnext
      have hsent : packet ∈ lan.sent := List.mem_of_getElem? hpacket
      have hreceived : Received strings protobuf profile lan g packet env
          (lan.receive strings protobuf g packet env beyond) :=
        receive_cases (hgenuine packet hsent) g env beyond
      generalize lan.receive strings protobuf g packet env beyond = after at hreceived
      cases hreceived with
      | answered hannounced => exact .announced _ g env.now hlistens
      | ignored hannounced => exact .rested _
      | stored h peers hannounced hnamed hstore =>
          exact .stored _ g h packet env peers hsent hannounced hstore
      | crashed h hannounced hcrash => exact .crashed _ g hlistens packet h hsent hannounced hcrash
  | looksUp g guid =>
      obtain ⟨_, hnext⟩ := Option.ite_none_right_eq_some.mp hstep
      obtain rfl := Option.some.inj hnext
      exact .lookedUp _ g guid
  | looksUpByUsername g username =>
      obtain ⟨_, hnext⟩ := Option.ite_none_right_eq_some.mp hstep
      cases hlookup : peerstoreLookupByUsername (lan.store g) username with
      | none =>
          rw [hlookup] at hnext
          obtain rfl := Option.some.inj hnext
          exact .tripped g username (lookupByUsername_eq_none_iff.mp hlookup)
      | some found =>
          rw [hlookup] at hnext
          obtain rfl := Option.some.inj hnext
          exact .lookedUpByUsername _ g username found.1 found.2 hlookup
  | notifies g =>
      obtain ⟨_, hnext⟩ := Option.ite_none_right_eq_some.mp hstep
      obtain rfl := Option.some.inj hnext
      exact .told _ _ (Or.inr ⟨_, rfl⟩)
  | stops g =>
      obtain ⟨hrunning, hnext⟩ := Option.ite_none_right_eq_some.mp hstep
      obtain rfl := Option.some.inj hnext
      exact .stopped _ g (Or.inl hrunning)
  | joinsListener g =>
      obtain ⟨_, hnext⟩ := Option.ite_none_right_eq_some.mp hstep
      obtain rfl := Option.some.inj hnext
      exact .ended _ g

/-! ### What was posted -/

/-- The services' own peers never change, and what was broadcast is genuine; announcements come from
services that were started. -/
structure Posted (protobuf : PeerProtobuf) (profile : Guid → Peer) (members : Set Guid)
    (lan : Lan) : Prop where
  own : ∀ g, lan.localPeer g = profile g
  genuine : ∀ packet ∈ lan.sent, Genuine protobuf profile packet
  started : ∀ g, lan.Listens g → g ∈ members
  announcer : ∀ packet ∈ lan.sent, ∀ h, packet.announced = some h → h ∈ members

theorem localPeer_setService {svc : DiscoveryService}
    (hpeers : svc.peers.localPeer = lan.localPeer g) (h : Guid) :
    (lan.setService g svc).localPeer h = lan.localPeer h := by
  by_cases hg : h = g
  · rw [hg, localPeer, store_setService_self]
    exact hpeers
  · rw [localPeer, store_setService_of_ne hg, localPeer]

theorem mem_members_setStatus {members : Set Guid} {status : ServiceStatus}
    (hstarted : ∀ g, lan.Listens g → g ∈ members)
    (hg : status = .running ∨ status = .stopping → g ∈ members) {h : Guid}
    (hh : (lan.setStatus g status).Listens h) : h ∈ members := by
  by_cases hsame : h = g
  · subst hsame
    rw [Listens, status_setStatus_self] at hh
    exact hg hh
  · rw [Listens, status_setStatus_of_ne hsame] at hh
    exact hstarted h hh

section Posted

variable {profile : Guid → Peer} {members : Set Guid}

theorem Posted.setService (h : Posted protobuf profile members lan) {svc : DiscoveryService}
    (hpeers : svc.peers.localPeer = lan.localPeer g) :
    Posted protobuf profile members (lan.setService g svc) where
  own g := (localPeer_setService hpeers g).trans (h.own g)
  genuine := h.genuine
  started g hg := by
    rw [Listens, status_setService] at hg
    exact h.started g hg
  announcer := h.announcer

theorem Posted.setStatus (h : Posted protobuf profile members lan) {status : ServiceStatus}
    (hg : status = .running ∨ status = .stopping → g ∈ members) :
    Posted protobuf profile members (lan.setStatus g status) where
  own g := by
    rw [localPeer, store_setStatus]
    exact h.own g
  genuine := h.genuine
  started g hstatus := mem_members_setStatus h.started hg hstatus
  announcer := h.announcer

theorem Posted.broadcast (h : Posted protobuf profile members lan) {packets : List Bytes}
    {announced : Option Guid}
    (hgenuine : ∀ bytes ∈ packets, Genuine protobuf profile ⟨bytes, announced⟩)
    (hannouncer : ∀ g, announced = some g → g ∈ members) :
    Posted protobuf profile members (lan.broadcast packets announced) where
  own := h.own
  genuine packet hpacket := by
    rcases List.mem_append.mp hpacket with hold | hnew
    · exact h.genuine packet hold
    · obtain ⟨bytes, hbytes, rfl⟩ := List.mem_map.mp hnew
      exact hgenuine bytes hbytes
  started := h.started
  announcer packet hpacket g hg := by
    rcases List.mem_append.mp hpacket with hold | hnew
    · exact h.announcer packet hold g hg
    · obtain ⟨bytes, _, rfl⟩ := List.mem_map.mp hnew
      exact hannouncer g hg

theorem Posted.hear (h : Posted protobuf profile members lan) (announced : Option Guid)
    (now : Int) : Posted protobuf profile members (lan.hear g announced now) where
  own g := by
    rw [localPeer, store_hear]
    exact h.own g
  genuine := by
    rw [sent_hear]
    exact h.genuine
  started g hg := by
    rw [Listens, status_hear] at hg
    exact h.started g hg
  announcer := by
    rw [sent_hear]
    exact h.announcer

theorem Posted.step (h : Posted protobuf profile members lan)
    (hstarts : ∀ g, event = .starts g → g ∈ members)
    (hstep : lan.step strings protobuf event = some next) :
    Posted protobuf profile members next := by
  cases lan_step_cases h.genuine hstep with
  | started g => exact h.setStatus fun _ => hstarts g rfl
  | ended event g => exact h.setStatus (by simp)
  | settled g strategy packets hpackets =>
      refine (h.setService ?_).broadcast (fun bytes hbytes => Or.inl (hpackets bytes hbytes)) ?_
      · rfl
      · intro g hg
        cases hg
  | told event packet hpacket =>
      refine h.broadcast (fun bytes hbytes => ?_) fun g hg => ?_
      · rw [List.mem_singleton.mp hbytes]
        exact hpacket
      · cases hg
  | stopped event g hlistens =>
      refine (h.setStatus fun _ => h.started g hlistens).broadcast
        (fun bytes hbytes => ?_) fun g hg => ?_
      · exact Or.inr ⟨_, List.mem_singleton.mp hbytes⟩
      · cases hg
  | announced event g now hlistens =>
      refine (h.setService ?_).broadcast (fun bytes hbytes => ?_) fun other hother => ?_
      · rfl
      · rw [List.mem_singleton.mp hbytes, h.own g]
        rfl
      · obtain rfl := Option.some.inj hother
        exact h.started g hlistens
  | rested event => exact h
  | stored event g other packet env peers hsent hannounced hstore =>
      have hown : peers.localPeer = lan.localPeer g :=
        @localPeer_step strings _ _ (.storePeer env.now (announcedPeer env (profile other))) hstore
      exact (h.setService hown).hear _ _
  | crashed event g hlistens packet other hsent hannounced hcrash => exact h.setStatus (by simp)
  | lookedUp event g guid =>
      have hown := @localPeer_step strings (lan.store g) _ (.lookup guid) rfl
      exact h.setService hown
  | lookedUpByUsername event g username result peers hlookup =>
      have hcall : (PeerstoreCall.lookupByUsername username).step strings (lan.store g)
          = some peers := by
        simp only [PeerstoreCall.step, hlookup, Option.map_some]
      exact h.setService (localPeer_step hcall)
  | tripped g username hfreed => exact h.setStatus (by simp)

end Posted

/-! ### Stores -/

/-- What an event does to the store of `g` and to what `g` has heard. -/
inductive StoreMoves (strings : GuidStrings) (profile : Guid → Peer) (lan : Lan) (g : Guid)
    (event : LanEvent) : Peerstore → (Guid → Option Int) → Prop where
  | kept (after : Peerstore) (hpeers : after.peers = (lan.store g).peers)
      (hnamestore : after.namestore = (lan.store g).namestore)
      (hactive : after.isActivePeer = (lan.store g).isActivePeer
        ∨ after.isActivePeer = isActivePeerAskOnce
        ∨ ∃ strategy, event = .settles g (some strategy)) :
      StoreMoves strings profile lan g event after (lan.heard g)
  | lookedUp (guid : Guid) :
      StoreMoves strings profile lan g event (peerstoreLookup strings (lan.store g) guid).2
        (lan.heard g)
  | lookedUpByUsername (username : CString) (result : Option Peer) (after : Peerstore)
      (hlookup : peerstoreLookupByUsername (lan.store g) username = some (result, after)) :
      StoreMoves strings profile lan g event after (lan.heard g)
  | stored (packet : Broadcast) (h : Guid) (env : PacketSurroundings) (after : Peerstore)
      (hsent : packet ∈ lan.sent) (hannounced : packet.announced = some h)
      (hstore : peerstoreStorePeer strings (lan.store g) env.now (announcedPeer env (profile h))
        = some after) :
      StoreMoves strings profile lan g event after
        (Function.update (lan.heard g) h (some env.now))

theorem StoreMoves.unmoved (profile : Guid → Peer) (lan : Lan) (g : Guid) (event : LanEvent) :
    StoreMoves strings profile lan g event (lan.store g) (lan.heard g) :=
  .kept _ rfl rfl (Or.inl rfl)

theorem store_moves {profile : Guid → Peer}
    (hgenuine : ∀ packet ∈ lan.sent, Genuine protobuf profile packet)
    (hstep : lan.step strings protobuf event = some next) (g : Guid) :
    StoreMoves strings profile lan g event (next.store g) (next.heard g) := by
  cases lan_step_cases hgenuine hstep with
  | started g' =>
      rw [store_setStatus]
      exact .unmoved profile lan g _
  | ended event g' =>
      rw [store_setStatus]
      exact .unmoved profile lan g _
  | settled g' strategy packets hpackets =>
      by_cases hg : g = g'
      · subst hg
        rw [store_broadcast, store_setService_self]
        refine .kept _ rfl rfl ?_
        cases strategy with
        | none => exact Or.inr (Or.inl rfl)
        | some strategy => exact Or.inr (Or.inr ⟨strategy, rfl⟩)
      · rw [store_broadcast, store_setService_of_ne hg]
        exact .unmoved profile lan g _
  | told event packet hpacket => exact .unmoved profile lan g _
  | stopped event g' hlistens =>
      rw [store_broadcast, store_setStatus]
      exact .unmoved profile lan g _
  | announced event g' now hlistens =>
      by_cases hg : g = g'
      · subst hg
        rw [store_broadcast, store_setService_self]
        exact .kept _ rfl rfl (Or.inl rfl)
      · rw [store_broadcast, store_setService_of_ne hg]
        exact .unmoved profile lan g _
  | rested event => exact .unmoved profile lan g _
  | stored event g' h packet env peers hsent hannounced hstore =>
      by_cases hg : g = g'
      · subst hg
        rw [store_hear, store_setService_self, heard_hear_self, heard_setService]
        exact .stored packet h env peers hsent hannounced hstore
      · rw [store_hear, store_setService_of_ne hg, heard_hear_of_ne hg, heard_setService]
        exact .unmoved profile lan g _
  | crashed event g' hlistens packet h hsent hannounced hcrash =>
      rw [store_setStatus]
      exact .unmoved profile lan g _
  | lookedUp event g' guid =>
      by_cases hg : g = g'
      · subst hg
        rw [store_setService_self]
        exact .lookedUp guid
      · rw [store_setService_of_ne hg]
        exact .unmoved profile lan g _
  | lookedUpByUsername event g' username result peers hlookup =>
      by_cases hg : g = g'
      · subst hg
        rw [store_setService_self]
        exact .lookedUpByUsername username result peers hlookup
      · rw [store_setService_of_ne hg]
        exact .unmoved profile lan g _
  | tripped g' username hfreed =>
      rw [store_setStatus]
      exact .unmoved profile lan g _

/-- A process that crashes reads a freed string or handles the announcement of a peer without a
name. -/
theorem crash_cases {profile : Guid → Peer}
    (hgenuine : ∀ packet ∈ lan.sent, Genuine protobuf profile packet)
    (hstep : lan.step strings protobuf event = some next) (hcrashed : next.status g = .crashed) :
    lan.status g = .crashed
      ∨ (∃ username, (lan.store g).namestore.lookup username = some .freed)
      ∨ ∃ packet ∈ lan.sent, ∃ h, packet.announced = some h
        ∧ (profile h).userName.bytes = [] := by
  have hturned : ∀ {status : ServiceStatus} {g' : Guid}, status ≠ .crashed →
      (lan.setStatus g' status).status g = .crashed → lan.status g = .crashed := by
    intro status g' hstatus hcrashed
    by_cases hg : g = g'
    · subst hg
      exact absurd (status_setStatus_self.symm.trans hcrashed) hstatus
    · exact (status_setStatus_of_ne hg).symm.trans hcrashed
  cases lan_step_cases hgenuine hstep with
  | started g' => exact Or.inl (hturned (by decide) hcrashed)
  | ended event g' => exact Or.inl (hturned (by decide) hcrashed)
  | settled g' strategy packets hpackets => exact Or.inl (status_setService.symm.trans hcrashed)
  | told event packet hpacket => exact Or.inl hcrashed
  | stopped event g' hlistens => exact Or.inl (hturned (by decide) hcrashed)
  | announced event g' now hlistens => exact Or.inl (status_setService.symm.trans hcrashed)
  | rested event => exact Or.inl hcrashed
  | stored event g' h packet env peers hsent hannounced hstore =>
      exact Or.inl (status_setService.symm.trans (status_hear.symm.trans hcrashed))
  | crashed event g' hlistens packet h hsent hannounced hcrash =>
      by_cases hg : g = g'
      · subst hg
        rcases hcrash with hempty | hfreed
        · exact Or.inr (Or.inr ⟨packet, hsent, h, hannounced, hempty⟩)
        · exact Or.inr (Or.inl ⟨_, hfreed⟩)
      · exact Or.inl ((status_setStatus_of_ne hg).symm.trans hcrashed)
  | lookedUp event g' guid => exact Or.inl (status_setService.symm.trans hcrashed)
  | lookedUpByUsername event g' username result peers hlookup =>
      exact Or.inl (status_setService.symm.trans hcrashed)
  | tripped g' username hfreed =>
      by_cases hg : g = g'
      · subst hg
        exact Or.inr (Or.inl ⟨username, hfreed⟩)
      · exact Or.inl ((status_setStatus_of_ne hg).symm.trans hcrashed)

end Lan

end WhisperCore
