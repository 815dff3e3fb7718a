import WhisperCore.Concrete
import WhisperCore.Proof.PeerstoreCases

/-!
# Packets from anybody

A discovery packet is whatever bytes arrive. The handler takes four of them for the command without
asking how many there are, and stores what `ntopeer` makes of the rest without asking whether it
made a peer. Which packets do no harm is characterised exactly.
-/

namespace WhisperCore

variable {strings : GuidStrings} {protobuf : PeerProtobuf} {env : PacketSurroundings}
  {svc : DiscoveryService} {packet payload beyond : Bytes}

/-! ### What the handler does -/

/-- Four bytes and the terminator read as a command. -/
theorem read_command_iff {word : Bytes} {command : CString}
    (hlength : word.length = command.bytes.length) :
    CString.read (word ++ [0]) = command ↔ word = command.bytes := by
  constructor
  · rintro rfl
    have hprefix : (CString.read (word ++ [0])).bytes <+: word ++ [0] := List.takeWhile_prefix _
    rw [List.prefix_iff_eq_take, ← hlength, List.take_left] at hprefix
    exact hprefix.symm
  · rintro rfl
    exact CString.ext (takeWhile_append_nul command.noNul [])

theorem readBytes_packet (hlength : 4 ≤ packet.length) (beyond : Bytes) :
    readBytes (packet ++ beyond) 4 = packet.take 4 := by
  have hlong : 4 ≤ (packet ++ beyond).length := by
    rw [List.length_append]
    omega
  rw [readBytes_of_le hlong, List.take_append_of_le_length hlength]

/-- The command of a packet, whatever lies behind the packet. -/
theorem command_iff (hlength : 4 ≤ packet.length) (beyond : Bytes) {command : CString}
    (hcommand : command.bytes.length = 4) :
    CString.read (readBytes (packet ++ beyond) 4 ++ [0]) = command
      ↔ ∃ payload, packet = command.bytes ++ payload := by
  rw [readBytes_packet hlength, read_command_iff (by simp [hcommand, hlength])]
  constructor
  · intro htake
    exact ⟨packet.drop 4, by rw [← htake, List.take_append_drop]⟩
  · rintro ⟨payload, rfl⟩
    rw [← hcommand, List.take_left]

theorem ntopeer_append (env : PeerSurroundings) (payload beyond : Bytes) :
    ntopeer protobuf env (payload ++ beyond) payload.length
      = ntopeer protobuf env payload payload.length := by
  rw [ntopeer, ntopeer, readBytes_append, readBytes_self]

theorem handlePeer_append (payload beyond : Bytes) :
    handlePeer strings protobuf env svc (payload ++ beyond) payload.length
      = handlePeer strings protobuf env svc payload payload.length := by
  rw [handlePeer, handlePeer, ntopeer_append]

theorem handler_of_list (rest beyond : Bytes) :
    discoveryReceiveHandler strings protobuf env svc ((listCommand.bytes ++ rest) ++ beyond)
      (listCommand.bytes ++ rest).length = ⟨4, .ok (sendPeerPacket protobuf env svc)⟩ := by
  have hlength : 4 ≤ (listCommand.bytes ++ rest).length := by simp [listCommand]
  unfold discoveryReceiveHandler
  rw [if_pos ((command_iff hlength beyond rfl).mpr ⟨rest, rfl⟩)]

theorem handler_of_peer (payload beyond : Bytes) :
    discoveryReceiveHandler strings protobuf env svc ((peerCommand.bytes ++ payload) ++ beyond)
        (peerCommand.bytes ++ payload).length
      = ⟨(peerCommand.bytes ++ payload).length,
        (handlePeer strings protobuf env svc payload payload.length).map fun svc => ⟨svc, []⟩⟩ := by
  have hlength : 4 ≤ (peerCommand.bytes ++ payload).length := by simp [peerCommand]
  have hnotList : ¬ ∃ rest, peerCommand.bytes ++ payload = listCommand.bytes ++ rest := by
    simp [peerCommand, listCommand]
  have hsize : payloadSize (peerCommand.bytes ++ payload).length = payload.length := by
    rw [payloadSize, if_pos hlength, List.length_append]
    exact Nat.add_sub_cancel_left 4 payload.length
  have hdrop : ((peerCommand.bytes ++ payload) ++ beyond).drop 4 = payload ++ beyond := by
    rw [List.append_assoc, show 4 = peerCommand.bytes.length from rfl, List.drop_left]
  unfold discoveryReceiveHandler
  rw [if_neg (mt (command_iff hlength beyond rfl).mp hnotList),
    if_pos ((command_iff hlength beyond rfl).mpr ⟨payload, rfl⟩), hsize, hdrop, handlePeer_append,
    List.length_append]
  rfl

/-- A packet with another command, STOP included, is let pass. -/
theorem handler_of_other (hlength : 4 ≤ packet.length) (beyond : Bytes)
    (hlist : ¬ ∃ rest, packet = listCommand.bytes ++ rest)
    (hpeer : ¬ ∃ payload, packet = peerCommand.bytes ++ payload) :
    discoveryReceiveHandler strings protobuf env svc (packet ++ beyond) packet.length
      = ⟨4, .ok ⟨svc, []⟩⟩ := by
  unfold discoveryReceiveHandler
  rw [if_neg (mt (command_iff hlength beyond rfl).mp hlist),
    if_neg (mt (command_iff hlength beyond rfl).mp hpeer)]
  exact ite_self _

theorem four_le_reads (strings : GuidStrings) (protobuf : PeerProtobuf) (env : PacketSurroundings)
    (svc : DiscoveryService) (j : Bytes) (bytesread : Nat) :
    4 ≤ (discoveryReceiveHandler strings protobuf env svc j bytesread).reads := by
  unfold discoveryReceiveHandler
  simp only
  split_ifs <;> simp

/-- The announcement ends well where `ntopeer` makes a peer with a name, whose entry in the
namestore, if any, is alive. -/
theorem handlePeer_eq_ok_iff {len : Nat} {after : DiscoveryService} :
    handlePeer strings protobuf env svc payload len = .ok after
      ↔ ∃ p userName, ntopeer protobuf env.toPeerSurroundings payload len = .created p
        ∧ p.userName = some userName
        ∧ peerstoreStorePeer strings svc.peers env.now (p.withName userName)
          = some after.peers := by
  unfold handlePeer
  cases hunpack : ntopeer protobuf env.toPeerSurroundings payload len with
  | null => simp
  | guidOverflow => simp
  | created p =>
      cases hname : p.userName with
      | none => simp [hname]
      | some userName =>
          cases hstore : peerstoreStorePeer strings svc.peers env.now (p.withName userName) with
          | none => simp [hname, hstore]
          | some peers =>
              obtain ⟨afterPeers⟩ := after
              simp [hname, hstore]

/-! ### Harmless packets -/

/-- The handler reads the packet's own bytes only, returns (so no NULL peer was stored), and leaves
both tables of the store as they were unless the packet is a PEER that `ntopeer` decodes. -/
structure SurvivesPacket (strings : GuidStrings) (protobuf : PeerProtobuf)
    (env : PacketSurroundings) (svc : DiscoveryService) (packet beyond : Bytes) : Prop where
  within : (discoveryReceiveHandler strings protobuf env svc (packet ++ beyond)
    packet.length).reads ≤ packet.length
  returns : ∃ outcome, (discoveryReceiveHandler strings protobuf env svc (packet ++ beyond)
      packet.length).result = .ok outcome
    ∧ ((outcome.svc.peers.peers = svc.peers.peers
        ∧ outcome.svc.peers.namestore = svc.peers.namestore)
      ∨ ∃ payload p, packet = peerCommand.bytes ++ payload
        ∧ ntopeer protobuf env.toPeerSurroundings payload payload.length = .created p)

/-- The packet has a command, and what follows PEER is a peer with a name; the namestore's entry of
that name, if any, points to a guid string that is alive. -/
structure WellFormedPacket (protobuf : PeerProtobuf) (env : PacketSurroundings)
    (svc : DiscoveryService) (packet : Bytes) : Prop where
  command : 4 ≤ packet.length
  peer : ∀ payload, packet = peerCommand.bytes ++ payload →
    ∃ p userName, ntopeer protobuf env.toPeerSurroundings payload payload.length = .created p
      ∧ p.userName = some userName ∧ svc.peers.namestore.lookup userName ≠ some .freed

/-- **Packets from anybody, exactly.** Whatever the store and whatever lies in memory behind the
packet, the handler survives a packet if and only if it is well formed. -/
theorem survivesPacket_iff (strings : GuidStrings) (protobuf : PeerProtobuf)
    (env : PacketSurroundings) (svc : DiscoveryService) (packet beyond : Bytes) :
    SurvivesPacket strings protobuf env svc packet beyond
      ↔ WellFormedPacket protobuf env svc packet := by
  constructor
  · rintro ⟨hwithin, outcome, hok, _⟩
    refine ⟨(four_le_reads strings protobuf env svc _ _).trans hwithin, ?_⟩
    rintro payload rfl
    rw [handler_of_peer] at hok
    cases hhandled : handlePeer strings protobuf env svc payload payload.length with
    | error fault =>
        rw [hhandled] at hok
        cases hok
    | ok after =>
        obtain ⟨p, userName, hunpack, hname, hstore⟩ := handlePeer_eq_ok_iff.mp hhandled
        exact ⟨p, userName, hunpack, hname, storePeer_defined_iff.mp ⟨_, hstore⟩⟩
  · rintro ⟨hlength, hpeer⟩
    by_cases hispeer : ∃ payload, packet = peerCommand.bytes ++ payload
    · obtain ⟨payload, rfl⟩ := hispeer
      obtain ⟨p, userName, hunpack, hname, halive⟩ := hpeer payload rfl
      obtain ⟨peers, hstore⟩ : ∃ peers, peerstoreStorePeer strings svc.peers env.now
          (p.withName userName) = some peers := storePeer_defined_iff.mpr halive
      have hhandled : handlePeer strings protobuf env svc payload payload.length = .ok ⟨peers⟩ :=
        handlePeer_eq_ok_iff.mpr ⟨p, userName, hunpack, hname, hstore⟩
      refine ⟨by rw [handler_of_peer], ⟨⟨peers⟩, []⟩, ?_, Or.inr ⟨payload, p, rfl, hunpack⟩⟩
      rw [handler_of_peer, hhandled]
      rfl
    · by_cases hislist : ∃ rest, packet = listCommand.bytes ++ rest
      · obtain ⟨rest, rfl⟩ := hislist
        refine ⟨?_, sendPeerPacket protobuf env svc, ?_, Or.inl ⟨rfl, rfl⟩⟩
        · rw [handler_of_list]
          exact hlength
        · rw [handler_of_list]
      · refine ⟨?_, ⟨svc, []⟩, ?_, Or.inl ⟨rfl, rfl⟩⟩
        · rw [handler_of_other hlength beyond hislist hispeer]
          exact hlength
        · rw [handler_of_other hlength beyond hislist hispeer]

section Run

open Concrete

def quietSurroundings : PacketSurroundings := ⟨⟨7, []⟩, 1⟩

/-- The service of a node that knows nobody. -/
def freshService : DiscoveryService := ⟨peerstoreInit (peer 0 bob) none 0⟩

/-- A packet of two bytes is read past its end, and after a PEER without a peer the NULL `ntopeer`
returned is stored. -/
theorem not_survivesPacket_short :
    (discoveryReceiveHandler guidStrings Concrete.protobuf quietSurroundings freshService
        ([0x50, 0x45] ++ []) 2).reads = 4
      ∧ ¬ SurvivesPacket guidStrings Concrete.protobuf quietSurroundings freshService
        [0x50, 0x45] []
      ∧ (discoveryReceiveHandler guidStrings Concrete.protobuf quietSurroundings freshService
        (peerCommand.bytes ++ []) 4).result = .error .nullPeer
      ∧ ¬ SurvivesPacket guidStrings Concrete.protobuf quietSurroundings freshService
        peerCommand.bytes [] := by
  refine ⟨by decide +kernel, fun hsurvives => ?_, rfl, fun hsurvives => ?_⟩
  · have hwithin := hsurvives.within
    revert hwithin
    decide +kernel
  · obtain ⟨outcome, hok, _⟩ := hsurvives.returns
    cases hok

end Run

end WhisperCore
