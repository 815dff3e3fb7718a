import WhisperCore.PeerCodec

/-!
# Discovery

Of `src/net/discovery.c`, the store a discovery service keeps, the predicate by which it tells
whether a peer is still active, and what it does with the packets it receives.
-/

namespace WhisperCore

structure DiscoveryService where
  peers : Peerstore

/-- The predicate a service with a discovery strategy sets. `discovery_interval` is an unsigned
32-bit number, and so is its double. -/
def isActivePeerPeriodicUpdate (lastUpdateTime : Int) (p : Peer) : Bool :=
  lastUpdateTime - (2 * p.discoveryInterval).toNat ≤ p.lastSeen

/-! ### Packets -/

/-- `"LIST"` -/
def listCommand : CString := ⟨[0x4C, 0x49, 0x53, 0x54], by decide⟩

/-- `"PEER"` -/
def peerCommand : CString := ⟨[0x50, 0x45, 0x45, 0x52], by decide⟩

/-- `"STOP"` -/
def stopCommand : CString := ⟨[0x53, 0x54, 0x4F, 0x50], by decide⟩

/-- Accesses the handling of a packet makes without a guard. -/
inductive PacketFault where
  -- more than the 16 bytes of a guid copied to one
  | guidOverflow
  -- `p->user_name` of the NULL `ntopeer` returned
  | nullPeer
  -- the namestore asked for a `user_name` that was never set
  | unsetName
  -- a guid string read after it was freed
  | freedName
deriving DecidableEq

/-- What a packet finds outside the program's control: the clock, and what `ntopeer` finds. -/
structure PacketSurroundings extends PeerSurroundings where
  now : Int

/-- The service after a packet, and the packets it sent. -/
structure PacketOutcome where
  svc : DiscoveryService
  sent : List Bytes

section Handler

variable (strings : GuidStrings) (protobuf : PeerProtobuf) (env : PacketSurroundings)
  (svc : DiscoveryService)

def sendPeerPacket : PacketOutcome where
  svc := { svc with peers := peerstoreSetLastUpdateTime svc.peers env.now }
  sent := [peerCommand.bytes ++ peerton protobuf svc.peers.localPeer]

/-- The packet `send_stop_packet` sends. -/
def stopPacket (p : Peer) : Bytes := stopCommand.bytes ++ peerton protobuf p

def handlePeer (payload : Bytes) (bytesread : Nat) : Except PacketFault DiscoveryService :=
  match ntopeer protobuf env.toPeerSurroundings payload bytesread with
  | .null => .error .nullPeer
  | .guidOverflow => .error .guidOverflow
  | .created p =>
      match p.userName with
      | none => .error .unsetName
      | some userName =>
          match peerstoreStorePeer strings svc.peers env.now (p.withName userName) with
          | none => .error .freedName
          | some peers => .ok { svc with peers := peers }

/-- `bytesread - 4` in the unsigned type `jnx_size`. -/
def payloadSize (bytesread : Nat) : Nat :=
  if 4 ≤ bytesread then bytesread - 4 else bytesread + 2 ^ 64 - 4

/-- A packet handled: how many bytes are read from its start on, and the result. -/
structure PacketRun where
  reads : Nat
  result : Except PacketFault PacketOutcome

/-- `j` is the packet and what lies behind it in memory. -/
def discoveryReceiveHandler (j : Bytes) (bytesread : Nat) : PacketRun :=
  let command := CString.read (readBytes j 4 ++ [0])
  let payload := j.drop 4
  if command = listCommand then ⟨4, .ok (sendPeerPacket protobuf env svc)⟩
  else if command = peerCommand then
    ⟨4 + payloadSize bytesread,
      (handlePeer strings protobuf env svc payload (payloadSize bytesread)).map fun svc =>
        ⟨svc, []⟩⟩
  else if command = stopCommand then ⟨4, .ok ⟨svc, []⟩⟩
  else ⟨4, .ok ⟨svc, []⟩⟩

end Handler

end WhisperCore
