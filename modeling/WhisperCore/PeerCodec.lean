import WhisperCore.Peerstore

/-!
# Peers on the wire

`src/data/peer.c`. The generated functions of `peer.pb-c.c` hand the message of `peer.proto` and its
description to protobuf-c, which is not part of the repository; what they do is a parameter here.
-/

namespace WhisperCore

/-- The `Peer` message; all its fields are required. -/
structure PeerMessage where
  guid : Bytes
  hostAddress : CString
  userName : CString
  discoveryInterval : UInt32
deriving DecidableEq

/-- `peer__pack` and `peer__unpack`; the latter returns NULL for what is not a message. -/
structure PeerProtobuf where
  pack : PeerMessage → Bytes
  unpack : Bytes → Option PeerMessage
  unpack_pack : ∀ msg, unpack (pack msg) = some msg

attribute [simp] PeerProtobuf.unpack_pack

/-- A peer `peer_create` allocated. `none` is a `user_name` it left as `malloc` gave it. -/
structure CreatedPeer where
  address : Nat
  guid : Guid
  hostAddress : CString
  userName : Option CString
  discoveryInterval : UInt32
deriving DecidableEq

def peerCreate (address : Nat) (guid : Guid) (hostAddress userName : CString)
    (discoveryInterval : UInt32) : CreatedPeer where
  address := address
  guid := guid
  hostAddress := hostAddress
  userName := if 0 < strlen userName.bytes then some userName else none
  discoveryInterval := discoveryInterval

theorem peerCreate_userName_eq_some_iff {address : Nat} {guid : Guid}
    {hostAddress name set : CString} {discoveryInterval : UInt32} :
    (peerCreate address guid hostAddress name discoveryInterval).userName = some set
      ↔ name.bytes ≠ [] ∧ set = name := by
  simp [peerCreate, List.length_pos_iff, eq_comm]

/-- The peer with the name set; `last_seen` is not, and is written before it is read. -/
def CreatedPeer.withName (created : CreatedPeer) (userName : CString) : Peer where
  address := created.address
  guid := created.guid
  hostAddress := created.hostAddress
  userName := userName
  discoveryInterval := created.discoveryInterval
  lastSeen := 0

def peerton (protobuf : PeerProtobuf) (p : Peer) : Bytes :=
  protobuf.pack ⟨p.guid.bytes, p.hostAddress, p.userName, p.discoveryInterval⟩

/-- A peer as `peerton` reads it; `none` is a NULL `user_name`. -/
structure OutgoingPeer where
  guid : Guid
  hostAddress : CString
  userName : Option CString
  discoveryInterval : UInt32
deriving DecidableEq

/-- `msg.user_name` is left NULL for a peer without a name, and protobuf-c packs a NULL string as an
empty one. -/
def packedName (userName : Option CString) : CString := userName.getD ⟨[], by decide⟩

def OutgoingPeer.peerton (protobuf : PeerProtobuf) (p : OutgoingPeer) : Bytes :=
  protobuf.pack ⟨p.guid.bytes, p.hostAddress, packedName p.userName, p.discoveryInterval⟩

def Peer.outgoing (p : Peer) : OutgoingPeer where
  guid := p.guid
  hostAddress := p.hostAddress
  userName := some p.userName
  discoveryInterval := p.discoveryInterval

theorem peerton_outgoing (protobuf : PeerProtobuf) (p : Peer) :
    p.outgoing.peerton protobuf = peerton protobuf p := rfl

/-- What `ntopeer` finds outside the program's control: where the new peer is allocated, and what
its local guid holds before it is written. -/
structure PeerSurroundings where
  address : Nat
  stack : Bytes

/-- `memcpy(gd.guid, msg->guid.data, msg->guid.len)`, undefined (`none`) where the message's guid is
longer than a guid; a shorter one leaves the rest of `gd` as it was. -/
def copyGuid (guid stack : Bytes) : Option Guid :=
  if guid.length ≤ 16 then some ⟨readBytes (guid ++ stack) 16, length_readBytes _ 16⟩ else none

inductive UnpackedPeer where
  | null
  | guidOverflow
  | created (p : CreatedPeer)
deriving DecidableEq

def ntopeer (protobuf : PeerProtobuf) (env : PeerSurroundings) (payload : Bytes) (len : Nat) :
    UnpackedPeer :=
  match protobuf.unpack (readBytes payload len) with
  | none => .null
  | some msg =>
      match copyGuid msg.guid env.stack with
      | none => .guidOverflow
      | some gd =>
          .created (peerCreate env.address gd msg.hostAddress msg.userName msg.discoveryInterval)

/-! ### Comparison -/

inductive PeerCompareStatus where
  | peersEquivalent
  | peersDifferent
deriving DecidableEq

/-- Only the lowest bit of the three answers is looked at. -/
def peersCompare (strcmp : Strcmp) (p1 p2 : Peer) : PeerCompareStatus :=
  let status : UInt32 := 0
  let status := status ||| jnxGuidCompare p1.guid p2.guid
  let status := status ||| (strcmp.compare p1.hostAddress p2.hostAddress).toUInt32
  let status := status ||| (strcmp.compare p1.userName p2.userName).toUInt32
  let status := status &&& 1
  if status = 0 then .peersEquivalent else .peersDifferent

/-! ### Round trip -/

theorem copyGuid_bytes (guid : Guid) (stack : Bytes) : copyGuid guid.bytes stack = some guid := by
  have hlength := guid.length_eq
  rw [copyGuid, if_pos (by omega)]
  congr
  rw [← hlength, readBytes_append]

theorem ntopeer_outgoing (protobuf : PeerProtobuf) (env : PeerSurroundings) (p : OutgoingPeer) :
    ntopeer protobuf env (p.peerton protobuf) (p.peerton protobuf).length
      = .created (peerCreate env.address p.guid p.hostAddress (packedName p.userName)
        p.discoveryInterval) := by
  rw [ntopeer, readBytes_self, OutgoingPeer.peerton, protobuf.unpack_pack]
  simp only [copyGuid_bytes]

/-- What `peerton` wrote is read back, but for an empty name. -/
theorem ntopeer_peerton (protobuf : PeerProtobuf) (env : PeerSurroundings) (p : Peer) :
    ntopeer protobuf env (peerton protobuf p) (peerton protobuf p).length
      = .created (peerCreate env.address p.guid p.hostAddress p.userName p.discoveryInterval) := by
  rw [← peerton_outgoing]
  exact ntopeer_outgoing protobuf env p.outgoing

end WhisperCore
