import WhisperCore.UpdateLoops
import WhisperCore.Lib.Transition
import Mathlib.Logic.Function.Basic

/-!
# Discovery services on one network

Every guid has a service; one that is never started is one that is not there. What a service
broadcasts may reach every service that listens, the sender included, in any order, any number of
times or not at all. What a service broadcasts and when is up to it: the update loop of its
strategy, the start of the service, and the user decide. A service whose process crashes takes no
step any more.
-/

namespace WhisperCore

/-- The predicate a service without a strategy sets. -/
def isActivePeerAskOnce (_lastUpdateTime : Int) (_p : Peer) : Bool := true

/-- What `discovery_service_start` sets for its strategy, which may be NULL. -/
def DiscoveryService.adopt (svc : DiscoveryService) (strategy : Option UpdateStrategy) :
    DiscoveryService :=
  { svc with
    peers := { svc.peers with
      isActivePeer :=
        if strategy = none then isActivePeerAskOnce else isActivePeerPeriodicUpdate } }

inductive ServiceStatus where
  -- not started, or stopped
  | idle
  | running
  -- `isrunning` is 0 but the listening thread has not seen it yet
  | stopping
  | crashed
deriving DecidableEq

structure LanNode where
  svc : DiscoveryService
  status : ServiceStatus

/-- A packet that was broadcast. Whose PEER packet it is, if it is one, is kept beside it to be
spoken about. -/
structure Broadcast where
  bytes : Bytes
  announced : Option Guid
deriving DecidableEq

/-- The services, what they broadcast, and when each handled the last announcement of another, which
is kept to be spoken about. -/
structure Lan where
  nodes : Guid → LanNode
  sent : List Broadcast
  heard : Guid → Guid → Option Int

inductive LanEvent where
  | starts (g : Guid)
  | settles (g : Guid) (strategy : Option UpdateStrategy)
  | asks (g : Guid)
  | announces (g : Guid) (now : Int)
  | receives (g : Guid) (index : Nat) (env : PacketSurroundings) (beyond : Bytes)
  | looksUp (g : Guid) (guid : Guid)
  | looksUpByUsername (g : Guid) (username : CString)
  | notifies (g : Guid)
  | stops (g : Guid)
  | joinsListener (g : Guid)

namespace Lan

variable (strings : GuidStrings) (protobuf : PeerProtobuf) (lan : Lan)

def store (g : Guid) : Peerstore := (lan.nodes g).svc.peers

def status (g : Guid) : ServiceStatus := (lan.nodes g).status

def localPeer (g : Guid) : Peer := (lan.store g).localPeer

def setService (g : Guid) (svc : DiscoveryService) : Lan :=
  { lan with nodes := Function.update lan.nodes g { lan.nodes g with svc := svc } }

def setStatus (g : Guid) (status : ServiceStatus) : Lan :=
  { lan with nodes := Function.update lan.nodes g { lan.nodes g with status := status } }

def broadcast (packets : List Bytes) (announced : Option Guid) : Lan :=
  { lan with sent := lan.sent ++ packets.map fun bytes => ⟨bytes, announced⟩ }

/-- `g` has handled a packet at a time. -/
def hear (g : Guid) (announced : Option Guid) (now : Int) : Lan :=
  match announced with
  | none => lan
  | some h => { lan with
      heard := Function.update lan.heard g (Function.update (lan.heard g) h (some now)) }

/-- A packet the service `g` handles, and what lies behind it in memory. -/
def receive (g : Guid) (packet : Broadcast) (env : PacketSurroundings) (beyond : Bytes) : Lan :=
  match (discoveryReceiveHandler strings protobuf env (lan.nodes g).svc (packet.bytes ++ beyond)
    packet.bytes.length).result with
  | .error _ => lan.setStatus g .crashed
  | .ok outcome =>
      ((lan.setService g outcome.svc).broadcast outcome.sent (some g)).hear g packet.announced
        env.now

def step : LanEvent → Option Lan
  | .starts g => if lan.status g = .idle then some (lan.setStatus g .running) else none
  | .settles g strategy =>
      if lan.status g = .running then
        let packets := if strategy = none then [discoveryRequest] else []
        some ((lan.setService g ((lan.nodes g).svc.adopt strategy)).broadcast packets none)
      else none
  | .asks g =>
      if lan.status g = .running then some (lan.broadcast [discoveryRequest] none) else none
  | .announces g now =>
      if lan.status g = .running then
        let outcome := sendPeerPacket protobuf (clockOnly now) (lan.nodes g).svc
        some ((lan.setService g outcome.svc).broadcast outcome.sent (some g))
      else none
  | .receives g index env beyond =>
      if lan.status g = .running ∨ lan.status g = .stopping then
        (lan.sent[index]?).map fun packet => lan.receive strings protobuf g packet env beyond
      else none
  | .looksUp g guid =>
      if lan.status g ≠ .crashed then
        some (lan.setService g ⟨(peerstoreLookup strings (lan.store g) guid).2⟩)
      else none
  | .looksUpByUsername g username =>
      if lan.status g ≠ .crashed then
        match peerstoreLookupByUsername (lan.store g) username with
        | none => some (lan.setStatus g .crashed)
        | some (_, peers) => some (lan.setService g ⟨peers⟩)
      else none
  | .notifies g =>
      if lan.status g = .running then
        some (lan.broadcast [stopPacket protobuf (lan.localPeer g)] none)
      else none
  | .stops g =>
      if lan.status g = .running then
        some ((lan.setStatus g .stopping).broadcast [stopPacket protobuf (lan.localPeer g)] none)
      else none
  | .joinsListener g =>
      if lan.status g = .stopping then some (lan.setStatus g .idle) else none

/-- Services that were just created, each with its guid and some peerstore. -/
structure Initial : Prop where
  fresh : ∀ g, ∃ localPeer iap now, localPeer.guid = g
    ∧ lan.nodes g = ⟨⟨peerstoreInit localPeer iap now⟩, .idle⟩
  sent : lan.sent = []
  heard : lan.heard = fun _ _ => none

def Reachable : Prop :=
  ∃ start events, Initial start ∧ Transition.run (step strings protobuf) start events = some lan

end Lan

end WhisperCore
