import WhisperCore.DiscoveryNetwork
import WhisperCore.Letters

/-!
# Whole processes

A process runs a discovery service and a connection controller over one peerstore. In a world of
such processes the services hear each other by packets that may be lost, repeated or delayed, while
the controllers exchange messages, in any order. What a service stores, the controller of its
process looks up; a fault of either ends the process, and with it the other.
-/

namespace WhisperCore

variable {Key : Type}

/-- The processes, once their services have done something. -/
def Net.follow (net : Net Key) (lan : Lan) : Net Key :=
  { net with nodes := fun g =>
      { controller := (net.nodes g).controller.setPeers (lan.store g)
        running := (net.nodes g).running && decide (lan.status g ≠ .crashed) } }

/-- The services, once the controllers of their processes have done something. -/
def Lan.follow (lan : Lan) (net : Net Key) : Lan :=
  { lan with nodes := fun g =>
      if (net.nodes g).running then lan.nodes g else { lan.nodes g with status := .crashed } }

structure World (Key : Type) where
  lan : Lan
  post : Post Key

inductive WorldEvent (Key : Type) where
  | discovers (event : LanEvent)
  | connects (event : NetEvent Key)

namespace World

/-- What a store holds is up to the service: the calls of `NetEvent.discovers` come from there. -/
def step (lib : Libraries Key) (protobuf : PeerProtobuf) (world : World Key) :
    WorldEvent Key → Option (World Key)
  | .discovers event =>
      (world.lan.step lib.guid protobuf event).map fun lan =>
        ⟨lan, { world.post with net := world.post.net.follow lan }⟩
  | .connects (.discovers _ _) => none
  | .connects event =>
      (world.post.step lib event).map fun post => ⟨world.lan.follow post.net, post⟩

/-- Processes that were just started: services and controllers just created, over one peerstore
each. -/
structure Initial (world : World Key) : Prop where
  lan : world.lan.Initial
  fresh : ∀ g, ∃ port nc ic cmr, world.post.net.nodes g
    = ⟨connectionControllerCreate port (world.lan.nodes g).svc nc ic cmr, true⟩
  post : world.post = Post.start world.post.net
  inFlight : world.post.net.inFlight = []
  created : world.post.net.created = []

end World

end WhisperCore
