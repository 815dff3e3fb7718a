import WhisperCore.Network
import WhisperCore.Sessions

/-!
# A network of processes with sessions

The network of nodes, where every process has a session controller over its connection controller:
users open sessions, add peers to them and send texts over them, and the session controllers'
handlers take what the connection controllers notify. What the users' own handlers are called with
is kept to be spoken about. Sessions and connections are not removed.
-/

namespace WhisperCore

structure SessionNode (Key : Type) where
  sc : SessionController Key
  running : Bool

structure SessionNet (Key : Type) where
  nodes : Guid → SessionNode Key
  inFlight : List InFlight
  created : List Guid
  told : List (Guid × UserNotification)

variable {Key : Type}

/-- `id` is the guid a new session gets; a session that is named by its address is in the list. -/
inductive SessionNetEvent (Key : Type) where
  | discovers (g : Guid) (call : PeerstoreCall)
  | creates (g : Guid) (env : Ambient Key) (id : Guid) (remotePeer : PeerRef)
  | addsPeer (g : Guid) (env : Ambient Key) (session : Nat) (remotePeer : PeerRef)
  | delivers (index : Nat) (env : Ambient Key) (id : Guid)
  | sends (g : Guid) (envs : Nat → Ambient Key) (session : Nat) (message : Bytes)
      (messageLen : Nat)

namespace SessionNet

/-- The network below the sessions. -/
def net (sn : SessionNet Key) : Net Key where
  nodes g := ⟨(sn.nodes g).sc.connectionController, (sn.nodes g).running⟩
  inFlight := sn.inFlight
  created := sn.created

def resume (sn : SessionNet Key) (g : Guid) (sc : SessionController Key) : SessionNet Key :=
  { sn with nodes := Function.update sn.nodes g { sn.nodes g with sc := sc } }

def proceed (sn : SessionNet Key) (g : Guid) (outcome : SessionOutcome Key)
    (rest : List InFlight) : SessionNet Key :=
  { sn.resume g outcome.sc with
    inFlight := rest ++ outcome.pushed.map unstamped
    told := sn.told ++ outcome.calls.map fun call => (g, call) }

def halt (sn : SessionNet Key) (g : Guid) : SessionNet Key :=
  { sn with nodes := Function.update sn.nodes g { sn.nodes g with running := false } }

def step (lib : Libraries Key) (sn : SessionNet Key) :
    SessionNetEvent Key → Option (SessionNet Key)
  | .discovers g call =>
      let sc := (sn.nodes g).sc
      if (sn.nodes g).running then
        (call.step lib.guid sc.connectionController.ds.peers).map fun peers =>
          sn.resume g (sc.withConnections (sc.connectionController.setPeers peers))
      else none
  | .creates g env id remotePeer =>
      if (sn.nodes g).running ∧ env.guid ∉ sn.created then
        let outcome := sessionControllerSessionCreate lib env (sn.nodes g).sc id remotePeer
        some { sn.proceed g outcome sn.inFlight with created := env.guid :: sn.created }
      else none
  | .addsPeer g env session remotePeer =>
      match (sn.nodes g).sc.sessionList.get? session with
      | none => none
      | some s =>
          if (sn.nodes g).running ∧ env.guid ∉ sn.created then
            let outcome :=
              sessionControllerSessionAddPeer lib env (sn.nodes g).sc session s remotePeer
            some { sn.proceed g outcome sn.inFlight with created := env.guid :: sn.created }
          else none
  | .delivers index env id =>
      match sn.inFlight[index]? with
      | none => none
      | some f =>
          let g := lib.guid.fromString f.message.recipient
          let rest := sn.inFlight.eraseIdx index
          if (sn.nodes g).running then
            match sessionControllerProcess lib env (sn.nodes g).sc id f.message with
            | .error _ => some { sn.halt g with inFlight := rest }
            | .ok outcome => some (sn.proceed g outcome rest)
          else none
  | .sends g envs session message messageLen =>
      let controller := (sn.nodes g).sc.connectionController
      match (sn.nodes g).sc.sessionList.get? session with
      | none => none
      | some s =>
          if (sn.nodes g).running then
            match sessionControllerSessionSendMessage lib envs controller s message messageLen with
            | .error _ => some (sn.halt g)
            | .ok messages => some { sn with
                inFlight := sn.inFlight
                  ++ stamped messages (sendings envs controller message messageLen
                    s.connectionRequestList) }
          else none

/-- Session controllers just created, each over a connection controller and a peerstore just
created. -/
structure Initial (sn : SessionNet Key) : Prop where
  fresh : ∀ g, ∃ port localPeer iap now nc ic cmr umn, localPeer.guid = g
    ∧ (sn.nodes g).sc = SessionController.start port localPeer iap now nc ic cmr umn
  inFlight : sn.inFlight = []
  created : sn.created = []

def Reachable (lib : Libraries Key) (sn : SessionNet Key) : Prop :=
  ∃ start events, Initial start ∧ Transition.run (step lib) start events = some sn

end SessionNet

end WhisperCore
