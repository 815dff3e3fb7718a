import WhisperCore.SessionController
import WhisperCore.Lib.Transition
import Mathlib.Logic.Function.Basic

/-!
# A network of nodes

Every guid has a node. A node that is not running takes no step, so nodes that never run are nodes
that are not there. What a running node pushes is in flight until it is delivered to the node it
names as recipient; messages are delivered in any order, each at most once. A node whose call ends
the process stops and keeps what it held before the call. `jnx_guid_create` gives a guid that no
initiation got before.
-/

namespace WhisperCore

structure Node (Key : Type) where
  controller : ConnectionController Key
  running : Bool

/-- A send over one connection: the connection's id and peers, the text and length the user gave,
the secret the connection held, and what lay in memory behind the ciphertext. -/
structure Sending where
  id : Guid
  sender : Guid
  recipient : Guid
  text : Bytes
  len : Nat
  secret : Bytes
  afterCiphertext : Bytes
deriving DecidableEq

/-- A message in flight. The send a message of a session comes from is not part of the message: it
is kept beside it to be spoken about. -/
structure InFlight where
  message : Wpmessage
  sending : Option Sending
deriving DecidableEq

structure Net (Key : Type) where
  nodes : Guid → Node Key
  inFlight : List InFlight
  created : List Guid

variable {Key : Type}

inductive NetEvent (Key : Type) where
  | discovers (g : Guid) (call : PeerstoreCall)
  | initiates (g : Guid) (env : Ambient Key) (remote : PeerRef)
  | delivers (index : Nat) (env : Ambient Key)
  | sends (g : Guid) (envs : Nat → Ambient Key) (s : Session) (message : Bytes) (messageLen : Nat)

def unstamped (message : Wpmessage) : InFlight := ⟨message, none⟩

/-- The secrets a send encrypts under, in the order of its messages. -/
def sendSecrets (controller : ConnectionController Key) : List Nat → List Bytes
  | [] => []
  | address :: rest =>
      match controller.connections.get? address with
      | none => []
      | some req =>
          if req.state ≠ .complete then []
          else req.sharedSecret.toList ++ sendSecrets controller rest

def sendingOver (env : Ambient Key) (c : ConnectionRequest Key) (text : Bytes) (len : Nat)
    (secret : Bytes) : Sending where
  id := c.id
  sender := c.localPeer.guid
  recipient := c.remote.guid
  text := text
  len := len
  secret := secret
  afterCiphertext := env.afterCiphertext

/-- What a send over a session sends, in the order of its messages. -/
def sendings (envs : Nat → Ambient Key) (controller : ConnectionController Key) (text : Bytes)
    (len : Nat) : List Nat → List Sending
  | [] => []
  | address :: rest =>
      match controller.connections.get? address with
      | none => []
      | some req =>
          if req.state ≠ .complete then []
          else (req.sharedSecret.map (sendingOver (envs 0) req text len)).toList
            ++ sendings (fun iteration => envs (iteration + 1)) controller text len rest

def stamped (messages : List Wpmessage) (sends : List Sending) : List InFlight :=
  List.zipWith (fun message sending => ⟨message, some sending⟩) messages sends

namespace Net

/-- The node `g` goes on with a controller. -/
def resume (net : Net Key) (g : Guid) (controller : ConnectionController Key) : Net Key :=
  { net with nodes := Function.update net.nodes g { net.nodes g with controller := controller } }

/-- The node `g` goes on after a call; what it pushed joins the messages still in flight. -/
def proceed (net : Net Key) (g : Guid) (outcome : Outcome Key) (rest : List InFlight) : Net Key :=
  { net.resume g outcome.controller with inFlight := rest ++ outcome.pushed.map unstamped }

def halt (net : Net Key) (g : Guid) : Net Key :=
  { net with nodes := Function.update net.nodes g { net.nodes g with running := false } }

def step (lib : Libraries Key) (net : Net Key) : NetEvent Key → Option (Net Key)
  | .discovers g call =>
      let controller := (net.nodes g).controller
      if (net.nodes g).running then
        (call.step lib.guid controller.ds.peers).map fun peers =>
          net.resume g (controller.setPeers peers)
      else none
  | .initiates g env remote =>
      if (net.nodes g).running ∧ env.guid ∉ net.created then
        let outcome :=
          connectionControllerInitiationRequest lib env (net.nodes g).controller remote
        some { net.proceed g outcome net.inFlight with created := env.guid :: net.created }
      else none
  | .delivers index env =>
      match net.inFlight[index]? with
      | none => none
      | some f =>
          let g := lib.guid.fromString f.message.recipient
          let rest := net.inFlight.eraseIdx index
          if (net.nodes g).running then
            match internalConnnectionMessageProcessor lib env (net.nodes g).controller
                f.message with
            | .error _ => some { net.halt g with inFlight := rest }
            | .ok outcome => some (net.proceed g outcome rest)
          else none
  | .sends g envs s message messageLen =>
      let controller := (net.nodes g).controller
      if (net.nodes g).running then
        match sessionControllerSessionSendMessage lib envs controller s message messageLen with
        | .error _ => some (net.halt g)
        | .ok messages => some { net with
            inFlight := net.inFlight
              ++ stamped messages (sendings envs controller message messageLen
                s.connectionRequestList) }
      else none

/-- Fresh nodes: the node of a guid has that guid, some peerstore and no connection. -/
structure Initial (net : Net Key) : Prop where
  fresh : ∀ g, ∃ (port : CString) (localPeer : Peer) (iap : Option (Int → Peer → Bool)) (now : Int)
    (nc ic cmr : Bool), localPeer.guid = g ∧ (net.nodes g).controller
      = connectionControllerCreate port ⟨peerstoreInit localPeer iap now⟩ nc ic cmr
  inFlight : net.inFlight = []
  created : net.created = []

def Reachable (lib : Libraries Key) (net : Net Key) : Prop :=
  ∃ start events, Initial start ∧ Transition.run (step lib) start events = some net

end Net

end WhisperCore
