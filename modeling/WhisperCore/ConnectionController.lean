import WhisperCore.ConnectionRequest
import WhisperCore.Discovery
import WhisperCore.Lib.Arena

/-!
# The connection controller

`src/net/connection_controller.c`. The processor's switch is one definition for each action. A call
returns the controller after it, the messages it pushed into the mux and the notification handlers
it called, both in order; where the process ends instead, these are what there was of them by then.
-/

namespace WhisperCore

/-- `nc`, `ic` and `cmr` tell whether the handler is set. -/
structure ConnectionController (Key : Type) where
  port : CString
  ds : DiscoveryService
  connections : Arena (ConnectionRequest Key)
  nc : Bool
  ic : Bool
  cmr : Bool

/-- A call of a notification handler, with the address of the connection request it is given;
`cmr` is also given `message_len` bytes of the decrypted buffer. -/
inductive Notification where
  | completed (connection : Nat)
  | incoming (connection : Nat)
  | messageReceived (connection : Nat) (message : Bytes) (messageLen : Nat)
deriving DecidableEq

structure Outcome (Key : Type) where
  controller : ConnectionController Key
  pushed : List Wpmessage
  calls : List Notification

variable {Key : Type}

def connectionControllerCreate (port : CString) (ds : DiscoveryService) (nc ic cmr : Bool) :
    ConnectionController Key where
  port := port
  ds := ds
  connections := Arena.empty
  nc := nc
  ic := ic
  cmr := cmr

namespace ConnectionController

def setPeers (controller : ConnectionController Key) (peers : Peerstore) :
    ConnectionController Key :=
  { controller with ds := { controller.ds with peers := peers } }

def setConnection (controller : ConnectionController Key) (address : Nat)
    (c : ConnectionRequest Key) : ConnectionController Key :=
  { controller with connections := controller.connections.set address c }

@[simp]
theorem setPeers_peers (controller : ConnectionController Key) (peers : Peerstore) :
    (controller.setPeers peers).ds.peers = peers := rfl

@[simp]
theorem setPeers_connections (controller : ConnectionController Key) (peers : Peerstore) :
    (controller.setPeers peers).connections = controller.connections := rfl

@[simp]
theorem setConnection_peers (controller : ConnectionController Key) (address : Nat)
    (c : ConnectionRequest Key) :
    (controller.setConnection address c).ds.peers = controller.ds.peers := rfl

@[simp]
theorem setConnection_connections (controller : ConnectionController Key) (address : Nat)
    (c : ConnectionRequest Key) :
    (controller.setConnection address c).connections
      = controller.connections.set address c := rfl

end ConnectionController

def connectionControllerAddConnectionRequest (controller : ConnectionController Key)
    (c : ConnectionRequest Key) : ConnectionController Key :=
  { controller with connections := controller.connections.add c }

@[simp]
theorem addConnectionRequest_peers (controller : ConnectionController Key)
    (c : ConnectionRequest Key) :
    (connectionControllerAddConnectionRequest controller c).ds.peers = controller.ds.peers := rfl

@[simp]
theorem addConnectionRequest_connections (controller : ConnectionController Key)
    (c : ConnectionRequest Key) :
    (connectionControllerAddConnectionRequest controller c).connections
      = controller.connections.add c := rfl

variable (lib : Libraries Key)

def connectionControllerInitiationRequest (env : Ambient Key)
    (controller : ConnectionController Key) (remote : PeerRef) : Outcome Key :=
  let c := connectionRequestCreate env remote controller.ds.peers .initialChallenge
  { controller := connectionControllerAddConnectionRequest controller c
    pushed := [connectionRequestCreateInitiationMessage lib c]
    calls := [] }

section Processor

variable (env : Ambient Key) (controller : ConnectionController Key) (message : Wpmessage)

/-- The walk over `controller->connections` for the message's id. -/
def findConnection : Option (Nat × ConnectionRequest Key) :=
  controller.connections.find? fun c => c.id = lib.guid.fromString message.id

def processCreateSession (remote : Peer) (oconnection : Option (Nat × ConnectionRequest Key)) :
    Except (Ending (Outcome Key)) (Outcome Key) :=
  match oconnection with
  | some _ => .error ⟨.exit, controller, [], []⟩
  | none =>
      let c := connectionRequestCreateWithIdentityChain env remote.ref
        (lib.guid.fromString message.id) controller.ds.peers .challengeReply
      match connectionRequestCreateExchangeMessage lib env c message .challengeReply with
      | .error ending => .error ⟨ending.stop, controller, [], []⟩
      | .ok (c, outMessage) => .ok {
          controller := connectionControllerAddConnectionRequest controller c
          pushed := [outMessage]
          calls := if controller.ic then [.incoming controller.connections.next] else [] }

def processRespondingCreatedSession (oconnection : Option (Nat × ConnectionRequest Key)) :
    Except (Ending (Outcome Key)) (Outcome Key) :=
  match oconnection with
  | none => .error ⟨.exit, controller, [], []⟩
  | some (address, oconnection) =>
      let oconnection := { oconnection with state := .sessionKeyShare }
      match connectionRequestCreateExchangeMessage lib env oconnection message .sessionKeyShare with
      | .error ending =>
          .error ⟨ending.stop, controller.setConnection address ending.written, [], []⟩
      | .ok (oconnection, outMessage) => .ok {
          controller := controller.setConnection address oconnection
          pushed := [outMessage]
          calls := [] }

/-- The state is written before the decryption, and a failed one is not checked for: its NULL goes
to `decode_to_string`, which returns NULL for it, and that is stored. The handler is called before
the reply is made, which exits where there is no secret. -/
def processSharingSessionKey (oconnection : Option (Nat × ConnectionRequest Key)) :
    Except (Ending (Outcome Key)) (Outcome Key) :=
  match oconnection with
  | none => .error ⟨.check, controller, [], []⟩
  | some (address, oconnection) =>
      let decryptedKey := asymmetricalDecrypt lib.rsa oconnection.keypair message.rawdata
        message.rawdata.length
      let oconnection := { oconnection with
        state := .complete
        sharedSecret := decryptedKey.bind lib.base64.decode }
      let received : Outcome Key := {
        controller := controller.setConnection address oconnection
        pushed := []
        calls := if controller.nc then [.completed address] else [] }
      match decryptedKey, connectionRequestCreateExchangeMessage lib env oconnection message
          .complete with
      | none, _ => .error ⟨.fault .failedDecrypt, received⟩
      | some _, .error ending => .error ⟨ending.stop, received⟩
      | some _, .ok (_, outMessage) => .ok { received with pushed := [outMessage] }

/-- The state is written before the decryption. The decrypted buffer has one byte more than the
payload, and what follows it in memory is part of the string that is compared. -/
def processCompletedSession (oconnection : Option (Nat × ConnectionRequest Key)) :
    Except (Ending (Outcome Key)) (Outcome Key) :=
  match oconnection with
  | none => .error ⟨.check, controller, [], []⟩
  | some (address, oconnection) =>
      let completed := controller.setConnection address { oconnection with state := .complete }
      match symmetricalDecrypt lib.des oconnection.sharedSecret
          (message.rawdata ++ env.afterPayload) message.rawdata.length with
      | .error stop => .error ⟨stop, completed, [], []⟩
      | .ok decrypted => .ok {
          controller := completed
          pushed := []
          calls :=
            if CString.read (decrypted ++ env.afterPlaintext) = okay ∧ controller.nc then
              [.completed address]
            else [] }

def processCommunicatingSession (oconnection : Option (Nat × ConnectionRequest Key)) :
    Except (Ending (Outcome Key)) (Outcome Key) :=
  match oconnection with
  | none => .error ⟨.fault .absentConnection, controller, [], []⟩
  | some (address, oconnection) =>
      match symmetricalDecrypt lib.des oconnection.sharedSecret
          (message.rawdata ++ env.afterPayload) message.rawdata.length with
      | .error stop => .error ⟨stop, controller, [], []⟩
      | .ok incomingMessage =>
          let memory := incomingMessage ++ env.afterPlaintext
          let messageLen := strlen memory + 1
          .ok {
            controller := controller
            pushed := []
            calls :=
              if controller.cmr then
                [.messageReceived address (readBytes memory messageLen) messageLen]
              else [] }

def internalConnnectionMessageProcessor : Except (Ending (Outcome Key)) (Outcome Key) :=
  match peerstoreLookup lib.guid controller.ds.peers (lib.guid.fromString message.sender) with
  | (none, peers) => .error ⟨.check, controller.setPeers peers, [], []⟩
  | (some remote, peers) =>
      let controller := controller.setPeers peers
      if remote.guid = peers.localPeer.guid then .error ⟨.check, controller, [], []⟩
      else
        let oconnection := findConnection lib controller message
        match message.action with
        | .createSession => processCreateSession lib env controller message remote oconnection
        | .respondingCreatedSession =>
            processRespondingCreatedSession lib env controller message oconnection
        | .sharingSessionKey => processSharingSessionKey lib env controller message oconnection
        | .completedSession => processCompletedSession lib env controller message oconnection
        | .communicatingSession =>
            processCommunicatingSession lib env controller message oconnection

end Processor

/-- `E_CCS_FAILED` is `none`. -/
def connectionControllerConnectionRequestSendMessage (env : Ambient Key)
    (r : ConnectionRequest Key) (message : Bytes) (messageLen : Nat) :
    Except Stop (Option Wpmessage) :=
  connectionRequestSendMessage lib env r message messageLen

/-- Of the request it is given the id is read, to find the first request of that id in the list,
which is taken out and freed. `E_CCS_FAILED` is `false`. -/
def connectionControllerRemoveConnectionRequest (controller : ConnectionController Key)
    (id : Guid) : Bool × ConnectionController Key :=
  match controller.connections.find? fun c => c.id = id with
  | none => (false, controller)
  | some _ => (true, { controller with
      connections := controller.connections.removeFirst fun c => c.id = id })

/-- A message the emitter sends: the host and port it is sent to. -/
structure Emission where
  hostAddress : CString
  port : CString
  message : Wpmessage

def internalConnectionControlEmitter (controller : ConnectionController Key)
    (message : Wpmessage) : Except Stop (Emission × ConnectionController Key) :=
  match peerstoreLookup lib.guid controller.ds.peers (lib.guid.fromString message.recipient) with
  | (none, _) => .error (.fault .nullPeer)
  | (some remotePeer, peers) =>
      .ok (⟨remotePeer.hostAddress, controller.port, message⟩, controller.setPeers peers)

end WhisperCore
