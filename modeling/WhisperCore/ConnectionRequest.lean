import WhisperCore.Cryptography
import WhisperCore.Peerstore

/-!
# Connection requests

`src/net/connection_request.c`. A `peer *` is kept as the allocation it points to together with the
guid found there: `peer_create` writes the guid of a record and nothing changes it afterwards. A
connection request is allocated in the arena its controller keeps; logging and the freeing of local
buffers leave no trace in the model.
-/

namespace WhisperCore

structure PeerRef where
  address : Nat
  guid : Guid
deriving DecidableEq

def Peer.ref (p : Peer) : PeerRef := ⟨p.address, p.guid⟩

@[simp]
theorem Peer.ref_guid (p : Peer) : p.ref.guid = p.guid := rfl

inductive ConnectionRequestState where
  | failed
  | unknown
  | initialChallenge
  | challengeReply
  | sessionKeyShare
  | complete
  | created
deriving DecidableEq

structure ConnectionRequest (Key : Type) where
  id : Guid
  state : ConnectionRequestState
  localPeer : PeerRef
  remote : PeerRef
  keypair : Key
  sharedSecret : Option Bytes
deriving DecidableEq

/-- `"OKAY"` -/
def okay : CString := ⟨[0x4F, 0x4B, 0x41, 0x59], by decide⟩

variable {Key : Type}

/-- `malloc` leaves `state` unset and both callers write it next, so it is an argument here. -/
def connectionRequestCreate (env : Ambient Key) (remote : PeerRef) (peers : Peerstore)
    (state : ConnectionRequestState) : ConnectionRequest Key where
  id := env.guid
  state := state
  localPeer := peers.localPeer.ref
  remote := remote
  keypair := env.keypair
  sharedSecret := none

def connectionRequestCreateWithIdentityChain (env : Ambient Key) (remote : PeerRef) (id : Guid)
    (peers : Peerstore) (state : ConnectionRequestState) : ConnectionRequest Key :=
  { connectionRequestCreate env remote peers state with id := id }

section Messages

variable (lib : Libraries Key) (env : Ambient Key) (req : ConnectionRequest Key)

/-- A message of this connection: its id, the local guid as sender, the remote one as recipient. -/
def connectionMessage (payload : Bytes) (size : Nat) (action : SelectedAction) : Wpmessage :=
  wpprotocolGenerateMessage (lib.guid.toString req.id) (lib.guid.toString req.localPeer.guid)
    (lib.guid.toString req.remote.guid) payload size action

def encodedPublicKey : Bytes :=
  (lib.base64.encode (asymmetricalKeyToString lib.rsa req.keypair).bytes).bytes

def connectionRequestCreateInitiationMessage : Wpmessage :=
  connectionMessage lib req (encodedPublicKey lib req) (encodedPublicKey lib req).length
    .createSession

def exchangeChallengeReply : Wpmessage :=
  connectionMessage lib req (encodedPublicKey lib req) (encodedPublicKey lib req).length
    .respondingCreatedSession

/-- The secret is stored before anything is encrypted. -/
def exchangeSessionKeyShare (incomingMessage : Wpmessage) :
    Except (Ending (ConnectionRequest Key)) (ConnectionRequest Key × Wpmessage) :=
  match lib.base64.decode incomingMessage.rawdata with
  | none => .error ⟨.check, req⟩
  | some decoded =>
      let buffer := generateSharedSecret env.draws
      let shared := { req with sharedSecret := some buffer }
      match asymmetricalKeyFromString lib.rsa decoded with
      | none => .error ⟨.fault .emptyKey, shared⟩
      | some remoteKeypair =>
          match asymmetricalEncrypt lib.rsa env remoteKeypair (lib.base64.encode buffer).bytes with
          | none => .error ⟨.check, shared⟩
          | some encryptedString =>
              .ok (shared, connectionMessage lib req encryptedString encryptedString.length
                .sharingSessionKey)

/-- The literal has five bytes; `symmetrical_encrypt` is told five and reads six. The payload length
is `strlen` of the ciphertext. -/
def exchangeComplete : Except Stop Wpmessage :=
  match req.sharedSecret with
  | none => .error .exit
  | some secret => do
      let encrypted ←
        symmetricalEncrypt lib.des (some secret) (okay.inMemory env.afterLiteral) 5
      let memory := encrypted ++ env.afterCiphertext
      return connectionMessage lib req memory (strlen memory) .completedSession

/-- The request after the call, whose secret may have been written, and the message. -/
def connectionRequestCreateExchangeMessage (incomingMessage : Wpmessage) :
    ConnectionRequestState →
      Except (Ending (ConnectionRequest Key)) (ConnectionRequest Key × Wpmessage)
  | .challengeReply => .ok (req, exchangeChallengeReply lib req)
  | .sessionKeyShare => exchangeSessionKeyShare lib env req incomingMessage
  | .complete =>
      match exchangeComplete lib env req with
      | .error stop => .error ⟨stop, req⟩
      | .ok message => .ok (req, message)
  | _ => .error ⟨.fault .nullMessage, req⟩

/-- NULL without a secret. The payload length is `strlen` of the ciphertext and one. -/
def connectionRequestSendMessage (message : Bytes) (messageLen : Nat) :
    Except Stop (Option Wpmessage) :=
  match req.sharedSecret with
  | none => .ok none
  | some secret => do
      let encrypted ← symmetricalEncrypt lib.des (some secret) message messageLen
      let memory := encrypted ++ env.afterCiphertext
      return some (connectionMessage lib req memory (strlen memory + 1) .communicatingSession)

end Messages

section Fields

variable (lib : Libraries Key) (req : ConnectionRequest Key) (payload : Bytes) (size : Nat)
  (action : SelectedAction)

@[simp]
theorem connectionMessage_id :
    (connectionMessage lib req payload size action).id = lib.guid.toString req.id := rfl

@[simp]
theorem connectionMessage_sender :
    (connectionMessage lib req payload size action).sender
      = lib.guid.toString req.localPeer.guid := rfl

@[simp]
theorem connectionMessage_recipient :
    (connectionMessage lib req payload size action).recipient
      = lib.guid.toString req.remote.guid := rfl

@[simp]
theorem connectionMessage_action :
    (connectionMessage lib req payload size action).action = action := rfl

@[simp]
theorem connectionMessage_rawdata :
    (connectionMessage lib req payload size action).rawdata = readBytes payload size := rfl

end Fields

end WhisperCore
