import WhisperCore.Lib.DolevYao
import WhisperCore.Network

/-!
# The program in the symbolic model

The connection code once more, with terms for payloads: keys, encodings and ciphertexts are taken
apart by their constructors. What carries no secret (guids, peerstores, states, the order of calls)
is as before, and the network takes the same events. The two decryptions with a shared secret are
left out: what they return goes to notification handlers, of which an observer sees nothing. A call
that ends the process returns `none`.
-/

namespace WhisperCore.Symbolic

open DolevYao

/-- What nodes keep to themselves: the secrets they generate and the texts they are given. -/
inductive Confidential where
  | secret (bytes : Bytes)
  | text (bytes : Bytes)
deriving DecidableEq

/-- What is no secret: strings and the actions of messages. -/
inductive Public where
  | string (string : CString)
  | action (action : SelectedAction)
deriving DecidableEq

abbrev Payload (Key : Type) := Term Key Confidential Public

structure ConnectionRequest (Key : Type) where
  id : Guid
  state : ConnectionRequestState
  localPeer : PeerRef
  remote : PeerRef
  keypair : Key
  sharedSecret : Option (Payload Key)
deriving DecidableEq

structure Wpmessage (Key : Type) where
  id : CString
  sender : CString
  recipient : CString
  action : SelectedAction
  rawdata : Payload Key
deriving DecidableEq

/-- The fields of a message, as an observer reads them. -/
def Wpmessage.fields {Key : Type} (m : Wpmessage Key) : List (Payload Key) :=
  [.data (.string m.id), .data (.string m.sender), .data (.string m.recipient),
    .data (.action m.action), m.rawdata]

variable {Key : Type}

/-! ### Connection requests -/

def connectionRequestCreate (env : Ambient Key) (remote : PeerRef) (peers : Peerstore)
    (state : ConnectionRequestState) : ConnectionRequest Key where
  id := env.guid
  state := state
  localPeer := peers.localPeer.ref
  remote := remote
  keypair := env.keypair
  sharedSecret := none

def connectionRequestCreateWithIdentityChain (env : Ambient Key) (remote : PeerRef) (id : Guid)
    (peers : Peerstore) (state : ConnectionRequestState) : ConnectionRequest Key :=
  { connectionRequestCreate env remote peers state with id := id }

def generateSharedSecret (env : Ambient Key) : Payload Key :=
  .atom (.secret (WhisperCore.generateSharedSecret env.draws))

section Messages

variable (strings : GuidStrings) (env : Ambient Key) (req : ConnectionRequest Key)

def connectionMessage (payload : Payload Key) (action : SelectedAction) : Wpmessage Key where
  id := strings.toString req.id
  sender := strings.toString req.localPeer.guid
  recipient := strings.toString req.remote.guid
  action := action
  rawdata := payload

def encodedPublicKey : Payload Key := .encode (.publicKey req.keypair)

def connectionRequestCreateInitiationMessage : Wpmessage Key :=
  connectionMessage strings req (encodedPublicKey req) .createSession

def exchangeChallengeReply : Wpmessage Key :=
  connectionMessage strings req (encodedPublicKey req) .respondingCreatedSession

def exchangeSessionKeyShare (incomingMessage : Wpmessage Key) :
    Option (ConnectionRequest Key × Wpmessage Key) := do
  let decoded ← incomingMessage.rawdata.decode
  let remoteKeypair ← decoded.toPublicKey
  let buffer := generateSharedSecret env
  return ({ req with sharedSecret := some buffer },
    connectionMessage strings req (.aenc remoteKeypair (.encode buffer)) .sharingSessionKey)

def exchangeComplete : Option (Wpmessage Key) := do
  let secret ← req.sharedSecret
  return connectionMessage strings req (.senc secret (.data (.string okay))) .completedSession

def connectionRequestCreateExchangeMessage (incomingMessage : Wpmessage Key) :
    ConnectionRequestState → Option (ConnectionRequest Key × Wpmessage Key)
  | .challengeReply => some (req, exchangeChallengeReply strings req)
  | .sessionKeyShare => exchangeSessionKeyShare strings env req incomingMessage
  | .complete => (exchangeComplete strings req).map fun message => (req, message)
  | _ => none

/-- The text is `message_len` bytes of what `message` points to. -/
def connectionRequestSendMessage (message : Bytes) (messageLen : Nat) : Option (Wpmessage Key) :=
  req.sharedSecret.map fun secret =>
    connectionMessage strings req (.senc secret (.atom (.text (readBytes message messageLen))))
      .communicatingSession

end Messages

/-! ### The processor -/

structure Node (Key : Type) where
  peers : Peerstore
  connections : Arena (ConnectionRequest Key)
  running : Bool

section Processor

variable [DecidableEq Key] (strings : GuidStrings) (env : Ambient Key) (node : Node Key)
  (message : Wpmessage Key)

def findConnection : Option (Nat × ConnectionRequest Key) :=
  node.connections.find? fun c => c.id = strings.fromString message.id

def processCreateSession (remote : Peer) :
    Option (Nat × ConnectionRequest Key) → Option (Node Key × List (Wpmessage Key))
  | some _ => none
  | none => do
      let c := connectionRequestCreateWithIdentityChain env remote.ref
        (strings.fromString message.id) node.peers .challengeReply
      let (c, outMessage) ← connectionRequestCreateExchangeMessage strings env c message
        .challengeReply
      return ({ node with connections := node.connections.add c }, [outMessage])

def processRespondingCreatedSession :
    Option (Nat × ConnectionRequest Key) → Option (Node Key × List (Wpmessage Key))
  | none => none
  | some (address, oconnection) => do
      let (oconnection, outMessage) ← connectionRequestCreateExchangeMessage strings env
        { oconnection with state := .sessionKeyShare } message .sessionKeyShare
      return ({ node with connections := node.connections.set address oconnection }, [outMessage])

def processSharingSessionKey :
    Option (Nat × ConnectionRequest Key) → Option (Node Key × List (Wpmessage Key))
  | none => none
  | some (address, oconnection) => do
      let decryptedKey ← message.rawdata.adec oconnection.keypair
      let (oconnection, outMessage) ← connectionRequestCreateExchangeMessage strings env
        { oconnection with state := .complete, sharedSecret := decryptedKey.decode } message
        .complete
      return ({ node with connections := node.connections.set address oconnection }, [outMessage])

/-- Decrypting with a NULL secret ends the process. -/
def processCompletedSession :
    Option (Nat × ConnectionRequest Key) → Option (Node Key × List (Wpmessage Key))
  | none => none
  | some (address, oconnection) => do
      let _ ← oconnection.sharedSecret
      return ({ node with
        connections := node.connections.set address { oconnection with state := .complete } }, [])

def processCommunicatingSession :
    Option (Nat × ConnectionRequest Key) → Option (Node Key × List (Wpmessage Key))
  | none => none
  | some (_, oconnection) => do
      let _ ← oconnection.sharedSecret
      return (node, [])

def internalConnnectionMessageProcessor : Option (Node Key × List (Wpmessage Key)) :=
  match peerstoreLookup strings node.peers (strings.fromString message.sender) with
  | (none, _) => none
  | (some remote, peers) =>
      let node := { node with peers := peers }
      if remote.guid = peers.localPeer.guid then none
      else
        let oconnection := findConnection strings node message
        match message.action with
        | .createSession => processCreateSession strings env node message remote oconnection
        | .respondingCreatedSession =>
            processRespondingCreatedSession strings env node message oconnection
        | .sharingSessionKey => processSharingSessionKey strings env node message oconnection
        | .completedSession => processCompletedSession node oconnection
        | .communicatingSession => processCommunicatingSession node oconnection

end Processor

/-- `session_controller_session_send_message` over the connections of a session: the messages
pushed, and whether the process goes on. A connection that is not there ends it, after the messages
pushed before. -/
def sendList (strings : GuidStrings) (node : Node Key) (message : Bytes) (messageLen : Nat) :
    List Nat → List (Wpmessage Key) × Bool
  | [] => ([], true)
  | address :: rest =>
      match node.connections.get? address with
      | none => ([], false)
      | some req =>
          if req.state ≠ .complete then ([], true)
          else
            let sent := connectionRequestSendMessage strings req message messageLen
            let later := sendList strings node message messageLen rest
            (sent.toList ++ later.1, later.2)

/-! ### The network -/

/-- The nodes, the messages in flight, and every message pushed so far. -/
structure Net (Key : Type) where
  nodes : Guid → Node Key
  inFlight : List (Wpmessage Key)
  pushed : List (Wpmessage Key)
  created : List Guid

namespace Net

/-- The node `g` goes on as `node`; what it pushed joins the messages still in flight. -/
def proceed (net : Net Key) (g : Guid) (node : Node Key) (rest messages : List (Wpmessage Key)) :
    Net Key :=
  { net with
    nodes := Function.update net.nodes g node
    inFlight := rest ++ messages
    pushed := net.pushed ++ messages }

/-- The node `g` ends; what it pushed is seen, and delivered to nobody. -/
def halt (net : Net Key) (g : Guid) (rest messages : List (Wpmessage Key)) : Net Key :=
  { net with
    nodes := Function.update net.nodes g { net.nodes g with running := false }
    inFlight := rest
    pushed := net.pushed ++ messages }

/-- All an observer of the messages sees. -/
def observed (net : Net Key) : Set (Payload Key) := { t | ∃ m ∈ net.pushed, t ∈ m.fields }

def step [DecidableEq Key] (strings : GuidStrings) (net : Net Key) :
    NetEvent Key → Option (Net Key)
  | .discovers g call =>
      let node := net.nodes g
      if node.running then
        (call.step strings node.peers).map fun peers =>
          net.proceed g { node with peers := peers } net.inFlight []
      else none
  | .initiates g env remote =>
      let node := net.nodes g
      if node.running ∧ env.guid ∉ net.created then
        let c := connectionRequestCreate env remote node.peers .initialChallenge
        some { net.proceed g { node with connections := node.connections.add c } net.inFlight
            [connectionRequestCreateInitiationMessage strings c] with
          created := env.guid :: net.created }
      else none
  | .delivers index env =>
      match net.inFlight[index]? with
      | none => none
      | some m =>
          let g := strings.fromString m.recipient
          let rest := net.inFlight.eraseIdx index
          if (net.nodes g).running then
            match internalConnnectionMessageProcessor strings env (net.nodes g) m with
            | none => some (net.halt g rest [])
            | some (node, messages) => some (net.proceed g node rest messages)
          else none
  | .sends g _ s message messageLen =>
      let node := net.nodes g
      if node.running then
        match sendList strings node message messageLen s.connectionRequestList with
        | (messages, true) => some (net.proceed g node net.inFlight messages)
        | (messages, false) => some (net.halt g net.inFlight messages)
      else none

/-- Nodes with some peerstore and no connection, and nothing pushed yet. -/
structure Initial (net : Net Key) : Prop where
  connections : ∀ g, (net.nodes g).connections = Arena.empty
  inFlight : net.inFlight = []
  pushed : net.pushed = []

end Net

/-- What an event brings that is new (a key pair, a secret, a text to send) is not the
observer's. -/
def FreshFor (own : Observer Key Confidential) : NetEvent Key → Prop
  | .discovers _ _ => True
  | .initiates _ env _ => env.keypair ∉ own.keys
  | .delivers _ env => env.keypair ∉ own.keys
      ∧ .secret (WhisperCore.generateSharedSecret env.draws) ∉ own.atoms
  | .sends _ _ _ message messageLen => .text (readBytes message messageLen) ∉ own.atoms

end WhisperCore.Symbolic
