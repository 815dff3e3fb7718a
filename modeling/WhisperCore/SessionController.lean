import WhisperCore.ConnectionController

/-!
# Sessions

`src/session/session.c` and `src/session/session_controller.c`. A session's list holds pointers to
connection requests of the controller: their addresses in its arena. Reading one that is not there
is undefined. The session list holds pointers to sessions in the same way.
-/

namespace WhisperCore

structure Session where
  id : Guid
  connectionRequestList : List Nat
deriving DecidableEq

variable {Key : Type}

def isReadyList (controller : ConnectionController Key) : List Nat → Except Stop Bool
  | [] => .ok true
  | address :: rest =>
      match controller.connections.get? address with
      | none => .error (.fault .absentConnection)
      | some r => if r.state ≠ .complete then .ok false else isReadyList controller rest

def sessionControllerIsSessionReady (controller : ConnectionController Key) (s : Session) :
    Except Stop Bool :=
  match s.connectionRequestList with
  | [] => .ok false
  | head :: rest => isReadyList controller (head :: rest)

/-- The messages pushed, in order; `envs` gives each iteration its surroundings. A pending
connection ends the loop, a failed send does not. -/
def sendList (lib : Libraries Key) (envs : Nat → Ambient Key)
    (controller : ConnectionController Key) (message : Bytes) (messageLen : Nat) :
    List Nat → Except Stop (List Wpmessage)
  | [] => .ok []
  | address :: rest =>
      match controller.connections.get? address with
      | none => .error (.fault .absentConnection)
      | some req =>
          if req.state ≠ .complete then .ok []
          else do
            let sent ← connectionControllerConnectionRequestSendMessage lib (envs 0) req message
              messageLen
            let later ← sendList lib (fun iteration => envs (iteration + 1)) controller message
              messageLen rest
            return sent.toList ++ later

def sessionControllerSessionSendMessage (lib : Libraries Key) (envs : Nat → Ambient Key)
    (controller : ConnectionController Key) (s : Session) (message : Bytes) (messageLen : Nat) :
    Except Stop (List Wpmessage) :=
  sendList lib envs controller message messageLen s.connectionRequestList

/-! ### The session controller -/

/-- `session_create`, with the id `jnx_guid_create` gave. -/
def sessionCreate (id : Guid) : Session where
  id := id
  connectionRequestList := []

def sessionAddConnection (s : Session) (connection : Nat) : Session :=
  { s with connectionRequestList := s.connectionRequestList ++ [connection] }

/-- `umn` tells whether the user's handler is set. -/
structure SessionController (Key : Type) where
  connectionController : ConnectionController Key
  sessionList : Arena Session
  umn : Bool

/-- A call of the user's handler, with the addresses of the session and the connection request. -/
structure UserNotification where
  session : Nat
  connection : Nat
  message : Bytes
  messageLen : Nat
deriving DecidableEq

structure SessionOutcome (Key : Type) where
  sc : SessionController Key
  pushed : List Wpmessage
  calls : List UserNotification

/-- Takes over the connection controller's handlers. -/
def sessionControllerCreate (connectionController : ConnectionController Key) (umn : Bool) :
    SessionController Key where
  connectionController := { connectionController with nc := true, ic := true, cmr := true }
  sessionList := Arena.empty
  umn := umn

def sessionControllerAddSession (sc : SessionController Key) (s : Session) :
    SessionController Key :=
  { sc with sessionList := sc.sessionList.add s }

/-- Of the session it is given the id is read. The session taken out of the list is not freed, its
connections stay with the connection controller. -/
def sessionControllerRemoveSession (sc : SessionController Key) (id : Guid) :
    SessionController Key :=
  { sc with sessionList := sc.sessionList.removeFirst fun s => s.id = id }

section Sessions

variable (lib : Libraries Key) (env : Ambient Key) (sc : SessionController Key)

def sessionControllerSessionCreate (id : Guid) (remotePeer : PeerRef) : SessionOutcome Key :=
  let ses := sessionCreate id
  let request := sc.connectionController.connections.next
  let outcome := connectionControllerInitiationRequest lib env sc.connectionController remotePeer
  { sc := sessionControllerAddSession { sc with connectionController := outcome.controller }
      (sessionAddConnection ses request)
    pushed := outcome.pushed
    calls := [] }

def sessionControllerSessionCreateFromIncoming (id : Guid) (req : Nat) : Session :=
  sessionAddConnection (sessionCreate id) req

/-- `session` is the address at which `s` stands in the session list. -/
def sessionControllerSessionAddPeer (session : Nat) (s : Session) (remotePeer : PeerRef) :
    SessionOutcome Key :=
  let request := sc.connectionController.connections.next
  let outcome := connectionControllerInitiationRequest lib env sc.connectionController remotePeer
  { sc := { sc with
      connectionController := outcome.controller
      sessionList := sc.sessionList.set session (sessionAddConnection s request) }
    pushed := outcome.pushed
    calls := [] }

end Sessions

section Handlers

variable (sc : SessionController Key)

def internalIncoming (id : Guid) (connection : Nat) : SessionController Key :=
  sessionControllerAddSession sc (sessionControllerSessionCreateFromIncoming id connection)

/-- The inner loop of `internal_message_received`: the connections of a session that are handed to
the user. Once set, `found` stays set to the end of the session's list. -/
def messageReceivedConnections (id : Guid) : Bool → List Nat → Except Stop (List Nat)
  | _, [] => .ok []
  | found, address :: rest =>
      match sc.connectionController.connections.get? address with
      | none => .error (.fault .absentConnection)
      | some current => do
          let found := found || current.id = id
          let later ← messageReceivedConnections id found rest
          return if found then address :: later else later

/-- The outer loop of `internal_message_received`. -/
def messageReceivedSessions (c : ConnectionRequest Key) (decryptedMessage : Bytes)
    (messageLen : Nat) : List (Nat × Session) → Except Stop (List UserNotification)
  | [] => .ok []
  | (session, s) :: rest => do
      let connections ← messageReceivedConnections sc c.id false s.connectionRequestList
      let later ← messageReceivedSessions c decryptedMessage messageLen rest
      let calls := connections.map fun connection =>
        UserNotification.mk session connection decryptedMessage messageLen
      return (if sc.umn then calls else []) ++ later

def internalMessageReceived (c : ConnectionRequest Key) (decryptedMessage : Bytes)
    (messageLen : Nat) : Except Stop (List UserNotification) :=
  messageReceivedSessions sc c decryptedMessage messageLen sc.sessionList.entries

end Handlers

/-- What a handler the session controller set does with a notification; `internal_completed` only
logs. `id` is the guid a new session would get. -/
def notified (sc : SessionController Key) (id : Guid) :
    Notification → Except Stop (SessionController Key × List UserNotification)
  | .completed _ => .ok (sc, [])
  | .incoming connection => .ok (internalIncoming sc id connection, [])
  | .messageReceived connection message messageLen =>
      match sc.connectionController.connections.get? connection with
      | none => .error (.fault .absentConnection)
      | some c =>
          (internalMessageReceived sc c message messageLen).map fun calls => (sc, calls)

def notifiedAll (id : Guid) : SessionController Key → List Notification →
    Except Stop (SessionController Key × List UserNotification)
  | sc, [] => .ok (sc, [])
  | sc, call :: rest => do
      let (sc, calls) ← notified sc id call
      let (sc, later) ← notifiedAll id sc rest
      return (sc, calls ++ later)

/-- A message reaches a process that has a session controller. -/
def sessionControllerProcess (lib : Libraries Key) (env : Ambient Key) (sc : SessionController Key)
    (id : Guid) (message : Wpmessage) : Except Stop (SessionOutcome Key) := do
  let outcome ← (internalConnnectionMessageProcessor lib env sc.connectionController
    message).mapError Ending.stop
  let (sc, calls) ←
    notifiedAll id { sc with connectionController := outcome.controller } outcome.calls
  return { sc := sc, pushed := outcome.pushed, calls := calls }

end WhisperCore
