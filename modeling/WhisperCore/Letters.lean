import WhisperCore.Network

/-!
# Letters

The network with its books kept: a note beside every message in flight of the text it was built
from, if any, and three ledgers of the texts sent over sessions, handed to a message handler, and
lost on the way. The books are read off the network and never read by it.
-/

namespace WhisperCore

/-- A text on a connection. -/
structure Letter where
  id : Guid
  sender : Guid
  recipient : Guid
  text : CString
deriving DecidableEq

structure Post (Key : Type) where
  net : Net Key
  notes : List (Option Letter)
  sent : List Letter
  received : List Letter
  lost : List Letter

variable {Key : Type}

/-- What the user gave to be sent, when it became this message. -/
def letterOf (lib : Libraries Key) (text : CString) (message : Wpmessage) : Letter where
  id := lib.guid.fromString message.id
  sender := lib.guid.fromString message.sender
  recipient := lib.guid.fromString message.recipient
  text := text

/-- What a node's message handler reads off the connection and the string it is given. -/
def readLetter (g : Guid) (controller : ConnectionController Key) : Notification → Option Letter
  | .messageReceived connection message _ =>
      (controller.connections.get? connection).map fun c =>
        ⟨c.id, c.remote.guid, g, CString.read message⟩
  | _ => none

namespace Post

def start (net : Net Key) : Post Key := ⟨net, [], [], [], []⟩

def lettersSent (lib : Libraries Key) (net : Net Key) (g : Guid) (envs : Nat → Ambient Key)
    (s : Session) (message : Bytes) (messageLen : Nat) : List Letter :=
  match sessionControllerSessionSendMessage lib envs (net.nodes g).controller s message
      messageLen with
  | .error _ => []
  | .ok messages => messages.map (letterOf lib (CString.read message))

/-- The books after a message was taken out of the network and given to its recipient. A letter that
no handler is called for is lost. -/
def deliver (lib : Libraries Key) (post : Post Key) (next : Net Key) (index : Nat)
    (env : Ambient Key) (f : InFlight) : Post Key :=
  let g := lib.guid.fromString f.message.recipient
  let note := (post.notes[index]?).join
  let notes := post.notes.eraseIdx index
  match internalConnnectionMessageProcessor lib env (post.net.nodes g).controller f.message with
  | .error _ => { post with net := next, notes := notes, lost := post.lost ++ note.toList }
  | .ok outcome =>
      let handed := outcome.calls.filterMap (readLetter g outcome.controller)
      { post with
        net := next
        notes := notes ++ outcome.pushed.map fun _ => none
        received := post.received ++ handed
        lost := if handed = [] then post.lost ++ note.toList else post.lost }

def step (lib : Libraries Key) (post : Post Key) (event : NetEvent Key) : Option (Post Key) :=
  (post.net.step lib event).map fun next =>
    match event with
    | .discovers _ _ => { post with net := next }
    | .initiates _ _ _ => { post with net := next, notes := post.notes ++ [none] }
    | .delivers index env =>
        match post.net.inFlight[index]? with
        | none => { post with net := next }
        | some f => post.deliver lib next index env f
    | .sends g envs s message messageLen =>
        let letters := lettersSent lib post.net g envs s message messageLen
        { post with
          net := next
          notes := post.notes ++ letters.map some
          sent := post.sent ++ letters }

end Post

end WhisperCore
