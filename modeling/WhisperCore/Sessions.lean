import WhisperCore.SessionController
import WhisperCore.Lib.Transition

/-!
# A process with sessions

A session controller made before any connection, driven by discovery, by the user's calls and by
incoming messages. A session or a connection that is to be removed is named by its id, which is all
the calls read of it. A call that ends the process is not a step, and neither is adding a peer to a
session that is not in the list.
-/

namespace WhisperCore

variable {Key : Type}

inductive SessionEvent (Key : Type) where
  | discovery (call : PeerstoreCall)
  | sessionCreate (env : Ambient Key) (id : Guid) (remotePeer : PeerRef)
  | sessionAddPeer (env : Ambient Key) (session : Nat) (remotePeer : PeerRef)
  | removeSession (id : Guid)
  | removeConnectionRequest (id : Guid)
  | incoming (env : Ambient Key) (id : Guid) (message : Wpmessage)

namespace SessionController

def withConnections (sc : SessionController Key) (controller : ConnectionController Key) :
    SessionController Key :=
  { sc with connectionController := controller }

def step (lib : Libraries Key) (sc : SessionController Key) :
    SessionEvent Key → Option (SessionController Key)
  | .discovery call =>
      (call.step lib.guid sc.connectionController.ds.peers).map fun peers =>
        sc.withConnections (sc.connectionController.setPeers peers)
  | .sessionCreate env id remotePeer =>
      some (sessionControllerSessionCreate lib env sc id remotePeer).sc
  | .sessionAddPeer env session remotePeer =>
      (sc.sessionList.get? session).map fun s =>
        (sessionControllerSessionAddPeer lib env sc session s remotePeer).sc
  | .removeSession id => some (sessionControllerRemoveSession sc id)
  | .removeConnectionRequest id =>
      some (sc.withConnections
        (connectionControllerRemoveConnectionRequest sc.connectionController id).2)
  | .incoming env id message =>
      match sessionControllerProcess lib env sc id message with
      | .error _ => none
      | .ok outcome => some outcome.sc

/-- A session controller just created, over a connection controller and a peerstore just created. -/
def start (port : CString) (localPeer : Peer) (isActivePeer : Option (Int → Peer → Bool))
    (now : Int) (nc ic cmr umn : Bool) : SessionController Key :=
  sessionControllerCreate
    (connectionControllerCreate port ⟨peerstoreInit localPeer isActivePeer now⟩ nc ic cmr) umn

end SessionController

end WhisperCore
