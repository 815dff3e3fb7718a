import WhisperCore.SessionController
import WhisperCore.Lib.Transition

/-!
# One process

A controller with the messages its mux still has to send, driven by everything that reaches a
process: discovery, local initiations, incoming messages, sends over sessions, and the mux that
hands its messages to the emitter one by one. A call that ends the process is not a step.
-/

namespace WhisperCore

structure Process (Key : Type) where
  controller : ConnectionController Key
  mux : List Wpmessage

variable {Key : Type}

inductive ProcessEvent (Key : Type) where
  | discovery (call : PeerstoreCall)
  | initiation (env : Ambient Key) (remote : PeerRef)
  | incoming (env : Ambient Key) (message : Wpmessage)
  | sends (envs : Nat → Ambient Key) (s : Session) (message : Bytes) (messageLen : Nat)
  | emits

namespace Process

def step (lib : Libraries Key) (process : Process Key) :
    ProcessEvent Key → Option (Process Key)
  | .discovery call =>
      (call.step lib.guid process.controller.ds.peers).map fun peers =>
        { process with controller := process.controller.setPeers peers }
  | .initiation env remote =>
      let outcome := connectionControllerInitiationRequest lib env process.controller remote
      some ⟨outcome.controller, process.mux ++ outcome.pushed⟩
  | .incoming env message =>
      match internalConnnectionMessageProcessor lib env process.controller message with
      | .error _ => none
      | .ok outcome => some ⟨outcome.controller, process.mux ++ outcome.pushed⟩
  | .sends envs s message messageLen =>
      match sessionControllerSessionSendMessage lib envs process.controller s message
          messageLen with
      | .error _ => none
      | .ok messages => some { process with mux := process.mux ++ messages }
  | .emits =>
      match process.mux with
      | [] => some process
      | message :: rest =>
          match internalConnectionControlEmitter lib process.controller message with
          | .error _ => none
          | .ok (_, controller) => some ⟨controller, rest⟩

/-- A controller just created, over a peerstore just created. -/
def start (port : CString) (localPeer : Peer) (isActivePeer : Option (Int → Peer → Bool))
    (now : Int) (nc ic cmr : Bool) : Process Key where
  controller :=
    connectionControllerCreate port ⟨peerstoreInit localPeer isActivePeer now⟩ nc ic cmr
  mux := []

def Reachable (lib : Libraries Key) (process : Process Key) : Prop :=
  ∃ port localPeer isActivePeer now nc ic cmr events,
    Transition.run (step lib) (start port localPeer isActivePeer now nc ic cmr) events
      = some process

end Process

variable {lib : Libraries Key}

/-- A condition on the incoming messages of a run. -/
def OnIncoming (Cond : Ambient Key → ConnectionController Key → Wpmessage → Prop)
    (process : Process Key) : ProcessEvent Key → Prop
  | .incoming env message => Cond env process.controller message
  | _ => True

theorem along_onIncoming_congr
    {Cond Other : Ambient Key → ConnectionController Key → Wpmessage → Prop}
    (h : ∀ env controller message, Cond env controller message ↔ Other env controller message)
    (process : Process Key) (events : List (ProcessEvent Key)) :
    Transition.Along (Process.step lib) (OnIncoming Cond) process events
      ↔ Transition.Along (Process.step lib) (OnIncoming Other) process events := by
  refine Transition.along_congr (fun process event => ?_) process events
  cases event with
  | incoming env message => exact h env process.controller message
  | _ => exact Iff.rfl

end WhisperCore
