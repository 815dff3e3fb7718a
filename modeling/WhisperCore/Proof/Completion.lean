import WhisperCore.Concrete
import WhisperCore.Proof.ProcessorCases
import WhisperCore.Process

/-!
# Completion

A connection should become complete only through a payload that passes its check, and a payload that
fails it should change nothing a session can see. Both actions that complete a connection write its
state before they decrypt. COMPLETED_SESSION then returns, whatever the text; SHARING_SESSION_KEY
takes no notice of a failed decryption until the reply needs a secret, when the completed handler
has been called, and the process ends there.
-/

namespace WhisperCore

variable {Key : Type} {lib : Libraries Key} {env : Ambient Key}
  {controller : ConnectionController Key} {message : Wpmessage}

/-- The check of the two actions that complete a connection. -/
def PayloadPasses (lib : Libraries Key) (env : Ambient Key) (c : ConnectionRequest Key)
    (message : Wpmessage) : Prop :=
  match message.action with
  | .sharingSessionKey =>
      (asymmetricalDecrypt lib.rsa c.keypair message.rawdata message.rawdata.length).isSome
  | .completedSession => ∃ secret, c.HasKey secret ∧ OpensToOkay lib env message secret
  | _ => False

/-- What the processor leaves: its outcome, or what was written and called when the process ends. -/
def processorLeaves (lib : Libraries Key) (env : Ambient Key)
    (controller : ConnectionController Key) (message : Wpmessage) : Outcome Key :=
  match internalConnnectionMessageProcessor lib env controller message with
  | .ok outcome => outcome
  | .error ending => ending.written

structure CompletionVerified (lib : Libraries Key) (env : Ambient Key)
    (controller : ConnectionController Key) (message : Wpmessage) : Prop where
  /-- What is complete was complete before, or the payload passed; also where the process ends. -/
  checked : ∀ address c',
    (processorLeaves lib env controller message).controller.connections.get? address = some c' →
    c'.state = .complete → ∃ c, controller.connections.get? address = some c
      ∧ (c.state = .complete ∨ PayloadPasses lib env c message)
  /-- A payload that failed its check leaves the connection and every session as they were. -/
  unchanged : ∀ outcome, internalConnnectionMessageProcessor lib env controller message
      = .ok outcome →
    message.action = .sharingSessionKey ∨ message.action = .completedSession →
    ∀ address c, findConnection lib controller message = some (address, c) →
      ¬ PayloadPasses lib env c message →
      (∃ c', outcome.controller.connections.get? address = some c' ∧ c'.state = c.state)
        ∧ ∀ s, sessionControllerIsSessionReady outcome.controller s
          = sessionControllerIsSessionReady controller s

/-- Readiness depends on the states of the connections only. -/
theorem isSessionReady_congr {after : ConnectionController Key}
    (h : ∀ address, (after.connections.get? address).map ConnectionRequest.state
      = (controller.connections.get? address).map ConnectionRequest.state) (s : Session) :
    sessionControllerIsSessionReady after s = sessionControllerIsSessionReady controller s := by
  have hlist : ∀ addresses, isReadyList after addresses = isReadyList controller addresses := by
    intro addresses
    induction addresses with
    | nil => rfl
    | cons address addresses ih =>
        have hstate := h address
        unfold isReadyList
        cases hafter : after.connections.get? address with
        | none =>
            rw [hafter, Option.map_none, eq_comm, Option.map_eq_none_iff] at hstate
            rw [hstate]
        | some c' =>
            rw [hafter, Option.map_some, eq_comm] at hstate
            obtain ⟨c, hc, hsame⟩ := Option.map_eq_some_iff.mp hstate
            simp only [hc, hsame, ih]
  unfold sessionControllerIsSessionReady
  cases s.connectionRequestList with
  | nil => rfl
  | cons address rest => exact hlist _

theorem map_state_set {address : Nat} {c new : ConnectionRequest Key}
    (hget : controller.connections.get? address = some c) (hstate : new.state = c.state)
    (other : Nat) :
    ((controller.setConnection address new).connections.get? other).map ConnectionRequest.state
      = (controller.connections.get? other).map ConnectionRequest.state := by
  by_cases hother : other = address
  · subst hother
    simp [Arena.get?_set_self new hget, hget, hstate]
  · simp [Arena.get?_set_of_ne new hother]

/-- Outside the written address a connection is what it was. -/
theorem get?_setConnection_cases {address other : Nat} {new c' : ConnectionRequest Key}
    (h : (controller.setConnection address new).connections.get? other = some c') :
    (other = address ∧ c' = new) ∨ controller.connections.get? other = some c' := by
  rcases Arena.get?_set_eq_some_iff.mp h with ⟨_, hold⟩ | ⟨hother, hnew, _⟩
  · exact Or.inr hold
  · exact Or.inl ⟨hother, hnew⟩

/-! ### Who becomes complete -/

/-- The message comes from a known remote peer, for the connection at an address, with an action
that completes it. -/
structure Completes (lib : Libraries Key) (controller : ConnectionController Key)
    (message : Wpmessage) (address : Nat) (c : ConnectionRequest Key) : Prop where
  known : ∃ remote, KnownSender lib controller message remote
  action : message.action = .sharingSessionKey ∨ message.action = .completedSession
  found : findConnection lib controller message = some (address, c)

/-- What a call leaves, whether it returns or not. -/
def Leaves (result : Except (Ending (Outcome Key)) (Outcome Key)) (outcome : Outcome Key) : Prop :=
  match result with
  | .ok returned => outcome = returned
  | .error ending => outcome = ending.written

theorem KnownSender.leaves {remote : Peer} (h : KnownSender lib controller message remote)
    (env : Ambient Key) :
    Leaves (processAction lib env controller message remote)
      (processorLeaves lib env controller message) := by
  rw [processorLeaves, h.processor_eq]
  cases processAction lib env controller message remote <;> rfl

/-- With a connection, SHARING_SESSION_KEY leaves it complete whatever the payload. -/
theorem leaves_sharingSessionKey {address : Nat} {c : ConnectionRequest Key} {outcome : Outcome Key}
    (h : Leaves (processSharingSessionKey lib env controller message (some (address, c))) outcome) :
    ∃ new : ConnectionRequest Key, new.state = .complete
      ∧ outcome.controller = controller.setConnection address new := by
  simp only [processSharingSessionKey] at h
  cases hdecrypt : asymmetricalDecrypt lib.rsa c.keypair message.rawdata message.rawdata.length with
  | none =>
      simp only [hdecrypt] at h
      exact ⟨_, rfl, congrArg Outcome.controller h⟩
  | some decrypted =>
      simp only [hdecrypt] at h
      split at h
      · cases ‹some decrypted = none›
      · exact ⟨_, rfl, congrArg Outcome.controller h⟩
      · exact ⟨_, rfl, congrArg Outcome.controller h⟩

/-- So does COMPLETED_SESSION. -/
theorem leaves_completedSession {address : Nat} {c : ConnectionRequest Key} {outcome : Outcome Key}
    (h : Leaves (processCompletedSession lib env controller message (some (address, c))) outcome) :
    ∃ new : ConnectionRequest Key, new.state = .complete
      ∧ outcome.controller = controller.setConnection address new := by
  simp only [processCompletedSession] at h
  split at h
  · exact ⟨_, rfl, congrArg Outcome.controller h⟩
  · exact ⟨_, rfl, congrArg Outcome.controller h⟩

/-- RESPONDING_CREATED_SESSION leaves its connection in SESSION_KEY_SHARE. -/
theorem leaves_respondingCreatedSession {address : Nat} {c : ConnectionRequest Key}
    {outcome : Outcome Key}
    (h : Leaves (processRespondingCreatedSession lib env controller message (some (address, c)))
      outcome) :
    ∃ new : ConnectionRequest Key, new.state = .sessionKeyShare
      ∧ outcome.controller = controller.setConnection address new := by
  simp only [processRespondingCreatedSession, connectionRequestCreateExchangeMessage,
    exchangeSessionKeyShare] at h
  cases hdecode : lib.base64.decode message.rawdata with
  | none =>
      simp only [hdecode] at h
      exact ⟨_, rfl, congrArg Outcome.controller h⟩
  | some decoded =>
      cases hkey : asymmetricalKeyFromString lib.rsa decoded with
      | none =>
          simp only [hdecode, hkey] at h
          exact ⟨_, rfl, congrArg Outcome.controller h⟩
      | some remoteKeypair =>
          cases hcipher : asymmetricalEncrypt lib.rsa env remoteKeypair
              (lib.base64.encode (generateSharedSecret env.draws)).bytes with
          | none =>
              simp only [hdecode, hkey, hcipher] at h
              exact ⟨_, rfl, congrArg Outcome.controller h⟩
          | some cipher =>
              simp only [hdecode, hkey, hcipher] at h
              exact ⟨_, rfl, congrArg Outcome.controller h⟩

/-- A connection a message completes is complete in what the processor leaves. -/
theorem Completes.leaves {address : Nat} {c : ConnectionRequest Key}
    (h : Completes lib controller message address c) (env : Ambient Key) :
    ∃ new : ConnectionRequest Key, new.state = .complete
      ∧ (processorLeaves lib env controller message).controller
        = controller.setConnection address new := by
  obtain ⟨remote, hknown⟩ := h.known
  have hleaves := hknown.leaves env
  rcases h.action with haction | haction
  · simp only [processAction, haction, h.found] at hleaves
    exact leaves_sharingSessionKey hleaves
  · simp only [processAction, haction, h.found] at hleaves
    exact leaves_completedSession hleaves

/-- The connections the processor can leave, whether it returns or not. -/
inductive LeavesConnections (lib : Libraries Key) (controller : ConnectionController Key)
    (message : Wpmessage) : Arena (ConnectionRequest Key) → Prop where
  | kept : LeavesConnections lib controller message controller.connections
  | opened (new : ConnectionRequest Key) (hstate : new.state = .challengeReply) :
      LeavesConnections lib controller message (controller.connections.add new)
  | shared (address : Nat) (new : ConnectionRequest Key) (hstate : new.state = .sessionKeyShare) :
      LeavesConnections lib controller message (controller.connections.set address new)
  | completed (address : Nat) (c new : ConnectionRequest Key)
      (haction : message.action = .sharingSessionKey ∨ message.action = .completedSession)
      (hfind : findConnection lib controller message = some (address, c)) :
      LeavesConnections lib controller message (controller.connections.set address new)

theorem processAction_leaves {remote : Peer} {outcome : Outcome Key}
    (h : Leaves (processAction lib env controller message remote) outcome) :
    LeavesConnections lib controller message outcome.controller.connections := by
  unfold processAction at h
  cases hfind : findConnection lib controller message with
  | none =>
      cases haction : message.action with
      | createSession =>
          simp only [haction, hfind] at h
          obtain rfl : outcome = _ := h
          exact .opened _ rfl
      | _ =>
          simp only [haction, hfind] at h
          obtain rfl : outcome = _ := h
          exact .kept
  | some found =>
      cases haction : message.action with
      | createSession =>
          simp only [haction, hfind] at h
          obtain rfl : outcome = _ := h
          exact .kept
      | respondingCreatedSession =>
          simp only [haction, hfind] at h
          obtain ⟨new, hstate, hcontroller⟩ := leaves_respondingCreatedSession h
          rw [hcontroller]
          exact .shared found.1 new hstate
      | sharingSessionKey =>
          simp only [haction, hfind] at h
          obtain ⟨new, _, hcontroller⟩ := leaves_sharingSessionKey h
          rw [hcontroller]
          exact .completed found.1 found.2 new (Or.inl haction) hfind
      | completedSession =>
          simp only [haction, hfind] at h
          obtain ⟨new, _, hcontroller⟩ := leaves_completedSession h
          rw [hcontroller]
          exact .completed found.1 found.2 new (Or.inr haction) hfind
      | communicatingSession =>
          simp only [haction, hfind, processCommunicatingSession] at h
          split at h
          · obtain rfl : outcome = _ := h
            exact .kept
          · obtain rfl : outcome = _ := h
            exact .kept

/-- What is complete in what the processor leaves was complete before, or the message completed it.
-/
theorem complete_cases {address : Nat} {c' : ConnectionRequest Key}
    (hget : (processorLeaves lib env controller message).controller.connections.get? address
      = some c') (hcomplete : c'.state = .complete) :
    (∃ c, controller.connections.get? address = some c ∧ c.state = .complete)
      ∨ ∃ c, Completes lib controller message address c := by
  by_cases hknown : ∃ remote, KnownSender lib controller message remote
  · obtain ⟨remote, hremote⟩ := hknown
    have hleft := processAction_leaves (hremote.leaves env)
    generalize (processorLeaves lib env controller message).controller.connections = left
      at hget hleft
    cases hleft with
    | kept => exact Or.inl ⟨c', hget, hcomplete⟩
    | opened new hstate =>
        rcases Arena.get?_add_eq_some_iff.mp hget with hold | ⟨_, rfl⟩
        · exact Or.inl ⟨c', hold, hcomplete⟩
        · cases hstate.symm.trans hcomplete
    | shared other new hstate =>
        rcases Arena.get?_set_eq_some_iff.mp hget with ⟨_, hold⟩ | ⟨_, rfl, _⟩
        · exact Or.inl ⟨c', hold, hcomplete⟩
        · cases hstate.symm.trans hcomplete
    | completed other c new haction hfind =>
        rcases Arena.get?_set_eq_some_iff.mp hget with ⟨_, hold⟩ | ⟨rfl, _, _⟩
        · exact Or.inl ⟨c', hold, hcomplete⟩
        · exact Or.inr ⟨c, ⟨remote, hremote⟩, haction, hfind⟩
  · obtain ⟨peers, hends⟩ :=
      processor_of_unknown env fun remote hremote => hknown ⟨remote, hremote⟩
    rw [processorLeaves, hends] at hget
    exact Or.inl ⟨c', hget, hcomplete⟩

/-! ### One message -/

/-- The message completes no connection that is not complete with a payload that fails its check. -/
def NoWrongCompletion (lib : Libraries Key) (env : Ambient Key)
    (controller : ConnectionController Key) (message : Wpmessage) : Prop :=
  ∀ address c, Completes lib controller message address c → c.state ≠ .complete →
    PayloadPasses lib env c message

theorem completionVerified_of_noWrongCompletion
    (h : NoWrongCompletion lib env controller message) :
    CompletionVerified lib env controller message where
  checked := by
    intro address c' hget hcomplete
    rcases complete_cases hget hcomplete with ⟨c, hold, hbefore⟩ | ⟨c, hcompletes⟩
    · exact ⟨c, hold, Or.inl hbefore⟩
    · refine ⟨c, (get?_of_findConnection hcompletes.found).1, ?_⟩
      by_cases hbefore : c.state = .complete
      · exact Or.inl hbefore
      · exact Or.inr (h address c hcompletes hbefore)
  unchanged := by
    intro outcome hok haction address c hfind hfails
    obtain ⟨remote, hknown, hprocessed⟩ := processor_cases hok
    have hcompletes : Completes lib controller message address c :=
      ⟨⟨remote, hknown⟩, haction, hfind⟩
    have hbefore : c.state = .complete := by
      by_contra hpending
      exact hfails (h address c hcompletes hpending)
    have hget := (get?_of_findConnection hfind).1
    obtain ⟨new, hcomplete, hleft⟩ := hcompletes.leaves env
    have hcontroller : outcome.controller = controller.setConnection address new := by
      rw [← hleft, processorLeaves, hok]
    have hstate : new.state = c.state := hcomplete.trans hbefore.symm
    rw [hcontroller]
    refine ⟨⟨new, Arena.get?_set_self new hget, hstate⟩, fun s => ?_⟩
    exact isSessionReady_congr (map_state_set hget hstate) s

theorem completionVerified_iff :
    CompletionVerified lib env controller message
      ↔ NoWrongCompletion lib env controller message := by
  refine ⟨fun h => ?_, completionVerified_of_noWrongCompletion⟩
  intro address c hcompletes hpending
  have hget := (get?_of_findConnection hcompletes.found).1
  obtain ⟨new, hcomplete, hleft⟩ := hcompletes.leaves env
  have hnew : (processorLeaves lib env controller message).controller.connections.get? address
      = some new := by
    rw [hleft]
    exact Arena.get?_set_self new hget
  obtain ⟨before, hbefore, hchecked⟩ := h.checked address new hnew hcomplete
  obtain rfl := Option.some.inj (hget.symm.trans hbefore)
  rcases hchecked with hsame | hpasses
  · exact absurd hsame hpending
  · exact hpasses

/-! ### Runs -/

/-- **Completion, exactly.** Along a run of a process every incoming message has its completion
verified if and only if none is a SHARING_SESSION_KEY or COMPLETED_SESSION of a known remote peer
with a payload that fails its check, for a connection that is not complete. -/
theorem along_completionVerified_iff (lib : Libraries Key) (port : CString) (localPeer : Peer)
    (isActivePeer : Option (Int → Peer → Bool)) (now : Int) (nc ic cmr : Bool)
    (events : List (ProcessEvent Key)) :
    Transition.Along (Process.step lib) (OnIncoming (CompletionVerified lib))
        (Process.start port localPeer isActivePeer now nc ic cmr) events
      ↔ Transition.Along (Process.step lib) (OnIncoming (NoWrongCompletion lib))
        (Process.start port localPeer isActivePeer now nc ic cmr) events :=
  along_onIncoming_congr (fun _ _ _ => completionVerified_iff) _ events

section Run

open Concrete

/-- A completion whose payload is one byte of noise. -/
def wrongCompletion : Wpmessage := toBob 1 .completedSession [0x41]

/-- A session key Bob cannot decrypt. -/
def wrongKey : Wpmessage := toBob 1 .sharingSessionKey [0x41]

theorem not_completionVerified_wrongCompletion :
    ∃ (process : Process CString) (outcome : Outcome CString) (c c' : ConnectionRequest CString),
      process.Reachable libraries
      ∧ internalConnnectionMessageProcessor libraries (ambient bob (guid 8) fun _ => 0)
          process.controller wrongCompletion = .ok outcome
      ∧ process.controller.connections.get? 0 = some c ∧ c.state = .sessionKeyShare
      ∧ outcome.controller.connections.get? 0 = some c' ∧ c'.state = .complete
      ∧ sessionControllerIsSessionReady process.controller ⟨guid 9, [0]⟩ = .ok false
      ∧ sessionControllerIsSessionReady outcome.controller ⟨guid 9, [0]⟩ = .ok true
      ∧ ¬ CompletionVerified libraries (ambient bob (guid 8) fun _ => 0) process.controller
          wrongCompletion := by
  have hreach := reachable_processAfter sharedEvents (by decide +kernel)
  obtain ⟨outcome, hok⟩ : ∃ outcome, internalConnnectionMessageProcessor libraries
      (ambient bob (guid 8) fun _ => 0) (processAfter sharedEvents).controller wrongCompletion
        = .ok outcome := ⟨_, rfl⟩
  have hbefore : (processAfter sharedEvents).controller.connections.get? 0
      = some { openRequest with state := .sessionKeyShare, sharedSecret := some secretA } := by
    decide +kernel
  have hafter : outcome.controller.connections.get? 0
      = some { openRequest with state := .complete, sharedSecret := some secretA } := by
    obtain rfl := Except.ok.inj hok
    decide +kernel
  have hready : sessionControllerIsSessionReady outcome.controller ⟨guid 9, [0]⟩ = .ok true := by
    obtain rfl := Except.ok.inj hok
    rfl
  refine ⟨processAfter sharedEvents, outcome, _, _, hreach, hok, hbefore, rfl, hafter, rfl, rfl,
    hready, fun hverified => ?_⟩
  have hleft : processorLeaves libraries (ambient bob (guid 8) fun _ => 0)
      (processAfter sharedEvents).controller wrongCompletion = outcome := by
    rw [processorLeaves, hok]
  obtain ⟨c, hc, hchecked⟩ := hverified.checked 0 _ (hleft ▸ hafter) rfl
  obtain rfl := Option.some.inj (hbefore.symm.trans hc)
  have hwrong : ¬ OpensToOkay libraries (ambient bob (guid 8) fun _ => 0) wrongCompletion
      secretA := by decide +kernel
  rcases hchecked with hcomplete | ⟨secret, hkey, hopens⟩
  · cases hcomplete
  · obtain rfl := Option.some.inj hkey.held
    exact hwrong hopens

/-- The completed handler is given the connection before the process ends. -/
example :
    let left := processorLeaves libraries (ambient bob (guid 8) fun _ => 0)
      (processAfter sharedEvents).controller wrongKey
    left.controller.connections.get? 0
        = some { openRequest with state := .complete, sharedSecret := none }
      ∧ left.calls = [.completed 0] := by decide +kernel

end Run

end WhisperCore
