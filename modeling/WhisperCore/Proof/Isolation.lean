import WhisperCore.Proof.HandshakeOrder

/-!
# Connections do not touch each other

The processor finds a connection by walking the list for the message's id. As long as every id an
initiation gets is new to the list, no two connections ever share one; a message then has one
connection to act on, and leaves all others alone.
-/

namespace WhisperCore

variable {Key : Type} {lib : Libraries Key} {env : Ambient Key} {process next : Process Key}
  {controller : ConnectionController Key} {message : Wpmessage} {outcome : Outcome Key}

def connectionIds (controller : ConnectionController Key) : List Guid :=
  controller.connections.image ConnectionRequest.id

/-- `jnx_guid_create` gives an initiation an id that no connection of the list has. -/
def FreshInitiation (process : Process Key) : ProcessEvent Key → Prop
  | .initiation env _ => env.guid ∉ connectionIds process.controller
  | _ => True

structure Isolated (lib : Libraries Key) (controller : ConnectionController Key)
    (message : Wpmessage) (outcome : Outcome Key) : Prop where
  others : ∀ address c, controller.connections.get? address = some c →
    c.id ≠ lib.guid.fromString message.id →
    outcome.controller.connections.get? address = some c
  /-- No connection goes, and none gets another id. -/
  kept : ∀ address c, controller.connections.get? address = some c →
    ∃ c', outcome.controller.connections.get? address = some c' ∧ SameRequest c c'
  /-- A connection comes only with a CREATE_SESSION, under its id, which is new. -/
  ids : connectionIds outcome.controller = connectionIds controller
    ∨ message.action = .createSession
      ∧ lib.guid.fromString message.id ∉ connectionIds controller
      ∧ connectionIds outcome.controller
        = connectionIds controller ++ [lib.guid.fromString message.id]
  atMostOne : outcome.pushed.length ≤ 1
  /-- What is pushed is about the connection of the message's id. -/
  pushed : ∀ out ∈ outcome.pushed, ∃ address c,
    outcome.controller.connections.get? address = some c
      ∧ c.id = lib.guid.fromString message.id ∧ out.id = lib.guid.toString c.id
      ∧ out.sender = lib.guid.toString controller.ds.peers.localPeer.guid
      ∧ out.recipient = lib.guid.toString c.remote.guid

/-- Every connection has the local peer as its own. -/
def FromLocalPeer (controller : ConnectionController Key) : Prop :=
  ∀ address c, controller.connections.get? address = some c →
    c.localPeer = controller.ds.peers.localPeer.ref

def DistinctIds (controller : ConnectionController Key) : Prop :=
  (connectionIds controller).Nodup

/-! ### One message -/

theorem notMem_connectionIds (hfind : findConnection lib controller message = none) :
    lib.guid.fromString message.id ∉ connectionIds controller := by
  intro hmem
  obtain ⟨address, c, hget, hid⟩ := Arena.mem_image.mp hmem
  simpa [hid] using Arena.not_of_find?_eq_none hfind hget

theorem DistinctIds.add (h : DistinctIds controller) {c : ConnectionRequest Key}
    (hfresh : c.id ∉ connectionIds controller) :
    DistinctIds (connectionControllerAddConnectionRequest controller c) := by
  rw [DistinctIds, connectionIds, addConnectionRequest_connections, Arena.image_add]
  apply List.nodup_append.mpr
  refine ⟨h, List.nodup_singleton _, fun id hid other hother heq => ?_⟩
  rw [List.mem_singleton.mp hother] at heq
  exact hfresh (heq ▸ hid)

theorem DistinctIds.set (h : DistinctIds controller) {address : Nat}
    {c new : ConnectionRequest Key} (hget : controller.connections.get? address = some c)
    (hid : new.id = c.id) : DistinctIds (controller.setConnection address new) := by
  rw [DistinctIds, connectionIds, ConnectionController.setConnection_connections,
    Arena.image_set hget hid]
  exact h

/-- A new connection under a new id, and at most a message of its own. -/
theorem Isolated.of_add {c : ConnectionRequest Key} {pushed : List Wpmessage}
    {calls : List Notification} (haction : message.action = .createSession)
    (hfind : findConnection lib controller message = none)
    (hid : c.id = lib.guid.fromString message.id)
    (hlocal : c.localPeer = controller.ds.peers.localPeer.ref) (hone : pushed.length ≤ 1)
    (hpushed : ∀ out ∈ pushed, ∃ payload size action,
      out = connectionMessage lib c payload size action) :
    Isolated lib controller message
      ⟨connectionControllerAddConnectionRequest controller c, pushed, calls⟩ where
  others address c' hget _ := Arena.get?_add_eq_some_iff.mpr (Or.inl hget)
  kept address c' hget :=
    ⟨c', Arena.get?_add_eq_some_iff.mpr (Or.inl hget), rfl, rfl, rfl, rfl⟩
  ids := by
    refine Or.inr ⟨haction, notMem_connectionIds hfind, ?_⟩
    rw [connectionIds, addConnectionRequest_connections, Arena.image_add, hid]
    rfl
  atMostOne := hone
  pushed out hout := by
    obtain ⟨payload, size, action, rfl⟩ := hpushed out hout
    refine ⟨_, c, Arena.get?_add_next _ _, hid, rfl, ?_, rfl⟩
    rw [connectionMessage_sender, hlocal, Peer.ref_guid]

/-- A connection found by the message's id is written, and at most a message of its own pushed. -/
theorem Isolated.of_set {address : Nat} {c new : ConnectionRequest Key} {pushed : List Wpmessage}
    {calls : List Notification}
    (hfind : findConnection lib controller message = some (address, c))
    (hsame : SameRequest c new) (hlocal : c.localPeer = controller.ds.peers.localPeer.ref)
    (hone : pushed.length ≤ 1)
    (hpushed : ∀ out ∈ pushed, ∃ payload size action,
      out = connectionMessage lib c payload size action) :
    Isolated lib controller message ⟨controller.setConnection address new, pushed, calls⟩ where
  others other c' hget hid := by
    obtain ⟨hfound, hmine⟩ := get?_of_findConnection hfind
    have hne : other ≠ address := by
      rintro rfl
      obtain rfl : c = c' := Option.some.inj (hfound.symm.trans hget)
      exact hid hmine
    exact (Arena.get?_set_of_ne new hne).trans hget
  kept other c' hget := by
    rcases get?_setConnection (get?_of_findConnection hfind).1 hget new with
      ⟨_, rfl, hnew⟩ | hkept
    · exact ⟨new, hnew, hsame⟩
    · exact ⟨c', hkept, rfl, rfl, rfl, rfl⟩
  ids := by
    left
    rw [connectionIds, ConnectionController.setConnection_connections,
      Arena.image_set (get?_of_findConnection hfind).1 hsame.id]
    rfl
  atMostOne := hone
  pushed out hout := by
    obtain ⟨hfound, hmine⟩ := get?_of_findConnection hfind
    obtain ⟨payload, size, action, rfl⟩ := hpushed out hout
    refine ⟨address, new, Arena.get?_set_self new hfound, hsame.id.trans hmine, ?_, ?_, ?_⟩
    · rw [connectionMessage_id, hsame.id]
    · rw [connectionMessage_sender, hlocal, Peer.ref_guid]
    · rw [connectionMessage_recipient, hsame.remote]

theorem Processed.isolated {remote : Peer}
    (h : Processed lib env controller message remote outcome)
    (hlocalPeer : FromLocalPeer controller) : Isolated lib controller message outcome := by
  cases h with
  | createSession haction hfind =>
      refine .of_add haction hfind rfl rfl (by simp) fun out hout => ?_
      exact ⟨_, _, _, List.mem_singleton.mp hout⟩
  | respondingCreatedSession address c cipher haction hfind hcipher =>
      have hlocal := hlocalPeer address c (get?_of_findConnection hfind).1
      refine .of_set hfind ⟨rfl, rfl, rfl, rfl⟩ hlocal (by simp) fun out hout => ?_
      exact ⟨_, _, _, List.mem_singleton.mp hout⟩
  | sharingSessionKey address c decrypted secret haction hfind hdecrypt hdecode hlong =>
      have hlocal := hlocalPeer address c (get?_of_findConnection hfind).1
      refine .of_set hfind ⟨rfl, rfl, rfl, rfl⟩ hlocal (by simp) fun out hout => ?_
      exact ⟨_, _, _, List.mem_singleton.mp hout⟩
  | completedSession address c secret haction hfind hkey =>
      have hlocal := hlocalPeer address c (get?_of_findConnection hfind).1
      exact .of_set hfind ⟨rfl, rfl, rfl, rfl⟩ hlocal (by simp) (by simp)
  | communicatingSession address c secret haction hfind hkey =>
      exact {
        others := fun _ _ hget _ => hget
        kept := fun _ c' hget => ⟨c', hget, rfl, rfl, rfl, rfl⟩
        ids := Or.inl rfl
        atMostOne := Nat.zero_le 1
        pushed := by simp }

theorem Processed.distinctIds {remote : Peer}
    (h : Processed lib env controller message remote outcome) (hdistinct : DistinctIds controller) :
    DistinctIds outcome.controller := by
  cases h with
  | createSession haction hfind => exact hdistinct.add (notMem_connectionIds hfind)
  | respondingCreatedSession address c cipher haction hfind hcipher =>
      exact hdistinct.set (get?_of_findConnection hfind).1 rfl
  | sharingSessionKey address c decrypted secret haction hfind hdecrypt hdecode hlong =>
      exact hdistinct.set (get?_of_findConnection hfind).1 rfl
  | completedSession address c secret haction hfind hkey =>
      exact hdistinct.set (get?_of_findConnection hfind).1 rfl
  | communicatingSession address c secret haction hfind hkey => exact hdistinct

/-! ### Runs -/

theorem DistinctIds.step {event : ProcessEvent Key} (h : DistinctIds process.controller)
    (hfresh : FreshInitiation process event) (hstep : process.step lib event = some next) :
    DistinctIds next.controller := by
  cases process_step_cases hstep with
  | discovered call peers hcall => exact h
  | initiated env remote => exact h.add hfresh
  | processed env m remote outcome hknown hprocessed => exact hprocessed.distinctIds h
  | sent envs s text len messages hsent => exact h
  | idle hmux => exact h
  | emitted message rest remotePeer hmux hfound => exact h

/-- No step changes the local peer of the store. -/
theorem localPeer_process_step {event : ProcessEvent Key}
    (hstep : process.step lib event = some next) :
    next.controller.ds.peers.localPeer = process.controller.ds.peers.localPeer := by
  cases process_step_cases hstep with
  | discovered call peers hcall => exact localPeer_step hcall
  | initiated env remote => rfl
  | processed env m remote outcome hknown hprocessed => cases hprocessed <;> rfl
  | sent envs s text len messages hsent => rfl
  | idle hmux => rfl
  | emitted message rest remotePeer hmux hfound => rfl

theorem FromLocalPeer.step {event : ProcessEvent Key} (h : FromLocalPeer process.controller)
    (hstep : process.step lib event = some next) : FromLocalPeer next.controller := by
  intro address c hget
  rw [localPeer_process_step hstep]
  rcases connection_before hstep hget with ⟨old, hbefore, hmoves⟩ | hopens
  · exact hmoves.sameRequest.localPeer.trans (h address old hbefore)
  · cases hopens <;> rfl

theorem fromLocalPeer_of_reachable (h : process.Reachable lib) :
    FromLocalPeer process.controller := by
  obtain ⟨port, localPeer, isActivePeer, now, nc, ic, cmr, events, hrun⟩ := h
  have hkept : ∀ (before : Process Key) event after, FromLocalPeer before.controller →
      before.step lib event = some after → FromLocalPeer after.controller :=
    fun _ _ _ hbefore hstep => hbefore.step hstep
  apply Transition.run_invariant hkept hrun
  intro address c hget
  cases hget

/-- **Connections are isolated.** Take any run of a process in which every initiation gets a fresh
id. The ids of the connections are distinct, and whatever message is processed next, the connections
of other ids stay as they are, none goes, one comes only with a CREATE_SESSION of a new id, and at
most one message is pushed, which belongs to the connection of the message's id. -/
theorem connections_isolated {port : CString} {localPeer : Peer}
    {isActivePeer : Option (Int → Peer → Bool)} {now : Int} {nc ic cmr : Bool}
    {events : List (ProcessEvent Key)}
    (hfresh : Transition.Along (Process.step lib) FreshInitiation
      (Process.start port localPeer isActivePeer now nc ic cmr) events)
    (hrun : Transition.run (Process.step lib)
      (Process.start port localPeer isActivePeer now nc ic cmr) events = some process) :
    DistinctIds process.controller
      ∧ ∀ env message outcome,
        internalConnnectionMessageProcessor lib env process.controller message = .ok outcome →
        Isolated lib process.controller message outcome := by
  have hkept : ∀ (before : Process Key) event after, DistinctIds before.controller →
      FreshInitiation before event → before.step lib event = some after →
      DistinctIds after.controller :=
    fun _ _ _ hbefore hnew hstep => hbefore.step hnew hstep
  have hdistinct : DistinctIds process.controller :=
    Transition.run_invariant_along hkept hfresh hrun List.nodup_nil
  have hlocalPeer : FromLocalPeer process.controller :=
    fromLocalPeer_of_reachable ⟨port, localPeer, isActivePeer, now, nc, ic, cmr, events, hrun⟩
  refine ⟨hdistinct, fun env message outcome hok => ?_⟩
  obtain ⟨remote, _, hprocessed⟩ := processor_cases hok
  exact hprocessed.isolated hlocalPeer

section Run

open Concrete

theorem connections_isolated_shared :
    DistinctIds (processAfter sharedEvents).controller
      ∧ ∀ env message outcome,
        internalConnnectionMessageProcessor libraries env (processAfter sharedEvents).controller
          message = .ok outcome →
        Isolated libraries (processAfter sharedEvents).controller message outcome := by
  have hrun : Transition.run (Process.step libraries)
      (Process.start (host 0) (peer 0 bob) none 0 true true true) sharedEvents
        = some (processAfter sharedEvents) := rfl
  have hfresh : Transition.Along (Process.step libraries) FreshInitiation
      (Process.start (host 0) (peer 0 bob) none 0 true true true) sharedEvents := by
    refine ⟨trivial, fun first hfirst => ⟨trivial, fun second hsecond => ?_⟩⟩
    obtain rfl := Option.some.inj hfirst
    obtain rfl := Option.some.inj hsecond
    exact ⟨List.not_mem_nil, fun _ _ => ⟨trivial, fun _ _ => trivial⟩⟩
  exact connections_isolated hfresh hrun

end Run

end WhisperCore
