import WhisperCore.Concrete
import WhisperCore.Proof.ProcessorCases
import WhisperCore.Sessions

/-!
# The session list and the connection list

Sessions and connections stand in two lists kept by two controllers. Whatever opens a connection
also gives it to a session; what removes a session leaves its connections, and what removes a
connection leaves it with its session. The lists are in step exactly as long as no removal finds its
object. -/

namespace WhisperCore

variable {Key : Type} {lib : Libraries Key} {sc next : SessionController Key}

namespace SessionController

def Listed (sc : SessionController Key) (connection : Nat) : Prop :=
  (sc.connectionController.connections.get? connection).isSome

/-- A session of the list refers to a connection. -/
def References (sc : SessionController Key) (session connection : Nat) : Prop :=
  ∃ s, sc.sessionList.get? session = some s ∧ connection ∈ s.connectionRequestList

/-- What the sessions refer to is in the connection list, and everything there is referred to by
exactly one session. -/
structure Consistent (sc : SessionController Key) : Prop where
  listed : ∀ session connection, sc.References session connection → sc.Listed connection
  referenced : ∀ connection, sc.Listed connection → ∃! session, sc.References session connection

/-- A connection is opened and given to one session. -/
theorem Consistent.opened (h : sc.Consistent) (session connection : Nat)
    (hnew : ¬ sc.Listed connection)
    (hlisted : ∀ other, next.Listed other ↔ sc.Listed other ∨ other = connection)
    (hreferences : ∀ holder other, next.References holder other
      ↔ sc.References holder other ∨ holder = session ∧ other = connection) :
    next.Consistent where
  listed holder other hrefers := by
    rw [hlisted]
    rcases (hreferences holder other).mp hrefers with hold | ⟨_, rfl⟩
    · exact Or.inl (h.listed holder other hold)
    · exact Or.inr rfl
  referenced other hother := by
    rcases (hlisted other).mp hother with hold | rfl
    · obtain ⟨holder, hholder, honly⟩ := h.referenced other hold
      refine ⟨holder, (hreferences holder other).mpr (Or.inl hholder), fun also halso => ?_⟩
      rcases (hreferences also other).mp halso with halso | ⟨_, rfl⟩
      · exact honly also halso
      · exact absurd hold hnew
    · refine ⟨session, (hreferences session other).mpr (Or.inr ⟨rfl, rfl⟩), fun also halso => ?_⟩
      rcases (hreferences also other).mp halso with halso | ⟨rfl, _⟩
      · exact absurd (h.listed also other halso) hnew
      · rfl

theorem Consistent.frame (h : sc.Consistent)
    (hlisted : ∀ connection, next.Listed connection ↔ sc.Listed connection)
    (hreferences : ∀ session connection,
      next.References session connection ↔ sc.References session connection) :
    next.Consistent where
  listed session connection hrefers :=
    (hlisted connection).mpr (h.listed session connection ((hreferences _ _).mp hrefers))
  referenced connection hconnection := by
    simp only [hreferences]
    exact h.referenced connection ((hlisted connection).mp hconnection)

/-! ### Openings -/

theorem references_add (controller : ConnectionController Key) (s : Session)
    (session connection : Nat) :
    (sessionControllerAddSession (sc.withConnections controller) s).References session connection
      ↔ sc.References session connection
        ∨ session = sc.sessionList.next ∧ connection ∈ s.connectionRequestList := by
  unfold References
  constructor
  · rintro ⟨found, hfound, hmem⟩
    rcases Arena.get?_add_eq_some_iff.mp hfound with hold | ⟨hsession, rfl⟩
    · exact Or.inl ⟨found, hold, hmem⟩
    · exact Or.inr ⟨hsession, hmem⟩
  · rintro (⟨found, hfound, hmem⟩ | ⟨rfl, hmem⟩)
    · exact ⟨found, Arena.get?_add_eq_some_iff.mpr (Or.inl hfound), hmem⟩
    · exact ⟨s, Arena.get?_add_next _ _, hmem⟩

theorem listed_add (sc : SessionController Key) (c : ConnectionRequest Key) (connection : Nat) :
    (sc.withConnections
        (connectionControllerAddConnectionRequest sc.connectionController c)).Listed connection
      ↔ sc.Listed connection ∨ connection = sc.connectionController.connections.next :=
  Arena.isSome_get?_add

theorem not_listed_next (sc : SessionController Key) :
    ¬ sc.Listed sc.connectionController.connections.next := by
  rw [Listed, Arena.get?_next]
  nofun

/-- A new session over a new connection. -/
theorem Consistent.addSession (h : sc.Consistent) (c : ConnectionRequest Key) (id : Guid) :
    (sessionControllerAddSession
      (sc.withConnections (connectionControllerAddConnectionRequest sc.connectionController c))
      (sessionAddConnection (sessionCreate id)
        sc.connectionController.connections.next)).Consistent := by
  refine h.opened sc.sessionList.next sc.connectionController.connections.next
    (not_listed_next sc) (fun other => listed_add sc c other) fun holder other => ?_
  rw [references_add]
  simp [sessionAddConnection, sessionCreate]

theorem references_addPeer {session : Nat} {s : Session}
    (hget : sc.sessionList.get? session = some s) (controller : ConnectionController Key)
    (connection holder other : Nat) :
    ({ sc with
        connectionController := controller
        sessionList := sc.sessionList.set session (sessionAddConnection s connection) :
        SessionController Key }).References holder other
      ↔ sc.References holder other ∨ holder = session ∧ other = connection := by
  unfold References
  simp only [Arena.get?_set_eq_some_iff, hget, Option.isSome_some, and_true]
  constructor
  · rintro ⟨found, ⟨_, hfound⟩ | ⟨rfl, rfl⟩, hmem⟩
    · exact Or.inl ⟨found, hfound, hmem⟩
    · rcases List.mem_append.mp hmem with hold | hnew
      · exact Or.inl ⟨s, hget, hold⟩
      · exact Or.inr ⟨rfl, List.mem_singleton.mp hnew⟩
  · rintro (⟨found, hfound, hmem⟩ | ⟨rfl, rfl⟩)
    · by_cases hholder : holder = session
      · subst hholder
        obtain rfl : s = found := Option.some.inj (hget.symm.trans hfound)
        exact ⟨_, Or.inr ⟨rfl, rfl⟩, List.mem_append_left _ hmem⟩
      · exact ⟨found, Or.inl ⟨hholder, hfound⟩, hmem⟩
    · exact ⟨_, Or.inr ⟨rfl, rfl⟩, List.mem_append_right _ (List.mem_singleton_self _)⟩

/-- A session of the list gets a new connection. -/
theorem Consistent.addPeer (h : sc.Consistent) {session : Nat} {s : Session}
    (hget : sc.sessionList.get? session = some s) (c : ConnectionRequest Key) :
    ({ sc with
        connectionController :=
          connectionControllerAddConnectionRequest sc.connectionController c
        sessionList := sc.sessionList.set session
          (sessionAddConnection s sc.connectionController.connections.next) :
        SessionController Key }).Consistent := by
  refine h.opened session sc.connectionController.connections.next (not_listed_next sc)
    (fun other => listed_add sc c other) fun holder other => ?_
  exact references_addPeer hget _ _ holder other

/-! ### Removals -/

/-- A session that is taken out leaves its connections without one. -/
theorem Consistent.removeSession (h : sc.Consistent) {id : Guid} {session : Nat} {s : Session}
    (hfind : sc.sessionList.find? (fun s => s.id = id) = some (session, s))
    (hoccupied : s.connectionRequestList ≠ []) :
    ¬ (sessionControllerRemoveSession sc id).Consistent := by
  intro hafter
  obtain ⟨connection, hmem⟩ := List.exists_mem_of_ne_nil _ hoccupied
  have hrefers : sc.References session connection := ⟨s, (Arena.get?_of_find? hfind).1, hmem⟩
  have hlisted := h.listed session connection hrefers
  obtain ⟨holder, ⟨found, hfound, hheld⟩, _⟩ := hafter.referenced connection hlisted
  obtain ⟨hne, hbefore⟩ := (Arena.get?_removeFirst_eq_some_iff hfind).mp hfound
  have honly := (h.referenced connection hlisted).unique ⟨found, hbefore, hheld⟩ hrefers
  exact hne honly

/-- A connection that is taken out leaves a session that refers to it. -/
theorem Consistent.removeConnectionRequest (h : sc.Consistent) {id : Guid} {connection : Nat}
    {c : ConnectionRequest Key}
    (hfind : sc.connectionController.connections.find? (fun c => c.id = id)
      = some (connection, c)) :
    ¬ (sc.withConnections
      (connectionControllerRemoveConnectionRequest sc.connectionController id).2).Consistent := by
  intro hafter
  have hget := (Arena.get?_of_find? hfind).1
  obtain ⟨session, hrefers, _⟩ := h.referenced connection (Option.isSome_of_eq_some hget)
  have hlisted := hafter.listed session connection hrefers
  simp only [Listed, withConnections, connectionControllerRemoveConnectionRequest, hfind] at hlisted
  obtain ⟨found, hfound⟩ := Option.isSome_iff_exists.mp hlisted
  exact ((Arena.get?_removeFirst_eq_some_iff hfind).mp hfound).1 rfl

/-! ### Incoming messages -/

theorem sessionControllerProcess_eq_ok {env : Ambient Key} {id : Guid} {message : Wpmessage}
    {outcome : SessionOutcome Key}
    (h : sessionControllerProcess lib env sc id message = .ok outcome) :
    ∃ processed calls, internalConnnectionMessageProcessor lib env sc.connectionController message
        = .ok processed
      ∧ notifiedAll id (sc.withConnections processed.controller) processed.calls
        = .ok (outcome.sc, calls) := by
  unfold sessionControllerProcess at h
  obtain ⟨processed, hprocess, h⟩ := bind_eq_ok_iff.mp h
  rw [mapError_eq_ok_iff] at hprocess
  obtain ⟨⟨after, calls⟩, hnotified, h⟩ := bind_eq_ok_iff.mp h
  obtain rfl := Except.ok.inj h
  exact ⟨processed, calls, hprocess, hnotified⟩

/-- Only the handler for incoming connections writes to the session list. -/
theorem notified_of_ne_incoming {id : Guid} {call : Notification} {calls : List UserNotification}
    (hcall : ∀ connection, call ≠ .incoming connection)
    (h : notified sc id call = .ok (next, calls)) : next = sc := by
  cases call with
  | completed connection => exact (Prod.mk.inj (Except.ok.inj h)).1.symm
  | incoming connection => exact absurd rfl (hcall connection)
  | messageReceived connection message messageLen =>
      unfold notified at h
      cases hget : sc.connectionController.connections.get? connection with
      | none => simp [hget] at h
      | some c =>
          simp only [hget] at h
          cases hreceived : internalMessageReceived sc c message messageLen with
          | error stop =>
              rw [hreceived] at h
              cases h
          | ok made =>
              rw [hreceived] at h
              exact (Prod.mk.inj (Except.ok.inj h)).1.symm

theorem notifiedAll_of_ne_incoming {id : Guid} {notifications : List Notification}
    {calls : List UserNotification}
    (hcalls : ∀ call ∈ notifications, ∀ connection, call ≠ .incoming connection)
    (h : notifiedAll id sc notifications = .ok (next, calls)) : next = sc := by
  induction notifications generalizing sc calls with
  | nil => exact (Prod.mk.inj (Except.ok.inj h)).1.symm
  | cons call rest ih =>
      unfold notifiedAll at h
      obtain ⟨hcall, hrest⟩ := List.forall_mem_cons.mp hcalls
      obtain ⟨⟨middle, made⟩, hfirst, h⟩ := bind_eq_ok_iff.mp h
      obtain ⟨⟨after, later⟩, hlater, h⟩ := bind_eq_ok_iff.mp h
      obtain rfl := (Prod.mk.inj (Except.ok.inj h)).1
      obtain rfl := notified_of_ne_incoming hcall hfirst
      exact ih hrest hlater

/-- What an incoming message does to the two lists, where the session controller has its handler
set: a new connection in a new session, or nothing. -/
theorem sessionControllerProcess_cases {env : Ambient Key} {id : Guid} {message : Wpmessage}
    {outcome : SessionOutcome Key} (hic : sc.connectionController.ic = true)
    (h : sessionControllerProcess lib env sc id message = .ok outcome) :
    (∃ c, outcome.sc = sessionControllerAddSession
        (sc.withConnections (connectionControllerAddConnectionRequest sc.connectionController c))
        (sessionAddConnection (sessionCreate id) sc.connectionController.connections.next))
      ∨ ∃ controller, outcome.sc = sc.withConnections controller ∧ controller.ic = true
        ∧ ∀ connection, (controller.connections.get? connection).isSome
          ↔ (sc.connectionController.connections.get? connection).isSome := by
  obtain ⟨processed, calls, hprocess, hnotified⟩ := sessionControllerProcess_eq_ok h
  obtain ⟨remote, _, hprocessed⟩ := processor_cases hprocess
  have hkept : ∀ {pushed : List Wpmessage} {notifications : List Notification}
      (controller : ConnectionController Key), processed = ⟨controller, pushed, notifications⟩ →
      (∀ call ∈ notifications, ∀ connection, call ≠ .incoming connection) →
      controller.ic = true →
      (∀ connection, (controller.connections.get? connection).isSome
        ↔ (sc.connectionController.connections.get? connection).isSome) →
      ∃ controller, outcome.sc = sc.withConnections controller ∧ controller.ic = true
        ∧ ∀ connection, (controller.connections.get? connection).isSome
          ↔ (sc.connectionController.connections.get? connection).isSome := by
    rintro pushed notifications controller rfl hcalls hafter hsame
    exact ⟨controller, notifiedAll_of_ne_incoming hcalls hnotified, hafter, hsame⟩
  cases hprocessed with
  | createSession haction hfind =>
      left
      refine ⟨answeringRequest lib env sc.connectionController message remote, ?_⟩
      simp only [hic, if_true] at hnotified
      exact (Prod.mk.inj (Except.ok.inj hnotified)).1.symm
  | respondingCreatedSession address c cipher haction hfind hcipher =>
      exact Or.inr (hkept _ rfl (by simp) hic fun _ => Arena.isSome_get?_set)
  | sharingSessionKey address c decrypted secret haction hfind hdecrypt hdecode hlong =>
      refine Or.inr (hkept _ rfl ?_ hic fun _ => Arena.isSome_get?_set)
      split_ifs <;> simp
  | completedSession address c secret haction hfind hkey =>
      refine Or.inr (hkept _ rfl ?_ hic fun _ => Arena.isSome_get?_set)
      split_ifs <;> simp
  | communicatingSession address c secret haction hfind hkey =>
      refine Or.inr (hkept _ rfl ?_ hic fun _ => Iff.rfl)
      simp only
      split_ifs <;> simp

theorem step_incoming_cases {env : Ambient Key} {id : Guid} {message : Wpmessage}
    (hic : sc.connectionController.ic = true)
    (hstep : sc.step lib (.incoming env id message) = some next) :
    (∃ c, next = sessionControllerAddSession
        (sc.withConnections (connectionControllerAddConnectionRequest sc.connectionController c))
        (sessionAddConnection (sessionCreate id) sc.connectionController.connections.next))
      ∨ ∃ controller, next = sc.withConnections controller ∧ controller.ic = true
        ∧ ∀ connection, (controller.connections.get? connection).isSome
          ↔ (sc.connectionController.connections.get? connection).isSome := by
  simp only [step] at hstep
  cases hprocess : sessionControllerProcess lib env sc id message with
  | error stop => simp [hprocess] at hstep
  | ok outcome =>
      rw [hprocess] at hstep
      obtain rfl := Option.some.inj hstep
      exact sessionControllerProcess_cases hic hprocess

/-! ### Runs -/

/-- The lists are in step, the handler for incoming connections is set, and no session is empty. -/
structure InStep (sc : SessionController Key) : Prop where
  consistent : sc.Consistent
  handler : sc.connectionController.ic = true
  occupied : ∀ session s, sc.sessionList.get? session = some s → s.connectionRequestList ≠ []

/-- A removal does not find what it is to remove. -/
def RemovesNothing (sc : SessionController Key) : SessionEvent Key → Prop
  | .removeSession id => ∀ session s, sc.sessionList.get? session = some s → s.id ≠ id
  | .removeConnectionRequest id =>
      ∀ connection c, sc.connectionController.connections.get? connection = some c → c.id ≠ id
  | _ => True

theorem findSession_eq_none_iff {id : Guid} :
    sc.sessionList.find? (fun s => s.id = id) = none
      ↔ ∀ session s, sc.sessionList.get? session = some s → s.id ≠ id := by
  simp [Arena.find?_eq_none_iff]

theorem InStep.removeSession_iff (h : sc.InStep) (id : Guid) :
    (sessionControllerRemoveSession sc id).Consistent
      ↔ ∀ session s, sc.sessionList.get? session = some s → s.id ≠ id := by
  rw [← findSession_eq_none_iff]
  cases hfind : sc.sessionList.find? (fun s => s.id = id) with
  | none =>
      refine iff_of_true ?_ rfl
      rw [sessionControllerRemoveSession, Arena.removeFirst_of_find?_eq_none hfind]
      exact h.consistent
  | some found =>
      refine iff_of_false ?_ nofun
      exact h.consistent.removeSession hfind
        (h.occupied found.1 found.2 (Arena.get?_of_find? hfind).1)

theorem InStep.removeConnectionRequest_iff (h : sc.InStep) (id : Guid) :
    (sc.withConnections
        (connectionControllerRemoveConnectionRequest sc.connectionController id).2).Consistent
      ↔ ∀ connection c, sc.connectionController.connections.get? connection = some c →
        c.id ≠ id := by
  have hnone : sc.connectionController.connections.find? (fun c => c.id = id) = none
      ↔ ∀ connection c, sc.connectionController.connections.get? connection = some c →
        c.id ≠ id := by
    simp [Arena.find?_eq_none_iff]
  rw [← hnone]
  cases hfind : sc.connectionController.connections.find? (fun c => c.id = id) with
  | none =>
      refine iff_of_true ?_ rfl
      simp only [connectionControllerRemoveConnectionRequest, hfind]
      exact h.consistent
  | some found => exact iff_of_false (h.consistent.removeConnectionRequest hfind) nofun

/-- **One operation.** The lists stay in step exactly when it removes nothing. -/
theorem InStep.step_iff (h : sc.InStep) (event : SessionEvent Key) :
    (∀ next, sc.step lib event = some next → next.Consistent) ↔ RemovesNothing sc event := by
  cases event with
  | discovery call =>
      refine iff_of_true (fun next hstep => ?_) trivial
      obtain ⟨peers, _, rfl⟩ := Option.map_eq_some_iff.mp hstep
      exact h.consistent.frame (fun _ => Iff.rfl) fun _ _ => Iff.rfl
  | sessionCreate env id remotePeer =>
      refine iff_of_true (fun next hstep => ?_) trivial
      obtain rfl := Option.some.inj hstep
      exact h.consistent.addSession _ id
  | sessionAddPeer env session remotePeer =>
      refine iff_of_true (fun next hstep => ?_) trivial
      obtain ⟨s, hget, rfl⟩ := Option.map_eq_some_iff.mp hstep
      exact h.consistent.addPeer hget _
  | removeSession id =>
      refine Iff.trans ?_ (h.removeSession_iff id)
      simp [step]
  | removeConnectionRequest id =>
      refine Iff.trans ?_ (h.removeConnectionRequest_iff id)
      simp [step]
  | incoming env id message =>
      refine iff_of_true (fun next hstep => ?_) trivial
      rcases step_incoming_cases h.handler hstep with ⟨c, rfl⟩ | ⟨controller, rfl, _, hsame⟩
      · exact h.consistent.addSession c id
      · exact h.consistent.frame hsame fun _ _ => Iff.rfl

theorem occupied_add (h : ∀ session s, sc.sessionList.get? session = some s →
      s.connectionRequestList ≠ []) (id : Guid) (connection session : Nat) (s : Session)
    (hget : (sc.sessionList.add (sessionAddConnection (sessionCreate id) connection)).get? session
      = some s) : s.connectionRequestList ≠ [] := by
  rcases Arena.get?_add_eq_some_iff.mp hget with hold | ⟨_, rfl⟩
  · exact h session s hold
  · exact List.cons_ne_nil connection []

/-- Every operation keeps the handler, and leaves no session empty. -/
theorem InStep.step (h : sc.InStep) {event : SessionEvent Key}
    (hstep : sc.step lib event = some next) (hconsistent : next.Consistent) : next.InStep := by
  cases event with
  | discovery call =>
      obtain ⟨peers, _, rfl⟩ := Option.map_eq_some_iff.mp hstep
      exact ⟨hconsistent, h.handler, h.occupied⟩
  | sessionCreate env id remotePeer =>
      obtain rfl := Option.some.inj hstep
      exact ⟨hconsistent, h.handler, fun _ _ hget => occupied_add h.occupied id _ _ _ hget⟩
  | sessionAddPeer env session remotePeer =>
      obtain ⟨s, hget, rfl⟩ := Option.map_eq_some_iff.mp hstep
      refine ⟨hconsistent, h.handler, fun holder found hfound => ?_⟩
      rcases Arena.get?_set_eq_some_iff.mp hfound with ⟨_, hold⟩ | ⟨_, rfl, _⟩
      · exact h.occupied holder found hold
      · simp [sessionAddConnection]
  | removeSession id =>
      obtain rfl := Option.some.inj hstep
      have hfind := findSession_eq_none_iff.mpr ((h.removeSession_iff id).mp hconsistent)
      refine ⟨hconsistent, h.handler, ?_⟩
      rw [sessionControllerRemoveSession, Arena.removeFirst_of_find?_eq_none hfind]
      exact h.occupied
  | removeConnectionRequest id =>
      obtain rfl := Option.some.inj hstep
      refine ⟨hconsistent, ?_, h.occupied⟩
      unfold withConnections connectionControllerRemoveConnectionRequest
      split <;> exact h.handler
  | incoming env id message =>
      rcases step_incoming_cases h.handler hstep with ⟨c, rfl⟩ | ⟨controller, rfl, hic, _⟩
      · exact ⟨hconsistent, h.handler, fun _ _ hget => occupied_add h.occupied id _ _ _ hget⟩
      · exact ⟨hconsistent, hic, h.occupied⟩

theorem inStep_start (port : CString) (localPeer : Peer)
    (isActivePeer : Option (Int → Peer → Bool)) (now : Int) (nc ic cmr umn : Bool) :
    (start port localPeer isActivePeer now nc ic cmr umn : SessionController Key).InStep where
  consistent := by
    refine ⟨fun session connection hrefers => ?_, fun connection hlisted => ?_⟩
    · obtain ⟨s, hget, _⟩ := hrefers
      cases hget
    · cases hlisted
  handler := rfl
  occupied session s hget := by cases hget

/-- **The lists in step, exactly.** Over any operations on a session controller made before any
connection, the session list and the connection list are in step in every state reached if and only
if no removal finds its session or its connection. -/
theorem along_consistent_iff (lib : Libraries Key) (port : CString) (localPeer : Peer)
    (isActivePeer : Option (Int → Peer → Bool)) (now : Int) (nc ic cmr umn : Bool)
    (events : List (SessionEvent Key)) :
    Transition.Along (SessionController.step lib)
        (fun sc event => ∀ next, sc.step lib event = some next → next.Consistent)
        (start port localPeer isActivePeer now nc ic cmr umn) events
      ↔ Transition.Along (SessionController.step lib) RemovesNothing
        (start port localPeer isActivePeer now nc ic cmr umn) events :=
  Transition.along_iff_of_invariant (fun _ event h => h.step_iff event)
    (fun _ _ next h hkept hstep => h.step hstep (hkept next hstep)) (inStep_start ..) events

section Run

open Concrete

/-- Bob opens a session with Al. -/
def openSession : List (SessionEvent CString) :=
  [.discovery (.storePeer 1 (peer 1 al)),
    .sessionCreate (ambient bob (guid 7) fun _ => 0) (guid 20) (peer 1 al).ref]

def startBob : SessionController CString :=
  start (host 0) (peer 0 bob) none 0 false false false true

/-- A removed session leaves its connection without a session, and a removed connection leaves its
session with a pointer to nothing, on which the readiness scan runs into freed memory. -/
theorem not_consistent_removals :
    (∃ sc, Transition.run (SessionController.step libraries) startBob
          (openSession ++ [.removeSession (guid 20)]) = some sc
        ∧ sc.connectionController.connections.get? 0 = some openRequest
        ∧ (∀ session, ¬ sc.References session 0) ∧ ¬ sc.Consistent)
      ∧ ∃ sc, Transition.run (SessionController.step libraries) startBob
          (openSession ++ [.removeConnectionRequest (guid 7)]) = some sc
        ∧ sc.References 0 0 ∧ sc.connectionController.connections.get? 0 = none
        ∧ sessionControllerIsSessionReady sc.connectionController ⟨guid 20, [0]⟩
          = .error (.fault .absentConnection)
        ∧ ¬ sc.Consistent := by
  constructor
  · obtain ⟨sc, hrun⟩ : ∃ sc, Transition.run (SessionController.step libraries) startBob
        (openSession ++ [.removeSession (guid 20)]) = some sc := ⟨_, rfl⟩
    have hget : sc.connectionController.connections.get? 0 = some openRequest := by
      obtain rfl := Option.some.inj hrun
      decide +kernel
    have hnone : ∀ session, ¬ sc.References session 0 := by
      obtain rfl := Option.some.inj hrun
      rintro session ⟨s, hs, _⟩
      cases hs
    refine ⟨sc, hrun, hget, hnone, fun hconsistent => ?_⟩
    obtain ⟨session, hsession, _⟩ := hconsistent.referenced 0 (Option.isSome_of_eq_some hget)
    exact hnone session hsession
  · obtain ⟨sc, hrun⟩ : ∃ sc, Transition.run (SessionController.step libraries) startBob
        (openSession ++ [.removeConnectionRequest (guid 7)]) = some sc := ⟨_, rfl⟩
    have hrefers : sc.References 0 0 := by
      obtain rfl := Option.some.inj hrun
      exact ⟨⟨guid 20, [0]⟩, rfl, List.mem_singleton_self 0⟩
    have hget : sc.connectionController.connections.get? 0 = none := by
      obtain rfl := Option.some.inj hrun
      decide +kernel
    have hready : sessionControllerIsSessionReady sc.connectionController ⟨guid 20, [0]⟩
        = .error (.fault .absentConnection) := by
      simp [sessionControllerIsSessionReady, isReadyList, hget]
    refine ⟨sc, hrun, hrefers, hget, hready, fun hconsistent => ?_⟩
    have hlisted := hconsistent.listed 0 0 hrefers
    rw [Listed, hget] at hlisted
    cases hlisted

end Run

end SessionController

end WhisperCore
