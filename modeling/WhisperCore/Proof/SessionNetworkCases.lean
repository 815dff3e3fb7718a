import WhisperCore.Proof.Dispatch
import WhisperCore.Proof.HandshakeLiveness
import WhisperCore.Proof.SessionLists
import WhisperCore.SessionNetwork

/-!
# The network below the sessions

The session controllers' handlers never fail where the session lists are in step with the connection
lists, and never change a connection. So every step of a network with sessions is one of the network
of nodes below it, and every delivery there is one here.
-/

namespace WhisperCore

variable {Key : Type} {lib : Libraries Key} {sc : SessionController Key} {env : Ambient Key}
  {id : Guid} {message : Bytes} {messageLen : Nat} {c : ConnectionRequest Key}

/-! ### Handlers -/

namespace SessionController

/-- All connections of the sessions exist. -/
def AllListed (sc : SessionController Key) : Prop :=
  ∀ entry ∈ sc.sessionList.entries, ∀ address ∈ entry.2.connectionRequestList,
    (sc.connectionController.connections.get? address).isSome

theorem Consistent.allListed (h : sc.Consistent) : sc.AllListed := by
  rintro ⟨session, s⟩ hentry address haddress
  exact h.listed session address ⟨s, Arena.get?_eq_some_iff.mpr hentry, haddress⟩

theorem AllListed.withConnections (h : sc.AllListed) {controller : ConnectionController Key}
    (hkept : ∀ address, (sc.connectionController.connections.get? address).isSome →
      (controller.connections.get? address).isSome) :
    (sc.withConnections controller).AllListed :=
  fun entry hentry address haddress => hkept address (h entry hentry address haddress)

end SessionController

theorem messageReceivedSessions_of_listed {entries : List (Nat × Session)}
    (h : ∀ entry ∈ entries, ∀ address ∈ entry.2.connectionRequestList,
      (sc.connectionController.connections.get? address).isSome) :
    messageReceivedSessions sc c message messageLen entries
      = .ok (if sc.umn then callsMade sc c message messageLen entries else []) := by
  induction entries with
  | nil => cases hset : sc.umn <;> simp [messageReceivedSessions, callsMade]
  | cons entry rest ih =>
      obtain ⟨session, s⟩ := entry
      obtain ⟨hfirst, hrest⟩ := List.forall_mem_cons.mp h
      unfold messageReceivedSessions
      rw [messageReceivedConnections_of_listed hfirst, ih hrest]
      cases hset : sc.umn
      · rfl
      · rfl

/-- What the user is told of a text on a connection. -/
def userCalls (sc : SessionController Key) (c : ConnectionRequest Key) (message : Bytes)
    (messageLen : Nat) : List UserNotification :=
  if sc.umn then callsMade sc c message messageLen sc.sessionList.entries else []

theorem notified_messageReceived (hlisted : sc.AllListed) {address : Nat}
    (hget : sc.connectionController.connections.get? address = some c) (id : Guid)
    (message : Bytes) (messageLen : Nat) :
    notified sc id (.messageReceived address message messageLen)
      = .ok (sc, userCalls sc c message messageLen) := by
  unfold notified internalMessageReceived
  simp only [hget]
  rw [messageReceivedSessions_of_listed hlisted]
  rfl

/-- The handlers take what a processed message makes of it, and leave the connections to the
connection controller. -/
theorem notifiedAll_of_processed {m : Wpmessage} {remote : Peer} {processed : Outcome Key}
    (hlisted : sc.AllListed)
    (hprocessed : Processed lib env sc.connectionController m remote processed) (id : Guid) :
    ∃ after calls, notifiedAll id (sc.withConnections processed.controller) processed.calls
        = .ok (after, calls)
      ∧ after.connectionController = processed.controller := by
  have hone : ∀ (sc : SessionController Key) (call : Notification)
      (answer : SessionController Key × List UserNotification),
      notified sc id call = .ok answer →
        notifiedAll id sc [call] = .ok (answer.1, answer.2 ++ []) := by
    intro sc call answer hcall
    unfold notifiedAll
    rw [hcall]
    rfl
  cases hprocessed with
  | createSession haction hfind =>
      by_cases hic : sc.connectionController.ic
      · simp only [hic, if_true]
        exact ⟨_, _, hone _ _ _ rfl, rfl⟩
      · simp only [hic]
        exact ⟨_, _, rfl, rfl⟩
  | respondingCreatedSession address c cipher haction hfind hcipher => exact ⟨_, _, rfl, rfl⟩
  | sharingSessionKey address c decrypted secret haction hfind hdecrypt hdecode hlong =>
      by_cases hnc : sc.connectionController.nc
      · simp only [hnc, if_true]
        exact ⟨_, _, hone _ _ _ rfl, rfl⟩
      · simp only [hnc]
        exact ⟨_, _, rfl, rfl⟩
  | completedSession address c secret haction hfind hkey =>
      simp only
      split_ifs
      · exact ⟨_, _, hone _ _ _ rfl, rfl⟩
      · exact ⟨_, _, rfl, rfl⟩
  | communicatingSession address c secret haction hfind hkey =>
      simp only
      split_ifs
      · have hget := (get?_of_findConnection hfind).1
        exact ⟨_, _, hone _ _ _ (notified_messageReceived hlisted hget _ _ _), rfl⟩
      · exact ⟨_, _, rfl, rfl⟩

theorem sessionControllerProcess_of_processor {m : Wpmessage} {processed : Outcome Key}
    (hlisted : sc.AllListed)
    (hok : internalConnnectionMessageProcessor lib env sc.connectionController m = .ok processed)
    (id : Guid) :
    ∃ outcome, sessionControllerProcess lib env sc id m = .ok outcome
      ∧ outcome.sc.connectionController = processed.controller
      ∧ outcome.pushed = processed.pushed := by
  obtain ⟨remote, _, hprocessed⟩ := processor_cases hok
  obtain ⟨after, calls, hnotified, hcontroller⟩ := notifiedAll_of_processed hlisted hprocessed id
  refine ⟨⟨after, processed.pushed, calls⟩, ?_, hcontroller, rfl⟩
  unfold sessionControllerProcess
  rw [hok]
  show (notifiedAll id (sc.withConnections processed.controller) processed.calls >>= _) = _
  rw [hnotified]
  rfl

theorem sessionControllerProcess_of_error {m : Wpmessage}
    {ending : Ending (Outcome Key)}
    (herror : internalConnnectionMessageProcessor lib env sc.connectionController m = .error ending)
    (id : Guid) : sessionControllerProcess lib env sc id m = .error ending.stop := by
  unfold sessionControllerProcess
  rw [herror]
  rfl

/-! ### Steps -/

namespace SessionNet

variable {sn next : SessionNet Key} {g : Guid}

theorem net_resume (sn : SessionNet Key) (g : Guid) (sc : SessionController Key) :
    (sn.resume g sc).net = sn.net.resume g sc.connectionController := by
  simp only [net, resume, Net.resume, Net.mk.injEq, and_true]
  funext other
  by_cases hother : other = g
  · subst hother
    simp
  · simp [hother]

theorem net_halt (sn : SessionNet Key) (g : Guid) : (sn.halt g).net = sn.net.halt g := by
  simp only [net, halt, Net.halt, Net.mk.injEq, and_true]
  funext other
  by_cases hother : other = g
  · subst hother
    simp
  · simp [hother]

theorem net_proceed {outcome : SessionOutcome Key} {processed : Outcome Key}
    {rest : List InFlight} (hcontroller : outcome.sc.connectionController = processed.controller)
    (hpushed : outcome.pushed = processed.pushed) :
    (sn.proceed g outcome rest).net = sn.net.proceed g processed rest := by
  have hnodes := congrArg Net.nodes (net_resume sn g outcome.sc)
  rw [hcontroller] at hnodes
  simp only [net, proceed, Net.proceed, hpushed, Net.mk.injEq]
  exact ⟨hnodes, trivial, rfl⟩

/-- The lists of every node are in step. -/
def AllInStep (sn : SessionNet Key) : Prop := ∀ g, (sn.nodes g).sc.InStep

/-- A delivery is one to the network below. -/
theorem AllInStep.delivers (h : sn.AllInStep) {index : Nat} {below : Net Key}
    (hstep : sn.net.step lib (.delivers index env) = some below) (id : Guid) :
    ∃ next, sn.step lib (.delivers index env id) = some next ∧ next.net = below := by
  simp only [Net.step] at hstep
  cases hindex : sn.inFlight[index]? with
  | none => simp [net, hindex] at hstep
  | some f =>
      have hindex' : sn.net.inFlight[index]? = some f := hindex
      simp only [hindex'] at hstep
      obtain ⟨hrunning, hbelow⟩ := Option.ite_none_right_eq_some.mp hstep
      have hrunning' : (sn.nodes (lib.guid.fromString f.message.recipient)).running = true :=
        hrunning
      simp only [step, hindex, if_pos hrunning']
      cases hprocess : internalConnnectionMessageProcessor lib env
          (sn.net.nodes (lib.guid.fromString f.message.recipient)).controller f.message with
      | error stop =>
          rw [hprocess] at hbelow
          obtain rfl := Option.some.inj hbelow
          rw [sessionControllerProcess_of_error hprocess id]
          refine ⟨_, rfl, ?_⟩
          have hnodes := congrArg Net.nodes
            (net_halt sn (lib.guid.fromString f.message.recipient))
          simp only [net, halt, Net.halt, Net.mk.injEq, and_true] at hnodes ⊢
          exact hnodes
      | ok processed =>
          rw [hprocess] at hbelow
          obtain rfl := Option.some.inj hbelow
          obtain ⟨outcome, hok, hcontroller, hpushed⟩ := sessionControllerProcess_of_processor
            (h _).consistent.allListed hprocess id
          rw [hok]
          exact ⟨_, rfl, net_proceed hcontroller hpushed⟩

/-- A delivery leaves the sessions there are as they are. -/
theorem AllInStep.session_delivers (h : sn.AllInStep) {index : Nat} {env : Ambient Key} {id : Guid}
    (hstep : sn.step lib (.delivers index env id) = some next) {session : Nat} {s : Session}
    (hsession : (sn.nodes g).sc.sessionList.get? session = some s) :
    (next.nodes g).sc.sessionList.get? session = some s := by
  simp only [step] at hstep
  cases hindex : sn.inFlight[index]? with
  | none => simp [hindex] at hstep
  | some f =>
      simp only [hindex] at hstep
      obtain ⟨_, hnext⟩ := Option.ite_none_right_eq_some.mp hstep
      by_cases hg : g = lib.guid.fromString f.message.recipient
      · subst hg
        cases hprocess : sessionControllerProcess lib env
            (sn.nodes (lib.guid.fromString f.message.recipient)).sc id f.message with
        | error stop =>
            rw [hprocess] at hnext
            obtain rfl := Option.some.inj hnext
            simpa [halt] using hsession
        | ok outcome =>
            rw [hprocess] at hnext
            obtain rfl := Option.some.inj hnext
            simp only [proceed, resume, Function.update_self]
            rcases SessionController.sessionControllerProcess_cases (h _).handler hprocess with
              ⟨c, hadded⟩ | ⟨controller, hkept, _, _⟩
            · rw [hadded]
              exact Arena.get?_add_eq_some_iff.mpr (Or.inl hsession)
            · rw [hkept]
              exact hsession
      · cases hprocess : sessionControllerProcess lib env
            (sn.nodes (lib.guid.fromString f.message.recipient)).sc id f.message with
        | error stop =>
            rw [hprocess] at hnext
            obtain rfl := Option.some.inj hnext
            simpa [halt, hg] using hsession
        | ok outcome =>
            rw [hprocess] at hnext
            obtain rfl := Option.some.inj hnext
            simpa [proceed, resume, hg] using hsession

/-- Every step is one of the network below. -/
theorem AllInStep.simulates (h : sn.AllInStep) {event : SessionNetEvent Key}
    (hstep : sn.step lib event = some next) :
    ∃ below, sn.net.step lib below = some next.net := by
  cases event with
  | discovers g call =>
      obtain ⟨hrunning, hmap⟩ := Option.ite_none_right_eq_some.mp hstep
      obtain ⟨peers, hcall, rfl⟩ := Option.map_eq_some_iff.mp hmap
      refine ⟨.discovers g call, ?_⟩
      have hrunning' : (sn.net.nodes g).running = true := hrunning
      have hcall' : call.step lib.guid (sn.net.nodes g).controller.ds.peers = some peers := hcall
      simp only [Net.step, if_pos hrunning', hcall', Option.map_some, net_resume]
      rfl
  | creates g env id remotePeer =>
      obtain ⟨hfresh, hnext⟩ := Option.ite_none_right_eq_some.mp hstep
      obtain rfl := Option.some.inj hnext
      refine ⟨.initiates g env remotePeer, ?_⟩
      have hfresh' : (sn.net.nodes g).running = true ∧ env.guid ∉ sn.net.created := hfresh
      simp only [Net.step, if_pos hfresh']
      have hbelow : (sn.proceed g
          (sessionControllerSessionCreate lib env (sn.nodes g).sc id remotePeer) sn.inFlight).net
          = sn.net.proceed g (connectionControllerInitiationRequest lib env
            (sn.nodes g).sc.connectionController remotePeer) sn.inFlight := net_proceed rfl rfl
      exact congrArg (fun below : Net Key => some { below with created := env.guid :: sn.created })
        hbelow.symm
  | addsPeer g env session remotePeer =>
      simp only [step] at hstep
      cases hsession : (sn.nodes g).sc.sessionList.get? session with
      | none => simp [hsession] at hstep
      | some s =>
          simp only [hsession] at hstep
          obtain ⟨hfresh, hnext⟩ := Option.ite_none_right_eq_some.mp hstep
          obtain rfl := Option.some.inj hnext
          refine ⟨.initiates g env remotePeer, ?_⟩
          have hfresh' : (sn.net.nodes g).running = true ∧ env.guid ∉ sn.net.created := hfresh
          simp only [Net.step, if_pos hfresh']
          have hbelow : (sn.proceed g (sessionControllerSessionAddPeer lib env (sn.nodes g).sc
              session s remotePeer) sn.inFlight).net
              = sn.net.proceed g (connectionControllerInitiationRequest lib env
                (sn.nodes g).sc.connectionController remotePeer) sn.inFlight :=
            net_proceed rfl rfl
          exact congrArg (fun below : Net Key =>
            some { below with created := env.guid :: sn.created }) hbelow.symm
  | delivers index env id =>
      refine ⟨.delivers index env, ?_⟩
      cases hbelow : sn.net.step lib (.delivers index env) with
      | none =>
          simp only [step] at hstep
          cases hindex : sn.inFlight[index]? with
          | none => simp [hindex] at hstep
          | some f =>
              simp only [hindex] at hstep
              obtain ⟨hrunning, _⟩ := Option.ite_none_right_eq_some.mp hstep
              have hindex' : sn.net.inFlight[index]? = some f := hindex
              have hrunning' : (sn.net.nodes
                (lib.guid.fromString f.message.recipient)).running = true := hrunning
              simp only [Net.step, hindex', if_pos hrunning'] at hbelow
              split at hbelow
              · cases hbelow
              · cases hbelow
      | some below =>
          obtain ⟨other, hother, rfl⟩ := h.delivers hbelow id
          obtain rfl := Option.some.inj (hother.symm.trans hstep)
          rfl
  | sends g envs session message messageLen =>
      simp only [step] at hstep
      cases hsession : (sn.nodes g).sc.sessionList.get? session with
      | none => simp [hsession] at hstep
      | some s =>
          simp only [hsession] at hstep
          obtain ⟨hrunning, hnext⟩ := Option.ite_none_right_eq_some.mp hstep
          refine ⟨.sends g envs s message messageLen, ?_⟩
          have hrunning' : (sn.net.nodes g).running = true := hrunning
          simp only [Net.step, if_pos hrunning']
          cases hsend : sessionControllerSessionSendMessage lib envs
              (sn.nodes g).sc.connectionController s message messageLen with
          | error stop =>
              rw [hsend] at hnext
              obtain rfl := Option.some.inj hnext
              rw [net_halt]
              simp only [net, hsend]
          | ok messages =>
              rw [hsend] at hnext
              obtain rfl := Option.some.inj hnext
              simp only [net, hsend]

/-- Every step keeps the lists of every node in step. -/
theorem AllInStep.step (h : sn.AllInStep) {event : SessionNetEvent Key}
    (hstep : sn.step lib event = some next) : next.AllInStep := by
  have hresume : ∀ (g : Guid) (event : SessionEvent Key) (sc : SessionController Key),
      SessionController.RemovesNothing (sn.nodes g).sc event →
      (sn.nodes g).sc.step lib event = some sc → (sn.resume g sc).AllInStep := by
    intro g event sc hremoves hsc other
    simp only [resume]
    by_cases hother : other = g
    · subst hother
      rw [Function.update_self]
      exact (h other).step hsc (((h other).step_iff event).mpr hremoves sc hsc)
    · rw [Function.update_of_ne hother]
      exact h other
  have hhalt : ∀ g, (sn.halt g).AllInStep := by
    intro g other
    simp only [halt]
    by_cases hother : other = g
    · subst hother
      rw [Function.update_self]
      exact h other
    · rw [Function.update_of_ne hother]
      exact h other
  cases event with
  | discovers g call =>
      obtain ⟨_, hmap⟩ := Option.ite_none_right_eq_some.mp hstep
      obtain ⟨peers, hcall, rfl⟩ := Option.map_eq_some_iff.mp hmap
      refine hresume g (.discovery call) _ trivial ?_
      simp only [SessionController.step, hcall, Option.map_some]
  | creates g env id remotePeer =>
      obtain ⟨_, hnext⟩ := Option.ite_none_right_eq_some.mp hstep
      obtain rfl := Option.some.inj hnext
      exact hresume g (.sessionCreate env id remotePeer) _ trivial rfl
  | addsPeer g env session remotePeer =>
      simp only [SessionNet.step] at hstep
      cases hsession : (sn.nodes g).sc.sessionList.get? session with
      | none => simp [hsession] at hstep
      | some s =>
          simp only [hsession] at hstep
          obtain ⟨_, hnext⟩ := Option.ite_none_right_eq_some.mp hstep
          obtain rfl := Option.some.inj hnext
          refine hresume g (.sessionAddPeer env session remotePeer) _ trivial ?_
          simp only [SessionController.step, hsession, Option.map_some]
  | delivers index env id =>
      simp only [SessionNet.step] at hstep
      cases hindex : sn.inFlight[index]? with
      | none => simp [hindex] at hstep
      | some f =>
          simp only [hindex] at hstep
          obtain ⟨_, hnext⟩ := Option.ite_none_right_eq_some.mp hstep
          cases hprocess : sessionControllerProcess lib env
              (sn.nodes (lib.guid.fromString f.message.recipient)).sc id f.message with
          | error stop =>
              rw [hprocess] at hnext
              obtain rfl := Option.some.inj hnext
              exact hhalt _
          | ok outcome =>
              rw [hprocess] at hnext
              obtain rfl := Option.some.inj hnext
              refine hresume _ (.incoming env id f.message) _ trivial ?_
              simp only [SessionController.step, hprocess]
  | sends g envs session message messageLen =>
      simp only [SessionNet.step] at hstep
      cases hsession : (sn.nodes g).sc.sessionList.get? session with
      | none => simp [hsession] at hstep
      | some s =>
          simp only [hsession] at hstep
          obtain ⟨_, hnext⟩ := Option.ite_none_right_eq_some.mp hstep
          cases hsend : sessionControllerSessionSendMessage lib envs
              (sn.nodes g).sc.connectionController s message messageLen with
          | error stop =>
              rw [hsend] at hnext
              obtain rfl := Option.some.inj hnext
              exact hhalt g
          | ok messages =>
              rw [hsend] at hnext
              obtain rfl := Option.some.inj hnext
              exact h

end SessionNet

end WhisperCore
