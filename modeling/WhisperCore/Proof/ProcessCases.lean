import WhisperCore.Process
import WhisperCore.Proof.NetworkCases

/-!
# What an event can do to a process

The inversion lemma for the process's step function. An emission only reads the peerstore: the
lookup of a recipient that is found evicts nothing.
-/

namespace WhisperCore

variable {Key : Type} {lib : Libraries Key}

/-- The steps of a process. -/
inductive ProcessMoves (lib : Libraries Key) (process : Process Key) :
    ProcessEvent Key → Process Key → Prop where
  | discovered (call : PeerstoreCall) (peers : Peerstore)
      (hcall : call.step lib.guid process.controller.ds.peers = some peers) :
      ProcessMoves lib process (.discovery call)
        { process with controller := process.controller.setPeers peers }
  | initiated (env : Ambient Key) (remote : PeerRef) :
      ProcessMoves lib process (.initiation env remote)
        ⟨(connectionControllerInitiationRequest lib env process.controller remote).controller,
          process.mux
            ++ (connectionControllerInitiationRequest lib env process.controller remote).pushed⟩
  | processed (env : Ambient Key) (message : Wpmessage) (remote : Peer) (outcome : Outcome Key)
      (hknown : KnownSender lib process.controller message remote)
      (hprocessed : Processed lib env process.controller message remote outcome) :
      ProcessMoves lib process (.incoming env message)
        ⟨outcome.controller, process.mux ++ outcome.pushed⟩
  | sent (envs : Nat → Ambient Key) (s : Session) (text : Bytes) (len : Nat)
      (messages : List Wpmessage)
      (hsent : ∀ message ∈ messages, ∃ f address c, f.message = message
        ∧ SentOver lib process.controller f address c) :
      ProcessMoves lib process (.sends envs s text len)
        { process with mux := process.mux ++ messages }
  | idle (hmux : process.mux = []) : ProcessMoves lib process .emits process
  | emitted (message : Wpmessage) (rest : List Wpmessage) (remotePeer : Peer)
      (hmux : process.mux = message :: rest)
      (hfound : peerstoreLookup lib.guid process.controller.ds.peers
        (lib.guid.fromString message.recipient)
          = (some remotePeer, process.controller.ds.peers)) :
      ProcessMoves lib process .emits { process with mux := rest }

theorem emitter_eq_ok_iff {controller : ConnectionController Key} {message : Wpmessage}
    {result : Emission × ConnectionController Key} :
    internalConnectionControlEmitter lib controller message = .ok result
      ↔ ∃ remotePeer, peerstoreLookup lib.guid controller.ds.peers
          (lib.guid.fromString message.recipient) = (some remotePeer, controller.ds.peers)
        ∧ result = (⟨remotePeer.hostAddress, controller.port, message⟩, controller) := by
  unfold internalConnectionControlEmitter
  cases hlookup : peerstoreLookup lib.guid controller.ds.peers
      (lib.guid.fromString message.recipient) with
  | mk found peers =>
      cases found with
      | none => simp
      | some remotePeer =>
          obtain ⟨_, _, rfl⟩ := peerstoreLookup_eq_some hlookup
          constructor
          · intro h
            exact ⟨remotePeer, rfl, (Except.ok.inj h).symm⟩
          · rintro ⟨other, hother, rfl⟩
            obtain rfl : remotePeer = other := by simpa using hother
            rfl

theorem process_step_cases {process next : Process Key} {event : ProcessEvent Key}
    (h : process.step lib event = some next) : ProcessMoves lib process event next := by
  cases event with
  | discovery call =>
      obtain ⟨peers, hcall, rfl⟩ := Option.map_eq_some_iff.mp h
      exact .discovered call peers hcall
  | initiation env remote =>
      obtain rfl := Option.some.inj h
      exact .initiated env remote
  | incoming env message =>
      simp only [Process.step] at h
      cases hprocess : internalConnnectionMessageProcessor lib env process.controller message with
      | error stop => simp [hprocess] at h
      | ok outcome =>
          rw [hprocess] at h
          obtain rfl := Option.some.inj h
          obtain ⟨remote, hknown, hprocessed⟩ := processor_cases hprocess
          exact .processed env message remote outcome hknown hprocessed
  | sends envs s text len =>
      simp only [Process.step] at h
      cases hsend : sessionControllerSessionSendMessage lib envs process.controller s text len with
      | error stop => simp [hsend] at h
      | ok messages =>
          rw [hsend] at h
          obtain rfl := Option.some.inj h
          obtain ⟨hmap, hstamped⟩ := sendList_stamped hsend
          refine .sent envs s text len messages fun message hmessage => ?_
          rw [← hmap] at hmessage
          obtain ⟨f, hf, rfl⟩ := List.mem_map.mp hmessage
          obtain ⟨address, c, hover⟩ := hstamped f hf
          exact ⟨f, address, c, rfl, hover⟩
  | emits =>
      simp only [Process.step] at h
      cases hmux : process.mux with
      | nil =>
          rw [hmux] at h
          obtain rfl := Option.some.inj h
          exact .idle hmux
      | cons message rest =>
          simp only [hmux] at h
          cases hemit : internalConnectionControlEmitter lib process.controller message with
          | error stop => simp [hemit] at h
          | ok result =>
              obtain ⟨remotePeer, hfound, rfl⟩ := emitter_eq_ok_iff.mp hemit
              rw [hemit] at h
              obtain rfl := Option.some.inj h
              exact .emitted message rest remotePeer hmux hfound

end WhisperCore
