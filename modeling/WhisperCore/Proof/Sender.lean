import WhisperCore.Concrete
import WhisperCore.Proof.ProcessorCases

/-!
# Who a connection listens to

The processor looks up the sender and the connection independently and never compares the two: on an
existing connection a message has the same effect whichever known peer sends it. That effect is
confined to the connection, and what is pushed for it goes to the connection's own remote peer.
-/

namespace WhisperCore

variable {Key : Type} {lib : Libraries Key} {env : Ambient Key}
  {controller : ConnectionController Key} {message : Wpmessage} {address : Nat}
  {c : ConnectionRequest Key} {remote : Peer}

/-- What a message does to the connection it names, given by its action. -/
structure Confined (lib : Libraries Key) (controller : ConnectionController Key)
    (message : Wpmessage) (address : Nat) (c : ConnectionRequest Key) (outcome : Outcome Key) :
    Prop where
  opens : message.action ≠ .createSession
  peers : outcome.controller.ds = controller.ds
  others : ∀ other, other ≠ address →
    outcome.controller.connections.get? other = controller.connections.get? other
  kept : ∃ state sharedSecret, outcome.controller.connections.get? address
    = some { c with state := state, sharedSecret := sharedSecret }
  secret : message.action = .completedSession ∨ message.action = .communicatingSession →
    ∃ state, outcome.controller.connections.get? address = some { c with state := state }
  state : message.action = .communicatingSession →
    outcome.controller.connections.get? address = some c
  pushed : ∀ out ∈ outcome.pushed, out.recipient = lib.guid.toString c.remote.guid
    ∧ (message.action = .respondingCreatedSession ∨ message.action = .sharingSessionKey)
  calls : ∀ call ∈ outcome.calls,
    (call = .completed address
      ∧ (message.action = .sharingSessionKey ∨ message.action = .completedSession))
    ∨ ∃ text len, call = .messageReceived address text len
      ∧ message.action = .communicatingSession

theorem others_setConnection (hget : controller.connections.get? address = some c)
    (new : ConnectionRequest Key) :
    (controller.setConnection address new).connections.get? address = some new
      ∧ ∀ other, other ≠ address →
        (controller.setConnection address new).connections.get? other
          = controller.connections.get? other :=
  ⟨Arena.get?_set_self new hget, fun _ hne => Arena.get?_set_of_ne new hne⟩

theorem Processed.confined {outcome : Outcome Key}
    (hfind : findConnection lib controller message = some (address, c))
    (h : Processed lib env controller message remote outcome) :
    Confined lib controller message address c outcome := by
  have hget := (get?_of_findConnection hfind).1
  cases h with
  | createSession haction hnone =>
      rw [hfind] at hnone
      cases hnone
  | respondingCreatedSession found old cipher haction hfound hcipher =>
      obtain ⟨rfl, rfl⟩ := Prod.mk.inj (Option.some.inj (hfind.symm.trans hfound))
      obtain ⟨hself, hothers⟩ := others_setConnection hget { c with
        state := .sessionKeyShare, sharedSecret := some (generateSharedSecret env.draws) }
      refine ⟨by simp [haction], rfl, hothers, ⟨_, _, hself⟩, by simp [haction],
        by simp [haction], fun out hout => ?_, by simp⟩
      rw [List.mem_singleton.mp hout]
      exact ⟨rfl, Or.inl haction⟩
  | sharingSessionKey found old decrypted secret haction hfound hdecrypt hdecode hlong =>
      obtain ⟨rfl, rfl⟩ := Prod.mk.inj (Option.some.inj (hfind.symm.trans hfound))
      obtain ⟨hself, hothers⟩ := others_setConnection hget { c with
        state := .complete, sharedSecret := some secret }
      refine ⟨by simp [haction], rfl, hothers, ⟨_, _, hself⟩, by simp [haction],
        by simp [haction], fun out hout => ?_, fun call hcall => Or.inl ?_⟩
      · rw [List.mem_singleton.mp hout]
        exact ⟨rfl, Or.inr haction⟩
      · split_ifs at hcall
        · exact ⟨List.mem_singleton.mp hcall, Or.inl haction⟩
        · cases hcall
  | completedSession found old secret haction hfound hkey =>
      obtain ⟨rfl, rfl⟩ := Prod.mk.inj (Option.some.inj (hfind.symm.trans hfound))
      obtain ⟨hself, hothers⟩ := others_setConnection hget { c with state := .complete }
      refine ⟨by simp [haction], rfl, hothers, ⟨.complete, c.sharedSecret, hself⟩,
        fun _ => ⟨_, hself⟩, by simp [haction], by simp, fun call hcall => Or.inl ?_⟩
      split_ifs at hcall
      · exact ⟨List.mem_singleton.mp hcall, Or.inr haction⟩
      · cases hcall
  | communicatingSession found old secret haction hfound hkey =>
      obtain ⟨rfl, rfl⟩ := Prod.mk.inj (Option.some.inj (hfind.symm.trans hfound))
      refine ⟨by simp [haction], rfl, fun _ _ => rfl, ⟨c.state, c.sharedSecret, hget⟩,
        fun _ => ⟨c.state, hget⟩, fun _ => hget, by simp, fun call hcall => Or.inr ?_⟩
      simp only at hcall
      split_ifs at hcall
      · exact ⟨_, _, List.mem_singleton.mp hcall, haction⟩
      · cases hcall

/-- The switch uses the sender for a new connection only. -/
theorem processAction_sender (sender : CString) (other : Peer)
    (hfind : findConnection lib controller message = some (address, c)) :
    processAction lib env controller { message with sender := sender } other
      = processAction lib env controller message remote := by
  have hsame : findConnection lib controller { message with sender := sender }
      = some (address, c) := hfind
  unfold processAction
  rw [hsame, hfind]
  cases message.action <;> rfl

/-- **Any known peer is listened to.** On an existing connection the processor does the same for
every known remote peer as sender, and its effect is confined to the connection. -/
theorem any_known_sender (hknown : KnownSender lib controller message remote)
    (hfind : findConnection lib controller message = some (address, c)) :
    (∀ sender other, KnownSender lib controller { message with sender := sender } other →
        internalConnnectionMessageProcessor lib env controller { message with sender := sender }
          = internalConnnectionMessageProcessor lib env controller message)
      ∧ ∀ outcome, internalConnnectionMessageProcessor lib env controller message = .ok outcome →
        Confined lib controller message address c outcome := by
  constructor
  · intro sender other hother
    rw [hknown.processor_eq, hother.processor_eq, processAction_sender sender other hfind]
  · intro outcome hok
    rw [hknown.processor_eq] at hok
    exact (processAction_cases hok).confined hfind

section Run

open Concrete

/-- The second peer answers in place of the first. -/
def foreignReply : Wpmessage :=
  toBob 2 .respondingCreatedSession (base64.encode bob.bytes).bytes

theorem knownSender_foreignReply :
    KnownSender libraries (processAfter openEvents).controller foreignReply
      { peer 2 bob with lastSeen := 1 } :=
  ⟨rfl, by decide +kernel⟩

theorem findConnection_foreignReply :
    findConnection libraries (processAfter openEvents).controller foreignReply
      = some (0, openRequest) := by
  decide +kernel

theorem any_known_sender_foreignReply :
    (∀ sender other, KnownSender libraries (processAfter openEvents).controller
        { foreignReply with sender := sender } other →
      internalConnnectionMessageProcessor libraries (ambient bob (guid 8) fun _ => 0)
          (processAfter openEvents).controller { foreignReply with sender := sender }
        = internalConnnectionMessageProcessor libraries (ambient bob (guid 8) fun _ => 0)
          (processAfter openEvents).controller foreignReply)
      ∧ ∀ outcome, internalConnnectionMessageProcessor libraries (ambient bob (guid 8) fun _ => 0)
          (processAfter openEvents).controller foreignReply = .ok outcome →
        Confined libraries (processAfter openEvents).controller foreignReply 0 openRequest
          outcome :=
  any_known_sender knownSender_foreignReply findConnection_foreignReply

theorem foreignReply_taken :
    ∃ (process : Process CString) (remote : Peer) (outcome : Outcome CString)
      (c c' : ConnectionRequest CString),
      process.Reachable libraries ∧ KnownSender libraries process.controller foreignReply remote
      ∧ findConnection libraries process.controller foreignReply = some (0, c)
      ∧ remote.guid ≠ c.remote.guid
      ∧ internalConnnectionMessageProcessor libraries (ambient bob (guid 8) fun _ => 0)
          process.controller foreignReply = .ok outcome
      ∧ outcome.controller.connections.get? 0 = some c' ∧ c'.state ≠ c.state
      ∧ c'.sharedSecret ≠ c.sharedSecret ∧ outcome.pushed ≠ [] := by
  obtain ⟨outcome, hok⟩ : ∃ outcome, internalConnnectionMessageProcessor libraries
      (ambient bob (guid 8) fun _ => 0) (processAfter openEvents).controller foreignReply
        = .ok outcome := ⟨_, rfl⟩
  have hafter : outcome.controller.connections.get? 0
      = some { openRequest with state := .sessionKeyShare, sharedSecret := some secretA } := by
    obtain rfl := Except.ok.inj hok
    decide +kernel
  have hpushed : outcome.pushed ≠ [] := by
    obtain rfl := Except.ok.inj hok
    decide +kernel
  exact ⟨_, _, outcome, openRequest, _, reachable_processAfter openEvents (by decide +kernel),
    knownSender_foreignReply, findConnection_foreignReply, by decide, hok, hafter, by decide,
    by decide, hpushed⟩

end Run

end WhisperCore
