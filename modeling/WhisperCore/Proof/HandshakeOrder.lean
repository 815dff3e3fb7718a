import WhisperCore.Concrete
import WhisperCore.Lib.Phases
import WhisperCore.Proof.ProcessCases

/-!
# The order of a connection's states

The processor never asks for the state of a connection. Its states are in order as long as the two
messages that set a secret come in the states they are meant for; whatever comes, a connection never
goes back to where it started and never loses its secret.
-/

namespace WhisperCore

variable {Key : Type} {lib : Libraries Key} {process next : Process Key} {address : Nat}
  {c c' : ConnectionRequest Key}

/-! ### What a step does to a connection -/

/-- What a step does to the connection at an address. -/
inductive ConnectionMoves (lib : Libraries Key) (process : Process Key) (address : Nat)
    (c : ConnectionRequest Key) : ProcessEvent Key → ConnectionRequest Key → Prop where
  | kept (event : ProcessEvent Key) : ConnectionMoves lib process address c event c
  | shared (env : Ambient Key) (m : Wpmessage) (secret : Bytes)
      (haction : m.action = .respondingCreatedSession)
      (hfind : findConnection lib process.controller m = some (address, c)) :
      ConnectionMoves lib process address c (.incoming env m)
        { c with state := .sessionKeyShare, sharedSecret := some secret }
  | confirmed (env : Ambient Key) (m : Wpmessage) (secret : Bytes)
      (haction : m.action = .sharingSessionKey)
      (hfind : findConnection lib process.controller m = some (address, c)) :
      ConnectionMoves lib process address c (.incoming env m)
        { c with state := .complete, sharedSecret := some secret }
  | completed (env : Ambient Key) (m : Wpmessage) (secret : Bytes)
      (haction : m.action = .completedSession)
      (hfind : findConnection lib process.controller m = some (address, c))
      (hkey : c.HasKey secret) :
      ConnectionMoves lib process address c (.incoming env m) { c with state := .complete }

theorem get?_setConnection {controller : ConnectionController Key} {other : Nat}
    {old : ConnectionRequest Key} (hold : controller.connections.get? other = some old)
    (hget : controller.connections.get? address = some c) (new : ConnectionRequest Key) :
    (address = other ∧ c = old
        ∧ (controller.setConnection other new).connections.get? address = some new)
      ∨ (controller.setConnection other new).connections.get? address = some c := by
  by_cases hother : address = other
  · subst hother
    exact Or.inl ⟨rfl, Option.some.inj (hget.symm.trans hold), Arena.get?_set_self new hold⟩
  · exact Or.inr ((Arena.get?_set_of_ne new hother).trans hget)

theorem Processed.connection_moves {env : Ambient Key} {m : Wpmessage} {remote : Peer}
    {outcome : Outcome Key} (h : Processed lib env process.controller m remote outcome)
    (hget : process.controller.connections.get? address = some c) :
    ∃ c', outcome.controller.connections.get? address = some c'
      ∧ ConnectionMoves lib process address c (.incoming env m) c' := by
  cases h with
  | createSession haction hfind =>
      exact ⟨c, Arena.get?_add_eq_some_iff.mpr (Or.inl hget), .kept _⟩
  | respondingCreatedSession other old cipher haction hfind hcipher =>
      rcases get?_setConnection (get?_of_findConnection hfind).1 hget { old with
          state := .sessionKeyShare
          sharedSecret := some (generateSharedSecret env.draws) } with
        ⟨rfl, rfl, hnew⟩ | hkept
      · exact ⟨_, hnew, .shared env m _ haction hfind⟩
      · exact ⟨c, hkept, .kept _⟩
  | sharingSessionKey other old decrypted secret haction hfind hdecrypt hdecode hlong =>
      rcases get?_setConnection (get?_of_findConnection hfind).1 hget { old with
          state := .complete
          sharedSecret := some secret } with
        ⟨rfl, rfl, hnew⟩ | hkept
      · exact ⟨_, hnew, .confirmed env m secret haction hfind⟩
      · exact ⟨c, hkept, .kept _⟩
  | completedSession other old secret haction hfind hkey =>
      rcases get?_setConnection (get?_of_findConnection hfind).1 hget { old with
          state := .complete } with
        ⟨rfl, rfl, hnew⟩ | hkept
      · exact ⟨_, hnew, .completed env m secret haction hfind hkey⟩
      · exact ⟨c, hkept, .kept _⟩
  | communicatingSession other old secret haction hfind hkey => exact ⟨c, hget, .kept _⟩

theorem connection_moves {event : ProcessEvent Key} (hstep : process.step lib event = some next)
    (hget : process.controller.connections.get? address = some c) :
    ∃ c', next.controller.connections.get? address = some c'
      ∧ ConnectionMoves lib process address c event c' := by
  cases process_step_cases hstep with
  | discovered call peers hcall => exact ⟨c, hget, .kept _⟩
  | initiated env remote => exact ⟨c, Arena.get?_add_eq_some_iff.mpr (Or.inl hget), .kept _⟩
  | processed env m remote outcome hknown hprocessed => exact hprocessed.connection_moves hget
  | sent envs s text len messages hsent => exact ⟨c, hget, .kept _⟩
  | idle hmux => exact ⟨c, hget, .kept _⟩
  | emitted message rest remotePeer hmux hfound => exact ⟨c, hget, .kept _⟩

/-- The connection requests an event opens. -/
inductive Opens (lib : Libraries Key) (process : Process Key) :
    ProcessEvent Key → ConnectionRequest Key → Prop where
  | initiated (env : Ambient Key) (remote : PeerRef) :
      Opens lib process (.initiation env remote)
        (connectionRequestCreate env remote process.controller.ds.peers .initialChallenge)
  | answered (env : Ambient Key) (m : Wpmessage) (remote : Peer)
      (hknown : KnownSender lib process.controller m remote) :
      Opens lib process (.incoming env m) (answeringRequest lib env process.controller m remote)

/-- A connection after a step was there before and moved, or was opened by it. -/
theorem connection_before {event : ProcessEvent Key} (hstep : process.step lib event = some next)
    (hget : next.controller.connections.get? address = some c') :
    (∃ c, process.controller.connections.get? address = some c
        ∧ ConnectionMoves lib process address c event c')
      ∨ Opens lib process event c' := by
  cases hbefore : process.controller.connections.get? address with
  | some c =>
      obtain ⟨c₁, hget₁, hmoves⟩ := connection_moves hstep hbefore
      obtain rfl : c₁ = c' := Option.some.inj (hget₁.symm.trans hget)
      exact Or.inl ⟨c, rfl, hmoves⟩
  | none =>
      right
      have hadded : ∀ new : ConnectionRequest Key,
          (process.controller.connections.add new).get? address = some c' → c' = new := by
        intro new hnew
        rcases Arena.get?_add_eq_some_iff.mp hnew with hold | ⟨_, hself⟩
        · cases hbefore.symm.trans hold
        · exact hself
      have hset : ∀ other (new : ConnectionRequest Key),
          (process.controller.connections.set other new).get? address ≠ some c' := by
        intro other new hnew
        rcases Arena.get?_set_eq_some_iff.mp hnew with ⟨_, hold⟩ | ⟨rfl, _, hsome⟩
        · cases hbefore.symm.trans hold
        · simp [hbefore] at hsome
      cases process_step_cases hstep with
      | discovered call peers hcall => cases hbefore.symm.trans hget
      | initiated env remote =>
          obtain rfl := hadded _ hget
          exact .initiated env remote
      | processed env m remote outcome hknown hprocessed =>
          cases hprocessed with
          | createSession haction hfind =>
              obtain rfl := hadded _ hget
              exact .answered env m remote hknown
          | respondingCreatedSession other old cipher haction hfind hcipher =>
              exact absurd hget (hset other _)
          | sharingSessionKey other old decrypted secret haction hfind hdecrypt hdecode hlong =>
              exact absurd hget (hset other _)
          | completedSession other old secret haction hfind hkey =>
              exact absurd hget (hset other _)
          | communicatingSession other old secret haction hfind hkey =>
              cases hbefore.symm.trans hget
      | sent envs s text len messages hsent => cases hbefore.symm.trans hget
      | idle hmux => cases hbefore.symm.trans hget
      | emitted message rest remotePeer hmux hfound => cases hbefore.symm.trans hget

/-! ### Runs -/

/-- A connection that is where it started has no secret; one that has moved on has one. -/
inductive Sound : ConnectionRequest Key → Prop where
  | started {c : ConnectionRequest Key}
      (hstate : c.state = .initialChallenge ∨ c.state = .challengeReply)
      (hsecret : c.sharedSecret = none) : Sound c
  | movedOn {c : ConnectionRequest Key}
      (hstate : c.state = .sessionKeyShare ∨ c.state = .complete)
      (hsecret : c.sharedSecret ≠ none) : Sound c

theorem Sound.sharedSecret_eq_none (h : Sound c)
    (hstate : c.state = .initialChallenge ∨ c.state = .challengeReply) :
    c.sharedSecret = none := by
  cases h with
  | started _ hsecret => exact hsecret
  | movedOn hmoved _ => rcases hstate with hstate | hstate <;> simp [hstate] at hmoved

/-- What never changes in a connection request. -/
structure SameRequest (c c' : ConnectionRequest Key) : Prop where
  id : c'.id = c.id
  localPeer : c'.localPeer = c.localPeer
  remote : c'.remote = c.remote
  keypair : c'.keypair = c.keypair

theorem SameRequest.trans {c'' : ConnectionRequest Key} (h : SameRequest c c')
    (h' : SameRequest c' c'') : SameRequest c c'' where
  id := h'.id.trans h.id
  localPeer := h'.localPeer.trans h.localPeer
  remote := h'.remote.trans h.remote
  keypair := h'.keypair.trans h.keypair

/-- The connection has moved on, and holds a secret. -/
def MovedOn (address : Nat) (process : Process Key) : Prop :=
  ∃ c, process.controller.connections.get? address = some c
    ∧ (c.state = .sessionKeyShare ∨ c.state = .complete) ∧ c.sharedSecret ≠ none

theorem ConnectionMoves.movedOn {event : ProcessEvent Key}
    (h : ConnectionMoves lib process address c event c')
    (hstate : c.state = .sessionKeyShare ∨ c.state = .complete) (hsecret : c.sharedSecret ≠ none) :
    (c'.state = .sessionKeyShare ∨ c'.state = .complete) ∧ c'.sharedSecret ≠ none := by
  cases h with
  | kept => exact ⟨hstate, hsecret⟩
  | shared env m secret haction hfind => simp
  | confirmed env m secret haction hfind => simp
  | completed env m secret haction hfind hkey => exact ⟨Or.inr rfl, hsecret⟩

theorem ConnectionMoves.sound {event : ProcessEvent Key}
    (h : ConnectionMoves lib process address c event c') (hsound : Sound c) : Sound c' := by
  cases h with
  | kept => exact hsound
  | shared env m secret haction hfind => exact .movedOn (Or.inl rfl) (by simp)
  | confirmed env m secret haction hfind => exact .movedOn (Or.inr rfl) (by simp)
  | completed env m secret haction hfind hkey =>
      exact .movedOn (Or.inr rfl) (by simp [hkey.held])

theorem ConnectionMoves.sameRequest {event : ProcessEvent Key}
    (h : ConnectionMoves lib process address c event c') : SameRequest c c' := by
  cases h <;> exact ⟨rfl, rfl, rfl, rfl⟩

/-- Whatever comes, a connection that has moved on has moved on for good. -/
theorem movedOn_run {final : Process Key} {events : List (ProcessEvent Key)}
    (hrun : Transition.run (Process.step lib) process events = some final)
    (h : MovedOn address process) : MovedOn address final := by
  refine Transition.run_invariant ?_ hrun h
  rintro before event after ⟨c, hget, hstate, hsecret⟩ hstep
  obtain ⟨c', hget', hmoves⟩ := connection_moves hstep hget
  exact ⟨c', hget', hmoves.movedOn hstate hsecret⟩

/-- The two messages that set a secret reach the connection at an address in the states they are
meant for. Messages for other connections may come as they like. -/
def InOrder (lib : Libraries Key) (address : Nat) (process : Process Key) :
    ProcessEvent Key → Prop
  | .incoming _ m => ∀ c, findConnection lib process.controller m = some (address, c) →
      (m.action = .respondingCreatedSession → c.state = .initialChallenge)
        ∧ (m.action = .sharingSessionKey → c.state = .challengeReply)
  | _ => True

/-- The states that follow a state. -/
def remainingStates : ConnectionRequestState → List ConnectionRequestState
  | .initialChallenge => [.sessionKeyShare, .complete]
  | .challengeReply => [.complete]
  | .sessionKeyShare => [.complete]
  | _ => []

/-- What is seen of a connection in the states of a run. -/
def observed (address : Nat) (visited : List (Process Key)) : List (ConnectionRequest Key) :=
  visited.filterMap fun process => process.controller.connections.get? address

/-- In order, a connection stays in its state or moves to the next, and sets its secret once. -/
theorem ConnectionMoves.inOrder {event : ProcessEvent Key}
    (h : ConnectionMoves lib process address c event c')
    (horder : InOrder lib address process event) (hsound : Sound c) :
    (c'.state = c.state ∨ remainingStates c.state = c'.state :: remainingStates c'.state)
      ∧ ∀ secret, c.sharedSecret = some secret → c'.sharedSecret = some secret := by
  cases h with
  | kept => exact ⟨Or.inl rfl, fun _ hsecret => hsecret⟩
  | shared env m secret haction hfind =>
      have hstate := (horder c hfind).1 haction
      refine ⟨Or.inr (by rw [hstate]; rfl), fun other hother => ?_⟩
      cases (hsound.sharedSecret_eq_none (Or.inl hstate)).symm.trans hother
  | confirmed env m secret haction hfind =>
      have hstate := (horder c hfind).2 haction
      refine ⟨Or.inr (by rw [hstate]; rfl), fun other hother => ?_⟩
      cases (hsound.sharedSecret_eq_none (Or.inr hstate)).symm.trans hother
  | completed env m secret haction hfind hkey =>
      refine ⟨?_, fun _ hsecret => hsecret⟩
      cases hsound with
      | started _ hnone => simp [hkey.held] at hnone
      | movedOn hmoved _ =>
          rcases hmoved with hshare | hcomplete
          · exact Or.inr (by rw [hshare]; rfl)
          · exact Or.inl hcomplete.symm

theorem nodup_remainingStates (state : ConnectionRequestState) :
    (state :: remainingStates state).Nodup := by
  cases state <;> decide

/-- Along a run in order for it the states walk along the remaining ones, and the secret is kept. -/
theorem observed_inOrder {events : List (ProcessEvent Key)}
    (hget : process.controller.connections.get? address = some c) (hsound : Sound c)
    (halong : Transition.Along (Process.step lib) (InOrder lib address) process events) :
    ∃ later, observed address (Transition.trace (Process.step lib) process events) = c :: later
      ∧ Phases.Walks (c.state :: remainingStates c.state) (later.map ConnectionRequest.state)
      ∧ (c :: later).Pairwise fun earlier afterwards =>
        ∀ secret, earlier.sharedSecret = some secret → afterwards.sharedSecret = some secret := by
  induction events generalizing process c with
  | nil => exact ⟨[], by simp [observed, Transition.trace, hget], trivial, by simp⟩
  | cons event events ih =>
      obtain ⟨horder, hrest⟩ := halong
      cases hstep : process.step lib event with
      | none => exact ⟨[], by simp [observed, Transition.trace, hget, hstep], trivial, by simp⟩
      | some next =>
          obtain ⟨c', hget', hmoves⟩ := connection_moves hstep hget
          obtain ⟨hstate, hsecret⟩ := hmoves.inOrder horder hsound
          obtain ⟨later, hlater, hwalks, hpairwise⟩ :=
            ih hget' (hmoves.sound hsound) (hrest next hstep)
          refine ⟨c' :: later, ?_, ?_, ?_⟩
          · rw [← hlater]
            simp [observed, Transition.trace, hget, hstep]
          · rcases hstate with hsame | hmoved
            · exact Or.inl ⟨hsame, hsame ▸ hwalks⟩
            · exact Or.inr ⟨_, _, hmoved, rfl, hwalks⟩
          · refine List.pairwise_cons.mpr ⟨fun afterwards hmem secret heq => ?_, hpairwise⟩
            rcases List.mem_cons.mp hmem with rfl | hmem
            · exact hsecret secret heq
            · exact (List.pairwise_cons.mp hpairwise).1 afterwards hmem secret
                (hsecret secret heq)

/-- Whatever comes, a connection stays, keeps its identity, and has a secret once it moved on. -/
theorem request_run {final : Process Key} {events : List (ProcessEvent Key)}
    (hrun : Transition.run (Process.step lib) process events = some final)
    (hget : process.controller.connections.get? address = some c) (hsound : Sound c) :
    ∃ c', final.controller.connections.get? address = some c' ∧ Sound c' ∧ SameRequest c c' := by
  let Inv : Process Key → Prop := fun process =>
    ∃ c', process.controller.connections.get? address = some c' ∧ Sound c' ∧ SameRequest c c'
  have hinit : Inv process := ⟨c, hget, hsound, ⟨rfl, rfl, rfl, rfl⟩⟩
  have hkept : ∀ before event after, Inv before → before.step lib event = some after →
      Inv after := by
    rintro before event after ⟨c₁, hget₁, hsound₁, hsame₁⟩ hstep
    obtain ⟨c₂, hget₂, hmoves⟩ := connection_moves hstep hget₁
    have hsame₂ : SameRequest c₁ c₂ := hmoves.sameRequest
    exact ⟨c₂, hget₂, hmoves.sound hsound₁, hsame₁.trans hsame₂⟩
  exact Transition.run_invariant hkept hrun hinit

/-- The states of a connection, by the event that opens it. -/
def openedStates : ProcessEvent Key → Option (List ConnectionRequestState)
  | .initiation _ _ => some [.initialChallenge, .sessionKeyShare, .complete]
  | .incoming _ m =>
      if m.action = .createSession then some [.challengeReply, .complete] else none
  | _ => none

theorem opens_connection {event : ProcessEvent Key} {states : List ConnectionRequestState}
    (hopens : openedStates event = some states) (hstep : process.step lib event = some next) :
    ∃ c, next.controller.connections.get? process.controller.connections.next = some c
      ∧ Sound c ∧ c.state :: remainingStates c.state = states := by
  cases process_step_cases hstep with
  | initiated env remote =>
      obtain rfl := Option.some.inj hopens
      exact ⟨_, Arena.get?_add_next _ _, .started (Or.inl rfl) rfl, rfl⟩
  | processed env m remote outcome hknown hprocessed =>
      obtain ⟨haction, hstates⟩ := Option.ite_none_right_eq_some.mp hopens
      obtain rfl := Option.some.inj hstates
      cases hprocessed with
      | createSession _ hfind =>
          exact ⟨_, Arena.get?_add_next _ _, .started (Or.inr rfl) rfl, rfl⟩
      | respondingCreatedSession other old cipher hother => simp [haction] at hother
      | sharingSessionKey other old decrypted secret hother => simp [haction] at hother
      | completedSession other old secret hother => simp [haction] at hother
      | communicatingSession other old secret hother => simp [haction] at hother
  | discovered call peers hcall => cases hopens
  | sent envs s text len messages hsent => cases hopens
  | idle hmux => cases hopens
  | emitted message rest remotePeer hmux hfound => cases hopens

section Run

open Concrete

/-- Bob's connection, completed. -/
def completedEvents : List (ProcessEvent CString) :=
  sharedEvents ++ [.incoming (ambient bob (guid 8) fun _ => 0)
    (toBob 1 .completedSession (libraries.des.encrypt secretA (okay.bytes ++ [0])))]

end Run

end WhisperCore
