import WhisperCore.Proof.Completion
import WhisperCore.Proof.Isolation

/-!
# Sending over a session

The send loop walks a session's connections and stops at the first that is pending. Over a session
that is ready it pushes one message for each connection, because a complete connection has a secret.
Over one that is not it pushes nothing as long as what stands before the pending connection has
nothing to send under, which after a handshake means: as long as the pending connection comes first.
-/

namespace WhisperCore

variable {Key : Type} {lib : Libraries Key} {envs : Nat → Ambient Key} {process next : Process Key}
  {controller : ConnectionController Key} {s : Session} {text : Bytes} {len : Nat}

/-! ### A complete connection has a secret -/

/-- Every complete connection holds the eight bytes of a key. -/
def Keyed (controller : ConnectionController Key) : Prop :=
  ∀ address c, controller.connections.get? address = some c → c.state = .complete →
    ∃ secret, c.HasKey secret

theorem Keyed.add (h : Keyed controller) {c : ConnectionRequest Key} (hc : c.state ≠ .complete) :
    Keyed (connectionControllerAddConnectionRequest controller c) := by
  intro address c' hget hcomplete
  rcases Arena.get?_add_eq_some_iff.mp hget with hold | ⟨_, rfl⟩
  · exact h address c' hold hcomplete
  · exact absurd hcomplete hc

theorem Keyed.set (h : Keyed controller) {address : Nat} {new : ConnectionRequest Key}
    (hnew : new.state = .complete → ∃ secret, new.HasKey secret) :
    Keyed (controller.setConnection address new) := by
  intro other c' hget hcomplete
  rcases get?_setConnection_cases hget with ⟨_, rfl⟩ | hold
  · exact hnew hcomplete
  · exact h other c' hold hcomplete

theorem Processed.keyed {env : Ambient Key} {message : Wpmessage} {remote : Peer}
    {outcome : Outcome Key} (h : Processed lib env controller message remote outcome)
    (hkeyed : Keyed controller) : Keyed outcome.controller := by
  cases h with
  | createSession haction hfind =>
      apply hkeyed.add
      nofun
  | respondingCreatedSession address c cipher haction hfind hcipher =>
      apply hkeyed.set
      nofun
  | sharingSessionKey address c decrypted secret haction hfind hdecrypt hdecode hlong =>
      apply hkeyed.set
      exact fun _ => ⟨secret, rfl, hlong⟩
  | completedSession address c secret haction hfind hkey =>
      apply hkeyed.set
      exact fun _ => ⟨secret, hkey.held, hkey.long⟩
  | communicatingSession address c secret haction hfind hkey => exact hkeyed

theorem Keyed.step {event : ProcessEvent Key} (h : Keyed process.controller)
    (hstep : process.step lib event = some next) : Keyed next.controller := by
  cases process_step_cases hstep with
  | discovered call peers hcall => exact h
  | initiated env remote =>
      apply h.add
      nofun
  | processed env m remote outcome hknown hprocessed => exact hprocessed.keyed h
  | sent envs s text len messages hsent => exact h
  | idle hmux => exact h
  | emitted message rest remotePeer hmux hfound => exact h

theorem keyed_of_reachable (h : process.Reachable lib) : Keyed process.controller := by
  obtain ⟨port, localPeer, isActivePeer, now, nc, ic, cmr, events, hrun⟩ := h
  have hkept : ∀ (before : Process Key) event after, Keyed before.controller →
      before.step lib event = some after → Keyed after.controller :=
    fun _ _ _ hbefore hstep => hbefore.step hstep
  apply Transition.run_invariant hkept hrun
  intro address c hget
  cases hget

/-! ### A ready session -/

/-- What a send pushes for the connection at an address: a message of its own, encrypted under its
own secret. -/
def SentFor (lib : Libraries Key) (env : Ambient Key) (controller : ConnectionController Key)
    (text : Bytes) (len address : Nat) (out : Wpmessage) : Prop :=
  ∃ c secret, controller.connections.get? address = some c ∧ c.HasKey secret
    ∧ out.action = .communicatingSession
    ∧ out.id = lib.guid.toString c.id
    ∧ out.sender = lib.guid.toString controller.ds.peers.localPeer.guid
    ∧ out.recipient = lib.guid.toString c.remote.guid
    ∧ out.rawdata = readBytes (communicationCiphertext lib text len secret ++ env.afterCiphertext)
      (strlen (communicationCiphertext lib text len secret ++ env.afterCiphertext) + 1)

theorem sentFor_communicationMessage {env : Ambient Key} (hlocal : FromLocalPeer controller)
    {address : Nat} {c : ConnectionRequest Key} {secret : Bytes}
    (hget : controller.connections.get? address = some c) (hkey : c.HasKey secret) :
    SentFor lib env controller text len address
      (communicationMessage lib env c text len secret) := by
  refine ⟨c, secret, hget, hkey, rfl, rfl, ?_, rfl, rfl⟩
  show lib.guid.toString c.localPeer.guid = _
  rw [hlocal address c hget, Peer.ref_guid]

theorem sendList_of_ready (hkeyed : Keyed controller) (hlocal : FromLocalPeer controller)
    {addresses : List Nat} (hready : isReadyList controller addresses = .ok true)
    (envs : Nat → Ambient Key) (text : Bytes) (len : Nat) :
    ∃ messages, sendList lib envs controller text len addresses = .ok messages
      ∧ messages.length = addresses.length
      ∧ ∀ (i address : Nat) (out : Wpmessage), addresses[i]? = some address →
        messages[i]? = some out → SentFor lib (envs i) controller text len address out := by
  induction addresses generalizing envs with
  | nil => exact ⟨[], rfl, rfl, fun i address out haddress => by simp at haddress⟩
  | cons address rest ih =>
      unfold isReadyList at hready
      cases hget : controller.connections.get? address with
      | none => simp [hget] at hready
      | some c =>
          have hcomplete : c.state = .complete := by
            by_contra hpending
            simp [hget, hpending] at hready
          simp only [hget, hcomplete, ne_eq, not_true_eq_false, if_false] at hready
          obtain ⟨secret, hkey⟩ := hkeyed address c hget hcomplete
          obtain ⟨messages, hsend, hlength, hall⟩ := ih hready fun i => envs (i + 1)
          refine ⟨communicationMessage lib (envs 0) c text len secret :: messages, ?_, ?_, ?_⟩
          · simp only [sendList, hget, hcomplete, ne_eq, not_true_eq_false, if_false,
              connectionControllerConnectionRequestSendMessage,
              connectionRequestSendMessage_eq_ok hkey, hsend]
            rfl
          · rw [List.length_cons, List.length_cons, hlength]
          · intro i other out hother hout
            cases i with
            | zero =>
                obtain rfl : address = other := by simpa using hother
                obtain rfl : communicationMessage lib (envs 0) c text len secret = out := by
                  simpa using hout
                exact sentFor_communicationMessage hlocal hget hkey
            | succ i =>
                rw [List.getElem?_cons_succ] at hother hout
                exact hall i other out hother hout

/-- **Ready means sendable.** Over a session that is ready, in any state a process reaches, a send
pushes exactly one message for each connection of the session, in the order of its list. -/
theorem ready_sends (hreachable : process.Reachable lib)
    (hready : sessionControllerIsSessionReady process.controller s = .ok true)
    (envs : Nat → Ambient Key) (text : Bytes) (len : Nat) :
    ∃ messages,
      sessionControllerSessionSendMessage lib envs process.controller s text len = .ok messages
      ∧ messages.length = s.connectionRequestList.length
      ∧ ∀ (i address : Nat) (out : Wpmessage), s.connectionRequestList[i]? = some address →
        messages[i]? = some out → SentFor lib (envs i) process.controller text len address out := by
  have hlist : isReadyList process.controller s.connectionRequestList = .ok true := by
    unfold sessionControllerIsSessionReady at hready
    cases haddresses : s.connectionRequestList with
    | nil => rfl
    | cons address rest =>
        rw [haddresses] at hready
        exact hready
  exact sendList_of_ready (keyed_of_reachable hreachable) (fromLocalPeer_of_reachable hreachable)
    hlist envs text len

/-! ### A session that is not ready -/

/-- Some connection of the session is not complete. -/
def HasPending (controller : ConnectionController Key) (s : Session) : Prop :=
  ∃ address ∈ s.connectionRequestList, ∃ c, controller.connections.get? address = some c
    ∧ c.state ≠ .complete

/-- Over a session with a pending connection the send pushes nothing. -/
def RefusesWhole (lib : Libraries Key) (envs : Nat → Ambient Key)
    (controller : ConnectionController Key) (s : Session) (text : Bytes) (len : Nat) : Prop :=
  HasPending controller s →
    sessionControllerSessionSendMessage lib envs controller s text len = .ok []

/-- Every connection before the first pending one is there and has no secret to send under. -/
def NothingToSendBefore (controller : ConnectionController Key) (addresses : List Nat) : Prop :=
  ∃ before address after c, addresses = before ++ address :: after
    ∧ controller.connections.get? address = some c ∧ c.state ≠ .complete
    ∧ ∀ earlier ∈ before, ∃ r, controller.connections.get? earlier = some r
      ∧ r.state = .complete ∧ r.sharedSecret = none

theorem nothingToSendBefore_cons_iff {address : Nat} {rest : List Nat}
    {c : ConnectionRequest Key} (hget : controller.connections.get? address = some c) :
    NothingToSendBefore controller (address :: rest)
      ↔ c.state ≠ .complete
        ∨ c.state = .complete ∧ c.sharedSecret = none ∧ NothingToSendBefore controller rest := by
  constructor
  · rintro ⟨before, pending, after, p, hsplit, hp, hstate, hbefore⟩
    cases before with
    | nil =>
        obtain ⟨rfl, rfl⟩ := List.cons.inj hsplit
        obtain rfl := Option.some.inj (hget.symm.trans hp)
        exact Or.inl hstate
    | cons first before =>
        obtain ⟨rfl, rfl⟩ := List.cons.inj hsplit
        obtain ⟨r, hr, hcomplete, hsecret⟩ := hbefore address List.mem_cons_self
        obtain rfl := Option.some.inj (hget.symm.trans hr)
        exact Or.inr ⟨hcomplete, hsecret, before, pending, after, p, rfl, hp, hstate,
          fun earlier hearlier => hbefore earlier (List.mem_cons_of_mem _ hearlier)⟩
  · rintro (hstate | ⟨hcomplete, hsecret, before, pending, after, p, rfl, hp, hstate, hbefore⟩)
    · exact ⟨[], address, rest, c, rfl, hget, hstate, by simp⟩
    · refine ⟨address :: before, pending, after, p, rfl, hp, hstate, fun earlier hearlier => ?_⟩
      rcases List.mem_cons.mp hearlier with rfl | hearlier
      · exact ⟨c, hget, hcomplete, hsecret⟩
      · exact hbefore earlier hearlier

theorem connectionRequestSendMessage_eq_none_iff {env : Ambient Key} {c : ConnectionRequest Key} :
    connectionRequestSendMessage lib env c text len = .ok none ↔ c.sharedSecret = none := by
  constructor
  · intro h
    rcases connectionRequestSendMessage_cases h with ⟨hsecret, _⟩ | ⟨secret, _, hsome⟩
    · exact hsecret
    · cases hsome
  · intro hsecret
    simp [connectionRequestSendMessage, hsecret]

/-- An iteration and the rest of the loop push nothing when neither does. -/
theorem send_then_eq_nil_iff {sent : Except Stop (Option Wpmessage)}
    {later : Except Stop (List Wpmessage)} :
    (do
      let sent ← sent
      let later ← later
      return sent.toList ++ later) = .ok [] ↔ sent = .ok none ∧ later = .ok [] := by
  cases sent with
  | error stop => exact iff_of_false nofun nofun
  | ok sent =>
      cases later with
      | error stop => exact iff_of_false nofun nofun
      | ok later =>
          cases sent with
          | none =>
              constructor
              · intro h
                exact ⟨rfl, h⟩
              · rintro ⟨_, h⟩
                exact h
          | some message => exact iff_of_false nofun nofun

/-- A list with a pending connection on which the loop pushes nothing. -/
theorem sendList_eq_nil_iff {addresses : List Nat}
    (hpending : ∃ address ∈ addresses, ∃ c, controller.connections.get? address = some c
      ∧ c.state ≠ .complete) (envs : Nat → Ambient Key) (text : Bytes) (len : Nat) :
    sendList lib envs controller text len addresses = .ok []
      ↔ NothingToSendBefore controller addresses := by
  induction addresses generalizing envs with
  | nil => simp at hpending
  | cons address rest ih =>
      unfold sendList
      cases hget : controller.connections.get? address with
      | none =>
          constructor
          · intro hsent
            cases hsent
          · rintro ⟨before, pending, after, p, hsplit, hp, hstate, hbefore⟩
            cases before with
            | nil =>
                obtain ⟨rfl, rfl⟩ := List.cons.inj hsplit
                cases hget.symm.trans hp
            | cons first before =>
                obtain ⟨rfl, rfl⟩ := List.cons.inj hsplit
                obtain ⟨r, hr, _⟩ := hbefore address List.mem_cons_self
                cases hget.symm.trans hr
      | some c =>
          rw [nothingToSendBefore_cons_iff hget]
          by_cases hcomplete : c.state = .complete
          · have hrest : ∃ address ∈ rest, ∃ c, controller.connections.get? address = some c
                ∧ c.state ≠ .complete := by
              obtain ⟨pending, hmem, p, hp, hstate⟩ := hpending
              rcases List.mem_cons.mp hmem with rfl | hmem
              · obtain rfl := Option.some.inj (hget.symm.trans hp)
                exact absurd hcomplete hstate
              · exact ⟨pending, hmem, p, hp, hstate⟩
            simp only [hcomplete, ne_eq, not_true_eq_false, if_false, false_or, true_and,
              connectionControllerConnectionRequestSendMessage]
            rw [← ih hrest fun i => envs (i + 1), ← connectionRequestSendMessage_eq_none_iff]
            exact send_then_eq_nil_iff
          · simp [hcomplete]

/-- **A refused send, exactly.** Over a session with a pending connection a send pushes nothing if
and only if no connection before the first pending one has a secret to send under. -/
theorem refusesWhole_iff (lib : Libraries Key) (envs : Nat → Ambient Key)
    (controller : ConnectionController Key) (s : Session) (text : Bytes) (len : Nat) :
    RefusesWhole lib envs controller s text len
      ↔ (HasPending controller s → NothingToSendBefore controller s.connectionRequestList) :=
  forall_congr' fun hpending => sendList_eq_nil_iff hpending envs text len

/-- In the states a process reaches, that is to say that the pending connection comes first. -/
theorem nothingToSendBefore_iff_head (hkeyed : Keyed controller) {addresses : List Nat} :
    NothingToSendBefore controller addresses
      ↔ ∃ address rest c, addresses = address :: rest
        ∧ controller.connections.get? address = some c ∧ c.state ≠ .complete := by
  constructor
  · rintro ⟨before, address, after, c, rfl, hget, hstate, hbefore⟩
    cases before with
    | nil => exact ⟨address, after, c, rfl, hget, hstate⟩
    | cons earlier before =>
        obtain ⟨r, hr, hcomplete, hnone⟩ := hbefore earlier List.mem_cons_self
        obtain ⟨secret, hkey⟩ := hkeyed earlier r hr hcomplete
        cases hnone.symm.trans hkey.held
  · rintro ⟨address, rest, c, rfl, hget, hstate⟩
    exact ⟨[], address, rest, c, rfl, hget, hstate, by simp⟩

section Run

open Concrete

/-- Bob's connection to Al is complete, the one to the other peer has just been opened. -/
def halfReadyEvents : List (ProcessEvent CString) :=
  completedEvents ++ [.initiation (ambient bob (guid 9) fun _ => 0) (peer 2 bob).ref]

def sessionOfBob : Session := ⟨guid 20, [0, 1]⟩

/-- Both are complete, under different secrets. -/
def readyEvents : List (ProcessEvent CString) :=
  halfReadyEvents ++ [
    .incoming (ambient bob (guid 9) drawsL) { toBob 2 .respondingCreatedSession
      (base64.encode bob.bytes).bytes with id := guidStrings.toString (guid 9) },
    .incoming (ambient bob (guid 9) fun _ => 0) { toBob 2 .completedSession
      (libraries.des.encrypt secretL (okay.bytes ++ [0])) with
      id := guidStrings.toString (guid 9) }]

theorem ready_sends_completed :
    ∃ messages,
      sessionControllerSessionSendMessage libraries (fun _ => ambient bob (guid 9) fun _ => 0)
        (processAfter readyEvents).controller sessionOfBob okay.bytes 4 = .ok messages
      ∧ messages.length = 2
      ∧ ∀ (i address : Nat) (out : Wpmessage), [0, 1][i]? = some address →
        messages[i]? = some out →
        SentFor libraries (ambient bob (guid 9) fun _ => 0)
          (processAfter readyEvents).controller okay.bytes 4 address out :=
  ready_sends (s := sessionOfBob) (reachable_processAfter readyEvents (by decide +kernel))
    (by decide +kernel) _ _ _

/-- Half of the session's peers are sent the text. -/
theorem not_refusesWhole_halfReadySession :
    ∃ (process : Process CString) (out : Wpmessage), process.Reachable libraries
      ∧ HasPending process.controller sessionOfBob
      ∧ sessionControllerSessionSendMessage libraries (fun _ => ambient bob (guid 9) fun _ => 0)
        process.controller sessionOfBob okay.bytes 4 = .ok [out]
      ∧ ¬ RefusesWhole libraries (fun _ => ambient bob (guid 9) fun _ => 0) process.controller
        sessionOfBob okay.bytes 4 := by
  have hpending : HasPending (processAfter halfReadyEvents).controller sessionOfBob := by
    refine ⟨1, by decide, ⟨guid 9, .initialChallenge, ⟨0, guid 0⟩, ⟨2, guid 2⟩, bob, none⟩, ?_, ?_⟩
    · decide +kernel
    · decide
  obtain ⟨out, hsend⟩ : ∃ out, sessionControllerSessionSendMessage libraries
      (fun _ => ambient bob (guid 9) fun _ => 0) (processAfter halfReadyEvents).controller
      sessionOfBob okay.bytes 4 = .ok [out] := ⟨_, rfl⟩
  refine ⟨_, out, reachable_processAfter halfReadyEvents (by decide +kernel), hpending, hsend, ?_⟩
  intro hrefuses
  cases hsend.symm.trans (hrefuses hpending)

end Run

end WhisperCore
