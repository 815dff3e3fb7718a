import WhisperCore.Proof.Agreement

/-!
# Progress of the handshake

As long as the parties of a handshake run and know each other, the message it waits for is in
flight, the node that message goes to accepts it, and with that the handshake is in its next phase.
-/

namespace WhisperCore

variable {Key : Type} {lib : Libraries Key} {net next : Net Key} {phase after : Phase Key}
  {i g h : Guid}

/-! ### Phases to come -/

namespace Phase

/-- How often the handshake has still to move on. -/
def remaining : Phase Key → Nat
  | unused => 5
  | created _ _ _ => 4
  | replied _ => 3
  | shared _ _ => 2
  | confirmed _ _ => 1
  | complete _ _ => 0

def Between : Phase Key → (initiator responder : Guid) → Prop
  | unused, _, _ => False
  | created initiator responder _, g, h => initiator = g ∧ responder = h
  | replied p, g, h => p.initiator = g ∧ p.responder = h
  | shared p _, g, h => p.initiator = g ∧ p.responder = h
  | confirmed p _, g, h => p.initiator = g ∧ p.responder = h
  | complete p _, g, h => p.initiator = g ∧ p.responder = h

theorem Advances.remaining_eq (hadvance : phase.Advances g after) :
    phase.remaining = after.remaining + 1 := by
  cases hadvance <;> rfl

theorem Advances.between {initiator responder : Guid} (hadvance : phase.Advances g after)
    (hbetween : phase.Between initiator responder) : after.Between initiator responder := by
  cases hadvance with
  | create => exact hbetween.elim
  | reply => exact hbetween
  | share => exact hbetween
  | confirm => exact hbetween
  | complete => exact hbetween

/-- The message under way goes from one party to the other. -/
theorem Between.route {initiator responder : Guid} (hbetween : phase.Between initiator responder)
    {action : SelectedAction} {sender recipient : Guid}
    (hexpects : phase.expects = some (action, sender, recipient)) :
    (sender = initiator ∧ recipient = responder)
      ∨ (sender = responder ∧ recipient = initiator) := by
  cases phase with
  | unused => exact hbetween.elim
  | created initiator responder key =>
      obtain ⟨rfl, rfl⟩ := hbetween
      obtain ⟨_, rfl, rfl⟩ := by simpa [expects] using hexpects
      exact Or.inl ⟨rfl, rfl⟩
  | replied p =>
      obtain ⟨rfl, rfl⟩ := hbetween
      obtain ⟨_, rfl, rfl⟩ := by simpa [expects] using hexpects
      exact Or.inr ⟨rfl, rfl⟩
  | shared p σ =>
      obtain ⟨rfl, rfl⟩ := hbetween
      obtain ⟨_, rfl, rfl⟩ := by simpa [expects] using hexpects
      exact Or.inl ⟨rfl, rfl⟩
  | confirmed p σ =>
      obtain ⟨rfl, rfl⟩ := hbetween
      obtain ⟨_, rfl, rfl⟩ := by simpa [expects] using hexpects
      exact Or.inr ⟨rfl, rfl⟩
  | complete p σ => cases hexpects

/-- A phase with moves to come waits for a message. -/
theorem Between.exists_expects {initiator responder : Guid}
    (hbetween : phase.Between initiator responder) (hremaining : phase.remaining ≠ 0) :
    ∃ action sender recipient, phase.expects = some (action, sender, recipient) := by
  cases phase with
  | unused => exact hbetween.elim
  | created initiator responder key => exact ⟨_, _, _, rfl⟩
  | replied p => exact ⟨_, _, _, rfl⟩
  | shared p σ => exact ⟨_, _, _, rfl⟩
  | confirmed p σ => exact ⟨_, _, _, rfl⟩
  | complete p σ => exact absurd rfl hremaining

/-- The handshake of an id runs between two nodes, one way or the other. -/
def Joins (phase : Phase Key) (g h : Guid) : Prop := phase.Between g h ∨ phase.Between h g

theorem Joins.follows (hjoins : phase.Joins g h) (hfollows : phase.Follows after) :
    after.Joins g h := by
  obtain rfl | ⟨_, hadvance⟩ := hfollows
  · exact hjoins
  · exact hjoins.imp hadvance.between hadvance.between

/-- What a handshake between two nodes waits for goes from the one to the other. -/
theorem Joins.route (hjoins : phase.Joins g h) {action : SelectedAction}
    {sender recipient : Guid} (hexpects : phase.expects = some (action, sender, recipient)) :
    (sender = g ∧ recipient = h) ∨ (sender = h ∧ recipient = g) := by
  rcases hjoins with hbetween | hbetween
  · exact hbetween.route hexpects
  · exact (hbetween.route hexpects).symm

theorem Joins.exists_expects (hjoins : phase.Joins g h) (hremaining : phase.remaining ≠ 0) :
    ∃ action sender recipient, phase.expects = some (action, sender, recipient) := by
  rcases hjoins with hbetween | hbetween
  · exact hbetween.exists_expects hremaining
  · exact hbetween.exists_expects hremaining

/-- At most four moves are to come once a handshake has begun. -/
theorem Joins.remaining_le (hjoins : phase.Joins g h) : phase.remaining ≤ 4 := by
  cases phase with
  | unused => exact (or_self_iff.mp hjoins).elim
  | created initiator responder key => exact le_rfl
  | replied p => exact Nat.le_succ 3
  | shared p σ => exact Nat.le_of_ble_eq_true rfl
  | confirmed p σ => exact Nat.le_of_ble_eq_true rfl
  | complete p σ => exact Nat.zero_le 4

theorem Follows.remaining_le (hfollows : phase.Follows after) :
    after.remaining ≤ phase.remaining := by
  obtain rfl | ⟨_, hadvance⟩ := hfollows
  · exact le_rfl
  · exact hadvance.remaining_eq ▸ Nat.le_succ _

/-- The parties of a handshake are a node that holds a connection request of it and the remote one
of that request. -/
theorem joins_of_mem_holds {v : View Key} (hv : v ∈ phase.holds g) :
    phase.Joins g v.remoteGuid := by
  cases phase with
  | unused => simp [holds] at hv
  | created initiator responder key =>
      obtain ⟨rfl, rfl⟩ : g = initiator
          ∧ v = ⟨.initialChallenge, initiator, responder, key, none⟩ := by
        simpa [holds] using hv
      exact Or.inl ⟨rfl, rfl⟩
  | replied p =>
      rcases Parties.mem_hold.mp hv with ⟨rfl, rfl⟩ | ⟨rfl, rfl⟩
      · exact Or.inl ⟨rfl, rfl⟩
      · exact Or.inr ⟨rfl, rfl⟩
  | shared p σ =>
      rcases Parties.mem_hold.mp hv with ⟨rfl, rfl⟩ | ⟨rfl, rfl⟩
      · exact Or.inl ⟨rfl, rfl⟩
      · exact Or.inr ⟨rfl, rfl⟩
  | confirmed p σ =>
      rcases Parties.mem_hold.mp hv with ⟨rfl, rfl⟩ | ⟨rfl, rfl⟩
      · exact Or.inl ⟨rfl, rfl⟩
      · exact Or.inr ⟨rfl, rfl⟩
  | complete p σ =>
      rcases Parties.mem_hold.mp hv with ⟨rfl, rfl⟩ | ⟨rfl, rfl⟩
      · exact Or.inl ⟨rfl, rfl⟩
      · exact Or.inr ⟨rfl, rfl⟩

end Phase

/-! ### Acceptance -/

/-- The connection the phase says a node holds is the one the processor finds. -/
theorem Shows.exists_found (hshows : Shows lib i net phase) {m : Wpmessage}
    (hid : lib.guid.fromString m.id = i) {v : View Key} (hholds : phase.holds g = [v]) :
    ∃ address c, findConnection lib (net.nodes g).controller m = some (address, c)
      ∧ c.view = v := by
  have hconnections := hshows.connections g
  rw [hholds] at hconnections
  obtain ⟨⟨address, c⟩, hselect, hview⟩ := List.map_eq_singleton_iff.mp hconnections
  refine ⟨address, c, ?_, hview⟩
  rw [findConnection_eq_head?, hid]
  exact congrArg List.head? hselect

theorem Shows.not_found (hshows : Shows lib i net phase) {m : Wpmessage}
    (hid : lib.guid.fromString m.id = i) (hholds : phase.holds g = []) :
    findConnection lib (net.nodes g).controller m = none := by
  have hconnections := hshows.connections g
  rw [hholds] at hconnections
  rw [findConnection_eq_head?, hid]
  exact congrArg List.head? (List.map_eq_nil_iff.mp hconnections)

/-- A public key read back from its PEM has room for an encoded secret. -/
def SealsSecrets (lib : Libraries Key) : Prop :=
  ∀ (key : Key) (env : Ambient Key), ∃ remote cipher,
    lib.rsa.readPublicString (lib.rsa.publicString key) = some remote
      ∧ asymmetricalEncrypt lib.rsa env remote
        (lib.base64.encode (generateSharedSecret env.draws)).bytes = some cipher

theorem SealsSecrets.exists_sealedSecret (hseals : SealsSecrets lib) {m : Wpmessage} {key : Key}
    (hpayload : m.rawdata
      = (lib.base64.encode (asymmetricalKeyToString lib.rsa key).bytes).bytes)
    (env : Ambient Key) : ∃ cipher, sealedSecret lib env m = some cipher := by
  obtain ⟨remote, cipher, hremote, hcipher⟩ := hseals key env
  refine ⟨cipher, ?_⟩
  rw [sealedSecret, hpayload, lib.base64.decode_encode]
  simp [asymmetricalKeyFromString, asymmetricalKeyToString, hremote, hcipher]

/-- **Acceptance.** The expected message is processed to the end by a node that knows its sender. -/
theorem Shows.accepts {m : Wpmessage} (hshows : Shows lib (lib.guid.fromString m.id) net phase)
    (hexpected : Expected lib phase m) (hseals : SealsSecrets lib)
    (hrecipient : lib.guid.fromString m.recipient = g) (hother : lib.guid.fromString m.sender ≠ g)
    {remote : Peer} (hknown : KnownSender lib (net.nodes g).controller m remote)
    (env : Ambient Key) :
    ∃ outcome, internalConnnectionMessageProcessor lib env (net.nodes g).controller m
      = .ok outcome := by
  have hroute := hexpected.route
  rw [hrecipient] at hroute
  rw [hknown.processor_eq, processAction]
  cases haction : m.action with
  | createSession =>
      rw [haction] at hroute
      obtain ⟨key, rfl⟩ := Phase.of_expects hroute
      have hfind := hshows.not_found (g := g) rfl (by rw [Phase.holds, if_neg hother.symm])
      rw [hfind]
      exact ⟨_, rfl⟩
  | respondingCreatedSession =>
      rw [haction] at hroute
      obtain ⟨p, rfl, _, rfl⟩ := Phase.of_expects hroute
      obtain ⟨address, c, hfind, _⟩ := hshows.exists_found rfl Parties.hold_initiator
      obtain ⟨cipher, hcipher⟩ := hseals.exists_sealedSecret hexpected.payload env
      have hexchange := exchangeSessionKeyShare_eq_ok_iff
        (c := { c with state := .sessionKeyShare })
        |>.mpr ⟨cipher, hcipher, rfl, rfl⟩
      simp only [hfind, processRespondingCreatedSession, connectionRequestCreateExchangeMessage,
        hexchange]
      exact ⟨_, rfl⟩
  | sharingSessionKey =>
      rw [haction] at hroute
      obtain ⟨p, σ, rfl, _, rfl⟩ := Phase.of_expects hroute
      obtain ⟨address, c, hfind, hview⟩ := hshows.exists_found rfl Parties.hold_responder
      have hkey : c.keypair = p.responderKey := congrArg View.keypair hview
      have hdecrypt : asymmetricalDecrypt lib.rsa c.keypair m.rawdata m.rawdata.length
          = some (lib.base64.encode σ.bytes).bytes := by
        rw [hkey]
        exact hexpected.payload
      let completed : ConnectionRequest Key :=
        { c with state := .complete, sharedSecret := some σ.bytes }
      have hexchange : exchangeComplete lib env completed
          = .ok (completionMessage lib env completed σ.bytes) :=
        exchangeComplete_eq_ok_iff.mpr ⟨σ.bytes, ⟨rfl, σ.length_eq.ge⟩, rfl⟩
      simp only [hfind, processSharingSessionKey, hdecrypt, Option.bind_some,
        lib.base64.decode_encode, connectionRequestCreateExchangeMessage, completed, hexchange]
      exact ⟨_, rfl⟩
  | completedSession =>
      rw [haction] at hroute
      obtain ⟨p, σ, rfl, _, rfl⟩ := Phase.of_expects hroute
      obtain ⟨address, c, hfind, hview⟩ := hshows.exists_found rfl Parties.hold_initiator
      have hkey : c.HasKey σ.bytes := ⟨congrArg View.sharedSecret hview, σ.length_eq.ge⟩
      simp only [hfind, processCompletedSession_eq_ok hkey]
      exact ⟨_, rfl⟩
  | communicatingSession => exact absurd haction hexpected.action_ne

/-! ### What is waited for -/

/-- A handshake message of the id is in flight. -/
def HandshakeInFlight (lib : Libraries Key) (i : Guid) (inFlight : List InFlight) : Prop :=
  ∃ f ∈ inFlight, lib.guid.fromString f.message.id = i ∧ f.message.action ≠ .communicatingSession

/-- The message the phase waits for is in flight, unless the node it goes to has stopped. -/
def Pending (lib : Libraries Key) (i : Guid) (net : Net Key) (phase : Phase Key) : Prop :=
  ∀ action sender recipient, phase.expects = some (action, sender, recipient) →
    (net.nodes recipient).running = true → HandshakeInFlight lib i net.inFlight

theorem resume_running (net : Net Key) (g g' : Guid) (controller : ConnectionController Key) :
    ((net.resume g controller).nodes g').running = (net.nodes g').running := by
  by_cases hg : g' = g
  · subst hg
    simp [Net.resume]
  · simp [Net.resume, hg]

theorem running_of_halt {g' : Guid} (h : ((net.halt g).nodes g').running = true) :
    g' ≠ g ∧ (net.nodes g').running = true := by
  by_cases hg : g' = g
  · subst hg
    simp [Net.halt] at h
  · simpa [Net.halt, hg] using h

/-- What is waited for stays in flight when no handshake message of the id is taken out and no node
is started. -/
theorem Pending.frame (hpending : Pending lib i net phase)
    (hrunning : ∀ g, (next.nodes g).running = true → (net.nodes g).running = true)
    (hkept : HandshakeInFlight lib i net.inFlight → HandshakeInFlight lib i next.inFlight) :
    Pending lib i next phase :=
  fun action sender recipient hexpects hruns =>
    hkept (hpending action sender recipient hexpects (hrunning recipient hruns))

theorem HandshakeInFlight.append {first : List InFlight} (h : HandshakeInFlight lib i first)
    (second : List InFlight) : HandshakeInFlight lib i (first ++ second) := by
  obtain ⟨f, hf, hmine⟩ := h
  exact ⟨f, List.mem_append_left second hf, hmine⟩

/-- Taking out a message that is not a handshake message of the id takes none of these out. -/
theorem HandshakeInFlight.take_out {f : InFlight} {earlier later : List InFlight}
    (h : HandshakeInFlight lib i net.inFlight) (hsplit : net.inFlight = earlier ++ f :: later)
    (hother : ¬(lib.guid.fromString f.message.id = i ∧ f.message.action ≠ .communicatingSession)) :
    HandshakeInFlight lib i (earlier ++ later) := by
  obtain ⟨other, hmem, hmine⟩ := h
  refine ⟨other, ?_, hmine⟩
  rw [hsplit] at hmem
  rcases List.mem_append.mp hmem with hearlier | hlater
  · exact List.mem_append_left later hearlier
  · rcases List.mem_cons.mp hlater with rfl | hlater
    · exact absurd hmine hother
    · exact List.mem_append_right earlier hlater

theorem mem_connectionsOf_proceed {outcome : Outcome Key} {rest : List InFlight} {address : Nat}
    {c : ConnectionRequest Key}
    (hget : outcome.controller.connections.get? address = some c) (hid : c.id = i) :
    (address, c) ∈ (net.proceed g outcome rest).connectionsOf i g := by
  have hresume := connectionsOf_resume net i g g outcome.controller
  rw [if_pos rfl] at hresume
  have hmem : (address, c) ∈ (net.resume g outcome.controller).connectionsOf i g :=
    hresume ▸ Arena.mem_select.mpr ⟨hget, decide_eq_true hid⟩
  exact hmem

/-- The phase an id shows is settled by the message in flight for it. -/
theorem Shows.expects_of_pushed {m : Wpmessage} {rest : List InFlight} {outcome : Outcome Key}
    (hshows : Shows lib i (net.proceed g outcome rest) phase) (hpushed : m ∈ outcome.pushed)
    (hid : lib.guid.fromString m.id = i) (haction : m.action ≠ .communicatingSession) :
    phase.expects = some (m.action, lib.guid.fromString m.sender, lib.guid.fromString m.recipient)
      ∧ HandshakeInFlight lib i (net.proceed g outcome rest).inFlight := by
  have hmem : unstamped m ∈ (net.proceed g outcome rest).inFlight :=
    List.mem_append_right rest (List.mem_map_of_mem hpushed)
  obtain ⟨earlier, later, hsplit⟩ := List.append_of_mem hmem
  obtain ⟨_, hexpected⟩ := hshows.taken hsplit hid haction
  exact ⟨hexpected.route, unstamped m, hmem, hid, haction⟩

section Moves

variable {f : InFlight} {earlier later : List InFlight} {env : Ambient Key} {outcome : Outcome Key}
  {remote : Peer}

/-- **Progress.** Processing the handshake message of an id moves its handshake on, and leaves the
message in flight the next phase waits for. -/
theorem Honest.advances (hinv : Honest lib net)
    (hsplit : net.inFlight = earlier ++ f :: later)
    (hrecipient : lib.guid.fromString f.message.recipient = g)
    (hknown : KnownSender lib (net.nodes g).controller f.message remote)
    (hprocessed : Processed lib env (net.nodes g).controller f.message remote outcome)
    (hshows : Shows lib (lib.guid.fromString f.message.id) net phase)
    (haction : f.message.action ≠ .communicatingSession) :
    ∃ after, (∃ h, phase.Advances h after)
      ∧ Shows lib (lib.guid.fromString f.message.id) (net.proceed g outcome (earlier ++ later))
        after
      ∧ Pending lib (lib.guid.fromString f.message.id) (net.proceed g outcome (earlier ++ later))
        after := by
  obtain ⟨after, hfollows, hafter⟩ :=
    hinv.processed_own hsplit hrecipient hknown hprocessed hshows
  have hroute := (hshows.taken hsplit rfl haction).2.route
  -- A message pushed for the id is the one the phase after it waits for, and not the one processed.
  have hpushes : ∀ m ∈ outcome.pushed, lib.guid.fromString m.id = lib.guid.fromString f.message.id →
      ∀ action, m.action = action → action ≠ .communicatingSession → action ≠ f.message.action →
        (∃ h, phase.Advances h after) ∧ Pending lib (lib.guid.fromString f.message.id)
          (net.proceed g outcome (earlier ++ later)) after := by
    rintro m hm hid _ rfl hhandshake hother
    obtain ⟨hexpects, hinFlight⟩ := hafter.expects_of_pushed hm hid hhandshake
    refine ⟨hfollows.resolve_left ?_, fun _ _ _ _ _ => hinFlight⟩
    rintro rfl
    have hsame := Option.some.inj (hexpects.symm.trans hroute)
    exact hother (congrArg Prod.fst hsame)
  suffices hmoves : (∃ h, phase.Advances h after) ∧ Pending lib (lib.guid.fromString f.message.id)
      (net.proceed g outcome (earlier ++ later)) after from
    ⟨after, hmoves.1, hafter, hmoves.2⟩
  cases hprocessed with
  | createSession haction' hfind =>
      refine hpushes _ List.mem_cons_self ?_ .respondingCreatedSession rfl (by decide)
        (by rw [haction']; decide)
      simp [exchangeChallengeReply, answeringRequest, connectionRequestCreateWithIdentityChain]
  | respondingCreatedSession address c cipher haction' hfind hcipher =>
      refine hpushes _ List.mem_cons_self ?_ .sharingSessionKey rfl (by decide)
        (by rw [haction']; decide)
      simp [keyShareMessage, (get?_of_findConnection hfind).2]
  | sharingSessionKey address c decrypted secret haction' hfind hdecrypt hdecode hlong =>
      refine hpushes _ List.mem_cons_self ?_ .completedSession rfl (by decide)
        (by rw [haction']; decide)
      simp [completionMessage, (get?_of_findConnection hfind).2]
  | completedSession address c secret haction' hfind hkey =>
      rw [haction', hrecipient] at hroute
      obtain ⟨p, σ, rfl, _, rfl⟩ := Phase.of_expects hroute
      obtain ⟨hget, hid⟩ := get?_of_findConnection hfind
      have hwritten := Arena.get?_set_self { c with state := .complete } hget
      obtain ⟨_, hholds⟩ := hafter.select_eq_singleton (mem_connectionsOf_proceed hwritten hid)
      obtain rfl | ⟨h, hadvance⟩ := hfollows
      · rw [Phase.holds, Parties.hold_initiator] at hholds
        cases congrArg View.state (List.singleton_inj.mp hholds)
      · refine ⟨⟨h, hadvance⟩, ?_⟩
        cases hadvance with
        | complete =>
            intro action sender recipient hexpects
            cases hexpects
  | communicatingSession address c secret haction' hfind hkey => exact absurd haction' haction

end Moves

end WhisperCore
