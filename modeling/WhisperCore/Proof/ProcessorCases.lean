import WhisperCore.ConnectionController
import WhisperCore.Proof.PeerstoreCases

/-!
# What the processor can do

Inversion lemmas for the connection controller. A message that is processed to the end comes from a
peer the store knows and is not the local one, and each action then has one way to end well. Later
facts about the processor are read off these ways and never off its definition.
-/

namespace WhisperCore

variable {Key : Type}

/-- The eight bytes `symmetrical_encrypt` and `symmetrical_decrypt` copy are there. -/
structure ConnectionRequest.HasKey (c : ConnectionRequest Key) (secret : Bytes) : Prop where
  held : c.sharedSecret = some secret
  long : 8 ≤ secret.length

section Exchange

variable (lib : Libraries Key) (env : Ambient Key) (c : ConnectionRequest Key)
  (message : Wpmessage)

/-- What `symmetrical_decrypt` returns for the payload of a message. -/
def decryptedPayload (secret : Bytes) : Bytes :=
  lib.des.decrypt (secret.take 8)
    (readBytes (message.rawdata ++ env.afterPayload) (message.rawdata.length + 1))

/-- `strcmp(decrypted,"OKAY") == 0` -/
def OpensToOkay (secret : Bytes) : Prop :=
  CString.read (decryptedPayload lib env message secret ++ env.afterPlaintext) = okay

instance (secret : Bytes) : Decidable (OpensToOkay lib env message secret) := by
  unfold OpensToOkay
  infer_instance

/-- The fresh secret, encrypted for the sender of a public key. -/
def sealedSecret : Option Bytes :=
  (lib.base64.decode message.rawdata).bind fun decoded =>
    (asymmetricalKeyFromString lib.rsa decoded).bind fun remoteKeypair =>
      asymmetricalEncrypt lib.rsa env remoteKeypair
        (lib.base64.encode (generateSharedSecret env.draws)).bytes

def completionCiphertext (secret : Bytes) : Bytes :=
  lib.des.encrypt (secret.take 8) (readBytes (okay.inMemory env.afterLiteral) 6)

def completionMessage (secret : Bytes) : Wpmessage :=
  connectionMessage lib c (completionCiphertext lib env secret ++ env.afterCiphertext)
    (strlen (completionCiphertext lib env secret ++ env.afterCiphertext)) .completedSession

def communicationCiphertext (message : Bytes) (messageLen : Nat) (secret : Bytes) : Bytes :=
  lib.des.encrypt (secret.take 8) (readBytes message (messageLen + 1))

def communicationMessage (message : Bytes) (messageLen : Nat) (secret : Bytes) : Wpmessage :=
  let memory := communicationCiphertext lib message messageLen secret ++ env.afterCiphertext
  connectionMessage lib c memory (strlen memory + 1) .communicatingSession

def keyShareMessage (cipher : Bytes) : Wpmessage :=
  connectionMessage lib c cipher cipher.length .sharingSessionKey

variable {lib env c message}

theorem exchangeComplete_eq_ok_iff {outMessage : Wpmessage} :
    exchangeComplete lib env c = .ok outMessage
      ↔ ∃ secret, c.HasKey secret ∧ outMessage = completionMessage lib env c secret := by
  unfold exchangeComplete
  cases hsecret : c.sharedSecret with
  | none =>
      constructor
      · intro h
        cases h
      · rintro ⟨secret, hkey, _⟩
        cases hsecret.symm.trans hkey.held
  | some secret =>
      by_cases hlong : 8 ≤ secret.length
      · simp only [symmetricalEncrypt_of_le _ _ _ hlong]
        constructor
        · intro h
          exact ⟨secret, ⟨hsecret, hlong⟩, (Except.ok.inj h).symm⟩
        · rintro ⟨other, hkey, rfl⟩
          obtain rfl : secret = other := Option.some.inj (hsecret.symm.trans hkey.held)
          rfl
      · simp only [symmetricalEncrypt_of_lt _ _ _ (Nat.lt_of_not_le hlong)]
        constructor
        · intro h
          cases h
        · rintro ⟨other, hkey, _⟩
          obtain rfl : secret = other := Option.some.inj (hsecret.symm.trans hkey.held)
          exact absurd hkey.long hlong

theorem connectionRequestSendMessage_cases {text : Bytes} {len : Nat} {result : Option Wpmessage}
    (h : connectionRequestSendMessage lib env c text len = .ok result) :
    (c.sharedSecret = none ∧ result = none)
      ∨ ∃ secret, c.HasKey secret
        ∧ result = some (communicationMessage lib env c text len secret) := by
  unfold connectionRequestSendMessage at h
  cases hsecret : c.sharedSecret with
  | none =>
      rw [hsecret] at h
      exact Or.inl ⟨rfl, (Except.ok.inj h).symm⟩
  | some secret =>
      simp only [hsecret] at h
      by_cases hlong : 8 ≤ secret.length
      · rw [symmetricalEncrypt_of_le _ _ _ hlong] at h
        exact Or.inr ⟨secret, ⟨hsecret, hlong⟩, (Except.ok.inj h).symm⟩
      · rw [symmetricalEncrypt_of_lt _ _ _ (Nat.lt_of_not_le hlong)] at h
        cases h

theorem connectionRequestSendMessage_eq_ok {text : Bytes} {len : Nat} {secret : Bytes}
    (hkey : c.HasKey secret) :
    connectionRequestSendMessage lib env c text len
      = .ok (some (communicationMessage lib env c text len secret)) := by
  rw [connectionRequestSendMessage, hkey.held]
  simp only [symmetricalEncrypt_of_le _ _ _ hkey.long]
  rfl

theorem exchangeSessionKeyShare_eq_ok_iff {after : ConnectionRequest Key} {outMessage : Wpmessage} :
    exchangeSessionKeyShare lib env c message = .ok (after, outMessage)
      ↔ ∃ cipher, sealedSecret lib env message = some cipher
        ∧ after = { c with sharedSecret := some (generateSharedSecret env.draws) }
        ∧ outMessage = keyShareMessage lib c cipher := by
  unfold exchangeSessionKeyShare sealedSecret
  cases lib.base64.decode message.rawdata with
  | none => simp
  | some decoded =>
      cases hkey : asymmetricalKeyFromString lib.rsa decoded with
      | none => simp [hkey]
      | some remoteKeypair =>
          cases hcipher : asymmetricalEncrypt lib.rsa env remoteKeypair
              (lib.base64.encode (generateSharedSecret env.draws)).bytes with
          | none => simp [hkey, hcipher]
          | some cipher => simp [hkey, hcipher, keyShareMessage, eq_comm]

theorem symmetricalDecrypt_eq_ok {secret : Bytes} (hkey : c.HasKey secret) :
    symmetricalDecrypt lib.des c.sharedSecret (message.rawdata ++ env.afterPayload)
      message.rawdata.length = .ok (decryptedPayload lib env message secret) := by
  rw [hkey.held, symmetricalDecrypt_of_le _ _ _ hkey.long]
  rfl

theorem symmetricalDecrypt_cases (lib : Libraries Key) (c : ConnectionRequest Key) (msg : Bytes)
    (size : Nat) :
    (∃ secret, c.HasKey secret)
      ∨ ∃ f, (f = .nullSecret ∨ f = .shortSecret)
        ∧ symmetricalDecrypt lib.des c.sharedSecret msg size = .error (.fault f) := by
  cases hsecret : c.sharedSecret with
  | none => exact Or.inr ⟨.nullSecret, Or.inl rfl, rfl⟩
  | some secret =>
      by_cases hlong : 8 ≤ secret.length
      · exact Or.inl ⟨secret, hsecret, hlong⟩
      · exact Or.inr ⟨.shortSecret, Or.inr rfl,
          symmetricalDecrypt_of_lt _ _ _ (Nat.lt_of_not_le hlong)⟩

end Exchange

section Processor

variable {lib : Libraries Key} {env : Ambient Key} {controller : ConnectionController Key}
  {message : Wpmessage}

/-! ### The sender -/

/-- The sender resolves to `remote`, which is not the local peer. -/
structure KnownSender (lib : Libraries Key) (controller : ConnectionController Key)
    (message : Wpmessage) (remote : Peer) : Prop where
  found : peerstoreLookup lib.guid controller.ds.peers (lib.guid.fromString message.sender)
    = (some remote, controller.ds.peers)
  other : remote.guid ≠ controller.ds.peers.localPeer.guid

/-- The switch on the message's action. -/
def processAction (lib : Libraries Key) (env : Ambient Key) (controller : ConnectionController Key)
    (message : Wpmessage) (remote : Peer) : Except (Ending (Outcome Key)) (Outcome Key) :=
  let oconnection := findConnection lib controller message
  match message.action with
  | .createSession => processCreateSession lib env controller message remote oconnection
  | .respondingCreatedSession =>
      processRespondingCreatedSession lib env controller message oconnection
  | .sharingSessionKey => processSharingSessionKey lib env controller message oconnection
  | .completedSession => processCompletedSession lib env controller message oconnection
  | .communicatingSession => processCommunicatingSession lib env controller message oconnection

theorem KnownSender.processor_eq {remote : Peer} (h : KnownSender lib controller message remote) :
    internalConnnectionMessageProcessor lib env controller message
      = processAction lib env controller message remote := by
  unfold internalConnnectionMessageProcessor
  rw [h.found]
  exact if_neg h.other

/-- A message of anybody else ends the process at a check, before it touches a connection. -/
theorem processor_of_unknown (env : Ambient Key)
    (h : ∀ remote, ¬ KnownSender lib controller message remote) :
    ∃ peers, internalConnnectionMessageProcessor lib env controller message
      = .error ⟨.check, controller.setPeers peers, [], []⟩ := by
  unfold internalConnnectionMessageProcessor
  cases hlookup : peerstoreLookup lib.guid controller.ds.peers
      (lib.guid.fromString message.sender) with
  | mk found peers =>
      refine ⟨peers, ?_⟩
      cases found with
      | none => rfl
      | some remote =>
          obtain ⟨_, _, rfl⟩ := peerstoreLookup_eq_some hlookup
          apply if_pos
          by_contra hother
          exact h remote ⟨hlookup, hother⟩

/-! ### The ways to end well -/

/-- The connection request a CREATE_SESSION makes. -/
def answeringRequest (lib : Libraries Key) (env : Ambient Key)
    (controller : ConnectionController Key) (message : Wpmessage) (remote : Peer) :
    ConnectionRequest Key :=
  connectionRequestCreateWithIdentityChain env remote.ref (lib.guid.fromString message.id)
    controller.ds.peers .challengeReply

/-- The outcomes of the switch. -/
inductive Processed (lib : Libraries Key) (env : Ambient Key)
    (controller : ConnectionController Key) (message : Wpmessage) (remote : Peer) :
    Outcome Key → Prop where
  | createSession (haction : message.action = .createSession)
      (hfind : findConnection lib controller message = none) :
      Processed lib env controller message remote {
        controller := connectionControllerAddConnectionRequest controller
          (answeringRequest lib env controller message remote)
        pushed := [exchangeChallengeReply lib (answeringRequest lib env controller message remote)]
        calls := if controller.ic then [.incoming controller.connections.next] else [] }
  | respondingCreatedSession (address : Nat) (c : ConnectionRequest Key) (cipher : Bytes)
      (haction : message.action = .respondingCreatedSession)
      (hfind : findConnection lib controller message = some (address, c))
      (hcipher : sealedSecret lib env message = some cipher) :
      Processed lib env controller message remote {
        controller := controller.setConnection address { c with
          state := .sessionKeyShare
          sharedSecret := some (generateSharedSecret env.draws) }
        pushed := [keyShareMessage lib c cipher]
        calls := [] }
  | sharingSessionKey (address : Nat) (c : ConnectionRequest Key) (decrypted secret : Bytes)
      (haction : message.action = .sharingSessionKey)
      (hfind : findConnection lib controller message = some (address, c))
      (hdecrypt : asymmetricalDecrypt lib.rsa c.keypair message.rawdata message.rawdata.length
        = some decrypted)
      (hdecode : lib.base64.decode decrypted = some secret) (hlong : 8 ≤ secret.length) :
      Processed lib env controller message remote {
        controller := controller.setConnection address { c with
          state := .complete
          sharedSecret := some secret }
        pushed := [completionMessage lib env c secret]
        calls := if controller.nc then [.completed address] else [] }
  | completedSession (address : Nat) (c : ConnectionRequest Key) (secret : Bytes)
      (haction : message.action = .completedSession)
      (hfind : findConnection lib controller message = some (address, c))
      (hkey : c.HasKey secret) :
      Processed lib env controller message remote {
        controller := controller.setConnection address { c with state := .complete }
        pushed := []
        calls :=
          if OpensToOkay lib env message secret ∧ controller.nc then [.completed address] else [] }
  | communicatingSession (address : Nat) (c : ConnectionRequest Key) (secret : Bytes)
      (haction : message.action = .communicatingSession)
      (hfind : findConnection lib controller message = some (address, c))
      (hkey : c.HasKey secret) :
      Processed lib env controller message remote {
        controller := controller
        pushed := []
        calls :=
          let memory := decryptedPayload lib env message secret ++ env.afterPlaintext
          if controller.cmr then
            [.messageReceived address (readBytes memory (strlen memory + 1)) (strlen memory + 1)]
          else [] }

section Switch

variable {remote : Peer} {oconnection : Option (Nat × ConnectionRequest Key)}
  {outcome : Outcome Key}

theorem processCreateSession_cases
    (h : processCreateSession lib env controller message remote oconnection = .ok outcome) :
    oconnection = none ∧ outcome = {
      controller := connectionControllerAddConnectionRequest controller
        (answeringRequest lib env controller message remote)
      pushed := [exchangeChallengeReply lib (answeringRequest lib env controller message remote)]
      calls := if controller.ic then [.incoming controller.connections.next] else [] } := by
  cases oconnection with
  | some found => cases h
  | none => exact ⟨rfl, (Except.ok.inj h).symm⟩

theorem processRespondingCreatedSession_cases
    (h : processRespondingCreatedSession lib env controller message oconnection = .ok outcome) :
    ∃ address c cipher, oconnection = some (address, c)
      ∧ sealedSecret lib env message = some cipher ∧ outcome = {
        controller := controller.setConnection address { c with
          state := .sessionKeyShare
          sharedSecret := some (generateSharedSecret env.draws) }
        pushed := [keyShareMessage lib c cipher]
        calls := [] } := by
  cases oconnection with
  | none => cases h
  | some found =>
      obtain ⟨address, c⟩ := found
      simp only [processRespondingCreatedSession, connectionRequestCreateExchangeMessage] at h
      cases hexchange : exchangeSessionKeyShare lib env { c with state := .sessionKeyShare }
          message with
      | error ending =>
          rw [hexchange] at h
          cases h
      | ok result =>
          obtain ⟨after, outMessage⟩ := result
          obtain ⟨cipher, hcipher, rfl, rfl⟩ := exchangeSessionKeyShare_eq_ok_iff.mp hexchange
          rw [hexchange] at h
          exact ⟨address, c, cipher, rfl, hcipher, (Except.ok.inj h).symm⟩

theorem processSharingSessionKey_cases
    (h : processSharingSessionKey lib env controller message oconnection = .ok outcome) :
    ∃ address c decrypted secret, oconnection = some (address, c)
      ∧ asymmetricalDecrypt lib.rsa c.keypair message.rawdata message.rawdata.length
          = some decrypted
      ∧ lib.base64.decode decrypted = some secret ∧ 8 ≤ secret.length ∧ outcome = {
        controller := controller.setConnection address { c with
          state := .complete
          sharedSecret := some secret }
        pushed := [completionMessage lib env c secret]
        calls := if controller.nc then [.completed address] else [] } := by
  cases oconnection with
  | none => cases h
  | some found =>
      obtain ⟨address, c⟩ := found
      simp only [processSharingSessionKey, connectionRequestCreateExchangeMessage] at h
      cases hdecrypt : asymmetricalDecrypt lib.rsa c.keypair message.rawdata
          message.rawdata.length with
      | none =>
          rw [hdecrypt] at h
          cases h
      | some decrypted =>
          simp only [hdecrypt, Option.bind_some] at h
          cases hexchange : exchangeComplete lib env { c with
              state := .complete
              sharedSecret := lib.base64.decode decrypted } with
          | error stop =>
              rw [hexchange] at h
              cases h
          | ok outMessage =>
              rw [hexchange] at h
              obtain ⟨secret, ⟨hdecode, hlong⟩, rfl⟩ := exchangeComplete_eq_ok_iff.mp hexchange
              refine ⟨address, c, decrypted, secret, rfl, hdecrypt, hdecode, hlong, ?_⟩
              rw [show lib.base64.decode decrypted = some secret from hdecode] at h
              exact (Except.ok.inj h).symm

theorem processCompletedSession_eq_ok {address : Nat} {c : ConnectionRequest Key} {secret : Bytes}
    (hkey : c.HasKey secret) :
    processCompletedSession lib env controller message (some (address, c)) = .ok {
      controller := controller.setConnection address { c with state := .complete }
      pushed := []
      calls :=
        if OpensToOkay lib env message secret ∧ controller.nc then [.completed address]
        else [] } := by
  simp only [processCompletedSession, symmetricalDecrypt_eq_ok hkey]
  rfl

theorem processCommunicatingSession_eq_ok {address : Nat} {c : ConnectionRequest Key}
    {secret : Bytes} (hkey : c.HasKey secret) :
    processCommunicatingSession lib env controller message (some (address, c)) = .ok {
      controller := controller
      pushed := []
      calls :=
        let memory := decryptedPayload lib env message secret ++ env.afterPlaintext
        if controller.cmr then
          [.messageReceived address (readBytes memory (strlen memory + 1)) (strlen memory + 1)]
        else [] } := by
  simp only [processCommunicatingSession, symmetricalDecrypt_eq_ok hkey]

/-- What stops without a connection, and where a connection's secret does not decrypt, goes through
with a connection that has a key. -/
theorem exists_key_of_ok (lib : Libraries Key) (env : Ambient Key) (message : Wpmessage)
    {process : Option (Nat × ConnectionRequest Key) → Except (Ending (Outcome Key)) (Outcome Key)}
    (h : process oconnection = .ok outcome) (hnone : process none ≠ .ok outcome)
    (hfault : ∀ address c f, symmetricalDecrypt lib.des c.sharedSecret
        (message.rawdata ++ env.afterPayload) message.rawdata.length = .error (.fault f) →
      process (some (address, c)) ≠ .ok outcome) :
    ∃ address c secret, oconnection = some (address, c) ∧ c.HasKey secret := by
  cases oconnection with
  | none => exact absurd h hnone
  | some found =>
      obtain ⟨address, c⟩ := found
      rcases symmetricalDecrypt_cases lib c (message.rawdata ++ env.afterPayload)
        message.rawdata.length with ⟨secret, hkey⟩ | ⟨f, _, hstop⟩
      · exact ⟨address, c, secret, rfl, hkey⟩
      · exact absurd h (hfault address c f hstop)

theorem processCompletedSession_cases
    (h : processCompletedSession lib env controller message oconnection = .ok outcome) :
    ∃ address c secret, oconnection = some (address, c) ∧ c.HasKey secret := by
  refine exists_key_of_ok lib env message h nofun fun address c f hfault => ?_
  simp only [processCompletedSession, hfault]
  nofun

theorem processCommunicatingSession_cases
    (h : processCommunicatingSession lib env controller message oconnection = .ok outcome) :
    ∃ address c secret, oconnection = some (address, c) ∧ c.HasKey secret := by
  refine exists_key_of_ok lib env message h nofun fun address c f hfault => ?_
  simp only [processCommunicatingSession, hfault]
  nofun

theorem processAction_cases
    (h : processAction lib env controller message remote = .ok outcome) :
    Processed lib env controller message remote outcome := by
  unfold processAction at h
  cases haction : message.action with
  | createSession =>
      simp only [haction] at h
      obtain ⟨hfind, rfl⟩ := processCreateSession_cases h
      exact .createSession haction hfind
  | respondingCreatedSession =>
      simp only [haction] at h
      obtain ⟨address, c, cipher, hfind, hcipher, rfl⟩ := processRespondingCreatedSession_cases h
      exact .respondingCreatedSession address c cipher haction hfind hcipher
  | sharingSessionKey =>
      simp only [haction] at h
      obtain ⟨address, c, decrypted, secret, hfind, hdecrypt, hdecode, hlong, rfl⟩ :=
        processSharingSessionKey_cases h
      exact .sharingSessionKey address c decrypted secret haction hfind hdecrypt hdecode hlong
  | completedSession =>
      simp only [haction] at h
      obtain ⟨address, c, secret, hfind, hkey⟩ := processCompletedSession_cases h
      rw [hfind, processCompletedSession_eq_ok hkey] at h
      obtain rfl := Except.ok.inj h
      exact .completedSession address c secret haction hfind hkey
  | communicatingSession =>
      simp only [haction] at h
      obtain ⟨address, c, secret, hfind, hkey⟩ := processCommunicatingSession_cases h
      rw [hfind, processCommunicatingSession_eq_ok hkey] at h
      obtain rfl := Except.ok.inj h
      exact .communicatingSession address c secret haction hfind hkey

end Switch

/-- **Inversion of the processor.** -/
theorem processor_cases {outcome : Outcome Key}
    (h : internalConnnectionMessageProcessor lib env controller message = .ok outcome) :
    ∃ remote, KnownSender lib controller message remote
      ∧ Processed lib env controller message remote outcome := by
  by_cases hknown : ∃ remote, KnownSender lib controller message remote
  · obtain ⟨remote, hknown⟩ := hknown
    rw [hknown.processor_eq] at h
    exact ⟨remote, hknown, processAction_cases h⟩
  · obtain ⟨peers, hends⟩ :=
      processor_of_unknown env fun remote hremote => hknown ⟨remote, hremote⟩
    rw [hends] at h
    cases h

/-- A connection the walk finds stands in the list and has the message's id. -/
theorem get?_of_findConnection {address : Nat} {c : ConnectionRequest Key}
    (h : findConnection lib controller message = some (address, c)) :
    controller.connections.get? address = some c ∧ c.id = lib.guid.fromString message.id := by
  obtain ⟨hget, hid⟩ := Arena.get?_of_find? h
  exact ⟨hget, of_decide_eq_true hid⟩

end Processor

end WhisperCore
