import WhisperCore.Proof.NetworkCases
import WhisperCore.Proof.Secrecy

/-!
# The program runs in the symbolic model

Under perfect cryptography the symbolic model follows the program. The bytes of a payload the source
computes are among those its term denotes, and the network of bytes and the network of terms go
through the same events in step: a node stops in the one where it stops in the other, and the
messages in flight correspond. A term says nothing of the memory behind a ciphertext that `strlen`
may run into: whatever is sent of it in the clear is denoted as well, and is outside what is proved
here.
-/

namespace WhisperCore.Symbolic

open DolevYao

variable {Key : Type} {lib : Libraries Key}

/-! ### Denotations -/

/-- Public keys are read back from their PEM, an encoded secret is short enough to be encrypted, and
what is encrypted opens with the private key and no other. -/
structure Perfect (lib : Libraries Key) : Prop where
  reads : ∀ key, ∃ readKey, lib.rsa.readPublicString (lib.rsa.publicString key) = some readKey
  seals : ∀ key readKey padding (secret : Bytes),
    lib.rsa.readPublicString (lib.rsa.publicString key) = some readKey → secret.length = 8 →
      ∃ cipher, lib.rsa.publicEncrypt readKey padding (lib.base64.encode secret).bytes
        = some cipher
  opens : ∀ key readKey padding message cipher other opened,
    lib.rsa.readPublicString (lib.rsa.publicString key) = some readKey →
      lib.rsa.publicEncrypt readKey padding message = some cipher →
        lib.rsa.privateDecrypt other cipher = some opened → other = key

/-- Two strings with the terminator, one at the start of the other. -/
theorem eq_of_take_inMemory {string other : CString} {rest : Bytes}
    (h : (string.inMemory rest).take (other.bytes.length + 1) = other.bytes ++ [0]) :
    other = string := by
  have hstring : CString.read (string.inMemory rest) = string := CString.ext (takeWhile_append_nul
    string.noNul rest)
  have hmemory : string.inMemory rest
      = other.inMemory ((string.inMemory rest).drop (other.bytes.length + 1)) := by
    rw [CString.inMemory_eq other, ← h, List.take_append_drop]
  rw [← hstring, hmemory]
  exact (CString.ext (takeWhile_append_nul other.noNul _)).symm

theorem perfect_concrete : Perfect Concrete.libraries where
  reads key := ⟨key, rfl⟩
  seals _ readKey _ secret _ _ := ⟨readKey.inMemory (Concrete.base64.encode secret).bytes, rfl⟩
  opens key readKey padding message cipher other opened hread hcipher hopened := by
    obtain rfl : key = readKey := Option.some.inj hread
    obtain rfl : key.inMemory message = cipher := Option.some.inj hcipher
    obtain ⟨htake, _⟩ := Option.ite_none_right_eq_some.mp hopened
    exact eq_of_take_inMemory htake

/-- The bytes a payload may stand for. A ciphertext may have been made from a longer message, and be
cut short or followed by any bytes at all. -/
def Denotes (lib : Libraries Key) : Payload Key → Bytes → Prop
  | .data (.string string), bytes => bytes = string.bytes
  | .data (.action _), _ => False
  | .atom (.secret secret), bytes => bytes = secret
  | .atom (.text text), bytes => bytes = text
  | .publicKey k, bytes => bytes = (lib.rsa.publicString k).bytes
  | .privateKey _, _ => False
  | .encode t, bytes => ∃ inner, Denotes lib t inner ∧ bytes = (lib.base64.encode inner).bytes
  | .aenc k t, bytes => ∃ inner readKey padding, Denotes lib t inner
      ∧ lib.rsa.readPublicString (lib.rsa.publicString k) = some readKey
      ∧ lib.rsa.publicEncrypt readKey padding inner = some bytes
  | .senc key t, bytes => ∃ secret inner after more size, Denotes lib key secret
      ∧ Denotes lib t inner
      ∧ bytes = readBytes (lib.des.encrypt (secret.take 8) (inner ++ after) ++ more) size

structure DenotesMessage (lib : Libraries Key) (sm : Wpmessage Key) (m : WhisperCore.Wpmessage) :
    Prop where
  id : m.id = sm.id
  sender : m.sender = sm.sender
  recipient : m.recipient = sm.recipient
  action : m.action = sm.action
  payload : Denotes lib sm.rawdata m.rawdata

/-- A connection request, its secret made an atom. -/
def ofRequest (c : WhisperCore.ConnectionRequest Key) : ConnectionRequest Key where
  id := c.id
  state := c.state
  localPeer := c.localPeer
  remote := c.remote
  keypair := c.keypair
  sharedSecret := c.sharedSecret.map fun bytes => .atom (.secret bytes)

def ofController (controller : ConnectionController Key) (running : Bool) : Node Key where
  peers := controller.ds.peers
  connections := controller.connections.map ofRequest
  running := running

/-- The observer without anything of its own: to it, every key and every atom is fresh. -/
def nobody : Observer Key Confidential := ⟨∅, ∅⟩

theorem freshFor_nobody (event : NetEvent Key) : FreshFor nobody event := by
  cases event with
  | delivers index env => exact ⟨nofun, nofun⟩
  | discovers g call => trivial
  | initiates g env remote => exact nofun
  | sends g envs s text len => exact nofun

theorem denotesMessage_of_payload {c : WhisperCore.ConnectionRequest Key} {t : Payload Key}
    {payload : Bytes} {size : Nat} (action : SelectedAction)
    (hpayload : Denotes lib t (readBytes payload size)) :
    DenotesMessage lib (connectionMessage lib.guid (ofRequest c) t action)
      (WhisperCore.connectionMessage lib c payload size action) :=
  ⟨rfl, rfl, rfl, rfl, hpayload⟩

theorem denotes_encodedPublicKey (c : WhisperCore.ConnectionRequest Key) :
    Denotes lib (encodedPublicKey (ofRequest c))
      (readBytes (WhisperCore.encodedPublicKey lib c)
        (WhisperCore.encodedPublicKey lib c).length) := by
  rw [readBytes_self]
  exact ⟨_, rfl, rfl⟩

theorem findConnection_ofController {controller : ConnectionController Key} {running : Bool}
    {sm : Wpmessage Key} {m : WhisperCore.Wpmessage} (hid : m.id = sm.id) :
    findConnection lib.guid (ofController controller running) sm
      = (WhisperCore.findConnection lib controller m).map
        fun entry => (entry.1, ofRequest entry.2) := by
  rw [findConnection, ofController, Arena.find?_map, ← hid]
  rfl

/-- A secret held is eight bytes long. -/
theorem length_of_guarded {c : WhisperCore.ConnectionRequest Key} {secret : Bytes}
    (h : Guarded nobody (ofRequest c)) (hsecret : c.sharedSecret = some secret) :
    secret.length = 8 := by
  have hheld : (ofRequest c).sharedSecret = some (.atom (.secret secret)) := by
    simp [ofRequest, hsecret]
  obtain ⟨bytes, heq, _, hlength⟩ := h.secret _ hheld
  cases heq
  exact hlength

theorem hasKey_of_guarded {c : WhisperCore.ConnectionRequest Key} {secret : Bytes}
    (h : Guarded nobody (ofRequest c)) (hsecret : c.sharedSecret = some secret) :
    c.HasKey secret :=
  ⟨hsecret, (length_of_guarded h hsecret).ge⟩

/-! ### The processor -/

/-- The program's processor and the symbolic one end alike. -/
def EndAlike (lib : Libraries Key) (running : Bool)
    (result : Except (Ending (Outcome Key)) (Outcome Key))
    (symbolic : Option (Node Key × List (Wpmessage Key))) : Prop :=
  match result with
  | .error _ => symbolic = none
  | .ok outcome => ∃ messages, symbolic = some (ofController outcome.controller running, messages)
      ∧ List.Forall₂ (DenotesMessage lib) messages outcome.pushed

section Processor

variable {env : Ambient Key} {controller : ConnectionController Key} {running : Bool}
  {sm : Wpmessage Key} {m : WhisperCore.Wpmessage} {address : Nat}
  {c : WhisperCore.ConnectionRequest Key}

theorem ofController_set (address : Nat) (c : WhisperCore.ConnectionRequest Key) :
    ofController (controller.setConnection address c) running
      = { ofController controller running with
        connections :=
          (ofController controller running).connections.set address (ofRequest c) } := by
  simp only [ofController, ConnectionController.setConnection, Arena.map_set]

theorem ofController_add (c : WhisperCore.ConnectionRequest Key) :
    ofController (connectionControllerAddConnectionRequest controller c) running
      = { ofController controller running with
        connections := (ofController controller running).connections.add (ofRequest c) } := by
  simp only [ofController, connectionControllerAddConnectionRequest, Arena.map_add]

theorem endAlike_createSession (hm : DenotesMessage lib sm m) (remote : Peer)
    (found : Option (Nat × WhisperCore.ConnectionRequest Key)) :
    EndAlike lib running (WhisperCore.processCreateSession lib env controller m remote found)
      (processCreateSession lib.guid env (ofController controller running) sm remote
        (found.map fun entry => (entry.1, ofRequest entry.2))) := by
  cases found with
  | some entry => rfl
  | none =>
      obtain ⟨id, sender, recipient, action, rawdata⟩ := sm
      obtain rfl : m.id = id := hm.id
      refine ⟨[exchangeChallengeReply lib.guid (ofRequest (answeringRequest lib env controller m
        remote))], ?_, .cons (denotesMessage_of_payload _ (denotes_encodedPublicKey _)) .nil⟩
      rw [ofController_add]
      rfl

/-- What a public key in the open leads to: the secret, encrypted for its owner. -/
theorem exists_sealed (hperfect : Perfect lib) {k : Key}
    (hpayload : Denotes lib (.encode (.publicKey k)) m.rawdata) :
    ∃ cipher, sealedSecret lib env m = some cipher
      ∧ Denotes lib (.aenc k (.encode (generateSharedSecret env))) cipher := by
  obtain ⟨inner, hinner, hrawdata⟩ := hpayload
  obtain ⟨readKey, hread⟩ := hperfect.reads k
  obtain ⟨cipher, hcipher⟩ := hperfect.seals k readKey env.padding
    (WhisperCore.generateSharedSecret env.draws) hread (length_generateSharedSecret _)
  have hinner : inner = (lib.rsa.publicString k).bytes := hinner
  refine ⟨cipher, ?_, _, readKey, env.padding, ⟨_, rfl, rfl⟩, hread, hcipher⟩
  rw [sealedSecret, hrawdata, lib.base64.decode_encode, hinner]
  simp [asymmetricalKeyFromString, asymmetricalEncrypt, hread, hcipher]

theorem endAlike_respondingCreatedSession (hperfect : Perfect lib)
    (hm : DenotesMessage lib sm m) {k : Key} (hpayload : sm.rawdata = .encode (.publicKey k)) :
    EndAlike lib running
      (WhisperCore.processRespondingCreatedSession lib env controller m (some (address, c)))
      (processRespondingCreatedSession lib.guid env (ofController controller running) sm
        (some (address, ofRequest c))) := by
  have hkey : Denotes lib (.encode (.publicKey k)) m.rawdata := hpayload ▸ hm.payload
  obtain ⟨cipher, hcipher, hdenotes⟩ := exists_sealed hperfect hkey
  have hshared : WhisperCore.exchangeSessionKeyShare lib env { c with state := .sessionKeyShare } m
      = .ok ({ c with
          state := .sessionKeyShare
          sharedSecret := some (WhisperCore.generateSharedSecret env.draws) },
        keyShareMessage lib c cipher) :=
    exchangeSessionKeyShare_eq_ok_iff.mpr ⟨cipher, hcipher, rfl, rfl⟩
  have hsymbolic : exchangeSessionKeyShare lib.guid env
      { ofRequest c with state := .sessionKeyShare } sm = some (_, _) :=
    exchangeSessionKeyShare_eq_some_iff.mpr ⟨k, hpayload, rfl, rfl⟩
  simp only [WhisperCore.processRespondingCreatedSession,
    WhisperCore.connectionRequestCreateExchangeMessage, hshared, processRespondingCreatedSession,
    connectionRequestCreateExchangeMessage, hsymbolic]
  refine ⟨[connectionMessage lib.guid (ofRequest c)
    (.aenc k (.encode (generateSharedSecret env))) .sharingSessionKey], ?_,
    .cons (denotesMessage_of_payload _ ?_) .nil⟩
  · rw [ofController_set]
    rfl
  · rw [readBytes_self]
    exact hdenotes

theorem denotes_completion (env : Ambient Key) (secret : Bytes) (size : Nat) :
    Denotes lib (.senc (.atom (.secret secret)) (.data (.string okay)))
      (readBytes (completionCiphertext lib env secret ++ env.afterCiphertext) size) := by
  have hshort : okay.bytes.length ≤ 6 := by decide
  obtain ⟨more, hmore⟩ := exists_readBytes_append okay.bytes (0 :: env.afterLiteral) hshort
  refine ⟨secret, okay.bytes, more, env.afterCiphertext, size, rfl, rfl, ?_⟩
  rw [completionCiphertext, CString.inMemory, hmore]

theorem denotes_communication (env : Ambient Key) (secret text : Bytes) (len size : Nat) :
    Denotes lib (.senc (.atom (.secret secret)) (.atom (.text (readBytes text len))))
      (readBytes (communicationCiphertext lib text len secret ++ env.afterCiphertext) size) := by
  obtain ⟨more, hmore⟩ := exists_readBytes_succ text len
  refine ⟨secret, readBytes text len, more, env.afterCiphertext, size, rfl, rfl, ?_⟩
  rw [communicationCiphertext, hmore]

/-- The shared secret opens with the key it was encrypted for, and with no other. -/
theorem decrypt_denoted (hperfect : Perfect lib) {k : Key} {secret : Bytes}
    (hpayload : Denotes lib (.aenc k (.encode (.atom (.secret secret)))) m.rawdata) (key : Key) :
    (key = k → asymmetricalDecrypt lib.rsa key m.rawdata m.rawdata.length
        = some (lib.base64.encode secret).bytes)
      ∧ (key ≠ k → asymmetricalDecrypt lib.rsa key m.rawdata m.rawdata.length = none) := by
  obtain ⟨inner, readKey, padding, ⟨_, rfl, rfl⟩, hread, hcipher⟩ := hpayload
  rw [asymmetricalDecrypt, readBytes_self]
  constructor
  · rintro rfl
    apply lib.rsa.decrypt_encrypt key padding
    rw [hread]
    exact hcipher
  · intro hother
    cases hopened : lib.rsa.privateDecrypt key m.rawdata with
    | none => rfl
    | some opened =>
        exact absurd (hperfect.opens k readKey padding _ _ key opened hread hcipher hopened) hother

theorem endAlike_sharingSessionKey [DecidableEq Key] (hperfect : Perfect lib)
    (hm : DenotesMessage lib sm m) {k : Key} {secret : Payload Key}
    (hgenerated : Generated nobody secret) (hpayload : sm.rawdata = .aenc k (.encode secret)) :
    EndAlike lib running
      (WhisperCore.processSharingSessionKey lib env controller m (some (address, c)))
      (processSharingSessionKey lib.guid env (ofController controller running) sm
        (some (address, ofRequest c))) := by
  obtain ⟨bytes, rfl, _, hlength⟩ := hgenerated
  have hkey : Denotes lib (.aenc k (.encode (.atom (.secret bytes)))) m.rawdata :=
    hpayload ▸ hm.payload
  obtain ⟨hopens, hfails⟩ := decrypt_denoted hperfect hkey c.keypair
  by_cases hown : c.keypair = k
  · have hcomplete : WhisperCore.exchangeComplete lib env { c with
          state := .complete
          sharedSecret := some bytes } = .ok (completionMessage lib env c bytes) :=
      exchangeComplete_eq_ok_iff.mpr ⟨bytes, ⟨rfl, hlength.ge⟩, rfl⟩
    have hadec : sm.rawdata.adec (ofRequest c).keypair
        = some (.encode (.atom (.secret bytes))) := by
      rw [Term.adec_eq_some_iff, hpayload, ← hown]
      rfl
    simp only [WhisperCore.processSharingSessionKey, hopens hown, Option.bind_some,
      lib.base64.decode_encode, WhisperCore.connectionRequestCreateExchangeMessage, hcomplete,
      processSharingSessionKey, hadec]
    refine ⟨[connectionMessage lib.guid (ofRequest c)
      (.senc (.atom (.secret bytes)) (.data (.string okay))) .completedSession], ?_,
      .cons (denotesMessage_of_payload _ (denotes_completion env bytes _)) .nil⟩
    rw [ofController_set]
    rfl
  · have hadec : sm.rawdata.adec (ofRequest c).keypair = none := by
      rw [hpayload]
      exact if_neg hown
    simp only [WhisperCore.processSharingSessionKey, hfails hown, processSharingSessionKey, hadec]
    rfl

theorem endAlike_completedSession (hguarded : Guarded nobody (ofRequest c)) :
    EndAlike lib running
      (WhisperCore.processCompletedSession lib env controller m (some (address, c)))
      (processCompletedSession (ofController controller running)
        (some (address, ofRequest c))) := by
  cases hsecret : c.sharedSecret with
  | none =>
      simp only [WhisperCore.processCompletedSession, WhisperCore.symmetricalDecrypt, hsecret,
        desCblock, processCompletedSession, ofRequest]
      rfl
  | some secret =>
      rw [processCompletedSession_eq_ok (hasKey_of_guarded hguarded hsecret)]
      refine ⟨[], ?_, .nil⟩
      rw [ofController_set]
      simp only [processCompletedSession, ofRequest, hsecret]
      rfl

theorem endAlike_communicatingSession (hguarded : Guarded nobody (ofRequest c)) :
    EndAlike lib running
      (WhisperCore.processCommunicatingSession lib env controller m (some (address, c)))
      (processCommunicatingSession (ofController controller running)
        (some (address, ofRequest c))) := by
  cases hsecret : c.sharedSecret with
  | none =>
      simp only [WhisperCore.processCommunicatingSession, WhisperCore.symmetricalDecrypt, hsecret,
        desCblock, processCommunicatingSession, ofRequest]
      rfl
  | some secret =>
      rw [processCommunicatingSession_eq_ok (hasKey_of_guarded hguarded hsecret)]
      refine ⟨[], ?_, .nil⟩
      simp only [processCommunicatingSession, ofRequest, hsecret]
      rfl

/-- A connection that is not there ends both processes, one that is there is found by both. -/
theorem endAlike_of_found {found : Option (Nat × WhisperCore.ConnectionRequest Key)}
    {process : Option (Nat × WhisperCore.ConnectionRequest Key) →
      Except (Ending (Outcome Key)) (Outcome Key)}
    {symbolic : Option (Nat × ConnectionRequest Key) → Option (Node Key × List (Wpmessage Key))}
    (hnone : ∃ stop, process none = .error stop) (hsymbolic : symbolic none = none)
    (hsome : ∀ address c, found = some (address, c) →
      EndAlike lib running (process (some (address, c))) (symbolic (some (address, ofRequest c)))) :
    EndAlike lib running (process found)
      (symbolic (found.map fun entry => (entry.1, ofRequest entry.2))) := by
  cases found with
  | none =>
      obtain ⟨stop, hstop⟩ := hnone
      rw [hstop]
      exact hsymbolic
  | some entry => exact hsome entry.1 entry.2 rfl

theorem endAlike_processAction [DecidableEq Key] (hperfect : Perfect lib)
    (hguarded : GuardedNode nobody (ofController controller running))
    (hm : DenotesMessage lib sm m) (hcarries : Carries nobody sm.rawdata sm.action)
    (remote : Peer) :
    EndAlike lib running (WhisperCore.processAction lib env controller m remote)
      (processAction lib.guid env (ofController controller running) sm remote) := by
  have hrequest : ∀ address c, WhisperCore.findConnection lib controller m = some (address, c) →
      Guarded nobody (ofRequest c) := by
    intro address c hfind
    apply hguarded address
    rw [ofController, Arena.get?_map, (Arena.get?_of_find? hfind).1]
    rfl
  unfold WhisperCore.processAction processAction
  rw [hm.action, findConnection_ofController hm.id]
  cases haction : sm.action with
  | createSession => exact endAlike_createSession hm remote _
  | respondingCreatedSession =>
      rw [haction] at hcarries
      obtain ⟨k, _, hpayload⟩ := hcarries
      exact endAlike_of_found ⟨_, rfl⟩ rfl fun _ _ _ =>
        endAlike_respondingCreatedSession hperfect hm hpayload
  | sharingSessionKey =>
      rw [haction] at hcarries
      obtain ⟨k, _, secret, hgenerated, hpayload⟩ := hcarries
      exact endAlike_of_found ⟨_, rfl⟩ rfl fun _ _ _ =>
        endAlike_sharingSessionKey hperfect hm hgenerated hpayload
  | completedSession =>
      exact endAlike_of_found ⟨_, rfl⟩ rfl fun address c hfind =>
        endAlike_completedSession (hrequest address c hfind)
  | communicatingSession =>
      exact endAlike_of_found ⟨_, rfl⟩ rfl fun address c hfind =>
        endAlike_communicatingSession (hrequest address c hfind)

/-- **The processor.** Fed a message and the payload it denotes, the two processors end alike. -/
theorem endAlike_processor [DecidableEq Key] (hperfect : Perfect lib) (env : Ambient Key)
    (hguarded : GuardedNode nobody (ofController controller running))
    (hm : DenotesMessage lib sm m) (hcarries : Carries nobody sm.rawdata sm.action) :
    EndAlike lib running (WhisperCore.internalConnnectionMessageProcessor lib env controller m)
      (internalConnnectionMessageProcessor lib.guid env (ofController controller running) sm) := by
  cases hlookup : peerstoreLookup lib.guid controller.ds.peers
      (lib.guid.fromString sm.sender) with
  | mk result peers =>
      cases result with
      | none =>
          simp only [WhisperCore.internalConnnectionMessageProcessor, hm.sender, hlookup,
            internalConnnectionMessageProcessor, ofController]
          rfl
      | some remote =>
          obtain ⟨_, _, rfl⟩ := peerstoreLookup_eq_some hlookup
          by_cases hlocal : remote.guid = controller.ds.peers.localPeer.guid
          · simp only [WhisperCore.internalConnnectionMessageProcessor, hm.sender, hlookup,
              internalConnnectionMessageProcessor, ofController, ConnectionController.setPeers,
              hlocal, if_true]
            rfl
          · have hknown : KnownSender lib controller m remote := ⟨hm.sender ▸ hlookup, hlocal⟩
            rw [hknown.processor_eq, processor_of_known hlookup hlocal]
            exact endAlike_processAction hperfect hguarded hm hcarries remote

end Processor

/-! ### Sends -/

theorem send_denotes (lib : Libraries Key) (env : Ambient Key)
    {c : WhisperCore.ConnectionRequest Key}
    (hguarded : Guarded nobody (ofRequest c)) (text : Bytes) (len : Nat) :
    ∃ sent, WhisperCore.connectionRequestSendMessage lib env c text len = .ok sent
      ∧ List.Forall₂ (DenotesMessage lib)
        (connectionRequestSendMessage lib.guid (ofRequest c) text len).toList sent.toList := by
  cases hsecret : c.sharedSecret with
  | none =>
      refine ⟨none, by rw [WhisperCore.connectionRequestSendMessage, hsecret], ?_⟩
      rw [connectionRequestSendMessage, ofRequest, hsecret]
      exact .nil
  | some secret =>
      refine ⟨some (communicationMessage lib env c text len secret), ?_, ?_⟩
      · exact connectionRequestSendMessage_eq_ok (hasKey_of_guarded hguarded hsecret)
      · have hsymbolic : connectionRequestSendMessage lib.guid (ofRequest c) text len
            = some (connectionMessage lib.guid (ofRequest c)
              (.senc (.atom (.secret secret)) (.atom (.text (readBytes text len))))
              .communicatingSession) := by
          simp only [connectionRequestSendMessage, ofRequest, hsecret, Option.map_some]
        rw [hsymbolic]
        exact .cons (denotesMessage_of_payload _ (denotes_communication env secret text len _)) .nil

/-- A send stops in both models or in neither, and pushes the same. -/
def SendsAlike (lib : Libraries Key) (result : Except Stop (List WhisperCore.Wpmessage))
    (symbolic : List (Wpmessage Key) × Bool) : Prop :=
  match result with
  | .error _ => symbolic.2 = false
  | .ok messages => symbolic.2 = true ∧ List.Forall₂ (DenotesMessage lib) symbolic.1 messages

theorem sendsAlike (lib : Libraries Key) {controller : ConnectionController Key} {running : Bool}
    (hguarded : GuardedNode nobody (ofController controller running)) (envs : Nat → Ambient Key)
    (text : Bytes) (len : Nat) (addresses : List Nat) :
    SendsAlike lib (WhisperCore.sendList lib envs controller text len addresses)
      (sendList lib.guid (ofController controller running) text len addresses) := by
  induction addresses generalizing envs with
  | nil => exact ⟨rfl, .nil⟩
  | cons address addresses ih =>
      have hmap : (ofController controller running).connections.get? address
          = (controller.connections.get? address).map ofRequest := Arena.get?_map ..
      unfold WhisperCore.sendList sendList
      rw [hmap]
      cases hget : controller.connections.get? address with
      | none => rfl
      | some c =>
          have hc : Guarded nobody (ofRequest c) := hguarded address _ (by rw [hmap, hget]; rfl)
          by_cases hcomplete : c.state = .complete
          · have hready : (ofRequest c).state = .complete := hcomplete
            obtain ⟨sent, hsend, hsent⟩ := send_denotes lib (envs 0) hc text len
            have hlater := ih fun iteration => envs (iteration + 1)
            simp only [Option.map_some, hcomplete, hready, ne_eq, not_true_eq_false, if_false,
              connectionControllerConnectionRequestSendMessage, hsend]
            cases hrest : WhisperCore.sendList lib (fun iteration => envs (iteration + 1))
                controller text len addresses with
            | error stop =>
                rw [hrest] at hlater
                exact hlater
            | ok later =>
                rw [hrest] at hlater
                exact ⟨hlater.1, List.rel_append hsent hlater.2⟩
          · have hpending : (ofRequest c).state ≠ .complete := hcomplete
            simp only [Option.map_some, if_pos hpending, ne_eq, hcomplete, not_false_eq_true,
              if_true]
            exact ⟨rfl, .nil⟩

/-! ### The network -/

theorem forall₂_getElem? {α β : Type*} {R : α → β → Prop} {first : List α} {second : List β}
    (h : List.Forall₂ R first second) {index : Nat} {b : β} (hb : second[index]? = some b) :
    ∃ a, first[index]? = some a ∧ R a b := by
  induction h generalizing index with
  | nil => simp at hb
  | cons hab _ ih =>
      cases index with
      | zero =>
          obtain rfl : _ = b := by simpa using hb
          exact ⟨_, by simp, hab⟩
      | succ index => simpa using ih (by simpa using hb)

theorem forall₂_eraseIdx {α β : Type*} {R : α → β → Prop} {first : List α} {second : List β}
    (h : List.Forall₂ R first second) (index : Nat) :
    List.Forall₂ R (first.eraseIdx index) (second.eraseIdx index) := by
  induction h generalizing index with
  | nil => exact .nil
  | cons hab hrest ih =>
      cases index with
      | zero => exact hrest
      | succ index => exact .cons hab (ih index)

/-- The network of terms is the network of bytes: the same nodes, and in flight the same messages,
in the same order. -/
structure Represents (lib : Libraries Key) (net : WhisperCore.Net Key) (snet : Net Key) : Prop where
  nodes : ∀ g, snet.nodes g = ofController (net.nodes g).controller (net.nodes g).running
  inFlight : List.Forall₂ (DenotesMessage lib) snet.inFlight (net.inFlight.map InFlight.message)
  created : snet.created = net.created

section Net

variable {net next : WhisperCore.Net Key} {snet : Net Key} {g : Guid}
  {rest : List InFlight} {srest smessages : List (Wpmessage Key)}

theorem Represents.running (h : Represents lib net snet) (g : Guid) :
    (snet.nodes g).running = (net.nodes g).running := by
  rw [h.nodes g]
  rfl

theorem Represents.guardedNode (h : Represents lib net snet) (hguarded : GuardedNet nobody snet)
    (g : Guid) :
    GuardedNode nobody (ofController (net.nodes g).controller (net.nodes g).running) := by
  rw [← h.nodes g]
  exact hguarded.nodes g

theorem Represents.update_nodes (h : Represents lib net snet) (g : Guid)
    (node : WhisperCore.Node Key) (other : Guid) :
    Function.update snet.nodes g (ofController node.controller node.running) other
      = ofController (Function.update net.nodes g node other).controller
        (Function.update net.nodes g node other).running := by
  by_cases hother : other = g
  · subst hother
    simp
  · simp [hother, h.nodes other]

theorem Represents.resume (h : Represents lib net snet) (g : Guid)
    (controller : ConnectionController Key) :
    Represents lib (net.resume g controller)
      (snet.proceed g (ofController controller (net.nodes g).running) snet.inFlight []) where
  nodes := h.update_nodes g { net.nodes g with controller := controller }
  inFlight := by
    rw [Net.proceed, List.append_nil]
    exact h.inFlight
  created := h.created

theorem Represents.proceed (h : Represents lib net snet) (g : Guid) {outcome : Outcome Key}
    (hrest : List.Forall₂ (DenotesMessage lib) srest (rest.map InFlight.message))
    (hpushed : List.Forall₂ (DenotesMessage lib) smessages outcome.pushed) :
    Represents lib (net.proceed g outcome rest)
      (snet.proceed g (ofController outcome.controller (net.nodes g).running) srest smessages) where
  nodes := h.update_nodes g { net.nodes g with controller := outcome.controller }
  inFlight := by
    have hunstamped : (outcome.pushed.map unstamped).map InFlight.message = outcome.pushed := by
      rw [List.map_map]
      exact List.map_id _
    rw [WhisperCore.Net.proceed, List.map_append, hunstamped]
    exact List.rel_append hrest hpushed
  created := h.created

theorem Represents.halt (h : Represents lib net snet) (g : Guid)
    (hrest : List.Forall₂ (DenotesMessage lib) srest (rest.map InFlight.message)) :
    Represents lib { net.halt g with inFlight := rest } (snet.halt g srest smessages) where
  nodes := by
    have hnode : ({ snet.nodes g with running := false } : Node Key)
        = ofController (net.nodes g).controller false := by rw [h.nodes g]; rfl
    rw [Net.halt, hnode]
    exact h.update_nodes g { net.nodes g with running := false }
  inFlight := hrest
  created := h.created

/-- **One event.** -/
theorem Represents.step [DecidableEq Key] (h : Represents lib net snet) (hperfect : Perfect lib)
    (hguarded : GuardedNet nobody snet) {event : NetEvent Key}
    (hstep : net.step lib event = some next) :
    ∃ snext, snet.step lib.guid event = some snext ∧ Represents lib next snext := by
  cases event with
  | discovers g call =>
      obtain ⟨hrunning, hmap⟩ := Option.ite_none_right_eq_some.mp hstep
      obtain ⟨peers, hcall, rfl⟩ := Option.map_eq_some_iff.mp hmap
      have hnext := h.resume g ((net.nodes g).controller.setPeers peers)
      refine ⟨_, ?_, hnext⟩
      simp only [Net.step, h.nodes g, ofController, hrunning, if_true, hcall, Option.map_some]
      rfl
  | initiates g env remote =>
      obtain ⟨⟨hrunning, hfresh⟩, hnext⟩ := Option.ite_none_right_eq_some.mp hstep
      obtain rfl := Option.some.inj hnext
      let c := WhisperCore.connectionRequestCreate env remote (net.nodes g).controller.ds.peers
        .initialChallenge
      have hmessage : DenotesMessage lib
          (connectionRequestCreateInitiationMessage lib.guid (ofRequest c))
          (WhisperCore.connectionRequestCreateInitiationMessage lib c) :=
        denotesMessage_of_payload _ (denotes_encodedPublicKey c)
      let outcome := connectionControllerInitiationRequest lib env (net.nodes g).controller remote
      have hpushed : List.Forall₂ (DenotesMessage lib)
          [connectionRequestCreateInitiationMessage lib.guid (ofRequest c)] outcome.pushed :=
        .cons hmessage .nil
      have hproceed : Represents lib (net.proceed g outcome net.inFlight) (snet.proceed g
          (ofController outcome.controller (net.nodes g).running) snet.inFlight _) :=
        h.proceed g h.inFlight hpushed
      have hcontroller : ofController outcome.controller (net.nodes g).running
          = { ofController (net.nodes g).controller (net.nodes g).running with
            connections := (ofController (net.nodes g).controller
              (net.nodes g).running).connections.add (ofRequest c) } := ofController_add c
      have hready : (ofController (net.nodes g).controller (net.nodes g).running).running = true
          ∧ env.guid ∉ snet.created := by
        rw [h.created]
        exact ⟨hrunning, hfresh⟩
      rw [hcontroller] at hproceed
      have hcreated : env.guid :: snet.created = env.guid :: net.created := by rw [h.created]
      refine ⟨{ snet.proceed g _ snet.inFlight _ with created := env.guid :: snet.created }, ?_,
        hproceed.nodes, hproceed.inFlight, hcreated⟩
      simp only [Net.step, h.nodes g]
      rw [if_pos hready]
      rfl
  | delivers index env =>
      simp only [WhisperCore.Net.step] at hstep
      cases hindex : net.inFlight[index]? with
      | none => simp [hindex] at hstep
      | some f =>
          have hmapped : (net.inFlight.map InFlight.message)[index]? = some f.message := by
            rw [List.getElem?_map, hindex]
            rfl
          obtain ⟨sm, hsindex, hm⟩ := forall₂_getElem? h.inFlight hmapped
          have hrest : List.Forall₂ (DenotesMessage lib) (snet.inFlight.eraseIdx index)
              ((net.inFlight.eraseIdx index).map InFlight.message) := by
            rw [← List.eraseIdx_map]
            exact forall₂_eraseIdx h.inFlight index
          simp only [hindex] at hstep
          obtain ⟨hrunning, hnext⟩ := Option.ite_none_right_eq_some.mp hstep
          have hrecipient : lib.guid.fromString f.message.recipient
              = lib.guid.fromString sm.recipient := by rw [hm.recipient]
          have hcarries := hguarded.pushed sm
            (hguarded.inFlight sm (List.mem_of_getElem? hsindex))
          have halike := endAlike_processor hperfect env
            (h.guardedNode hguarded (lib.guid.fromString f.message.recipient)) hm hcarries
          have hsrunning := (h.running (lib.guid.fromString f.message.recipient)).trans hrunning
          simp only [Net.step, hsindex, ← hrecipient, if_pos hsrunning]
          rw [← h.nodes] at halike
          cases hprocess : WhisperCore.internalConnnectionMessageProcessor lib env
              (net.nodes (lib.guid.fromString f.message.recipient)).controller f.message with
          | error stop =>
              rw [hprocess] at hnext halike
              have hnone : internalConnnectionMessageProcessor lib.guid env _ sm = none := halike
              obtain rfl := Option.some.inj hnext
              rw [hnone]
              exact ⟨_, rfl, h.halt _ hrest⟩
          | ok outcome =>
              rw [hprocess] at hnext halike
              obtain ⟨messages, hsome, hpushed⟩ := halike
              obtain rfl := Option.some.inj hnext
              rw [hsome]
              exact ⟨_, rfl, h.proceed _ hrest hpushed⟩
  | sends g envs s text len =>
      obtain ⟨hrunning, hnext⟩ := Option.ite_none_right_eq_some.mp hstep
      have hsrunning := (h.running g).trans hrunning
      have halike := sendsAlike lib (h.guardedNode hguarded g) envs text len
        s.connectionRequestList
      rw [← h.nodes] at halike
      simp only [Net.step, if_pos hsrunning]
      have hsendList : sessionControllerSessionSendMessage lib envs (net.nodes g).controller s text
          len = WhisperCore.sendList lib envs (net.nodes g).controller text len
            s.connectionRequestList := rfl
      rw [hsendList] at hnext
      cases hsend : WhisperCore.sendList lib envs (net.nodes g).controller text len
          s.connectionRequestList with
      | error stop =>
          rw [hsend] at hnext halike
          obtain rfl := Option.some.inj hnext
          cases hsymbolic : sendList lib.guid (snet.nodes g) text len s.connectionRequestList with
          | mk smessages survives =>
              rw [hsymbolic] at halike
              obtain rfl : survives = false := halike
              exact ⟨_, rfl, h.halt g h.inFlight⟩
      | ok messages =>
          rw [hsend] at hnext halike
          obtain rfl := Option.some.inj hnext
          cases hsymbolic : sendList lib.guid (snet.nodes g) text len s.connectionRequestList with
          | mk smessages survives =>
              rw [hsymbolic] at halike
              obtain ⟨rfl, hpushed⟩ : survives = true
                ∧ List.Forall₂ (DenotesMessage lib) smessages messages := halike
              refine ⟨_, rfl, fun other => ?_, ?_, h.created⟩
              · rw [Net.proceed, Function.update_eq_self]
                exact h.nodes other
              · rw [List.map_append, (sendList_stamped hsend).1]
                exact List.rel_append h.inFlight hpushed

/-! ### Runs -/

/-- Fresh nodes, as terms see them. -/
def ofNet (net : WhisperCore.Net Key) : Net Key where
  nodes g := ofController (net.nodes g).controller (net.nodes g).running
  inFlight := []
  pushed := []
  created := net.created

theorem ofNet_initial {start : WhisperCore.Net Key} (hinitial : start.Initial) :
    (ofNet start).Initial where
  connections g := by
    obtain ⟨_, _, _, _, _, _, _, _, hcontroller⟩ := hinitial.fresh g
    change (start.nodes g).controller.connections.map ofRequest = Arena.empty
    rw [hcontroller]
    rfl
  inFlight := rfl
  pushed := rfl

/-- **Refinement.** A run of the program is followed by one in the symbolic model over the same
events, up to what lies behind the ciphertexts. -/
theorem exists_symbolic_run [DecidableEq Key] (hperfect : Perfect lib)
    {start final : WhisperCore.Net Key} {events : List (NetEvent Key)} (hinitial : start.Initial)
    (hrun : Transition.run (WhisperCore.Net.step lib) start events = some final) :
    ∃ sfinal, Transition.run (Net.step lib.guid) (ofNet start) events = some sfinal
      ∧ Represents lib final sfinal := by
  have hstart : Represents lib start (ofNet start) := by
    refine ⟨fun _ => rfl, ?_, rfl⟩
    rw [hinitial.inFlight]
    exact .nil
  have hstep : ∀ (net : WhisperCore.Net Key) (snet : Net Key) event next,
      Represents lib net snet ∧ GuardedNet nobody snet → net.step lib event = some next →
        ∃ snext, snet.step lib.guid event = some snext
          ∧ (Represents lib next snext ∧ GuardedNet nobody snext) := by
    rintro net snet event next ⟨hrepresents, hguarded⟩ hnext
    obtain ⟨snext, hsnext, hafter⟩ := hrepresents.step hperfect hguarded hnext
    exact ⟨snext, hsnext, hafter, hguarded.step (freshFor_nobody event) hsnext⟩
  obtain ⟨sfinal, hsrun, hfinal, _⟩ := Transition.run_simulation hstep
    ⟨hstart, (ofNet_initial hinitial).guarded⟩ hrun
  exact ⟨sfinal, hsrun, hfinal⟩

/-- The messages in flight are denoted by terms an observer has seen, and from all the terms it has
seen it derives no secret a connection holds. Memory behind a ciphertext that goes out with it is no
part of the terms. -/
theorem program_keeps_secrets [DecidableEq Key] (hperfect : Perfect lib)
    {own : Observer Key Confidential} {start final : WhisperCore.Net Key}
    {events : List (NetEvent Key)} (hinitial : start.Initial)
    (hfresh : ∀ event ∈ events, FreshFor own event)
    (hrun : Transition.run (WhisperCore.Net.step lib) start events = some final) :
    ∃ seen : List (Wpmessage Key),
      (∀ f ∈ final.inFlight, ∃ sm ∈ seen, DenotesMessage lib sm f.message)
        ∧ ∀ g address c secret, (final.nodes g).controller.connections.get? address = some c →
          c.sharedSecret = some secret →
            ¬ Derives own { t | ∃ sm ∈ seen, t ∈ sm.fields } (.atom (.secret secret)) := by
  obtain ⟨sfinal, hsrun, hfinal⟩ := exists_symbolic_run hperfect hinitial hrun
  have hguarded : GuardedNet own sfinal := (ofNet_initial hinitial).guarded.run hfresh hsrun
  refine ⟨sfinal.pushed, fun f hf => ?_, fun g address c secret hget hsecret hderives => ?_⟩
  · obtain ⟨index, hindex⟩ := List.mem_iff_getElem?.mp
      (List.mem_map_of_mem (f := InFlight.message) hf)
    obtain ⟨sm, hsm, hdenotes⟩ := forall₂_getElem? hfinal.inFlight hindex
    exact ⟨sm, hguarded.inFlight sm (List.mem_of_getElem? hsm), hdenotes⟩
  · have hsget : (sfinal.nodes g).connections.get? address = some (ofRequest c) := by
      rw [hfinal.nodes g, ofController, Arena.get?_map, hget]
      rfl
    have hheld : (ofRequest c).sharedSecret = some (.atom (.secret secret)) := by
      rw [ofRequest, hsecret]
      rfl
    have hgenerated := (hguarded.nodes g address _ hsget).secret _ hheld
    exact hgenerated.not_harmless (hderives.harmless hguarded.harmless)

end Net

end WhisperCore.Symbolic
