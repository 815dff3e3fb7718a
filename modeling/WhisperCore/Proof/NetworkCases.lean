import WhisperCore.Network
import WhisperCore.Proof.ProcessorCases

/-!
# What an event of the network can do

Inversion lemmas for the network's step function: six kinds of moves, each of which changes one node
and the messages in flight.
-/

namespace WhisperCore

variable {Key : Type} {lib : Libraries Key}

/-! ### Sends -/

/-- The message `connection_request_send_message` builds for a send: the user's text encrypted under
the secret, up to the first zero of the ciphertext. -/
def Sending.message (lib : Libraries Key) (sending : Sending) : Wpmessage :=
  let memory := lib.des.encrypt (sending.secret.take 8)
    (readBytes sending.text (sending.len + 1)) ++ sending.afterCiphertext
  wpprotocolGenerateMessage (lib.guid.toString sending.id) (lib.guid.toString sending.sender)
    (lib.guid.toString sending.recipient) memory (strlen memory + 1) .communicatingSession

theorem message_sendingOver (lib : Libraries Key) (env : Ambient Key) (c : ConnectionRequest Key)
    (text : Bytes) (len : Nat) (secret : Bytes) :
    (sendingOver env c text len secret).message lib
      = communicationMessage lib env c text len secret := rfl

/-- A message a node sent over one of its completed connections, with its send, which has the secret
that connection holds. -/
structure SentOver (lib : Libraries Key) (controller : ConnectionController Key) (f : InFlight)
    (address : Nat) (c : ConnectionRequest Key) : Prop where
  held : controller.connections.get? address = some c
  complete : c.state = .complete
  stamp : ∃ sending, f.sending = some sending ∧ c.sharedSecret = some sending.secret
    ∧ f.message = sending.message lib
  id : f.message.id = lib.guid.toString c.id
  sender : f.message.sender = lib.guid.toString c.localPeer.guid
  recipient : f.message.recipient = lib.guid.toString c.remote.guid
  action : f.message.action = .communicatingSession

theorem sentOver_communicationMessage {env : Ambient Key} {controller : ConnectionController Key}
    {address : Nat} {c : ConnectionRequest Key} {secret text : Bytes} {len : Nat}
    (hget : controller.connections.get? address = some c) (hcomplete : c.state = .complete)
    (hkey : c.HasKey secret) :
    SentOver lib controller ⟨communicationMessage lib env c text len secret,
      some (sendingOver env c text len secret)⟩ address c where
  held := hget
  complete := hcomplete
  stamp := ⟨_, rfl, hkey.held, (message_sendingOver lib env c text len secret).symm⟩
  id := rfl
  sender := rfl
  recipient := rfl
  action := rfl

/-- A send stamps each of its messages, and with what it sends over the connection it goes over. -/
theorem sendList_stamped {envs : Nat → Ambient Key} {controller : ConnectionController Key}
    {text : Bytes} {len : Nat} {addresses : List Nat} {messages : List Wpmessage}
    (h : sendList lib envs controller text len addresses = .ok messages) :
    (stamped messages (sendings envs controller text len addresses)).map InFlight.message = messages
      ∧ ∀ f ∈ stamped messages (sendings envs controller text len addresses),
        ∃ address c, SentOver lib controller f address c := by
  induction addresses generalizing envs messages with
  | nil =>
      obtain rfl := Except.ok.inj h
      exact ⟨rfl, by simp [stamped]⟩
  | cons address addresses ih =>
      simp only [sendList, connectionControllerConnectionRequestSendMessage] at h
      cases hget : controller.connections.get? address with
      | none =>
          rw [hget] at h
          cases h
      | some c =>
          simp only [hget] at h
          by_cases hcomplete : c.state = .complete
          · rw [if_neg (not_not.mpr hcomplete)] at h
            obtain ⟨sent, hsend, h⟩ := bind_eq_ok_iff.mp h
            obtain ⟨later, hlater, h⟩ := bind_eq_ok_iff.mp h
            obtain rfl := Except.ok.inj h
            obtain ⟨hmap, hsent⟩ := ih hlater
            have hsendings : sendings envs controller text len (address :: addresses)
                = (c.sharedSecret.map (sendingOver (envs 0) c text len)).toList
                  ++ sendings (fun iteration => envs (iteration + 1)) controller text len
                    addresses := by
              simp [sendings, hget, hcomplete]
            rcases connectionRequestSendMessage_cases hsend with
              ⟨hnone, rfl⟩ | ⟨secret, hkey, rfl⟩
            · rw [hsendings, hnone]
              exact ⟨hmap, hsent⟩
            · rw [hsendings, hkey.held]
              refine ⟨congrArg _ hmap, fun f hf => ?_⟩
              rcases List.mem_cons.mp hf with rfl | hf
              · exact ⟨address, c, sentOver_communicationMessage hget hcomplete hkey⟩
              · exact hsent f hf
          · rw [if_pos hcomplete] at h
            obtain rfl := Except.ok.inj h
            exact ⟨rfl, by simp [stamped]⟩

/-! ### Moves -/

/-- The moves of the network. -/
inductive Moves (lib : Libraries Key) (net : Net Key) : Net Key → Prop where
  | discovered (g : Guid) (call : PeerstoreCall) (peers : Peerstore)
      (hcall : call.step lib.guid (net.nodes g).controller.ds.peers = some peers) :
      Moves lib net (net.resume g ((net.nodes g).controller.setPeers peers))
  | initiated (g : Guid) (env : Ambient Key) (remote : PeerRef)
      (hfresh : env.guid ∉ net.created) :
      Moves lib net { net.proceed g
          (connectionControllerInitiationRequest lib env (net.nodes g).controller remote)
          net.inFlight with
        created := env.guid :: net.created }
  | rejected (f : InFlight) (earlier later : List InFlight)
      (hsplit : net.inFlight = earlier ++ f :: later) :
      Moves lib net { net.halt (lib.guid.fromString f.message.recipient) with
        inFlight := earlier ++ later }
  | processed (f : InFlight) (earlier later : List InFlight) (env : Ambient Key)
      (outcome : Outcome Key) (hsplit : net.inFlight = earlier ++ f :: later)
      (hok : internalConnnectionMessageProcessor lib env
        (net.nodes (lib.guid.fromString f.message.recipient)).controller f.message = .ok outcome) :
      Moves lib net
        (net.proceed (lib.guid.fromString f.message.recipient) outcome (earlier ++ later))
  | sendStopped (g : Guid) : Moves lib net (net.halt g)
  | sent (g : Guid) (fs : List InFlight)
      (hsent : ∀ f ∈ fs, ∃ address c, SentOver lib (net.nodes g).controller f address c) :
      Moves lib net { net with inFlight := net.inFlight ++ fs }

theorem exists_split_of_getElem? {inFlight : List InFlight} {index : Nat} {f : InFlight}
    (h : inFlight[index]? = some f) :
    ∃ earlier later, inFlight = earlier ++ f :: later
      ∧ inFlight.eraseIdx index = earlier ++ later := by
  obtain ⟨hlt, rfl⟩ := List.getElem?_eq_some_iff.mp h
  refine ⟨inFlight.take index, inFlight.drop (index + 1), ?_, ?_⟩
  · rw [List.getElem_cons_drop, List.take_append_drop]
  · exact List.eraseIdx_eq_take_drop_succ inFlight index

theorem net_step_cases {net next : Net Key} {event : NetEvent Key}
    (h : net.step lib event = some next) : Moves lib net next := by
  cases event with
  | discovers g call =>
      obtain ⟨hrunning, hmap⟩ := Option.ite_none_right_eq_some.mp h
      obtain ⟨peers, hcall, rfl⟩ := Option.map_eq_some_iff.mp hmap
      exact .discovered g call peers hcall
  | initiates g env remote =>
      obtain ⟨⟨hrunning, hfresh⟩, hnext⟩ := Option.ite_none_right_eq_some.mp h
      obtain rfl := Option.some.inj hnext
      exact .initiated g env remote hfresh
  | delivers index env =>
      simp only [Net.step] at h
      cases hindex : net.inFlight[index]? with
      | none => simp [hindex] at h
      | some f =>
          obtain ⟨earlier, later, hsplit, herase⟩ := exists_split_of_getElem? hindex
          simp only [hindex, herase] at h
          obtain ⟨hrunning, hnext⟩ := Option.ite_none_right_eq_some.mp h
          cases hprocess : internalConnnectionMessageProcessor lib env
              (net.nodes (lib.guid.fromString f.message.recipient)).controller f.message with
          | error stop =>
              rw [hprocess] at hnext
              obtain rfl := Option.some.inj hnext
              exact .rejected f earlier later hsplit
          | ok outcome =>
              rw [hprocess] at hnext
              obtain rfl := Option.some.inj hnext
              exact .processed f earlier later env outcome hsplit hprocess
  | sends g envs s message messageLen =>
      obtain ⟨hrunning, hnext⟩ := Option.ite_none_right_eq_some.mp h
      cases hsend : sessionControllerSessionSendMessage lib envs (net.nodes g).controller s message
          messageLen with
      | error stop =>
          rw [hsend] at hnext
          obtain rfl := Option.some.inj hnext
          exact .sendStopped g
      | ok messages =>
          rw [hsend] at hnext
          obtain rfl := Option.some.inj hnext
          exact .sent g _ (sendList_stamped hsend).2

end WhisperCore
