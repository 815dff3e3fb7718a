import WhisperCore.Proof.HandshakeLiveness
import WhisperCore.Proof.LetterDelivery
import WhisperCore.Proof.SessionSend

/-!
# A text reaches a session

A text that is sent over a session that is ready is read by every peer of the session that runs, has
a message handler and knows the sender, once and on its own connection. Nothing can go wrong on the
way: neither the sending nor any delivery ends a process.
-/

namespace WhisperCore

variable {Key : Type} {lib : Libraries Key} {net next : Net Key} {post after : Post Key}
  {g : Guid} {phase : Phase Key} {text : CString}

/-! ### The sender's end -/

/-- A completed end of a handshake has a secret, and another node at its other end. -/
theorem Phase.complete_view {v : View Key} (hv : v ∈ phase.holds g)
    (hcomplete : v.state = .complete) :
    v.localGuid = g ∧ v.remoteGuid ≠ g ∧ ∃ σ : Secret, v.sharedSecret = some σ.bytes := by
  cases phase with
  | unused => simp [holds] at hv
  | created initiator responder key =>
      have hview : g = initiator ∧ v = ⟨.initialChallenge, initiator, responder, key, none⟩ := by
        simpa [holds] using hv
      rw [hview.2] at hcomplete
      cases hcomplete
  | replied p =>
      rcases Parties.mem_hold.mp hv with ⟨_, rfl⟩ | ⟨_, rfl⟩
      · cases hcomplete
      · cases hcomplete
  | shared p σ =>
      rcases Parties.mem_hold.mp hv with ⟨_, rfl⟩ | ⟨_, rfl⟩
      · cases hcomplete
      · cases hcomplete
  | confirmed p σ =>
      rcases Parties.mem_hold.mp hv with ⟨_, rfl⟩ | ⟨rfl, rfl⟩
      · cases hcomplete
      · exact ⟨rfl, p.distinct, σ, rfl⟩
  | complete p σ =>
      rcases Parties.mem_hold.mp hv with ⟨rfl, rfl⟩ | ⟨rfl, rfl⟩
      · exact ⟨rfl, p.distinct.symm, σ, rfl⟩
      · exact ⟨rfl, p.distinct, σ, rfl⟩

/-- A completed connection of a node goes from it to another node, and has a key. -/
theorem Honest.complete_connection (hinv : Honest lib net) {address : Nat}
    {c : ConnectionRequest Key}
    (hget : (net.nodes g).controller.connections.get? address = some c)
    (hcomplete : c.state = .complete) :
    c.localPeer.guid = g ∧ c.remote.guid ≠ g ∧ ∃ secret, c.HasKey secret := by
  obtain ⟨phase, hshows, _⟩ := hinv.shows c.id
  have hmem : (address, c) ∈ net.connectionsOf c.id g :=
    Arena.mem_select.mpr ⟨hget, decide_eq_true rfl⟩
  have hview : c.view ∈ phase.holds g := by
    rw [(hshows.select_eq_singleton hmem).2]
    exact List.mem_singleton_self _
  obtain ⟨hlocal, hremote, σ, hsecret⟩ := Phase.complete_view hview hcomplete
  exact ⟨hlocal, hremote, σ.bytes, hsecret, σ.length_eq.ge⟩

theorem Honest.keyed (hinv : Honest lib net) (g : Guid) : Keyed (net.nodes g).controller :=
  fun _ _ hget hcomplete => (hinv.complete_connection hget hcomplete).2.2

/-- The connections of a session. -/
def sessionConnections (controller : ConnectionController Key) (addresses : List Nat) :
    List (ConnectionRequest Key) :=
  addresses.filterMap controller.connections.get?

/-- The letters a text makes when it is sent over connections. -/
def lettersOver (text : CString) (connections : List (ConnectionRequest Key)) : List Letter :=
  connections.map fun c => ⟨c.id, c.localPeer.guid, c.remote.guid, text⟩

/-- Over completed connections there is a letter for each. -/
theorem sendList_letters {controller : ConnectionController Key} (hkeyed : Keyed controller)
    {addresses : List Nat} (hready : isReadyList controller addresses = .ok true)
    (envs : Nat → Ambient Key) (rest : Bytes) :
    ∃ messages, sendList lib envs controller (text.inMemory rest) text.bytes.length addresses
        = .ok messages
      ∧ messages.map (letterOf lib text)
        = lettersOver text (sessionConnections controller addresses)
      ∧ (∀ c ∈ sessionConnections controller addresses, c.state = .complete)
      ∧ messages.length = addresses.length := by
  induction addresses generalizing envs with
  | nil => exact ⟨[], rfl, rfl, fun c hc => absurd hc List.not_mem_nil, rfl⟩
  | cons address addresses ih =>
      unfold isReadyList at hready
      cases hget : controller.connections.get? address with
      | none => simp [hget] at hready
      | some c =>
          have hcomplete : c.state = .complete := by
            by_contra hpending
            simp [hget, hpending] at hready
          simp only [hget, hcomplete, ne_eq, not_true_eq_false, if_false] at hready
          obtain ⟨secret, hkey⟩ := hkeyed address c hget hcomplete
          obtain ⟨messages, hsend, hletters, hall, hlength⟩ := ih hready fun k => envs (k + 1)
          have hconnections : sessionConnections controller (address :: addresses)
              = c :: sessionConnections controller addresses := by
            simp [sessionConnections, hget]
          refine ⟨communicationMessage lib (envs 0) c (text.inMemory rest) text.bytes.length secret
            :: messages, ?_, ?_, ?_, ?_⟩
          · simp only [sendList, hget, hcomplete, ne_eq, not_true_eq_false, if_false,
              connectionControllerConnectionRequestSendMessage,
              connectionRequestSendMessage_eq_ok hkey, hsend]
            rfl
          · rw [hconnections, List.map_cons, hletters, letterOf_communicationMessage]
            rfl
          · rw [hconnections]
            intro other hother
            rcases List.mem_cons.mp hother with rfl | hother
            · exact hcomplete
            · exact hall other hother
          · rw [List.length_cons, List.length_cons, hlength]

/-! ### The reader's end -/

/-- The node runs, has a message handler and knows the sender. -/
structure Reads (lib : Libraries Key) (net : Net Key) (g sender : Guid) : Prop where
  other : g ≠ sender
  knows : Knows lib net g sender
  cmr : (net.nodes g).controller.cmr = true

theorem Reads.of_nodes {h : Guid} (hreads : Reads lib net g h)
    (hnodes : next.nodes = net.nodes) : Reads lib next g h := by
  refine ⟨hreads.other, ⟨?_, ?_⟩, ?_⟩
  · rw [hnodes]
    exact hreads.knows.running
  · rw [hnodes]
    exact hreads.knows.found
  · rw [hnodes]
    exact hreads.cmr

/-- The processor takes a text that was sent over a session to the end, and changes nothing. -/
theorem Honest.takes (hinv : Honest lib net) {f : InFlight} {letter : Letter}
    (hf : f ∈ net.inFlight) (hnoted : Noted lib f (some letter)) {remote : Peer}
    (hknown : KnownSender lib (net.nodes letter.recipient).controller f.message remote)
    (env : Ambient Key) :
    ∃ outcome, internalConnnectionMessageProcessor lib env
        (net.nodes letter.recipient).controller f.message = .ok outcome
      ∧ outcome.controller = (net.nodes letter.recipient).controller := by
  have hrecipient := hnoted.recipient_eq
  obtain ⟨env', c, rest, secret, hbuilt, _, hletter⟩ := hnoted
  have hmessage : f.message = communicationMessage lib env' c (letter.text.inMemory rest)
    letter.text.bytes.length secret := congrArg InFlight.message hbuilt
  have haction : f.message.action = .communicatingSession := by
    simp [hmessage, communicationMessage]
  obtain ⟨phase, hshows, _⟩ := hinv.shows (lib.guid.fromString f.message.id)
  obtain ⟨sending, _, _, hcarries⟩ := hshows.session f hf rfl haction
  obtain ⟨v, hholds, hsecret, _, hlength⟩ := Phase.exists_end_of_carries hcarries
  rw [hrecipient] at hholds
  obtain ⟨address, o, hfind, hview⟩ := hshows.exists_found rfl hholds
  have hkey : o.HasKey sending.secret :=
    ⟨(congrArg View.sharedSecret hview).trans hsecret, hlength.ge⟩
  rw [hknown.processor_eq, processAction]
  simp only [haction, hfind]
  exact ⟨_, processCommunicatingSession_eq_ok hkey, rfl⟩

/-- One delivery of a letter to a node that reads it. -/
theorem Honest.reads_letter (hinv : Honest lib post.net) {index : Nat} {f : InFlight}
    {letter : Letter} (hindex : post.net.inFlight[index]? = some f)
    (hnoted : Noted lib f (some letter))
    (hreads : Reads lib post.net letter.recipient letter.sender) (env : Ambient Key) :
    ∃ after, post.step lib (.delivers index env) = some after
      ∧ after.received = post.received ++ [letter] ∧ after.lost = post.lost
      ∧ after.net = { post.net with inFlight := post.net.inFlight.eraseIdx index } := by
  have hf : f ∈ post.net.inFlight := List.mem_of_getElem? hindex
  have hrecipient := hnoted.recipient_eq
  have hsender : lib.guid.fromString f.message.sender = letter.sender := by
    obtain ⟨env', c, rest, secret, rfl, _, hletter⟩ := hnoted
    rw [hletter]
    exact lib.guid.fromString_toString _
  obtain ⟨remote, hknown⟩ := hreads.knows.knownSender hinv hreads.other hsender
  obtain ⟨outcome, hok, hcontroller⟩ := hinv.takes hf hnoted hknown env
  obtain ⟨hpushed, hhanded⟩ := hinv.reads hf hnoted hok
  have hcmr : outcome.controller.cmr = true := by
    rw [hcontroller]
    exact hreads.cmr
  rw [if_pos hcmr, ← hrecipient] at hhanded
  rw [← hrecipient] at hok hcontroller
  have hnext : post.net.step lib (.delivers index env)
      = some { post.net with inFlight := post.net.inFlight.eraseIdx index } := by
    have hsame : post.net.resume (lib.guid.fromString f.message.recipient) outcome.controller
        = post.net := by
      rw [Net.resume, hcontroller, Function.update_eq_self]
    simp only [Net.step, hindex]
    rw [if_pos (hrecipient ▸ hreads.knows.running), hok]
    simp only [Net.proceed, hsame, hpushed, List.map_nil, List.append_nil]
  refine ⟨_, by rw [Post.step, hnext, Option.map_some], ?_⟩
  simp only [hindex]
  rw [deliver_ok hok hhanded, if_neg (List.cons_ne_nil letter [])]
  exact ⟨rfl, rfl, rfl⟩

/-- The letters at the end of what is in flight, delivered one after another. -/
theorem Honest.run_letters {old : List InFlight} {letters : List Letter}
    (hinv : Honest lib post.net) {fs : List InFlight} (hinFlight : post.net.inFlight = old ++ fs)
    (hnoted : List.Forall₂ (Noted lib) fs (letters.map some))
    (hreads : ∀ letter ∈ letters, Reads lib post.net letter.recipient letter.sender)
    (envs : Nat → Ambient Key) :
    ∃ final, Transition.run (Post.step lib) post
        (deliveries (List.replicate letters.length old.length) envs) = some final
      ∧ final.received = post.received ++ letters ∧ final.lost = post.lost
      ∧ final.net = { post.net with inFlight := old } := by
  induction letters generalizing post fs envs with
  | nil =>
      obtain rfl : fs = [] := List.forall₂_nil_right_iff.mp hnoted
      refine ⟨post, rfl, (List.append_nil _).symm, rfl, ?_⟩
      rw [List.append_nil] at hinFlight
      rw [← hinFlight]
  | cons letter letters ih =>
      obtain ⟨f, fs, hletter, hletters, rfl⟩ := List.forall₂_cons_right_iff.mp hnoted
      have hindex : post.net.inFlight[old.length]? = some f := by
        rw [hinFlight, List.getElem?_append_right le_rfl, Nat.sub_self]
        rfl
      obtain ⟨middle, hstep, hreceived, hlost, hnet⟩ :=
        hinv.reads_letter hindex hletter (hreads letter List.mem_cons_self) (envs 0)
      have hmiddle : Honest lib middle.net := hinv.step (net_step_cases (step_net hstep))
      have hmiddleInFlight : middle.net.inFlight = old ++ fs := by
        rw [hnet, hinFlight]
        simp [List.eraseIdx_append_of_length_le]
      obtain ⟨final, hrun, hfinalReceived, hfinalLost, hfinalNet⟩ := ih hmiddle hmiddleInFlight
        hletters
        (fun other hother => (hreads other (List.mem_cons_of_mem _ hother)).of_nodes (by rw [hnet]))
        (fun k => envs (k + 1))
      refine ⟨final, Transition.run_cons_eq_some.mpr ⟨middle, hstep, hrun⟩, ?_, ?_, ?_⟩
      · rw [hfinalReceived, hreceived, List.append_assoc]
        rfl
      · exact hfinalLost.trans hlost
      · rw [hfinalNet, hnet]

/-- A text that is sent over connections that are complete, and legible on them, is read by all
their remote peers. -/
theorem Honest.list_text_arrives (hinv : Honest lib post.net)
    (hrunning : (post.net.nodes g).running = true) {s : Session}
    (hready : isReadyList (post.net.nodes g).controller s.connectionRequestList = .ok true)
    (htext : ∀ secret ∈ sendSecrets (post.net.nodes g).controller s.connectionRequestList,
      LegibleUnder lib text secret)
    (hpeers : ∀ c ∈ sessionConnections (post.net.nodes g).controller s.connectionRequestList,
      Knows lib post.net c.remote.guid g ∧ (post.net.nodes c.remote.guid).controller.cmr = true)
    (rest : Bytes) (envs envs' : Nat → Ambient Key) :
    ∃ final, Transition.run (Post.step lib) post
        (.sends g envs s (text.inMemory rest) text.bytes.length
          :: deliveries (List.replicate s.connectionRequestList.length post.net.inFlight.length)
            envs') = some final
      ∧ final.received = post.received ++ lettersOver text
        (sessionConnections (post.net.nodes g).controller s.connectionRequestList)
      ∧ final.lost = post.lost ∧ final.net = post.net := by
  obtain ⟨messages, hsend, hletters, hcomplete, hlength⟩ :=
    sendList_letters (hinv.keyed g) hready envs rest
  have hsent : sessionControllerSessionSendMessage lib envs (post.net.nodes g).controller s
      (text.inMemory rest) text.bytes.length = .ok messages := hsend
  have hstep : post.step lib (.sends g envs s (text.inMemory rest) text.bytes.length)
      = some { post with
        net := { post.net with
          inFlight := post.net.inFlight ++ stamped messages
            (sendings envs (post.net.nodes g).controller (text.inMemory rest) text.bytes.length
              s.connectionRequestList) }
        notes := post.notes ++ (messages.map (letterOf lib text)).map some
        sent := post.sent ++ messages.map (letterOf lib text) } := by
    simp only [Post.step, Net.step, hrunning, if_true, hsent, Option.map_some, Post.lettersSent,
      CString.read_inMemory]
  have hnoted : List.Forall₂ (Noted lib) (stamped messages
      (sendings envs (post.net.nodes g).controller (text.inMemory rest) text.bytes.length
        s.connectionRequestList))
      ((messages.map (letterOf lib text)).map some) := by
    rw [List.map_map]
    exact sendList_noted hsend htext
  have hreads : ∀ letter ∈ messages.map (letterOf lib text),
      Reads lib post.net letter.recipient letter.sender := by
    rw [hletters]
    intro letter hletter
    obtain ⟨c, hc, rfl⟩ := List.mem_map.mp hletter
    obtain ⟨address, _, hget⟩ := List.mem_filterMap.mp hc
    obtain ⟨hlocal, hremote, _⟩ := hinv.complete_connection hget (hcomplete c hc)
    obtain ⟨hknows, hcmr⟩ := hpeers c hc
    exact ⟨hlocal ▸ hremote, hlocal ▸ hknows, hcmr⟩
  have hmiddle := hinv.step (net_step_cases (step_net hstep))
  obtain ⟨final, hfinal, hreceived, hlost, hnet⟩ := hmiddle.run_letters rfl hnoted
    (fun letter hletter => (hreads letter hletter).of_nodes rfl) envs'
  rw [List.length_map, hlength] at hfinal
  refine ⟨final, Transition.run_cons_eq_some.mpr ⟨_, hstep, hfinal⟩, ?_, hlost, hnet⟩
  rw [hreceived, hletters]

theorem isReadyList_of_ready {controller : ConnectionController Key} {s : Session}
    (hready : sessionControllerIsSessionReady controller s = .ok true) :
    isReadyList controller s.connectionRequestList = .ok true := by
  unfold sessionControllerIsSessionReady at hready
  cases haddresses : s.connectionRequestList with
  | nil => rfl
  | cons address rest =>
      rw [haddresses] at hready
      exact hready

section Run

open Concrete

/-- Al shakes hands with a third node as well. -/
def groupEvents : List (NetEvent CString) :=
  sessionEvents ++ [.discovers (guid 1) (.storePeer 1 (peer 3 bob)),
    .discovers (guid 3) (.storePeer 1 (peer 1 al)),
    .initiates (guid 1) (ambient al (guid 10) fun _ => 0) (peer 3 bob).ref,
    .delivers 0 (ambient bob (guid 8) fun _ => 0), .delivers 0 (ambient al (guid 8) drawsL),
    .delivers 0 (ambient bob (guid 8) fun _ => 0), .delivers 0 (ambient al (guid 8) fun _ => 0)]

/-- Al's session with both. -/
def groupOfAl : Session := ⟨guid 9, [0, 1]⟩

end Run

end WhisperCore
