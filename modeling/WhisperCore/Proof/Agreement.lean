import WhisperCore.Concrete
import WhisperCore.Proof.HandshakeRefinement

/-!
# Agreement

Every move of the network keeps the phase shown under an id or advances it, so in every reachable
network each id shows a phase of the handshake. Agreement of two completed nodes, and that a message
of a session finds its key, are then read off the phase.
-/

namespace WhisperCore

variable {Key : Type} {lib : Libraries Key} {net next : Net Key}

/-- What the responder's public key sealed opens with the responder's key. -/
theorem asymmetricalDecrypt_sealedSecret {env : Ambient Key} {m : Wpmessage} {key : Key}
    {cipher : Bytes}
    (hpayload : m.rawdata
      = (lib.base64.encode (asymmetricalKeyToString lib.rsa key).bytes).bytes)
    (hsealed : sealedSecret lib env m = some cipher) :
    asymmetricalDecrypt lib.rsa key cipher cipher.length
      = some (lib.base64.encode (generateSharedSecret env.draws)).bytes := by
  rw [asymmetricalDecrypt, readBytes_self]
  apply lib.rsa.decrypt_encrypt key env.padding _ cipher
  rw [sealedSecret, hpayload, lib.base64.decode_encode] at hsealed
  simpa [asymmetricalKeyFromString, asymmetricalEncrypt, asymmetricalKeyToString] using hsealed

/-! ### Processing

What the processor does to its own id, one lemma for each action. `rest` is what is left in flight
when the message `m` is taken out. -/

section Processing

variable {i g : Guid} {m : Wpmessage} {env : Ambient Key} {remote : Peer} {phase : Phase Key}
  {rest : List InFlight} {address : Nat} {c : ConnectionRequest Key}

theorem Shows.reply (hshows : Shows lib (lib.guid.fromString m.id) net phase)
    (hexpected : Expected lib phase m)
    (hrest : handshakeOf lib (lib.guid.fromString m.id) rest = [])
    (hsub : ∀ f ∈ rest, f ∈ net.inFlight)
    (hrecipient : lib.guid.fromString m.recipient = g) (haction : m.action = .createSession)
    (hown : (net.nodes g).controller.ds.peers.localPeer.guid = g)
    (hremote : remote.guid = lib.guid.fromString m.sender) (hother : remote.guid ≠ g)
    (calls : List Notification) :
    ∃ after, phase.Follows after ∧ Shows lib (lib.guid.fromString m.id) (net.proceed g
      ⟨connectionControllerAddConnectionRequest (net.nodes g).controller
          (answeringRequest lib env (net.nodes g).controller m remote),
        [exchangeChallengeReply lib (answeringRequest lib env (net.nodes g).controller m remote)],
        calls⟩ rest) after := by
  have hroute := hexpected.route
  rw [haction, hrecipient] at hroute
  obtain ⟨key, rfl⟩ := Phase.of_expects hroute
  let p : Parties Key := ⟨lib.guid.fromString m.sender, g, key, env.keypair, hremote ▸ hother⟩
  have hlocal : (answeringRequest lib env (net.nodes g).controller m remote).localPeer.guid = g :=
    hown
  have hpeer : (answeringRequest lib env (net.nodes g).controller m remote).remote.guid
      = lib.guid.fromString m.sender := hremote
  have hview : (answeringRequest lib env (net.nodes g).controller m remote).view
      = p.responderView .challengeReply none := by
    rw [ConnectionRequest.view, hlocal, hpeer]
    rfl
  have hnone : (net.nodes g).controller.connections.select
      (fun c => c.id = lib.guid.fromString m.id) = [] := by
    have hholds := hshows.connections g
    rw [Phase.holds, if_neg p.distinct.symm] at hholds
    exact List.map_eq_nil_iff.mp hholds
  refine ⟨.replied p, Or.inr ⟨_, .reply p⟩,
    hshows.advance (.reply p) ?_ hrest hsub (Or.inr ⟨_, rfl, ?_⟩)⟩
  · have hmine : decide ((answeringRequest lib env (net.nodes g).controller m remote).id
        = lib.guid.fromString m.id) = true := decide_eq_true rfl
    rw [addConnectionRequest_connections, Arena.select_add, hnone, if_pos hmine, Phase.holds,
      Parties.hold_responder, ← hview]
    rfl
  · constructor
    · simp [exchangeChallengeReply, Phase.expects, hlocal, hpeer, p]
    · simp only [exchangeChallengeReply, connectionMessage_rawdata, readBytes_self]
      rfl

theorem Shows.share (hshows : Shows lib (lib.guid.fromString m.id) net phase)
    (hexpected : Expected lib phase m)
    (hrest : handshakeOf lib (lib.guid.fromString m.id) rest = [])
    (hsub : ∀ f ∈ rest, f ∈ net.inFlight)
    (hrecipient : lib.guid.fromString m.recipient = g)
    (haction : m.action = .respondingCreatedSession)
    (hfind : findConnection lib (net.nodes g).controller m = some (address, c)) {cipher : Bytes}
    (hcipher : sealedSecret lib env m = some cipher) :
    ∃ after, phase.Follows after ∧ Shows lib (lib.guid.fromString m.id) (net.proceed g
      ⟨(net.nodes g).controller.setConnection address { c with
          state := .sessionKeyShare
          sharedSecret := some (generateSharedSecret env.draws) },
        [keyShareMessage lib c cipher], []⟩ rest) after := by
  have hroute := hexpected.route
  rw [haction, hrecipient] at hroute
  obtain ⟨p, rfl, _, rfl⟩ := Phase.of_expects hroute
  obtain ⟨_, hholds⟩ := hshows.found rfl hfind
  have hview : c.view = p.initiatorView .initialChallenge none := by
    simpa [Phase.holds, eq_comm] using hholds
  have hlocal : c.localPeer.guid = p.initiator := congrArg View.localGuid hview
  have hpeer : c.remote.guid = p.responder := congrArg View.remoteGuid hview
  have hkey : c.keypair = p.initiatorKey := congrArg View.keypair hview
  let σ : Secret := ⟨generateSharedSecret env.draws, length_generateSharedSecret _⟩
  refine ⟨.shared p σ, Or.inr ⟨_, .share p σ⟩,
    hshows.advance_set (.share p σ) rfl hfind rfl ?_ hrest hsub (Or.inr ⟨_, rfl, ?_⟩)⟩
  · rw [Phase.holds, Parties.hold_initiator, ConnectionRequest.view, hlocal, hpeer, hkey]
    rfl
  · constructor
    · simp [keyShareMessage, Phase.expects, hlocal, hpeer]
    · simp only [keyShareMessage, connectionMessage_rawdata, readBytes_self]
      exact asymmetricalDecrypt_sealedSecret hexpected.payload hcipher

theorem Shows.confirm (hshows : Shows lib (lib.guid.fromString m.id) net phase)
    (hexpected : Expected lib phase m)
    (hrest : handshakeOf lib (lib.guid.fromString m.id) rest = [])
    (hsub : ∀ f ∈ rest, f ∈ net.inFlight)
    (hrecipient : lib.guid.fromString m.recipient = g) (haction : m.action = .sharingSessionKey)
    (hfind : findConnection lib (net.nodes g).controller m = some (address, c))
    {decrypted secret : Bytes}
    (hdecrypt : asymmetricalDecrypt lib.rsa c.keypair m.rawdata m.rawdata.length = some decrypted)
    (hdecode : lib.base64.decode decrypted = some secret) (calls : List Notification) :
    ∃ after, phase.Follows after ∧ Shows lib (lib.guid.fromString m.id) (net.proceed g
      ⟨(net.nodes g).controller.setConnection address { c with
          state := .complete
          sharedSecret := some secret },
        [completionMessage lib env c secret], calls⟩ rest) after := by
  have hroute := hexpected.route
  rw [haction, hrecipient] at hroute
  obtain ⟨p, σ, rfl, _, rfl⟩ := Phase.of_expects hroute
  obtain ⟨_, hholds⟩ := hshows.found rfl hfind
  have hview : c.view = p.responderView .challengeReply none := by
    simpa [Phase.holds, eq_comm] using hholds
  have hlocal : c.localPeer.guid = p.responder := congrArg View.localGuid hview
  have hpeer : c.remote.guid = p.initiator := congrArg View.remoteGuid hview
  have hkey : c.keypair = p.responderKey := congrArg View.keypair hview
  have hopened : (lib.base64.encode σ.bytes).bytes = decrypted := by
    have hpayload : asymmetricalDecrypt lib.rsa p.responderKey m.rawdata m.rawdata.length
        = some (lib.base64.encode σ.bytes).bytes := hexpected.payload
    rw [← hkey, hdecrypt] at hpayload
    exact (Option.some.inj hpayload).symm
  have hsecret : σ.bytes = secret := by
    rw [← hopened, lib.base64.decode_encode] at hdecode
    exact Option.some.inj hdecode
  refine ⟨.confirmed p σ, Or.inr ⟨_, .confirm p σ⟩,
    hshows.advance_set (.confirm p σ) rfl hfind rfl ?_ hrest hsub (Or.inr ⟨_, rfl, ?_⟩)⟩
  · rw [Phase.holds, Parties.hold_responder, ConnectionRequest.view, hlocal, hpeer, hkey, ← hsecret]
    rfl
  · constructor
    · simp [completionMessage, Phase.expects, hlocal, hpeer]
    · trivial

theorem Shows.finish (hshows : Shows lib (lib.guid.fromString m.id) net phase)
    (hexpected : Expected lib phase m)
    (hrest : handshakeOf lib (lib.guid.fromString m.id) rest = [])
    (hsub : ∀ f ∈ rest, f ∈ net.inFlight)
    (hrecipient : lib.guid.fromString m.recipient = g) (haction : m.action = .completedSession)
    (hfind : findConnection lib (net.nodes g).controller m = some (address, c))
    (calls : List Notification) :
    ∃ after, phase.Follows after ∧ Shows lib (lib.guid.fromString m.id) (net.proceed g
      ⟨(net.nodes g).controller.setConnection address { c with state := .complete }, [], calls⟩
      rest) after := by
  have hroute := hexpected.route
  rw [haction, hrecipient] at hroute
  obtain ⟨p, σ, rfl, _, rfl⟩ := Phase.of_expects hroute
  obtain ⟨_, hholds⟩ := hshows.found rfl hfind
  have hview : c.view = p.initiatorView .sessionKeyShare (some σ) := by
    simpa [Phase.holds, eq_comm] using hholds
  refine ⟨.complete p σ, Or.inr ⟨_, .complete p σ⟩,
    hshows.advance_set (.complete p σ) rfl hfind rfl ?_ hrest hsub (Or.inl rfl)⟩
  have hafter := congrArg (fun v : View Key => { v with state := .complete }) hview
  rw [Phase.holds, Parties.hold_initiator]
  exact congrArg (fun v => [v]) hafter.symm

end Processing

section Moves

variable {f : InFlight} {earlier later : List InFlight} {env : Ambient Key} {outcome : Outcome Key}
  {remote : Peer} {phase : Phase Key} {g i : Guid} {address : Nat} {c : ConnectionRequest Key}

theorem mem_of_mem_rest (hsplit : net.inFlight = earlier ++ f :: later) {other : InFlight}
    (h : other ∈ earlier ++ later) : other ∈ net.inFlight := by
  rw [hsplit]
  rcases List.mem_append.mp h with hearlier | hlater
  · exact List.mem_append_left _ hearlier
  · exact List.mem_append_right _ (List.mem_cons_of_mem f hlater)

theorem handshakeOf_rest_sublist (hsplit : net.inFlight = earlier ++ f :: later) :
    List.Sublist (handshakeOf lib i (earlier ++ later)) (handshakeOf lib i net.inFlight) := by
  rw [hsplit]
  exact ((List.sublist_cons_self f later).append_left earlier).filter _

/-- The id of a processed message shows the same phase, or the next one. -/
theorem Honest.processed_own (hinv : Honest lib net)
    (hsplit : net.inFlight = earlier ++ f :: later)
    (hrecipient : lib.guid.fromString f.message.recipient = g)
    (hknown : KnownSender lib (net.nodes g).controller f.message remote)
    (hprocessed : Processed lib env (net.nodes g).controller f.message remote outcome)
    (hshows : Shows lib (lib.guid.fromString f.message.id) net phase) :
    ∃ after, phase.Follows after ∧ Shows lib (lib.guid.fromString f.message.id)
      (net.proceed g outcome (earlier ++ later)) after := by
  have hsub : ∀ other ∈ earlier ++ later, other ∈ net.inFlight :=
    fun _ hother => mem_of_mem_rest hsplit hother
  have htaken := fun haction => hshows.taken hsplit rfl haction
  cases hprocessed with
  | createSession haction hfind =>
      obtain ⟨hrest, hexpected⟩ := htaken (by simp [haction])
      have hremote := Honest.sender_guid (hinv.filed g) hknown
      have hother : remote.guid ≠ g := by
        rw [← hinv.own g]
        exact hknown.other
      exact hshows.reply hexpected hrest hsub hrecipient haction (hinv.own g) hremote hother _
  | respondingCreatedSession address c cipher haction hfind hcipher =>
      obtain ⟨hrest, hexpected⟩ := htaken (by simp [haction])
      exact hshows.share hexpected hrest hsub hrecipient haction hfind hcipher
  | sharingSessionKey address c decrypted secret haction hfind hdecrypt hdecode hlong =>
      obtain ⟨hrest, hexpected⟩ := htaken (by simp [haction])
      exact hshows.confirm hexpected hrest hsub hrecipient haction hfind hdecrypt hdecode _
  | completedSession address c secret haction hfind hkey =>
      obtain ⟨hrest, hexpected⟩ := htaken (by simp [haction])
      exact hshows.finish hexpected hrest hsub hrecipient haction hfind _
  | communicatingSession address c secret haction hfind hkey =>
      refine ⟨phase, Or.inl rfl, hshows.frame ?_ ?_ ?_⟩
      · exact connectionsOf_resume_of_select rfl
      · simp only [Net.proceed, List.map_nil, List.append_nil]
        exact handshakeOf_rest_sublist hsplit
      · intro other hother _ _
        simp only [Net.proceed, List.map_nil, List.append_nil] at hother
        exact Or.inl (hsub other hother)

/-- The other ids show what they showed. -/
theorem Shows.processed_other (hshows : Shows lib i net phase)
    (hsplit : net.inFlight = earlier ++ f :: later)
    (hown : OwnIdOnly lib (net.nodes g).controller f.message outcome)
    (hne : i ≠ lib.guid.fromString f.message.id) :
    Shows lib i (net.proceed g outcome (earlier ++ later)) phase := by
  have hpushed : ∀ other ∈ outcome.pushed.map unstamped,
      lib.guid.fromString other.message.id = lib.guid.fromString f.message.id
        ∧ other.message.action ≠ .communicatingSession := by
    intro other hother
    obtain ⟨out, hout, rfl⟩ := List.mem_map.mp hother
    exact hown.pushed out hout
  apply hshows.frame
  · exact connectionsOf_resume_of_select (hown.others i hne)
  · have hnil : handshakeOf lib i (outcome.pushed.map unstamped) = [] :=
      handshakeOf_eq_nil fun other hother hid =>
        absurd (hid.symm.trans (hpushed other hother).1) hne
    rw [Net.proceed, handshakeOf_append, hnil, List.append_nil]
    exact handshakeOf_rest_sublist hsplit
  · intro other hother hid haction
    rcases List.mem_append.mp hother with hold | hnew
    · exact Or.inl (mem_of_mem_rest hsplit hold)
    · exact absurd haction (hpushed other hnew).2

/-- Nothing is in flight for an id that no initiation got. -/
theorem Shows.not_in_flight (hshows : Shows lib i net .unused) (hf : f ∈ net.inFlight) :
    lib.guid.fromString f.message.id ≠ i := by
  intro hid
  by_cases haction : f.message.action = .communicatingSession
  · obtain ⟨_, _, _, hcarries⟩ := hshows.session f hf hid haction
    exact hcarries
  · obtain ⟨earlier, later, hsplit⟩ := List.append_of_mem hf
    obtain ⟨_, hexpected⟩ := hshows.taken hsplit hid haction
    cases hexpected.route

theorem Shows.created_irrel (hshows : Shows lib i net phase) (created : List Guid) :
    Shows lib i { net with created := created } phase :=
  ⟨hshows.connections, hshows.handshake, hshows.session⟩

theorem Shows.initiate (hshows : Shows lib i net .unused) (hid : env.guid = i)
    (hown : (net.nodes g).controller.ds.peers.localPeer.guid = g) (remote : PeerRef) :
    Shows lib i (net.proceed g
      (connectionControllerInitiationRequest lib env (net.nodes g).controller remote)
      net.inFlight) (.created g remote.guid env.keypair) := by
  have hnone : (net.nodes g).controller.connections.select (fun c => c.id = i) = [] :=
    List.map_eq_nil_iff.mp (hshows.connections g)
  have hrest : handshakeOf lib i net.inFlight = [] := by
    rcases hshows.handshake with hnil | ⟨_, _, hexpected⟩
    · exact hnil
    · cases hexpected.route
  refine hshows.advance (.create g remote.guid env.keypair) ?_ hrest (fun _ hf => hf)
    (Or.inr ⟨_, rfl, ?_⟩)
  · have hmine : decide ((connectionRequestCreate env remote (net.nodes g).controller.ds.peers
        .initialChallenge).id = i) = true := decide_eq_true hid
    simp only [connectionControllerInitiationRequest, addConnectionRequest_connections,
      Arena.select_add, hnone, hmine, if_true, List.nil_append, List.map_cons, List.map_nil,
      Phase.holds]
    rw [ConnectionRequest.view, connectionRequestCreate, Peer.ref_guid, hown]
  · constructor
    · simp [connectionRequestCreateInitiationMessage, connectionRequestCreate, Phase.expects, hown]
    · trivial

theorem Shows.initiate_other (hshows : Shows lib i net phase) (hne : env.guid ≠ i)
    (remote : PeerRef) :
    Shows lib i (net.proceed g
      (connectionControllerInitiationRequest lib env (net.nodes g).controller remote)
      net.inFlight) phase := by
  apply hshows.frame
  · have hother : ¬ decide ((connectionRequestCreate env remote
        (net.nodes g).controller.ds.peers .initialChallenge).id = i) = true :=
      fun hmine => hne (of_decide_eq_true hmine)
    apply connectionsOf_resume_of_select
    simp only [connectionControllerInitiationRequest, addConnectionRequest_connections,
      Arena.select_add]
    rw [if_neg hother, List.append_nil]
    rfl
  · have hnil : handshakeOf lib i ((connectionControllerInitiationRequest lib env
        (net.nodes g).controller remote).pushed.map unstamped) = [] := by
      refine handshakeOf_eq_nil fun f hf hid => absurd ?_ hne
      obtain ⟨out, hout, rfl⟩ := List.mem_map.mp hf
      obtain rfl := List.mem_singleton.mp hout
      simpa [unstamped, connectionRequestCreateInitiationMessage, connectionRequestCreate] using hid
    rw [Net.proceed, handshakeOf_append, hnil, List.append_nil]
  · intro f hf hid haction
    rcases List.mem_append.mp hf with hold | hnew
    · exact Or.inl hold
    · obtain ⟨out, hout, rfl⟩ := List.mem_map.mp hnew
      obtain rfl := List.mem_singleton.mp hout
      cases haction

/-- A message sent over a completed connection is covered by the phase. -/
theorem SentOver.covered (hshows : Shows lib i net phase)
    (hsent : SentOver lib (net.nodes g).controller f address c)
    (hid : lib.guid.fromString f.message.id = i) : Covered lib phase f := by
  have hc : c.id = i := by
    rw [← hid, hsent.id, lib.guid.fromString_toString]
  have hmem : (address, c) ∈ net.connectionsOf i g :=
    Arena.mem_select.mpr ⟨hsent.held, decide_eq_true hc⟩
  have hview : c.view ∈ phase.holds g := by
    rw [(hshows.select_eq_singleton hmem).2]
    exact List.mem_singleton_self _
  obtain ⟨σ, hsecret, hcarries⟩ := Phase.carries_of_complete hview hsent.complete
  obtain ⟨sending, hstamp, hheld, hbuilt⟩ := hsent.stamp
  have hsame : sending.secret = σ.bytes := Option.some.inj (hheld.symm.trans hsecret)
  refine ⟨sending, hstamp, hbuilt, ?_⟩
  rw [hsame, hsent.sender, hsent.recipient, lib.guid.fromString_toString,
    lib.guid.fromString_toString]
  exact hcarries

/-- **Simulation.** A move of the network leaves the phase of an id alone or advances it. -/
theorem Honest.simulates (hinv : Honest lib net) (hmove : Moves lib net next) (i : Guid)
    (hshows : Shows lib i net phase) (hunused : i ∉ net.created → phase = .unused) :
    ∃ after, phase.Follows after ∧ Shows lib i next after
      ∧ (i ∉ next.created → after = .unused) := by
  cases hmove with
  | discovered g call peers hcall =>
      exact ⟨phase, Or.inl rfl, hshows.frame (connectionsOf_resume_of_select rfl)
        (List.Sublist.refl _) fun f hf _ _ => Or.inl hf, hunused⟩
  | initiated g env remote hfresh =>
      by_cases hid : env.guid = i
      · obtain rfl := hunused (hid ▸ hfresh)
        refine ⟨_, Or.inr ⟨_, .create g remote.guid env.keypair⟩,
          (hshows.initiate hid (hinv.own g) remote).created_irrel _, fun hmem => ?_⟩
        exact absurd (hid ▸ List.mem_cons_self) hmem
      · exact ⟨phase, Or.inl rfl, (hshows.initiate_other hid remote).created_irrel _,
          fun hmem => hunused fun hold => hmem (List.mem_cons_of_mem _ hold)⟩
  | rejected f earlier later hsplit =>
      refine ⟨phase, Or.inl rfl, hshows.frame (connectionsOf_halt net i _)
        (handshakeOf_rest_sublist hsplit) ?_, hunused⟩
      exact fun other hother _ _ => Or.inl (mem_of_mem_rest hsplit hother)
  | processed f earlier later env outcome hsplit hok =>
      obtain ⟨remote, hknown, hprocessed⟩ := processor_cases hok
      by_cases hid : i = lib.guid.fromString f.message.id
      · subst hid
        obtain ⟨after, hfollows, hafter⟩ :=
          hinv.processed_own hsplit rfl hknown hprocessed hshows
        refine ⟨after, hfollows, hafter, fun hmem => ?_⟩
        obtain rfl := hunused hmem
        have hf : f ∈ net.inFlight := hsplit ▸ List.mem_append_right _ List.mem_cons_self
        exact absurd rfl (hshows.not_in_flight hf)
      · exact ⟨phase, Or.inl rfl, hshows.processed_other hsplit hprocessed.ownIdOnly hid, hunused⟩
  | sendStopped g =>
      exact ⟨phase, Or.inl rfl, hshows.frame (connectionsOf_halt net i g) (List.Sublist.refl _)
        fun f hf _ _ => Or.inl hf, hunused⟩
  | sent g fs hsent =>
      refine ⟨phase, Or.inl rfl, hshows.frame (fun _ => rfl) ?_ ?_, hunused⟩
      · have hnil : handshakeOf lib i fs = [] := by
          apply handshakeOf_eq_nil
          intro f hf _
          obtain ⟨_, _, hover⟩ := hsent f hf
          exact hover.action
        rw [handshakeOf_append, hnil, List.append_nil]
      · intro f hf hid _
        rcases List.mem_append.mp hf with hold | hnew
        · exact Or.inl hold
        · obtain ⟨_, _, hover⟩ := hsent f hnew
          exact Or.inr (hover.covered hshows hid)

end Moves

/-! ### Reachable networks -/

theorem resume_controller (net : Net Key) (g g' : Guid) (controller : ConnectionController Key) :
    ((net.resume g controller).nodes g').controller
      = if g' = g then controller else (net.nodes g').controller := by
  by_cases hg : g' = g
  · subst hg
    simp [Net.resume]
  · simp [Net.resume, hg]

theorem halt_controller (net : Net Key) (g g' : Guid) :
    ((net.halt g).nodes g').controller = (net.nodes g').controller := by
  by_cases hg : g' = g
  · subst hg
    simp [Net.halt]
  · simp [Net.halt, hg]

/-- A node's peerstore changes by calls of the peerstore only. -/
theorem Moves.peers (hmove : Moves lib net next) (g : Guid) :
    (next.nodes g).controller.ds.peers = (net.nodes g).controller.ds.peers
      ∨ ∃ call : PeerstoreCall, call.step lib.guid (net.nodes g).controller.ds.peers
        = some (next.nodes g).controller.ds.peers := by
  have hresume : ∀ (g' : Guid) (controller : ConnectionController Key),
      controller.ds.peers = (net.nodes g').controller.ds.peers →
      ((net.resume g' controller).nodes g).controller.ds.peers
        = (net.nodes g).controller.ds.peers := by
    intro g' controller hpeers
    rw [resume_controller]
    split_ifs with hg
    · rw [hpeers, hg]
    · rfl
  cases hmove with
  | discovered g' call peers hcall =>
      rw [resume_controller]
      by_cases hg : g = g'
      · subst hg
        exact Or.inr ⟨call, by simpa using hcall⟩
      · exact Or.inl (by rw [if_neg hg])
  | initiated g' env remote hfresh => exact Or.inl (hresume g' _ rfl)
  | rejected f earlier later hsplit =>
      have hhalt := halt_controller net (lib.guid.fromString f.message.recipient) g
      exact Or.inl (congrArg (fun controller => controller.ds.peers) hhalt)
  | processed f earlier later env outcome hsplit hok =>
      obtain ⟨remote, hknown, hprocessed⟩ := processor_cases hok
      exact Or.inl (hresume _ _ (congrArg DiscoveryService.peers hprocessed.ownIdOnly.peers))
  | sendStopped g' =>
      rw [halt_controller]
      exact Or.inl rfl
  | sent g' fs hsent => exact Or.inl rfl

theorem Honest.step (hinv : Honest lib net) (hmove : Moves lib net next) : Honest lib next where
  own g := by
    rcases hmove.peers g with hsame | ⟨call, hcall⟩
    · rw [hsame, hinv.own g]
    · rw [localPeer_step hcall, hinv.own g]
  filed g := by
    rcases hmove.peers g with hsame | ⟨call, hcall⟩
    · rw [hsame]
      exact hinv.filed g
    · exact (hinv.filed g).step hcall
  shows i := by
    obtain ⟨phase, hshows, hunused⟩ := hinv.shows i
    obtain ⟨after, _, hafter, hafterUnused⟩ := hinv.simulates hmove i hshows hunused
    exact ⟨after, hafter, hafterUnused⟩

theorem Honest.initial (h : net.Initial) : Honest lib net where
  own g := by
    obtain ⟨_, localPeer, _, _, _, _, _, hguid, hcontroller⟩ := h.fresh g
    rw [hcontroller]
    exact hguid
  filed g := by
    obtain ⟨_, _, _, _, _, _, _, _, hcontroller⟩ := h.fresh g
    rw [hcontroller]
    intro guidStr r hr
    cases hr
  shows i := by
    refine ⟨.unused, ⟨fun g => ?_, Or.inl ?_, fun f hf => ?_⟩, fun _ => rfl⟩
    · obtain ⟨_, _, _, _, _, _, _, _, hcontroller⟩ := h.fresh g
      rw [Net.connectionsOf, hcontroller]
      rfl
    · rw [h.inFlight]
      rfl
    · rw [h.inFlight] at hf
      cases hf

theorem Net.Reachable.honest (h : net.Reachable lib) : Honest lib net := by
  obtain ⟨start, events, hstart, hrun⟩ := h
  exact Transition.run_invariant
    (fun _ _ _ hinv hstep => hinv.step (net_step_cases hstep)) hrun (Honest.initial hstart)

/-- **Handshake agreement.** In a reachable network two different connection requests with one id
that are both complete hold the same eight bytes of secret, and each one's remote guid is the local
guid of the other. -/
theorem handshake_agreement (hreach : net.Reachable lib) {g g' : Guid} {address address' : Nat}
    {c c' : ConnectionRequest Key}
    (hc : (net.nodes g).controller.connections.get? address = some c)
    (hc' : (net.nodes g').controller.connections.get? address' = some c')
    (hdistinct : (g, address) ≠ (g', address')) (hid : c.id = c'.id)
    (hcomplete : c.state = .complete) (hcomplete' : c'.state = .complete) :
    ∃ secret : Bytes, secret.length = 8 ∧ c.sharedSecret = some secret
      ∧ c'.sharedSecret = some secret ∧ c.remote.guid = c'.localPeer.guid
      ∧ c'.remote.guid = c.localPeer.guid := by
  obtain ⟨phase, hshows, _⟩ := hreach.honest.shows c.id
  have hmem : (address, c) ∈ net.connectionsOf c.id g :=
    Arena.mem_select.mpr ⟨hc, decide_eq_true rfl⟩
  have hmem' : (address', c') ∈ net.connectionsOf c.id g' :=
    Arena.mem_select.mpr ⟨hc', decide_eq_true hid.symm⟩
  obtain ⟨hselect, hholds⟩ := hshows.select_eq_singleton hmem
  obtain ⟨_, hholds'⟩ := hshows.select_eq_singleton hmem'
  have hne : g ≠ g' := by
    rintro rfl
    rw [hselect] at hmem'
    have hsame : address' = address := congrArg Prod.fst (List.mem_singleton.mp hmem')
    exact hdistinct (by rw [hsame])
  have hview : c.view ∈ phase.holds g := hholds ▸ List.mem_singleton_self _
  have hview' : c'.view ∈ phase.holds g' := hholds' ▸ List.mem_singleton_self _
  obtain ⟨σ, hsecret, hsecret', hremote, hremote'⟩ :=
    Phase.agree hview hview' hne hcomplete hcomplete'
  exact ⟨σ.bytes, σ.length_eq, hsecret, hsecret', hremote, hremote'⟩

section Run

open Concrete

theorem handshake_agreement_run :
    ∃ secret : Bytes, secret.length = 8 ∧ (initiatorRequest secretA).sharedSecret = some secret
      ∧ (responderRequest secretA).sharedSecret = some secret
      ∧ (initiatorRequest secretA).remote.guid = (responderRequest secretA).localPeer.guid
      ∧ (responderRequest secretA).remote.guid = (initiatorRequest secretA).localPeer.guid := by
  have hreach : (agreedNet fun _ => 0).Reachable libraries :=
    reachable_netAfter _ (by decide +kernel)
  have hinitiator : ((agreedNet fun _ => 0).nodes (guid 1)).controller.connections.get? 0
      = some (initiatorRequest secretA) := by decide +kernel
  have hresponder : ((agreedNet fun _ => 0).nodes (guid 2)).controller.connections.get? 0
      = some (responderRequest secretA) := by decide +kernel
  exact handshake_agreement hreach hinitiator hresponder (by decide) rfl rfl rfl

end Run

/-- **Data never overtakes the key.** In a reachable network a message of a session that is in
flight is what its send makes of the text and the secret it had, and it finds a connection request
at its recipient, which holds that secret. -/
theorem data_finds_key (hreach : net.Reachable lib) {f : InFlight} (hf : f ∈ net.inFlight)
    (haction : f.message.action = .communicatingSession) :
    ∃ (address : Nat) (c : ConnectionRequest Key) (sending : Sending),
      findConnection lib (net.nodes (lib.guid.fromString f.message.recipient)).controller f.message
          = some (address, c)
        ∧ f.sending = some sending ∧ f.message = sending.message lib
        ∧ c.sharedSecret = some sending.secret := by
  obtain ⟨phase, hshows, _⟩ := hreach.honest.shows (lib.guid.fromString f.message.id)
  obtain ⟨sending, hstamp, hbuilt, hcarries⟩ := hshows.session f hf rfl haction
  obtain ⟨v, hholds, hsecret⟩ := Phase.exists_holds_of_carries hcarries
  have hconnections := hshows.connections (lib.guid.fromString f.message.recipient)
  rw [hholds] at hconnections
  obtain ⟨⟨address, c⟩, hselect, hview⟩ := List.map_eq_singleton_iff.mp hconnections
  refine ⟨address, c, sending, ?_, hstamp, hbuilt, ?_⟩
  · rw [findConnection_eq_head?]
    exact congrArg List.head? hselect
  · rw [← hsecret, ← hview]
    rfl

section Run

open Concrete

/-- Bob sends before Al has seen that he completed. -/
def overtakingMessage : InFlight :=
  ⟨communicationMessage libraries (ambient bob (guid 8) fun _ => 0) (responderRequest secretA)
    okay.bytes 4 secretA,
    some (sendingOver (ambient bob (guid 8) fun _ => 0) (responderRequest secretA) okay.bytes 4
      secretA)⟩

def overtakenNet : Net CString :=
  netAfter (handshakeEvents (fun _ => 0) ++ [.sends (guid 2)
    (fun _ => ambient bob (guid 8) fun _ => 0) ⟨guid 9, [0]⟩ okay.bytes 4])

theorem data_finds_key_run :
    ∃ (address : Nat) (c : ConnectionRequest CString) (sending : Sending),
      findConnection libraries (overtakenNet.nodes (guidStrings.fromString
          overtakingMessage.message.recipient)).controller overtakingMessage.message
          = some (address, c)
        ∧ overtakingMessage.sending = some sending
        ∧ overtakingMessage.message = sending.message libraries
        ∧ c.sharedSecret = some sending.secret := by
  have hreach : overtakenNet.Reachable libraries := reachable_netAfter _ (by decide +kernel)
  have hf : overtakingMessage ∈ overtakenNet.inFlight := by decide +kernel
  exact data_finds_key hreach hf rfl

end Run

end WhisperCore
