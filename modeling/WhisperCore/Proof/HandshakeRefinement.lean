import WhisperCore.Handshake
import WhisperCore.Proof.NetworkCases

/-!
# The network refines the handshake

Seen through one connection id, the network is the abstract handshake: what the nodes hold under
the id is what the phase says, at most the expected message is in flight, and the messages of the
session in flight are covered. Every move of the network leaves the phase of an id alone or advances
it. -/

namespace WhisperCore

variable {Key : Type} {lib : Libraries Key} {net next : Net Key} {i : Guid} {phase : Phase Key}

/-! ### The network seen through an id -/

def Net.connectionsOf (net : Net Key) (i g : Guid) : List (Nat × ConnectionRequest Key) :=
  (net.nodes g).controller.connections.select fun c => c.id = i

/-- The handshake messages in flight for an id. -/
def handshakeOf (lib : Libraries Key) (i : Guid) (inFlight : List InFlight) : List InFlight :=
  inFlight.filter fun f =>
    lib.guid.fromString f.message.id = i ∧ f.message.action ≠ .communicatingSession

/-- The payload a phase expects: the responder's public key, or the secret encrypted for it. -/
def PayloadFits (lib : Libraries Key) : Phase Key → Bytes → Prop
  | .replied p, rawdata =>
      rawdata = (lib.base64.encode (asymmetricalKeyToString lib.rsa p.responderKey).bytes).bytes
  | .shared p σ, rawdata =>
      asymmetricalDecrypt lib.rsa p.responderKey rawdata rawdata.length
        = some (lib.base64.encode σ.bytes).bytes
  | _, _ => True

structure Expected (lib : Libraries Key) (phase : Phase Key) (m : Wpmessage) : Prop where
  route : phase.expects
    = some (m.action, lib.guid.fromString m.sender, lib.guid.fromString m.recipient)
  payload : PayloadFits lib phase m.rawdata

theorem Expected.action_ne {m : Wpmessage} (h : Expected lib phase m) :
    m.action ≠ .communicatingSession := by
  intro haction
  have hroute := h.route
  rw [haction] at hroute
  exact Phase.of_expects hroute

/-- A message of the session, under the secret it was encrypted with. -/
def Covered (lib : Libraries Key) (phase : Phase Key) (f : InFlight) : Prop :=
  ∃ sending, f.sending = some sending ∧ f.message = sending.message lib
    ∧ phase.Carries (lib.guid.fromString f.message.sender)
      (lib.guid.fromString f.message.recipient) sending.secret

/-- The network shows a phase under an id. -/
structure Shows (lib : Libraries Key) (i : Guid) (net : Net Key) (phase : Phase Key) : Prop where
  connections : ∀ g, (net.connectionsOf i g).map (fun entry => entry.2.view) = phase.holds g
  handshake : handshakeOf lib i net.inFlight = []
    ∨ ∃ f, handshakeOf lib i net.inFlight = [f] ∧ Expected lib phase f.message
  session : ∀ f ∈ net.inFlight, lib.guid.fromString f.message.id = i →
    f.message.action = .communicatingSession → Covered lib phase f

theorem handshakeOf_append (first second : List InFlight) :
    handshakeOf lib i (first ++ second) = handshakeOf lib i first ++ handshakeOf lib i second :=
  List.filter_append ..

theorem handshakeOf_eq_nil {inFlight : List InFlight}
    (h : ∀ f ∈ inFlight, lib.guid.fromString f.message.id = i →
      f.message.action = .communicatingSession) : handshakeOf lib i inFlight = [] := by
  apply List.filter_eq_nil_iff.mpr
  intro f hf
  simpa using h f hf

theorem connectionsOf_resume (net : Net Key) (i g h : Guid)
    (controller : ConnectionController Key) :
    (net.resume g controller).connectionsOf i h
      = if h = g then controller.connections.select (fun c => c.id = i)
        else net.connectionsOf i h := by
  by_cases hg : h = g
  · subst hg
    simp [Net.connectionsOf, Net.resume]
  · simp [Net.connectionsOf, Net.resume, hg]

/-- A node that goes on with the same connections of an id changes nothing for that id. -/
theorem connectionsOf_resume_of_select {net : Net Key} {i g : Guid}
    {controller : ConnectionController Key}
    (hsame : (controller.connections.select fun c => c.id = i) = net.connectionsOf i g)
    (h : Guid) : (net.resume g controller).connectionsOf i h = net.connectionsOf i h := by
  rw [connectionsOf_resume]
  by_cases hg : h = g
  · rw [if_pos hg, hsame, hg]
  · rw [if_neg hg]

theorem connectionsOf_halt (net : Net Key) (i g h : Guid) :
    (net.halt g).connectionsOf i h = net.connectionsOf i h := by
  by_cases hg : h = g
  · subst hg
    simp [Net.connectionsOf, Net.halt]
  · simp [Net.connectionsOf, Net.halt, hg]

/-! ### Frames -/

/-- A move that leaves the connections of an id alone, adds no handshake message for it and only
covered messages of the session shows the same phase. -/
theorem Shows.frame (h : Shows lib i net phase)
    (hconnections : ∀ g, next.connectionsOf i g = net.connectionsOf i g)
    (hhandshake : List.Sublist (handshakeOf lib i next.inFlight) (handshakeOf lib i net.inFlight))
    (hsession : ∀ f ∈ next.inFlight, lib.guid.fromString f.message.id = i →
      f.message.action = .communicatingSession → f ∈ net.inFlight ∨ Covered lib phase f) :
    Shows lib i next phase where
  connections g := by rw [hconnections g, h.connections g]
  handshake := by
    rcases h.handshake with hnil | ⟨f, hf, hexpected⟩
    · rw [hnil] at hhandshake
      exact Or.inl (List.sublist_nil.mp hhandshake)
    · rw [hf] at hhandshake
      rcases List.sublist_singleton.mp hhandshake with hnil | hsame
      · exact Or.inl hnil
      · exact Or.inr ⟨f, hsame, hexpected⟩
  session f hf hid haction := by
    rcases hsession f hf hid haction with hold | hcovered
    · exact h.session f hold hid haction
    · exact hcovered

/-- The handshake message taken from the network is the one expected, and no other is left. -/
theorem Shows.taken (h : Shows lib i net phase) {f : InFlight} {earlier later : List InFlight}
    (hsplit : net.inFlight = earlier ++ f :: later)
    (hid : lib.guid.fromString f.message.id = i)
    (haction : f.message.action ≠ .communicatingSession) :
    handshakeOf lib i (earlier ++ later) = [] ∧ Expected lib phase f.message := by
  have hmine : handshakeOf lib i [f] = [f] := by
    simp [handshakeOf, hid, haction]
  have hall : handshakeOf lib i net.inFlight
      = handshakeOf lib i earlier ++ (f :: handshakeOf lib i later) := by
    rw [hsplit, ← List.singleton_append, handshakeOf_append, handshakeOf_append, hmine]
    rfl
  rcases h.handshake with hnil | ⟨only, honly, hexpected⟩
  · rw [hall] at hnil
    simp at hnil
  · rw [hall] at honly
    obtain ⟨hearlier, hf, hlater⟩ : handshakeOf lib i earlier = [] ∧ f = only
        ∧ handshakeOf lib i later = [] := by
      rcases List.append_eq_singleton_iff.mp honly with ⟨hearlier, hcons⟩ | ⟨_, hcons⟩
      · exact ⟨hearlier, by simpa using hcons⟩
      · cases hcons
    rw [handshakeOf_append, hearlier, hlater]
    exact ⟨rfl, hf ▸ hexpected⟩

/-- A node moves the handshake on: it holds what the next phase says, and pushes at most the message
the next phase expects. -/
theorem Shows.advance (h : Shows lib i net phase) {g : Guid} {after : Phase Key}
    (hadvance : phase.Advances g after) {outcome : Outcome Key} {rest : List InFlight}
    (hholds : (outcome.controller.connections.select fun c => c.id = i).map
      (fun entry => entry.2.view) = after.holds g)
    (hrest : handshakeOf lib i rest = []) (hsub : ∀ f ∈ rest, f ∈ net.inFlight)
    (hpushed : outcome.pushed = [] ∨ ∃ m, outcome.pushed = [m] ∧ Expected lib after m) :
    Shows lib i (net.proceed g outcome rest) after where
  connections g' := by
    have hresume := connectionsOf_resume net i g g' outcome.controller
    by_cases hg : g' = g
    · subst hg
      rw [if_pos rfl] at hresume
      rw [← hholds, ← hresume]
      rfl
    · rw [if_neg hg] at hresume
      rw [hadvance.holds_of_ne hg, ← h.connections g', ← hresume]
      rfl
  handshake := by
    rw [Net.proceed, handshakeOf_append, hrest, List.nil_append]
    rcases hpushed with hnone | ⟨m, hone, hexpected⟩
    · rw [hnone]
      exact Or.inl rfl
    · rw [hone]
      by_cases hid : lib.guid.fromString m.id = i
      · have haction := hexpected.action_ne
        exact Or.inr ⟨unstamped m, by simp [handshakeOf, unstamped, hid, haction], hexpected⟩
      · exact Or.inl (by simp [handshakeOf, unstamped, hid])
  session f hf hid haction := by
    rcases List.mem_append.mp hf with hold | hnew
    · obtain ⟨sending, hstamp, hbuilt, hcarries⟩ := h.session f (hsub f hold) hid haction
      exact ⟨sending, hstamp, hbuilt, hadvance.carries hcarries⟩
    · obtain ⟨m, hm, rfl⟩ := List.mem_map.mp hnew
      rcases hpushed with hnone | ⟨only, hone, hexpected⟩
      · rw [hnone] at hm
        cases hm
      · rw [hone, List.mem_singleton] at hm
        rw [hm] at haction
        exact absurd haction hexpected.action_ne

/-! ### The processor's own id -/

theorem Shows.select_eq_singleton (h : Shows lib i net phase) {g : Guid} {address : Nat}
    {c : ConnectionRequest Key} (hmem : (address, c) ∈ net.connectionsOf i g) :
    net.connectionsOf i g = [(address, c)] ∧ phase.holds g = [c.view] := by
  have hconnections := h.connections g
  have hlength := phase.length_holds g
  rw [← hconnections, List.length_map] at hlength
  match hlist : net.connectionsOf i g, hmem, hlength with
  | [entry], hmem, _ =>
      obtain rfl := List.mem_singleton.mp hmem
      rw [hlist] at hconnections
      exact ⟨rfl, hconnections.symm⟩

theorem findConnection_eq_head? (controller : ConnectionController Key) (m : Wpmessage) :
    findConnection lib controller m
      = (controller.connections.select fun c => c.id = lib.guid.fromString m.id).head? :=
  Arena.find?_eq_head?_select ..

/-- The connection the processor finds is the only one of its id, and is what the phase says. -/
theorem Shows.found (h : Shows lib i net phase) {g : Guid} {m : Wpmessage} {address : Nat}
    {c : ConnectionRequest Key} (hid : lib.guid.fromString m.id = i)
    (hfind : findConnection lib (net.nodes g).controller m = some (address, c)) :
    net.connectionsOf i g = [(address, c)] ∧ phase.holds g = [c.view] := by
  rw [findConnection_eq_head?, hid] at hfind
  exact h.select_eq_singleton (List.mem_of_head? hfind)

/-- The node that was found writes its connection, and so moves the handshake on. -/
theorem Shows.advance_set (h : Shows lib i net phase) {g : Guid} {after : Phase Key}
    (hadvance : phase.Advances g after) {m : Wpmessage} {address : Nat}
    {c new : ConnectionRequest Key} {rest : List InFlight} {pushed : List Wpmessage}
    {calls : List Notification} (hid : lib.guid.fromString m.id = i)
    (hfind : findConnection lib (net.nodes g).controller m = some (address, c))
    (hnew : new.id = c.id) (hview : after.holds g = [new.view])
    (hrest : handshakeOf lib i rest = []) (hsub : ∀ f ∈ rest, f ∈ net.inFlight)
    (hpushed : pushed = [] ∨ ∃ m, pushed = [m] ∧ Expected lib after m) :
    Shows lib i (net.proceed g
      ⟨(net.nodes g).controller.setConnection address new, pushed, calls⟩ rest) after := by
  refine h.advance hadvance ?_ hrest hsub hpushed
  obtain ⟨hselect, _⟩ := h.found hid hfind
  have hmine : c.id = i := (get?_of_findConnection hfind).2.trans hid
  have hafter := Arena.select_set_of_eq_singleton hselect (decide_eq_true (hnew.trans hmine))
  rw [ConnectionController.setConnection_connections, hafter, hview]
  rfl

/-! ### The invariant -/

/-- What every node keeps, and the phase shown under every id. -/
structure Honest (lib : Libraries Key) (net : Net Key) : Prop where
  own : ∀ g, (net.nodes g).controller.ds.peers.localPeer.guid = g
  filed : ∀ g, FiledByGuid lib.guid (net.nodes g).controller.ds.peers
  shows : ∀ i, ∃ phase, Shows lib i net phase ∧ (i ∉ net.created → phase = .unused)

theorem Honest.sender_guid {controller : ConnectionController Key} {m : Wpmessage} {remote : Peer}
    (hfiled : FiledByGuid lib.guid controller.ds.peers)
    (hknown : KnownSender lib controller m remote) :
    remote.guid = lib.guid.fromString m.sender := by
  obtain ⟨hlookup, _, _⟩ := peerstoreLookup_eq_some hknown.found
  exact (lib.guid.toString_injective (hfiled _ _ hlookup)).symm

/-- A processed message touches connections of its own id only, and pushes only handshake messages
for it. -/
structure OwnIdOnly (lib : Libraries Key) (controller : ConnectionController Key) (m : Wpmessage)
    (outcome : Outcome Key) : Prop where
  peers : outcome.controller.ds = controller.ds
  others : ∀ i, i ≠ lib.guid.fromString m.id →
    (outcome.controller.connections.select fun c => c.id = i)
      = controller.connections.select fun c => c.id = i
  pushed : ∀ out ∈ outcome.pushed, lib.guid.fromString out.id = lib.guid.fromString m.id
    ∧ out.action ≠ .communicatingSession

theorem select_setConnection_of_ne {controller : ConnectionController Key} {m : Wpmessage}
    {address : Nat} {c new : ConnectionRequest Key}
    (hfind : findConnection lib controller m = some (address, c)) (hnew : new.id = c.id)
    (hne : i ≠ lib.guid.fromString m.id) :
    ((controller.setConnection address new).connections.select fun c => c.id = i)
      = controller.connections.select fun c => c.id = i := by
  obtain ⟨hget, hid⟩ := get?_of_findConnection hfind
  have hother : c.id ≠ i := fun heq => hne (heq.symm.trans hid)
  exact Arena.select_set_of_false hget (decide_eq_false hother)
    (decide_eq_false (hnew ▸ hother))

theorem Processed.ownIdOnly {env : Ambient Key} {controller : ConnectionController Key}
    {m : Wpmessage} {remote : Peer} {outcome : Outcome Key}
    (h : Processed lib env controller m remote outcome) : OwnIdOnly lib controller m outcome := by
  cases h with
  | createSession haction hfind =>
      refine ⟨rfl, fun i hne => ?_, fun out hout => ?_⟩
      · rw [addConnectionRequest_connections, Arena.select_add,
          if_neg fun hmine => hne (of_decide_eq_true hmine).symm, List.append_nil]
      · rw [List.mem_singleton.mp hout]
        simp [exchangeChallengeReply, answeringRequest, connectionRequestCreateWithIdentityChain]
  | respondingCreatedSession address c cipher haction hfind hcipher =>
      refine ⟨rfl, fun i hne => select_setConnection_of_ne hfind rfl hne, fun out hout => ?_⟩
      rw [List.mem_singleton.mp hout]
      simp [keyShareMessage, (get?_of_findConnection hfind).2]
  | sharingSessionKey address c decrypted secret haction hfind hdecrypt hdecode hlong =>
      refine ⟨rfl, fun i hne => select_setConnection_of_ne hfind rfl hne, fun out hout => ?_⟩
      rw [List.mem_singleton.mp hout]
      simp [completionMessage, (get?_of_findConnection hfind).2]
  | completedSession address c secret haction hfind hkey =>
      exact ⟨rfl, fun i hne => select_setConnection_of_ne hfind rfl hne, by simp⟩
  | communicatingSession address c secret haction hfind hkey =>
      exact ⟨rfl, fun _ _ => rfl, by simp⟩

end WhisperCore
