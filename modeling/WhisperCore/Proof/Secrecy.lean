import WhisperCore.Concrete
import WhisperCore.Proof.PeerstoreCases
import WhisperCore.Symbolic

/-!
# Secrecy

What an observer of all messages can derive. Only public keys leave a node in the open; a generated
secret leaves it under the public key of some node's connection, which the observer cannot open, and
texts leave it under such a secret. This is an invariant of every run, and every message that has it
is harmless.
-/

namespace WhisperCore.Symbolic

open DolevYao

variable {Key : Type} {own : Observer Key Confidential} {strings : GuidStrings}
  {env : Ambient Key} {node after : Node Key} {m : Wpmessage Key}
  {messages : List (Wpmessage Key)}

/-! ### What the processor can do -/

/-- The outcomes of the processor. -/
inductive Processed (strings : GuidStrings) (env : Ambient Key) (node : Node Key)
    (m : Wpmessage Key) : Node Key → List (Wpmessage Key) → Prop where
  | createSession (c : ConnectionRequest Key)
      (hkeypair : c.keypair = env.keypair) (hsecret : c.sharedSecret = none) :
      Processed strings env node m { node with connections := node.connections.add c }
        [exchangeChallengeReply strings c]
  | respondingCreatedSession (address : Nat) (c : ConnectionRequest Key) (k : Key)
      (hget : node.connections.get? address = some c)
      (haction : m.action = .respondingCreatedSession)
      (hpayload : m.rawdata = .encode (.publicKey k)) :
      Processed strings env node m
        { node with connections := node.connections.set address { c with
          state := .sessionKeyShare
          sharedSecret := some (generateSharedSecret env) } }
        [connectionMessage strings c (.aenc k (.encode (generateSharedSecret env)))
          .sharingSessionKey]
  | sharingSessionKey (address : Nat) (c : ConnectionRequest Key) (secret : Payload Key)
      (hget : node.connections.get? address = some c)
      (haction : m.action = .sharingSessionKey)
      (hpayload : m.rawdata = .aenc c.keypair (.encode secret)) :
      Processed strings env node m
        { node with connections := node.connections.set address { c with
          state := .complete
          sharedSecret := some secret } }
        [connectionMessage strings c (.senc secret (.data (.string okay))) .completedSession]
  | completedSession (address : Nat) (c : ConnectionRequest Key)
      (hget : node.connections.get? address = some c) :
      Processed strings env node m
        { node with connections := node.connections.set address { c with state := .complete } } []
  | communicatingSession : Processed strings env node m node []

theorem exchangeSessionKeyShare_eq_some_iff {c c' : ConnectionRequest Key}
    {outMessage : Wpmessage Key} :
    exchangeSessionKeyShare strings env c m = some (c', outMessage)
      ↔ ∃ k, m.rawdata = .encode (.publicKey k)
        ∧ c' = { c with sharedSecret := some (generateSharedSecret env) }
        ∧ outMessage = connectionMessage strings c
          (.aenc k (.encode (generateSharedSecret env))) .sharingSessionKey := by
  simp only [exchangeSessionKeyShare, Option.bind_eq_bind, Option.bind_eq_some_iff,
    Term.decode_eq_some_iff, Term.toPublicKey_eq_some_iff, Option.pure_def, Option.some.injEq,
    Prod.mk.injEq]
  constructor
  · rintro ⟨_, hpayload, k, rfl, rfl, rfl⟩
    exact ⟨k, hpayload, rfl, rfl⟩
  · rintro ⟨k, hpayload, rfl, rfl⟩
    exact ⟨_, hpayload, k, rfl, rfl, rfl⟩

theorem exchangeComplete_eq_some_iff {c : ConnectionRequest Key} {outMessage : Wpmessage Key} :
    exchangeComplete strings c = some outMessage
      ↔ ∃ secret, c.sharedSecret = some secret
        ∧ outMessage = connectionMessage strings c (.senc secret (.data (.string okay)))
          .completedSession := by
  unfold exchangeComplete
  cases c.sharedSecret with
  | none => simp
  | some secret => simp [eq_comm]

section Switch

variable {remote : Peer} {oconnection : Option (Nat × ConnectionRequest Key)}

theorem processCreateSession_cases
    (h : processCreateSession strings env node m remote oconnection = some (after, messages)) :
    Processed strings env node m after messages := by
  cases oconnection with
  | some found => cases h
  | none =>
      obtain ⟨rfl, rfl⟩ := Prod.mk.inj (Option.some.inj h)
      exact .createSession _ rfl rfl

theorem processRespondingCreatedSession_cases {address : Nat} {c : ConnectionRequest Key}
    (hget : node.connections.get? address = some c)
    (haction : m.action = .respondingCreatedSession)
    (h : processRespondingCreatedSession strings env node m (some (address, c))
      = some (after, messages)) :
    Processed strings env node m after messages := by
  simp only [processRespondingCreatedSession, connectionRequestCreateExchangeMessage,
    Option.bind_eq_bind, Option.bind_eq_some_iff] at h
  obtain ⟨⟨c', outMessage⟩, hexchange, hafter⟩ := h
  obtain ⟨k, hpayload, rfl, rfl⟩ := exchangeSessionKeyShare_eq_some_iff.mp hexchange
  obtain ⟨rfl, rfl⟩ := Prod.mk.inj (Option.some.inj hafter)
  exact .respondingCreatedSession address c k hget haction hpayload

theorem processSharingSessionKey_cases [DecidableEq Key] {address : Nat}
    {c : ConnectionRequest Key} (hget : node.connections.get? address = some c)
    (haction : m.action = .sharingSessionKey)
    (h : processSharingSessionKey strings env node m (some (address, c))
      = some (after, messages)) :
    Processed strings env node m after messages := by
  simp only [processSharingSessionKey, connectionRequestCreateExchangeMessage,
    Option.bind_eq_bind, Option.bind_eq_some_iff, Option.map_eq_some_iff] at h
  obtain ⟨decryptedKey, hopened, ⟨c', outMessage⟩, ⟨_, hexchange, hpair⟩, hafter⟩ := h
  obtain ⟨secret, hsecret, rfl⟩ := exchangeComplete_eq_some_iff.mp hexchange
  have hdecoded : decryptedKey.decode = some secret := hsecret
  obtain rfl := Term.decode_eq_some_iff.mp hdecoded
  obtain ⟨rfl, rfl⟩ := Prod.mk.inj hpair
  obtain ⟨rfl, rfl⟩ := Prod.mk.inj (Option.some.inj hafter)
  exact .sharingSessionKey address c secret hget haction (Term.adec_eq_some_iff.mp hopened)

theorem processCompletedSession_cases {address : Nat} {c : ConnectionRequest Key}
    (hget : node.connections.get? address = some c)
    (h : processCompletedSession node (some (address, c)) = some (after, messages)) :
    Processed strings env node m after messages := by
  simp only [processCompletedSession, Option.bind_eq_bind, Option.bind_eq_some_iff] at h
  obtain ⟨_, _, hafter⟩ := h
  obtain ⟨rfl, rfl⟩ := Prod.mk.inj (Option.some.inj hafter)
  exact .completedSession address c hget

theorem processCommunicatingSession_cases {address : Nat} {c : ConnectionRequest Key}
    (h : processCommunicatingSession node (some (address, c)) = some (after, messages)) :
    Processed strings env node m after messages := by
  simp only [processCommunicatingSession, Option.bind_eq_bind, Option.bind_eq_some_iff] at h
  obtain ⟨_, _, hafter⟩ := h
  obtain ⟨rfl, rfl⟩ := Prod.mk.inj (Option.some.inj hafter)
  exact .communicatingSession

end Switch

/-- Every action but the first needs the connection of the message's id. -/
theorem exists_found
    {process : Option (Nat × ConnectionRequest Key) → Option (Node Key × List (Wpmessage Key))}
    (hnone : process none = none)
    (h : process (findConnection strings node m) = some (after, messages)) :
    ∃ address c, node.connections.get? address = some c
      ∧ process (some (address, c)) = some (after, messages) := by
  cases hfind : findConnection strings node m with
  | none =>
      rw [hfind, hnone] at h
      cases h
  | some found =>
      rw [hfind] at h
      exact ⟨found.1, found.2, (Arena.get?_of_find? hfind).1, h⟩

/-- The switch on the message's action. -/
def processAction [DecidableEq Key] (strings : GuidStrings) (env : Ambient Key) (node : Node Key)
    (m : Wpmessage Key) (remote : Peer) : Option (Node Key × List (Wpmessage Key)) :=
  let oconnection := findConnection strings node m
  match m.action with
  | .createSession => processCreateSession strings env node m remote oconnection
  | .respondingCreatedSession => processRespondingCreatedSession strings env node m oconnection
  | .sharingSessionKey => processSharingSessionKey strings env node m oconnection
  | .completedSession => processCompletedSession node oconnection
  | .communicatingSession => processCommunicatingSession node oconnection

theorem processor_of_known [DecidableEq Key] {remote : Peer}
    (hlookup : peerstoreLookup strings node.peers (strings.fromString m.sender)
      = (some remote, node.peers)) (hother : remote.guid ≠ node.peers.localPeer.guid) :
    internalConnnectionMessageProcessor strings env node m
      = processAction strings env node m remote := by
  unfold internalConnnectionMessageProcessor
  rw [hlookup]
  exact if_neg hother

theorem processAction_cases [DecidableEq Key] {remote : Peer}
    (h : processAction strings env node m remote = some (after, messages)) :
    Processed strings env node m after messages := by
  unfold processAction at h
  cases haction : m.action with
  | createSession =>
      simp only [haction] at h
      exact processCreateSession_cases h
  | respondingCreatedSession =>
      simp only [haction] at h
      obtain ⟨address, c, hget, h⟩ := exists_found rfl h
      exact processRespondingCreatedSession_cases hget haction h
  | sharingSessionKey =>
      simp only [haction] at h
      obtain ⟨address, c, hget, h⟩ := exists_found rfl h
      exact processSharingSessionKey_cases hget haction h
  | completedSession =>
      simp only [haction] at h
      obtain ⟨address, c, hget, h⟩ := exists_found rfl h
      exact processCompletedSession_cases hget h
  | communicatingSession =>
      simp only [haction] at h
      obtain ⟨address, c, hget, h⟩ := exists_found rfl h
      exact processCommunicatingSession_cases h

theorem processor_cases [DecidableEq Key]
    (h : internalConnnectionMessageProcessor strings env node m = some (after, messages)) :
    Processed strings env node m after messages := by
  cases hlookup : peerstoreLookup strings node.peers (strings.fromString m.sender) with
  | mk found peers =>
      cases found with
      | none => simp [internalConnnectionMessageProcessor, hlookup] at h
      | some remote =>
          obtain ⟨_, _, rfl⟩ := peerstoreLookup_eq_some hlookup
          by_cases hlocal : remote.guid = node.peers.localPeer.guid
          · simp [internalConnnectionMessageProcessor, hlookup, hlocal] at h
          · rw [processor_of_known hlookup hlocal] at h
            exact processAction_cases h

/-! ### The invariant -/

/-- A secret that was generated, and not by the observer. -/
def Generated (own : Observer Key Confidential) (t : Payload Key) : Prop :=
  ∃ bytes, t = .atom (.secret bytes) ∧ .secret bytes ∉ own.atoms ∧ bytes.length = 8

/-- What a message with an action carries. -/
def Carries (own : Observer Key Confidential) (t : Payload Key) : SelectedAction → Prop
  | .createSession | .respondingCreatedSession => ∃ k ∉ own.keys, t = .encode (.publicKey k)
  | .sharingSessionKey => ∃ k ∉ own.keys, ∃ secret, Generated own secret
      ∧ t = .aenc k (.encode secret)
  | .completedSession => ∃ secret, Generated own secret ∧ t = .senc secret (.data (.string okay))
  | .communicatingSession => ∃ secret, Generated own secret ∧ ∃ text,
      t = .senc secret (.atom (.text text))

/-- A connection has a key pair of its own and at most a generated secret. -/
structure Guarded (own : Observer Key Confidential) (c : ConnectionRequest Key) : Prop where
  keypair : c.keypair ∉ own.keys
  secret : ∀ t, c.sharedSecret = some t → Generated own t

def GuardedNode (own : Observer Key Confidential) (node : Node Key) : Prop :=
  ∀ address c, node.connections.get? address = some c → Guarded own c

structure GuardedNet (own : Observer Key Confidential) (net : Net Key) : Prop where
  nodes : ∀ g, GuardedNode own (net.nodes g)
  inFlight : ∀ m ∈ net.inFlight, m ∈ net.pushed
  pushed : ∀ m ∈ net.pushed, Carries own m.rawdata m.action

theorem Generated.not_harmless {secret : Payload Key} (h : Generated own secret) :
    ¬ Harmless own secret := by
  obtain ⟨bytes, rfl, hother, _⟩ := h
  exact hother

theorem Carries.harmless {t : Payload Key} {action : SelectedAction} (h : Carries own t action) :
    Harmless own t := by
  cases action with
  | createSession =>
      obtain ⟨k, _, rfl⟩ := h
      trivial
  | respondingCreatedSession =>
      obtain ⟨k, _, rfl⟩ := h
      trivial
  | sharingSessionKey =>
      obtain ⟨k, hk, secret, _, rfl⟩ := h
      exact fun hown => absurd hown hk
  | completedSession =>
      obtain ⟨secret, _, rfl⟩ := h
      exact fun _ => trivial
  | communicatingSession =>
      obtain ⟨secret, hsecret, text, rfl⟩ := h
      exact fun hown => absurd hown hsecret.not_harmless

/-- **Every field of every message is harmless.** -/
theorem GuardedNet.harmless {net : Net Key} (h : GuardedNet own net) :
    ∀ t ∈ net.observed, Harmless own t := by
  rintro t ⟨m, hm, ht⟩
  have hpayload : Harmless own m.rawdata := (h.pushed m hm).harmless
  simp only [Wpmessage.fields, List.mem_cons, List.not_mem_nil, or_false] at ht
  rcases ht with rfl | rfl | rfl | rfl | rfl
  · trivial
  · trivial
  · trivial
  · trivial
  · exact hpayload

/-! ### Steps -/

theorem GuardedNode.add (h : GuardedNode own node) {c : ConnectionRequest Key}
    (hc : Guarded own c) : GuardedNode own { node with connections := node.connections.add c } := by
  intro address other hother
  rcases Arena.get?_add_eq_some_iff.mp hother with hold | ⟨_, rfl⟩
  · exact h address other hold
  · exact hc

theorem GuardedNode.set (h : GuardedNode own node) {address : Nat} {c : ConnectionRequest Key}
    (hc : Guarded own c) :
    GuardedNode own { node with connections := node.connections.set address c } := by
  intro other found hfound
  rcases Arena.get?_set_eq_some_iff.mp hfound with ⟨_, hold⟩ | ⟨_, rfl, _⟩
  · exact h other found hold
  · exact hc

/-- **The processor.** Fed a message that carries what it should, a guarded node stays guarded and
pushes messages that carry what they should. -/
theorem GuardedNode.processed (h : GuardedNode own node) (hcarries : Carries own m.rawdata m.action)
    (hkeypair : env.keypair ∉ own.keys)
    (hsecret : .secret (WhisperCore.generateSharedSecret env.draws) ∉ own.atoms)
    (hprocessed : Processed strings env node m after messages) :
    GuardedNode own after ∧ ∀ out ∈ messages, Carries own out.rawdata out.action := by
  have hgenerated : Generated own (generateSharedSecret env : Payload Key) :=
    ⟨_, rfl, hsecret, length_generateSharedSecret _⟩
  cases hprocessed with
  | createSession c hc hnone =>
      have hown : c.keypair ∉ own.keys := hc ▸ hkeypair
      refine ⟨h.add ⟨hown, by simp [hnone]⟩, fun out hout => ?_⟩
      obtain rfl := List.mem_singleton.mp hout
      exact ⟨c.keypair, hown, rfl⟩
  | respondingCreatedSession address c k hget haction hpayload =>
      have hk : k ∉ own.keys := by
        rw [haction, hpayload] at hcarries
        obtain ⟨other, hother, heq⟩ := hcarries
        cases heq
        exact hother
      refine ⟨h.set ⟨(h address c hget).keypair, ?_⟩, fun out hout => ?_⟩
      · intro t ht
        exact Option.some.inj ht ▸ hgenerated
      · obtain rfl := List.mem_singleton.mp hout
        exact ⟨k, hk, _, hgenerated, rfl⟩
  | sharingSessionKey address c secret hget haction hpayload =>
      have hshared : Generated own secret := by
        rw [haction, hpayload] at hcarries
        obtain ⟨_, _, shared, hshared, heq⟩ := hcarries
        cases heq
        exact hshared
      refine ⟨h.set ⟨(h address c hget).keypair, ?_⟩, fun out hout => ?_⟩
      · intro t ht
        exact Option.some.inj ht ▸ hshared
      · obtain rfl := List.mem_singleton.mp hout
        exact ⟨secret, hshared, rfl⟩
  | completedSession address c hget =>
      exact ⟨h.set ⟨(h address c hget).keypair, (h address c hget).secret⟩, nofun⟩
  | communicatingSession => exact ⟨h, nofun⟩

theorem GuardedNode.sendList (h : GuardedNode own node) (strings : GuidStrings) (text : Bytes)
    (len : Nat) (addresses : List Nat) :
    ∀ out ∈ (sendList strings node text len addresses).1, Carries own out.rawdata out.action := by
  induction addresses with
  | nil => exact nofun
  | cons address addresses ih =>
      unfold Symbolic.sendList
      cases hget : node.connections.get? address with
      | none => exact nofun
      | some c =>
          by_cases hcomplete : c.state = .complete
          · simp only [hcomplete, ne_eq, not_true_eq_false, if_false]
            intro out hout
            rcases List.mem_append.mp hout with hsent | hlater
            · simp only [connectionRequestSendMessage, Option.mem_toList,
                Option.map_eq_some_iff] at hsent
              obtain ⟨secret, hsecret, rfl⟩ := hsent
              exact ⟨secret, (h address c hget).secret secret hsecret, _, rfl⟩
            · exact ih out hlater
          · simp [hcomplete]

section Net

variable {net next : Net Key} {g : Guid} {rest : List (Wpmessage Key)}

theorem GuardedNet.update_nodes (h : GuardedNet own net) (hnode : GuardedNode own node)
    (g other : Guid) :
    GuardedNode own (Function.update net.nodes g node other) := by
  by_cases hother : other = g
  · subst hother
    rw [Function.update_self]
    exact hnode
  · rw [Function.update_of_ne hother]
    exact h.nodes other

theorem GuardedNet.carries_append (h : GuardedNet own net)
    (hmessages : ∀ m ∈ messages, Carries own m.rawdata m.action) :
    ∀ m ∈ net.pushed ++ messages, Carries own m.rawdata m.action := by
  intro m hm
  rcases List.mem_append.mp hm with hold | hnew
  · exact h.pushed m hold
  · exact hmessages m hnew

theorem GuardedNet.proceed (h : GuardedNet own net) (hnode : GuardedNode own node)
    (hrest : ∀ m ∈ rest, m ∈ net.inFlight)
    (hmessages : ∀ m ∈ messages, Carries own m.rawdata m.action) :
    GuardedNet own (net.proceed g node rest messages) where
  nodes := h.update_nodes hnode g
  inFlight m hm := by
    rcases List.mem_append.mp hm with hold | hnew
    · exact List.mem_append_left _ (h.inFlight m (hrest m hold))
    · exact List.mem_append_right _ hnew
  pushed := h.carries_append hmessages

theorem GuardedNet.halt (h : GuardedNet own net) (hrest : ∀ m ∈ rest, m ∈ net.inFlight)
    (hmessages : ∀ m ∈ messages, Carries own m.rawdata m.action) :
    GuardedNet own (net.halt g rest messages) where
  nodes := by
    have hnode : GuardedNode own { net.nodes g with running := false } := h.nodes g
    exact h.update_nodes hnode g
  inFlight m hm := List.mem_append_left _ (h.inFlight m (hrest m hm))
  pushed := h.carries_append hmessages

/-- **One event.** -/
theorem GuardedNet.step [DecidableEq Key] (h : GuardedNet own net) {event : NetEvent Key}
    (hfresh : FreshFor own event) (hstep : net.step strings event = some next) :
    GuardedNet own next := by
  cases event with
  | discovers g call =>
      obtain ⟨_, hmap⟩ := Option.ite_none_right_eq_some.mp hstep
      obtain ⟨peers, _, rfl⟩ := Option.map_eq_some_iff.mp hmap
      have hnode : GuardedNode own { net.nodes g with peers := peers } := h.nodes g
      exact h.proceed hnode (fun _ hm => hm) nofun
  | initiates g env remote =>
      obtain ⟨_, hnext⟩ := Option.ite_none_right_eq_some.mp hstep
      obtain rfl := Option.some.inj hnext
      have hown : env.keypair ∉ own.keys := hfresh
      let c := connectionRequestCreate env remote (net.nodes g).peers .initialChallenge
      have hc : Guarded own c := ⟨hown, nofun⟩
      have hmessages : ∀ m ∈ [connectionRequestCreateInitiationMessage strings c],
          Carries own m.rawdata m.action := by
        intro m hm
        obtain rfl := List.mem_singleton.mp hm
        exact ⟨env.keypair, hown, rfl⟩
      have hproceed : GuardedNet own (net.proceed g _ net.inFlight _) :=
        h.proceed ((h.nodes g).add hc) (fun _ hm => hm) hmessages
      exact ⟨hproceed.nodes, hproceed.inFlight, hproceed.pushed⟩
  | delivers index env =>
      obtain ⟨hown, hsecret⟩ := hfresh
      simp only [Net.step] at hstep
      cases hindex : net.inFlight[index]? with
      | none => simp [hindex] at hstep
      | some m =>
          have hcarries := h.pushed m (h.inFlight m (List.mem_of_getElem? hindex))
          have hrest : ∀ other ∈ net.inFlight.eraseIdx index, other ∈ net.inFlight :=
            fun _ hother => List.mem_of_mem_eraseIdx hother
          simp only [hindex] at hstep
          obtain ⟨_, hnext⟩ := Option.ite_none_right_eq_some.mp hstep
          cases hprocess : internalConnnectionMessageProcessor strings env
              (net.nodes (strings.fromString m.recipient)) m with
          | none =>
              rw [hprocess] at hnext
              obtain rfl := Option.some.inj hnext
              exact h.halt hrest nofun
          | some result =>
              obtain ⟨node, messages⟩ := result
              rw [hprocess] at hnext
              obtain rfl := Option.some.inj hnext
              obtain ⟨hnode, hmessages⟩ := (h.nodes _).processed hcarries hown hsecret
                (processor_cases hprocess)
              exact h.proceed hnode hrest hmessages
  | sends g envs s text len =>
      have hmessages := (h.nodes g).sendList strings text len s.connectionRequestList
      obtain ⟨_, hnext⟩ := Option.ite_none_right_eq_some.mp hstep
      cases hsend : Symbolic.sendList strings (net.nodes g) text len s.connectionRequestList with
      | mk messages survives =>
          rw [hsend] at hmessages hnext
          cases survives with
          | true =>
              obtain rfl := Option.some.inj hnext
              exact h.proceed (h.nodes g) (fun _ hm => hm) hmessages
          | false =>
              obtain rfl := Option.some.inj hnext
              exact h.halt (fun _ hm => hm) hmessages

theorem GuardedNet.run [DecidableEq Key] {events : List (NetEvent Key)} (h : GuardedNet own net)
    (hfresh : ∀ event ∈ events, FreshFor own event)
    (hrun : Transition.run (Net.step strings) net events = some next) : GuardedNet own next := by
  have hkept : ∀ (net : Net Key) event next, GuardedNet own net → FreshFor own event →
      net.step strings event = some next → GuardedNet own next :=
    fun _ _ _ hguarded hevent hstep => hguarded.step hevent hstep
  exact Transition.run_invariant_along hkept (Transition.along_of_forall hfresh net) hrun h

theorem Net.Initial.guarded (h : net.Initial) : GuardedNet own net where
  nodes g address c hget := by
    rw [h.connections g] at hget
    cases hget
  inFlight m hm := by
    rw [h.inFlight] at hm
    cases hm
  pushed m hm := by
    rw [h.pushed] at hm
    cases hm

/-- **Secrecy.** An observer of every message pushed in a run derives neither the secret of any
connection, held at the end or at any time before, nor any text a node was given to send. -/
theorem secrecy [DecidableEq Key] {start middle final : Net Key}
    {before later : List (NetEvent Key)} (hinitial : start.Initial)
    (hfresh : ∀ event ∈ before ++ later, FreshFor own event)
    (hbefore : Transition.run (Net.step strings) start before = some middle)
    (hlater : Transition.run (Net.step strings) middle later = some final) :
    (∀ g address c secret, (middle.nodes g).connections.get? address = some c →
        c.sharedSecret = some secret → ¬ Derives own final.observed secret)
      ∧ ∀ g envs s text len, .sends g envs s text len ∈ before ++ later →
        ¬ Derives own final.observed (.atom (.text (readBytes text len))) := by
  have hmiddle : GuardedNet own middle := hinitial.guarded.run
    (fun event hevent => hfresh event (List.mem_append_left _ hevent)) hbefore
  have hfinal : GuardedNet own final := hmiddle.run
    (fun event hevent => hfresh event (List.mem_append_right _ hevent)) hlater
  constructor
  · intro g address c secret hget hsecret hderives
    have hgenerated : Generated own secret := (hmiddle.nodes g address c hget).secret secret hsecret
    exact hgenerated.not_harmless (hderives.harmless hfinal.harmless)
  · intro g envs s text len hevent
    exact not_derives_atom hfinal.harmless (hfresh _ hevent)

section Run

open Concrete

def freshNet : Net CString where
  nodes g := {
    peers := peerstoreInit { peer 0 bob with guid := g } none 0
    connections := Arena.empty
    running := true }
  inFlight := []
  pushed := []
  created := []

/-- An observer with a key and a secret of its own. -/
def eve : Observer CString Confidential where
  keys := {host 9}
  atoms := {.secret secretA}

/-- Al and Bob complete a handshake, and Al sends "Bob" over it. -/
def sentEvents : List (NetEvent CString) :=
  handshakeEvents drawsL ++ [.delivers 0 (ambient al (guid 8) drawsL),
    .sends (guid 1) (fun _ => ambient al (guid 8) drawsL) ⟨guid 30, [0]⟩ bob.bytes 3]

theorem secrecy_sent :
    ∃ net, Transition.run (Net.step guidStrings) freshNet sentEvents = some net
      ∧ net.pushed.map Wpmessage.action = [.createSession, .respondingCreatedSession,
        .sharingSessionKey, .completedSession, .communicatingSession]
      ∧ ¬ Derives eve net.observed (.atom (.secret secretL))
      ∧ ¬ Derives eve net.observed (.atom (.text bob.bytes)) := by
  have hinitial : freshNet.Initial := ⟨fun _ => rfl, rfl, rfl⟩
  have hal : al ∉ eve.keys := (by decide : al ≠ host 9)
  have hbob : bob ∉ eve.keys := (by decide : bob ≠ host 9)
  have hsecret : .secret (WhisperCore.generateSharedSecret drawsL) ∉ eve.atoms :=
    (by decide : Confidential.secret (WhisperCore.generateSharedSecret drawsL) ≠ .secret secretA)
  have htext : .text (readBytes bob.bytes 3) ∉ eve.atoms :=
    (by decide : Confidential.text (readBytes bob.bytes 3) ≠ .secret secretA)
  have hfresh : ∀ event ∈ sentEvents ++ [], FreshFor eve event := by
    simp [sentEvents, handshakeEvents, FreshFor, ambient, hal, hbob, hsecret, htext]
  obtain ⟨net, hrun⟩ : ∃ net, Transition.run (Net.step guidStrings) freshNet sentEvents
      = some net := ⟨_, rfl⟩
  have hpushed : net.pushed.map Wpmessage.action = [.createSession, .respondingCreatedSession,
      .sharingSessionKey, .completedSession, .communicatingSession] := by
    obtain rfl := Option.some.inj hrun
    decide +kernel
  have hheld : ((net.nodes (guid 1)).connections.get? 0).bind ConnectionRequest.sharedSecret
      = some (.atom (.secret secretL)) := by
    obtain rfl := Option.some.inj hrun
    decide +kernel
  obtain ⟨c, hget, hshared⟩ := Option.bind_eq_some_iff.mp hheld
  obtain ⟨hsecrets, htexts⟩ := secrecy hinitial hfresh hrun (Transition.run_nil _ net)
  refine ⟨net, hrun, hpushed, hsecrets (guid 1) 0 c _ hget hshared, ?_⟩
  apply htexts (guid 1) (fun _ => ambient al (guid 8) drawsL) ⟨guid 30, [0]⟩ bob.bytes 3
  simp [sentEvents]

end Run

end Net

end WhisperCore.Symbolic
