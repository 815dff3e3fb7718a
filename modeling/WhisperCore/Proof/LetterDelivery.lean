import Mathlib.Data.List.Forall2
import Mathlib.Data.List.ReduceOption
import WhisperCore.Letters
import WhisperCore.Proof.Agreement
import WhisperCore.Proof.Fidelity
import WhisperCore.Proof.HandshakeProgress

/-!
# Texts arrive once, whole, and where they were sent

In the network every text a node sends over a session, as long as its ciphertext has no zero byte,
is at any time in exactly one of three places: on its way, handed to the message handler of the node
it was sent to, as it was sent and on the connection it was sent over, or lost at a node that has
stopped or has no message handler.
-/

namespace WhisperCore

variable {Key : Type} {lib : Libraries Key} {net next : Net Key} {post after : Post Key}

/-- The text can be read at the other end: see `TextArrives`. -/
def LegibleUnder (lib : Libraries Key) (text : CString) (secret : Bytes) : Prop :=
  0 ∉ lib.des.encrypt (secret.take 8) text.bytes

/-- The message was built from the noted text; without a note it is no message of a session. -/
def Noted (lib : Libraries Key) (f : InFlight) : Option Letter → Prop
  | none => f.message.action ≠ .communicatingSession
  | some letter => ∃ env c rest secret,
      f = ⟨communicationMessage lib env c (letter.text.inMemory rest) letter.text.bytes.length
        secret, some (sendingOver env c (letter.text.inMemory rest) letter.text.bytes.length
          secret)⟩
      ∧ LegibleUnder lib letter.text secret
      ∧ letter = ⟨c.id, c.localPeer.guid, c.remote.guid, letter.text⟩

theorem Noted.recipient_eq {f : InFlight} {letter : Letter} (h : Noted lib f (some letter)) :
    lib.guid.fromString f.message.recipient = letter.recipient := by
  obtain ⟨env, c, rest, secret, rfl, _, hletter⟩ := h
  rw [hletter]
  exact lib.guid.fromString_toString _

/-! ### Sending -/

theorem CString.read_inMemory (text : CString) (rest : Bytes) :
    CString.read (text.inMemory rest) = text :=
  CString.ext (takeWhile_append_nul text.noNul rest)

theorem letterOf_communicationMessage {env : Ambient Key} {c : ConnectionRequest Key}
    {text : CString} {bytes secret : Bytes} {len : Nat} :
    letterOf lib text (communicationMessage lib env c bytes len secret)
      = ⟨c.id, c.localPeer.guid, c.remote.guid, text⟩ := by
  simp [letterOf, communicationMessage]

/-- The messages of a send are noted with the text that is sent. -/
theorem sendList_noted {envs : Nat → Ambient Key} {controller : ConnectionController Key}
    {text : CString} {rest : Bytes} {addresses : List Nat} {messages : List Wpmessage}
    (h : sendList lib envs controller (text.inMemory rest) text.bytes.length addresses
      = .ok messages)
    (hlegible : ∀ secret ∈ sendSecrets controller addresses, LegibleUnder lib text secret) :
    List.Forall₂ (Noted lib) (stamped messages
        (sendings envs controller (text.inMemory rest) text.bytes.length addresses))
      (messages.map fun message => some (letterOf lib text message)) := by
  induction addresses generalizing envs messages with
  | nil =>
      obtain rfl := Except.ok.inj h
      exact .nil
  | cons address addresses ih =>
      simp only [sendList, connectionControllerConnectionRequestSendMessage] at h
      cases hget : controller.connections.get? address with
      | none =>
          rw [hget] at h
          cases h
      | some c =>
          simp only [hget] at h
          by_cases hcomplete : c.state = .complete
          · have hsecrets : sendSecrets controller (address :: addresses)
                = c.sharedSecret.toList ++ sendSecrets controller addresses := by
              simp [sendSecrets, hget, hcomplete]
            rw [hsecrets] at hlegible
            simp only [sendings, hget, hcomplete, ne_eq, not_true_eq_false, if_false]
            rw [if_neg (not_not.mpr hcomplete)] at h
            obtain ⟨sent, hsend, h⟩ := bind_eq_ok_iff.mp h
            obtain ⟨later, hlater, h⟩ := bind_eq_ok_iff.mp h
            obtain rfl := Except.ok.inj h
            have hrest := ih hlater fun secret hsecret =>
              hlegible secret (List.mem_append_right _ hsecret)
            rcases connectionRequestSendMessage_cases hsend with
              ⟨hnone, rfl⟩ | ⟨secret, hkey, rfl⟩
            · rw [hnone]
              exact hrest
            · rw [hkey.held] at hlegible
              rw [hkey.held]
              refine .cons ⟨envs 0, c, rest, secret, ?_, ?_, ?_⟩ hrest
              · rw [letterOf_communicationMessage]
              · rw [letterOf_communicationMessage]
                exact hlegible secret List.mem_cons_self
              · rw [letterOf_communicationMessage]
          · rw [if_pos hcomplete] at h
            obtain rfl := Except.ok.inj h
            exact .nil

/-! ### Receiving -/

theorem rawdata_communicationMessage_of_notMem (env : Ambient Key) (c : ConnectionRequest Key)
    {text : CString} {secret : Bytes} (rest : Bytes) (hlength : secret.length = 8)
    (hzero : 0 ∉ lib.des.encrypt secret text.bytes) :
    ∃ more, (communicationMessage lib env c (text.inMemory rest) text.bytes.length secret).rawdata
      = lib.des.encrypt secret (text.bytes ++ [0]) ++ more := by
  obtain ⟨tail, htailLength, htail, hmemory⟩ := communication_memory lib env hlength text rest
  have hstrlen := le_strlen_append hzero (tail ++ env.afterCiphertext)
  have hcount : (lib.des.encrypt secret (text.bytes ++ [0])).length
      ≤ strlen (lib.des.encrypt secret text.bytes ++ (tail ++ env.afterCiphertext)) + 1 := by
    rw [htail, List.length_append, htailLength]
    exact Nat.succ_le_succ hstrlen
  obtain ⟨more, hmore⟩ := exists_readBytes_append _ env.afterCiphertext hcount
  refine ⟨more, ?_⟩
  rw [communicationMessage, connectionMessage_rawdata, hmemory, ← hmore, htail, List.append_assoc]

/-- What the node a text goes to holds for it: the connection it was sent over, seen from the other
end. -/
theorem Phase.exists_end_of_carries {phase : Phase Key} {sender recipient : Guid} {secret : Bytes}
    (hcarries : phase.Carries sender recipient secret) :
    ∃ v, phase.holds recipient = [v] ∧ v.sharedSecret = some secret ∧ v.remoteGuid = sender
      ∧ secret.length = 8 := by
  cases phase with
  | unused => exact hcarries.elim
  | created initiator responder key => exact hcarries.elim
  | replied p => exact hcarries.elim
  | shared p σ => exact hcarries.elim
  | confirmed p σ =>
      obtain ⟨rfl, rfl, rfl⟩ := hcarries
      exact ⟨_, Parties.hold_initiator, rfl, rfl, σ.length_eq⟩
  | complete p σ =>
      obtain ⟨⟨rfl, rfl⟩ | ⟨rfl, rfl⟩, rfl⟩ := hcarries
      · exact ⟨_, Parties.hold_initiator, rfl, rfl, σ.length_eq⟩
      · exact ⟨_, Parties.hold_responder, rfl, rfl, σ.length_eq⟩

section Receiving

variable {f : InFlight} {env : Ambient Key} {outcome : Outcome Key} {letter : Letter}

/-- A text that is processed to the end is handed over as it was sent, and on the connection it was
sent over, if there is a handler. -/
theorem Honest.hands_over (hinv : Honest lib net) (hf : f ∈ net.inFlight)
    (hnoted : Noted lib f (some letter))
    (hok : internalConnnectionMessageProcessor lib env
      (net.nodes letter.recipient).controller f.message = .ok outcome) :
    ∃ address o, (net.nodes letter.recipient).controller.connections.get? address = some o
      ∧ o.id = letter.id ∧ o.remote.guid = letter.sender
      ∧ outcome = ⟨(net.nodes letter.recipient).controller, [],
        if (net.nodes letter.recipient).controller.cmr then
          [.messageReceived address (letter.text.bytes ++ [0]) (letter.text.bytes.length + 1)]
        else []⟩ := by
  have hrecipient := hnoted.recipient_eq
  obtain ⟨env', c, rest, secret, hbuilt, hlegible, hletter⟩ := hnoted
  have hmessage : f.message = communicationMessage lib env' c (letter.text.inMemory rest)
    letter.text.bytes.length secret := congrArg InFlight.message hbuilt
  have hid : lib.guid.fromString f.message.id = letter.id := by
    rw [hletter]
    simp [hmessage, communicationMessage]
  have hsender : lib.guid.fromString f.message.sender = letter.sender := by
    rw [hletter]
    simp [hmessage, communicationMessage]
  have haction : f.message.action = .communicatingSession := by
    simp [hmessage, communicationMessage]
  obtain ⟨phase, hshows, _⟩ := hinv.shows letter.id
  obtain ⟨sending, hstamp, _, hcarries⟩ := hshows.session f hf hid haction
  have hsending : sendingOver env' c (letter.text.inMemory rest) letter.text.bytes.length secret
      = sending := by simpa [hbuilt] using hstamp
  have hsame : sending.secret = secret := hsending ▸ rfl
  rw [hsame] at hcarries
  obtain ⟨v, hholds, hsecret, hremote, hlength⟩ := Phase.exists_end_of_carries hcarries
  rw [hrecipient] at hholds
  obtain ⟨remote, _, hprocessed⟩ := processor_cases hok
  cases hprocessed with
  | communicatingSession address o own _ hfind hkey =>
      obtain ⟨_, hview⟩ := hshows.found hid hfind
      obtain rfl : v = o.view := List.singleton_inj.mp (hholds.symm.trans hview)
      obtain rfl : secret = own := Option.some.inj (hsecret.symm.trans hkey.held)
      obtain ⟨hget, ho⟩ := get?_of_findConnection hfind
      have hzero : 0 ∉ lib.des.encrypt secret letter.text.bytes := by
        simpa [LegibleUnder, List.take_of_length_le hlength.le] using hlegible
      obtain ⟨more, hraw⟩ := rawdata_communicationMessage_of_notMem env' c rest hlength hzero
      rw [← hmessage] at hraw
      obtain ⟨later, hlater⟩ := exists_decryptedPayload_append env hlength hraw
      have hreceived : decryptedPayload lib env f.message secret ++ env.afterPlaintext
          = letter.text.inMemory (later ++ env.afterPlaintext) := by
        rw [hlater, List.append_assoc, ← letter.text.inMemory_eq]
      refine ⟨address, o, hget, ho.trans hid, hremote.trans hsender, ?_⟩
      simp only [hreceived, strlen_inMemory, letter.text.readBytes_inMemory]
  | createSession haction' hfind => cases haction.symm.trans haction'
  | respondingCreatedSession address c cipher haction' => cases haction.symm.trans haction'
  | sharingSessionKey address c decrypted secret haction' => cases haction.symm.trans haction'
  | completedSession address c secret haction' => cases haction.symm.trans haction'

theorem Honest.reads (hinv : Honest lib net) (hf : f ∈ net.inFlight)
    (hnoted : Noted lib f (some letter))
    (hok : internalConnnectionMessageProcessor lib env
      (net.nodes letter.recipient).controller f.message = .ok outcome) :
    outcome.pushed = []
      ∧ outcome.calls.filterMap (readLetter letter.recipient outcome.controller)
        = if outcome.controller.cmr then [letter] else [] := by
  obtain ⟨address, o, hget, hid, hsender, rfl⟩ := hinv.hands_over hf hnoted hok
  have hread : readLetter letter.recipient (net.nodes letter.recipient).controller
      (.messageReceived address (letter.text.bytes ++ [0]) (letter.text.bytes.length + 1))
        = some letter := by
    rw [readLetter, hget, Option.map_some, hid, hsender]
    exact congrArg (fun text => some { letter with text := text }) (letter.text.read_inMemory [])
  refine ⟨rfl, ?_⟩
  by_cases hcmr : (net.nodes letter.recipient).controller.cmr
  · simp [hcmr, hread]
  · simp [hcmr]

/-- What is not a message of a session hands over no text. -/
theorem Processed.reads_nothing {controller : ConnectionController Key} {m : Wpmessage}
    {remote : Peer} (hprocessed : Processed lib env controller m remote outcome)
    (haction : m.action ≠ .communicatingSession) (g : Guid) :
    outcome.calls.filterMap (readLetter g outcome.controller) = [] := by
  cases hprocessed with
  | createSession _ hfind =>
      by_cases hic : controller.ic
      · simp [hic, readLetter]
      · simp [hic]
  | respondingCreatedSession address c cipher _ hfind hcipher => rfl
  | sharingSessionKey address c decrypted secret _ hfind hdecrypt hdecode hlong =>
      by_cases hnc : controller.nc
      · simp [hnc, readLetter]
      · simp [hnc]
  | completedSession address c secret _ hfind hkey =>
      by_cases hopens : OpensToOkay lib env m secret ∧ controller.nc
      · simp [hopens, readLetter]
      · simp [hopens]
  | communicatingSession address c secret hsession hfind hkey => exact absurd hsession haction

end Receiving

/-! ### Nodes that hear nothing -/

/-- The node has stopped or has no message handler. -/
def Deaf (net : Net Key) (g : Guid) : Prop :=
  (net.nodes g).running = false ∨ (net.nodes g).controller.cmr = false

theorem Processed.cmr_eq {env : Ambient Key} {controller : ConnectionController Key}
    {m : Wpmessage} {remote : Peer} {outcome : Outcome Key}
    (h : Processed lib env controller m remote outcome) :
    outcome.controller.cmr = controller.cmr := by
  cases h with
  | createSession haction hfind => rfl
  | respondingCreatedSession address c cipher haction hfind hcipher => rfl
  | sharingSessionKey address c decrypted secret haction hfind hdecrypt hdecode hlong => rfl
  | completedSession address c secret haction hfind hkey => rfl
  | communicatingSession address c secret haction hfind hkey => rfl

theorem Deaf.resume {g : Guid} (h : Deaf net g) {g' : Guid}
    {controller : ConnectionController Key}
    (hcmr : controller.cmr = (net.nodes g').controller.cmr) :
    Deaf (net.resume g' controller) g := by
  rw [Deaf, resume_running, resume_controller]
  by_cases hg : g = g'
  · rw [if_pos hg, hcmr, ← hg]
    exact h
  · rw [if_neg hg]
    exact h

theorem Deaf.halt {g : Guid} (h : Deaf net g) (g' : Guid) : Deaf (net.halt g') g := by
  rw [Deaf, halt_controller]
  refine h.imp (fun hstopped => ?_) id
  by_contra hruns
  rw [Bool.not_eq_false] at hruns
  rw [(running_of_halt hruns).2] at hstopped
  cases hstopped

theorem deaf_halt_self (net : Net Key) (g : Guid) : Deaf (net.halt g) g :=
  Or.inl (by simp [Net.halt])

/-- Handlers are set once. -/
theorem Moves.cmr_eq (hmove : Moves lib net next) (g : Guid) :
    (next.nodes g).controller.cmr = (net.nodes g).controller.cmr := by
  have hresume : ∀ (g' : Guid) (controller : ConnectionController Key),
      controller.cmr = (net.nodes g').controller.cmr →
      ((net.resume g' controller).nodes g).controller.cmr = (net.nodes g).controller.cmr := by
    intro g' controller hcmr
    rw [resume_controller]
    split_ifs with hg
    · rw [hcmr, hg]
    · rfl
  cases hmove with
  | discovered g' call peers hcall => exact hresume g' _ rfl
  | initiated g' env remote hfresh => exact hresume g' _ rfl
  | rejected f earlier later hsplit => exact congrArg _ (halt_controller net _ g)
  | processed f earlier later env outcome hsplit hok =>
      obtain ⟨remote, _, hprocessed⟩ := processor_cases hok
      exact hresume _ _ hprocessed.cmr_eq
  | sendStopped g' => exact congrArg _ (halt_controller net g' g)
  | sent g' fs hsent => rfl

/-- Who hears nothing hears nothing later. -/
theorem Moves.deaf (hmove : Moves lib net next) {g : Guid} (h : Deaf net g) : Deaf next g := by
  cases hmove with
  | discovered g' call peers hcall => exact h.resume rfl
  | initiated g' env remote hfresh => exact h.resume rfl
  | rejected f earlier later hsplit => exact h.halt _
  | processed f earlier later env outcome hsplit hok =>
      obtain ⟨remote, _, hprocessed⟩ := processor_cases hok
      exact h.resume hprocessed.cmr_eq
  | sendStopped g' => exact h.halt g'
  | sent g' fs hsent => exact h

/-! ### The books -/

/-- The books are right: every message in flight is noted, every letter is where it has to be, as
often as it was sent, and only nodes that hear nothing have lost one. -/
structure Balanced (lib : Libraries Key) (post : Post Key) : Prop where
  honest : Honest lib post.net
  noted : List.Forall₂ (Noted lib) post.net.inFlight post.notes
  balance : ∀ letter, post.sent.count letter = post.received.count letter
    + post.lost.count letter + post.notes.reduceOption.count letter
  lost : ∀ letter ∈ post.lost, Deaf post.net letter.recipient

/-- A send of a text, with its length, that can be read at the other ends. -/
def SendsLegibly (lib : Libraries Key) (post : Post Key) : NetEvent Key → Prop
  | .sends g _ s message messageLen => ∃ (text : CString) (rest : Bytes),
      message = text.inMemory rest ∧ messageLen = text.bytes.length
        ∧ ∀ secret ∈ sendSecrets (post.net.nodes g).controller s.connectionRequestList,
          LegibleUnder lib text secret
  | _ => True

theorem count_reduceOption_append (first second : List (Option Letter)) (letter : Letter) :
    (first ++ second).reduceOption.count letter
      = first.reduceOption.count letter + second.reduceOption.count letter := by
  rw [List.reduceOption_append, List.count_append]

/-- The note of the message that is taken out, and the notes of the others. -/
theorem Balanced.taken (h : Balanced lib post) {index : Nat} {f : InFlight}
    (hindex : post.net.inFlight[index]? = some f) :
    ∃ note earlier later, post.notes[index]? = some note ∧ Noted lib f note
      ∧ post.notes = earlier ++ note :: later ∧ post.notes.eraseIdx index = earlier ++ later
      ∧ List.Forall₂ (Noted lib) (post.net.inFlight.eraseIdx index)
        (post.notes.eraseIdx index) := by
  obtain ⟨hlt, rfl⟩ := List.getElem?_eq_some_iff.mp hindex
  have hnotes : index < post.notes.length := h.noted.length_eq ▸ hlt
  refine ⟨post.notes[index], post.notes.take index, post.notes.drop (index + 1),
    List.getElem?_eq_getElem hnotes, ?_, ?_, List.eraseIdx_eq_take_drop_succ _ _, ?_⟩
  · exact (List.forall₂_iff_get.mp h.noted).2 index hlt hnotes
  · rw [List.getElem_cons_drop, List.take_append_drop]
  · rw [List.eraseIdx_eq_take_drop_succ, List.eraseIdx_eq_take_drop_succ]
    exact List.rel_append (List.forall₂_take index h.noted)
      (List.forall₂_drop (index + 1) h.noted)

theorem deliver_error {f : InFlight} {index : Nat} {env : Ambient Key}
    {ending : Ending (Outcome Key)}
    (h : internalConnnectionMessageProcessor lib env
      (post.net.nodes (lib.guid.fromString f.message.recipient)).controller f.message
        = .error ending) :
    post.deliver lib next index env f = { post with
      net := next
      notes := post.notes.eraseIdx index
      lost := post.lost ++ (post.notes[index]?).join.toList } := by
  simp only [Post.deliver, h]

theorem deliver_ok {f : InFlight} {index : Nat} {env : Ambient Key} {outcome : Outcome Key}
    (h : internalConnnectionMessageProcessor lib env
      (post.net.nodes (lib.guid.fromString f.message.recipient)).controller f.message
        = .ok outcome) {handed : List Letter}
    (hhanded : outcome.calls.filterMap
      (readLetter (lib.guid.fromString f.message.recipient) outcome.controller) = handed) :
    post.deliver lib next index env f = { post with
      net := next
      notes := post.notes.eraseIdx index ++ outcome.pushed.map fun _ => none
      received := post.received ++ handed
      lost := if handed = [] then post.lost ++ (post.notes[index]?).join.toList
        else post.lost } := by
  subst hhanded
  simp only [Post.deliver, h]

theorem noted_none_of_pushed {messages : List Wpmessage}
    (h : ∀ m ∈ messages, m.action ≠ .communicatingSession) :
    List.Forall₂ (Noted lib) (messages.map unstamped) (messages.map fun _ => none) := by
  induction messages with
  | nil => exact .nil
  | cons m messages ih =>
      exact .cons (h m List.mem_cons_self) (ih fun m hm => h m (List.mem_cons_of_mem _ hm))

theorem reduceOption_map_none (messages : List Wpmessage) :
    (messages.map fun _ => (none : Option Letter)).reduceOption = [] := by
  induction messages with
  | nil => rfl
  | cons m messages ih => exact ih

theorem reduceOption_map_some (letters : List Letter) :
    (letters.map some).reduceOption = letters := by
  rw [List.reduceOption, List.filterMap_map]
  exact List.filterMap_some

theorem Balanced.delivered (h : Balanced lib post) {index : Nat} {env : Ambient Key}
    {f : InFlight} (hindex : post.net.inFlight[index]? = some f)
    (hnext : post.net.step lib (.delivers index env) = some next) :
    Balanced lib (post.deliver lib next index env f) := by
  have hmove := net_step_cases hnext
  have hhonest := h.honest.step hmove
  have hlost : ∀ letter ∈ post.lost, Deaf next letter.recipient :=
    fun letter hletter => hmove.deaf (h.lost letter hletter)
  obtain ⟨note, earlier, later, hnote, hnoted, hsplit, herased, hothers⟩ := h.taken hindex
  have hf : f ∈ post.net.inFlight := List.mem_of_getElem? hindex
  have hcount : ∀ letter, post.notes.reduceOption.count letter
      = note.toList.count letter + (post.notes.eraseIdx index).reduceOption.count letter := by
    intro letter
    rw [herased, hsplit, count_reduceOption_append, count_reduceOption_append]
    cases note with
    | none => simp
    | some noted =>
        simp only [List.reduceOption_cons_of_some, Option.toList_some, List.count_cons,
          List.count_nil]
        omega
  simp only [Net.step, hindex] at hnext
  obtain ⟨_, hnext⟩ := Option.ite_none_right_eq_some.mp hnext
  cases hprocess : internalConnnectionMessageProcessor lib env
      (post.net.nodes (lib.guid.fromString f.message.recipient)).controller f.message with
  | error stop =>
      rw [hprocess] at hnext
      obtain rfl := Option.some.inj hnext
      rw [deliver_error hprocess, hnote]
      refine ⟨hhonest, hothers, fun letter => ?_, fun letter hletter => ?_⟩
      · have hbalance := h.balance letter
        rw [hcount letter] at hbalance
        simp only [Option.join_some, List.count_append]
        omega
      · rcases List.mem_append.mp hletter with hold | hnew
        · exact hlost letter hold
        · obtain rfl : note = some letter := by simpa using hnew
          rw [← hnoted.recipient_eq]
          exact deaf_halt_self _ _
  | ok outcome =>
      rw [hprocess] at hnext
      obtain rfl := Option.some.inj hnext
      obtain ⟨remote, _, hprocessed⟩ := processor_cases hprocess
      cases note with
      | none =>
          rw [deliver_ok hprocess (hprocessed.reads_nothing hnoted _), hnote]
          refine ⟨hhonest, List.rel_append hothers
            (noted_none_of_pushed fun m hm => ?_), fun letter => ?_, ?_⟩
          · exact (hprocessed.ownIdOnly.pushed m hm).2
          · have hbalance := h.balance letter
            rw [hcount letter] at hbalance
            rw [count_reduceOption_append, reduceOption_map_none]
            simpa using hbalance
          · simpa using hlost
      | some letter =>
          have hok := hprocess
          rw [hnoted.recipient_eq] at hok
          obtain ⟨hpushed, hreads⟩ := h.honest.reads hf hnoted hok
          rw [← hnoted.recipient_eq] at hreads
          have hinFlight : (post.net.proceed (lib.guid.fromString f.message.recipient) outcome
              (post.net.inFlight.eraseIdx index)).inFlight = post.net.inFlight.eraseIdx index := by
            rw [Net.proceed, hpushed, List.map_nil, List.append_nil]
          rw [deliver_ok hprocess hreads, hnote, hpushed]
          by_cases hcmr : outcome.controller.cmr
          · simp only [hcmr, if_true, List.cons_ne_nil, if_false, List.map_nil, List.append_nil]
            refine ⟨hhonest, hinFlight.symm ▸ hothers, fun other => ?_, hlost⟩
            have hbalance := h.balance other
            rw [hcount other, Option.toList_some] at hbalance
            simp only [List.count_append]
            omega
          · simp only [hcmr, Bool.false_eq_true, if_true, if_false, List.map_nil, List.append_nil]
            refine ⟨hhonest, hinFlight.symm ▸ hothers, fun other => ?_, fun other hother => ?_⟩
            · have hbalance := h.balance other
              rw [hcount other, Option.toList_some] at hbalance
              simp only [Option.join_some, Option.toList_some, List.count_append]
              omega
            · rcases List.mem_append.mp hother with hold | hnew
              · exact hlost other hold
              · obtain rfl : other = letter := by simpa using hnew
                rw [← hnoted.recipient_eq]
                refine Or.inr ?_
                have hresume := resume_controller post.net
                  (lib.guid.fromString f.message.recipient)
                  (lib.guid.fromString f.message.recipient) outcome.controller
                rw [if_pos rfl] at hresume
                exact (congrArg ConnectionController.cmr hresume).trans
                  (Bool.eq_false_iff.mpr hcmr)

theorem Balanced.step {event : NetEvent Key} (h : Balanced lib post)
    (hlegible : SendsLegibly lib post event) (hstep : post.step lib event = some after) :
    Balanced lib after := by
  obtain ⟨next, hnext, rfl⟩ := Option.map_eq_some_iff.mp hstep
  have hmove := net_step_cases hnext
  have hhonest := h.honest.step hmove
  have hlost : ∀ letter ∈ post.lost, Deaf next letter.recipient :=
    fun letter hletter => hmove.deaf (h.lost letter hletter)
  cases event with
  | discovers g call =>
      obtain ⟨_, hmap⟩ := Option.ite_none_right_eq_some.mp hnext
      obtain ⟨peers, _, rfl⟩ := Option.map_eq_some_iff.mp hmap
      exact ⟨hhonest, h.noted, h.balance, hlost⟩
  | initiates g env remote =>
      obtain ⟨_, hsome⟩ := Option.ite_none_right_eq_some.mp hnext
      obtain rfl := Option.some.inj hsome
      refine ⟨hhonest, List.rel_append h.noted (.cons nofun .nil), fun letter => ?_, hlost⟩
      rw [count_reduceOption_append]
      exact h.balance letter
  | delivers index env =>
      cases hindex : post.net.inFlight[index]? with
      | none => simp [Net.step, hindex] at hnext
      | some f =>
          simp only [hindex]
          exact h.delivered hindex hnext
  | sends g envs s message messageLen =>
      obtain ⟨_, hsome⟩ := Option.ite_none_right_eq_some.mp hnext
      simp only [Post.lettersSent]
      cases hsend : sessionControllerSessionSendMessage lib envs (post.net.nodes g).controller s
          message messageLen with
      | error stop =>
          rw [hsend] at hsome
          obtain rfl := Option.some.inj hsome
          refine ⟨hhonest, ?_, ?_, hlost⟩
          · rw [List.map_nil, List.append_nil]
            exact h.noted
          · simpa using h.balance
      | ok messages =>
          rw [hsend] at hsome
          obtain rfl := Option.some.inj hsome
          obtain ⟨text, rest, rfl, rfl, hlegible⟩ := hlegible
          rw [CString.read_inMemory]
          refine ⟨hhonest, ?_, fun letter => ?_, hlost⟩
          · rw [List.map_map]
            exact List.rel_append h.noted (sendList_noted hsend hlegible)
          · have hbalance := h.balance letter
            simp only [count_reduceOption_append, reduceOption_map_some, List.count_append]
            omega

theorem Balanced.initial (h : net.Initial) : Balanced lib (Post.start net) where
  honest := .initial h
  noted := by
    rw [Post.start, h.inFlight]
    exact .nil
  balance letter := rfl
  lost letter hletter := absurd hletter List.not_mem_nil

theorem deliver_net {f : InFlight} {index : Nat} {env : Ambient Key} :
    (post.deliver lib next index env f).net = next := by
  cases hprocess : internalConnnectionMessageProcessor lib env
      (post.net.nodes (lib.guid.fromString f.message.recipient)).controller f.message with
  | error stop => rw [deliver_error hprocess]
  | ok outcome => rw [deliver_ok hprocess rfl]

/-- A step of the network with its books is one of the network. -/
theorem step_net {event : NetEvent Key} (hstep : post.step lib event = some after) :
    post.net.step lib event = some after.net := by
  obtain ⟨next, hnext, rfl⟩ := Option.map_eq_some_iff.mp hstep
  rw [hnext]
  cases event with
  | discovers g call => rfl
  | initiates g env remote => rfl
  | delivers index env =>
      cases hindex : post.net.inFlight[index]? with
      | none => simp only [hindex]
      | some f => simp only [hindex, deliver_net]
  | sends g envs s message messageLen => rfl

/-- The books are no part of the run. -/
theorem run_net {events : List (NetEvent Key)}
    (hrun : Transition.run (Post.step lib) post events = some after) :
    Transition.run (Net.step lib) post.net events = some after.net := by
  have hsimulates : ∀ (post : Post Key) (net : Net Key) (event : NetEvent Key) (after : Post Key),
      post.net = net → post.step lib event = some after →
        ∃ next, net.step lib event = some next ∧ after.net = next := by
    rintro post net event after rfl hstep
    exact ⟨after.net, step_net hstep, rfl⟩
  obtain ⟨final, hfinal, rfl⟩ := Transition.run_simulation hsimulates rfl hrun
  exact hfinal

/-- Every run of the network has its books. -/
theorem run_of_net {events : List (NetEvent Key)}
    (hrun : Transition.run (Net.step lib) post.net events = some next) :
    ∃ after, Transition.run (Post.step lib) post events = some after ∧ after.net = next := by
  have hsimulates : ∀ (net : Net Key) (post : Post Key) (event : NetEvent Key) (next : Net Key),
      post.net = net → net.step lib event = some next →
        ∃ after, post.step lib event = some after ∧ after.net = next := by
    rintro net post event next rfl hstep
    obtain ⟨after, hafter⟩ : ∃ after, post.step lib event = some after :=
      ⟨_, by rw [Post.step, hstep, Option.map_some]⟩
    exact ⟨after, hafter, Option.some.inj ((step_net hafter).symm.trans hstep)⟩
  exact Transition.run_simulation hsimulates rfl hrun

section Run

open Concrete

/-- Al's session with Bob. -/
def sessionOfAl : Session := ⟨guid 9, [0]⟩

/-- The handshake, finished. -/
def sessionEvents : List (NetEvent CString) :=
  handshakeEvents (fun _ => 0) ++ [.delivers 0 (ambient al (guid 8) fun _ => 0)]

/-- "Bob", sent and read. -/
def letterEvents : List (NetEvent CString) :=
  [.sends (guid 1) (fun _ => ambient al (guid 8) fun _ => 0) sessionOfAl (bob.inMemory []) 3,
    .delivers 0 (ambient bob (guid 8) fun _ => 0)]

def postAfter (events : List (NetEvent CString)) : Post CString :=
  (Transition.run (Post.step libraries) (Post.start freshNet) events).getD (Post.start freshNet)

theorem run_postAfter {events : List (NetEvent CString)}
    (h : (Transition.run (Post.step libraries) (Post.start freshNet) events).isSome = true) :
    Transition.run (Post.step libraries) (Post.start freshNet) events
      = some (postAfter events) := by
  obtain ⟨final, hfinal⟩ := Option.isSome_iff_exists.mp h
  rw [postAfter, hfinal]
  rfl

theorem letterEvents_legible :
    Transition.Along (Post.step libraries) (SendsLegibly libraries) (Post.start freshNet)
      (sessionEvents ++ letterEvents) := by
  rw [Transition.along_append]
  refine ⟨?_, fun middle hmiddle => ?_⟩
  · refine ⟨trivial, fun _ _ => ⟨trivial, fun _ _ => ⟨trivial, fun _ _ => ?_⟩⟩⟩
    refine ⟨trivial, fun _ _ => ?_⟩
    exact ⟨trivial, fun _ _ => ⟨trivial, fun _ _ => ⟨trivial, fun _ _ => trivial⟩⟩⟩
  · rw [run_postAfter (by decide +kernel)] at hmiddle
    obtain rfl := Option.some.inj hmiddle
    refine ⟨⟨bob, [], rfl, rfl, ?_⟩, fun _ _ => ⟨trivial, fun _ _ => trivial⟩⟩
    have hsecrets : sendSecrets ((postAfter sessionEvents).net.nodes (guid 1)).controller [0]
        = [secretA] := by decide +kernel
    intro secret hsecret
    obtain rfl : secret = secretA := List.mem_singleton.mp (hsecrets ▸ hsecret)
    rw [LegibleUnder]
    decide +kernel

example : (postAfter (sessionEvents ++ letterEvents)).received
    = [⟨guid 7, guid 1, guid 2, bob⟩] := by decide +kernel

end Run

end WhisperCore
