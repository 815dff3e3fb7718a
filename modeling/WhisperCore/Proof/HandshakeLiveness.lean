import WhisperCore.Lib.Courses
import WhisperCore.Proof.HandshakeProgress

/-!
# The handshake comes to its end

Two nodes that run and know each other finish every handshake they have begun: on a run without end,
as long as the messages of the handshake are delivered at last; and from any reachable network, by
delivering these messages alone. The rank that goes down is the number of moves the handshake has
still to make.
-/

namespace WhisperCore

variable {Key : Type} {lib : Libraries Key} {net next : Net Key} {phase after : Phase Key}
  {i g h : Guid}

/-- The phase an id is in: what the network shows of it, and that it has what it waits for. -/
structure Stands (lib : Libraries Key) (i : Guid) (net : Net Key) (phase : Phase Key) : Prop where
  shows : Shows lib i net phase
  unused : i ∉ net.created → phase = .unused
  pending : Pending lib i net phase

theorem Stands.not_unused (hstands : Stands lib i net phase) {f : InFlight}
    (hf : f ∈ net.inFlight) (hid : lib.guid.fromString f.message.id = i) : i ∈ net.created := by
  by_contra hfresh
  obtain rfl := hstands.unused hfresh
  exact hstands.shows.not_in_flight hf hid

/-! ### Every move -/

section Moves

variable {f : InFlight} {earlier later : List InFlight} {env : Ambient Key} {outcome : Outcome Key}

theorem Stands.initiated (hstands : Stands lib i net phase) (hinv : Honest lib net)
    (hfresh : env.guid ∉ net.created) (remote : PeerRef) :
    ∃ after, phase.Follows after ∧ Stands lib i { net.proceed g
        (connectionControllerInitiationRequest lib env (net.nodes g).controller remote)
        net.inFlight with created := env.guid :: net.created } after := by
  by_cases hid : env.guid = i
  · obtain rfl := hstands.unused (hid ▸ hfresh)
    refine ⟨_, Or.inr ⟨_, .create g remote.guid env.keypair⟩,
      (hstands.shows.initiate hid (hinv.own g) remote).created_irrel _,
      fun hmem => absurd (hid ▸ List.mem_cons_self) hmem, fun _ _ _ _ _ => ?_⟩
    have hafter := hstands.shows.initiate hid (hinv.own g) remote
    refine (hafter.expects_of_pushed List.mem_cons_self ?_ nofun).2
    simp [connectionRequestCreateInitiationMessage, connectionRequestCreate, hid]
  · exact ⟨phase, Or.inl rfl, (hstands.shows.initiate_other hid remote).created_irrel _,
      fun hmem => hstands.unused fun hold => hmem (List.mem_cons_of_mem _ hold),
      hstands.pending.frame (fun g' hruns => by rwa [← resume_running]) fun hinFlight =>
        hinFlight.append _⟩

theorem Stands.rejected (hstands : Stands lib i net phase)
    (hsplit : net.inFlight = earlier ++ f :: later) :
    Stands lib i { net.halt (lib.guid.fromString f.message.recipient) with
      inFlight := earlier ++ later } phase where
  shows := hstands.shows.frame (connectionsOf_halt net i _) (handshakeOf_rest_sublist hsplit)
    fun _ hother _ _ => Or.inl (mem_of_mem_rest hsplit hother)
  unused := hstands.unused
  pending := by
    by_cases hmine : lib.guid.fromString f.message.id = i
        ∧ f.message.action ≠ .communicatingSession
    · -- The node the phase waits for is the one that has stopped.
      intro action sender recipient hexpects hruns
      obtain ⟨_, hexpected⟩ := hstands.shows.taken hsplit hmine.1 hmine.2
      obtain ⟨_, _, rfl⟩ := by simpa [hexpects] using hexpected.route
      exact absurd rfl (running_of_halt hruns).1
    · exact hstands.pending.frame (fun _ hruns => (running_of_halt hruns).2) fun hinFlight =>
        hinFlight.take_out hsplit hmine

/-- A message that is not a handshake message of the id leaves its phase alone. -/
theorem Stands.processed_other {remote : Peer} (hstands : Stands lib i net phase)
    (hsplit : net.inFlight = earlier ++ f :: later)
    (hprocessed : Processed lib env
      (net.nodes (lib.guid.fromString f.message.recipient)).controller f.message remote outcome)
    (hother : ¬(lib.guid.fromString f.message.id = i
      ∧ f.message.action ≠ .communicatingSession)) :
    Stands lib i
      (net.proceed (lib.guid.fromString f.message.recipient) outcome (earlier ++ later)) phase where
  shows := by
    by_cases hid : i = lib.guid.fromString f.message.id
    · have haction : f.message.action = .communicatingSession := by
        by_contra haction
        exact hother ⟨hid.symm, haction⟩
      cases hprocessed with
      | communicatingSession address c secret _ hfind hkey =>
          refine hstands.shows.frame (connectionsOf_resume_of_select rfl) ?_ fun m hm _ _ => ?_
          · simp only [Net.proceed, List.map_nil, List.append_nil]
            exact handshakeOf_rest_sublist hsplit
          · simp only [Net.proceed, List.map_nil, List.append_nil] at hm
            exact Or.inl (mem_of_mem_rest hsplit hm)
      | createSession haction' hfind => cases haction.symm.trans haction'
      | respondingCreatedSession address c cipher haction' => cases haction.symm.trans haction'
      | sharingSessionKey address c decrypted secret haction' => cases haction.symm.trans haction'
      | completedSession address c secret haction' => cases haction.symm.trans haction'
    · exact hstands.shows.processed_other hsplit hprocessed.ownIdOnly hid
  unused := hstands.unused
  pending := hstands.pending.frame (fun g' hruns => by rwa [← resume_running]) fun hinFlight =>
    (hinFlight.take_out hsplit hother).append _

theorem Stands.sent (hstands : Stands lib i net phase) {fs : List InFlight}
    (hsent : ∀ f ∈ fs, ∃ address c, SentOver lib (net.nodes g).controller f address c) :
    Stands lib i { net with inFlight := net.inFlight ++ fs } phase where
  shows := by
    refine hstands.shows.frame (fun _ => rfl) ?_ fun f hf hid _ => ?_
    · have hnil : handshakeOf lib i fs = [] := by
        apply handshakeOf_eq_nil
        intro f hf _
        obtain ⟨_, _, hover⟩ := hsent f hf
        exact hover.action
      rw [handshakeOf_append, hnil, List.append_nil]
    · rcases List.mem_append.mp hf with hold | hnew
      · exact Or.inl hold
      · obtain ⟨_, _, hover⟩ := hsent f hnew
        exact Or.inr (hover.covered hstands.shows hid)
  unused := hstands.unused
  pending := hstands.pending.frame (fun _ hruns => hruns) fun hinFlight => hinFlight.append fs

/-- Every move of the network leaves the phase of an id alone or advances it, and what the phase
then waits for is in flight. -/
theorem Honest.keeps_standing (hinv : Honest lib net) (hmove : Moves lib net next)
    (hstands : Stands lib i net phase) :
    ∃ after, phase.Follows after ∧ Stands lib i next after := by
  cases hmove with
  | discovered g call peers hcall =>
      refine ⟨phase, Or.inl rfl, hstands.shows.frame (connectionsOf_resume_of_select rfl)
        (List.Sublist.refl _) fun f hf _ _ => Or.inl hf, hstands.unused, ?_⟩
      exact hstands.pending.frame (fun g' hruns => by rwa [← resume_running]) fun hinFlight =>
        hinFlight
  | initiated g env remote hfresh => exact hstands.initiated hinv hfresh remote
  | rejected f earlier later hsplit => exact ⟨phase, Or.inl rfl, hstands.rejected hsplit⟩
  | processed f earlier later env outcome hsplit hok =>
      obtain ⟨remote, hknown, hprocessed⟩ := processor_cases hok
      by_cases hmine : lib.guid.fromString f.message.id = i
          ∧ f.message.action ≠ .communicatingSession
      · obtain ⟨rfl, haction⟩ := hmine
        obtain ⟨after, hadvance, hshows, hpending⟩ :=
          hinv.advances hsplit rfl hknown hprocessed hstands.shows haction
        have hf : f ∈ net.inFlight := hsplit ▸ List.mem_append_right _ List.mem_cons_self
        exact ⟨after, Or.inr hadvance, hshows,
          fun hfresh => absurd (hstands.not_unused hf rfl) hfresh, hpending⟩
      · exact ⟨phase, Or.inl rfl, hstands.processed_other hsplit hprocessed hmine⟩
  | sendStopped g =>
      refine ⟨phase, Or.inl rfl, hstands.shows.frame (connectionsOf_halt net i g)
        (List.Sublist.refl _) fun f hf _ _ => Or.inl hf, hstands.unused, ?_⟩
      exact hstands.pending.frame (fun _ hruns => (running_of_halt hruns).2) fun hinFlight =>
        hinFlight
  | sent g fs hsent => exact ⟨phase, Or.inl rfl, hstands.sent hsent⟩

end Moves

/-! ### Nodes that know each other -/

/-- A running node whose peerstore has an active record of another one. -/
structure Knows (lib : Libraries Key) (net : Net Key) (g h : Guid) : Prop where
  running : (net.nodes g).running = true
  found : (peerstoreLookup lib.guid (net.nodes g).controller.ds.peers h).1.isSome

structure Acquainted (lib : Libraries Key) (net : Net Key) (g h : Guid) : Prop where
  there : Knows lib net g h
  back : Knows lib net h g

theorem Acquainted.symm (h : Acquainted lib net g i) : Acquainted lib net i g := ⟨h.back, h.there⟩

theorem Knows.knownSender (hknows : Knows lib net g h) (hinv : Honest lib net) (hne : g ≠ h)
    {m : Wpmessage} (hsender : lib.guid.fromString m.sender = h) :
    ∃ remote, KnownSender lib (net.nodes g).controller m remote := by
  obtain ⟨remote, hfound⟩ := Option.isSome_iff_exists.mp hknows.found
  obtain ⟨hlookup, _, hsame⟩ := peerstoreLookup_eq_some (Prod.ext hfound rfl)
  have hguid : remote.guid = h := (lib.guid.toString_injective (hinv.filed g _ _ hlookup)).symm
  refine ⟨remote, ?_, ?_⟩
  · rw [hsender]
    exact Prod.ext hfound hsame
  · rw [hguid, hinv.own g]
    exact hne.symm

/-- As long as there are moves to come, a handshake message is in flight. -/
theorem Stands.exists_message (hstands : Stands lib i net phase) (hjoins : phase.Joins g h)
    (hacquainted : Acquainted lib net g h) (hremaining : phase.remaining ≠ 0) :
    HandshakeInFlight lib i net.inFlight := by
  obtain ⟨action, sender, recipient, hexpects⟩ := hjoins.exists_expects hremaining
  refine hstands.pending action sender recipient hexpects ?_
  rcases hjoins.route hexpects with ⟨_, rfl⟩ | ⟨_, rfl⟩
  · exact hacquainted.back.running
  · exact hacquainted.there.running

/-- Between nodes that know each other, the delivery of a handshake message goes through and moves
the handshake on; whoever knows somebody still does. -/
theorem Stands.delivers {f : InFlight} {index : Nat}
    (hstands : Stands lib i net phase) (hinv : Honest lib net) (hseals : SealsSecrets lib)
    (hne : g ≠ h) (hjoins : phase.Joins g h) (hacquainted : Acquainted lib net g h)
    (hindex : net.inFlight[index]? = some f) (hid : lib.guid.fromString f.message.id = i)
    (haction : f.message.action ≠ .communicatingSession) (env : Ambient Key) :
    ∃ next after, net.step lib (.delivers index env) = some next
      ∧ (∃ h, phase.Advances h after) ∧ Stands lib i next after
      ∧ ∀ g' h', Knows lib net g' h' → Knows lib next g' h' := by
  subst hid
  obtain ⟨earlier, later, hsplit, herase⟩ := exists_split_of_getElem? hindex
  obtain ⟨_, hexpected⟩ := hstands.shows.taken hsplit rfl haction
  obtain ⟨hrunning, hother, remote, hknown⟩ :
      (net.nodes (lib.guid.fromString f.message.recipient)).running = true
        ∧ lib.guid.fromString f.message.sender ≠ lib.guid.fromString f.message.recipient
        ∧ ∃ remote, KnownSender lib
          (net.nodes (lib.guid.fromString f.message.recipient)).controller f.message remote := by
    rcases hjoins.route hexpected.route with ⟨hsender, hrecipient⟩ | ⟨hsender, hrecipient⟩
    · rw [hsender, hrecipient]
      exact ⟨hacquainted.back.running, hne, hacquainted.back.knownSender hinv hne.symm hsender⟩
    · rw [hsender, hrecipient]
      exact ⟨hacquainted.there.running, hne.symm, hacquainted.there.knownSender hinv hne hsender⟩
  obtain ⟨outcome, hok⟩ := hstands.shows.accepts hexpected hseals rfl hother hknown env
  obtain ⟨remote', hknown', hprocessed⟩ := processor_cases hok
  obtain ⟨after, hadvance, hshows, hpending⟩ :=
    hinv.advances hsplit rfl hknown' hprocessed hstands.shows haction
  have hf : f ∈ net.inFlight := hsplit ▸ List.mem_append_right _ List.mem_cons_self
  have hpeers : ∀ g', ((net.proceed (lib.guid.fromString f.message.recipient) outcome
      (earlier ++ later)).nodes g').controller.ds = (net.nodes g').controller.ds := by
    intro g'
    have hresume := resume_controller net (lib.guid.fromString f.message.recipient) g'
      outcome.controller
    by_cases hg : g' = lib.guid.fromString f.message.recipient
    · rw [if_pos hg] at hresume
      rw [hg]
      exact (congrArg ConnectionController.ds (hg ▸ hresume)).trans hprocessed.ownIdOnly.peers
    · rw [if_neg hg] at hresume
      exact congrArg ConnectionController.ds hresume
  have hknows : ∀ g' h', Knows lib net g' h' → Knows lib
      (net.proceed (lib.guid.fromString f.message.recipient) outcome (earlier ++ later)) g' h' := by
    intro g' h' hknows
    refine ⟨(resume_running net _ g' _).trans hknows.running, ?_⟩
    rw [hpeers g']
    exact hknows.found
  refine ⟨_, after, ?_, hadvance,
    ⟨hshows, fun hfresh => absurd (hstands.not_unused hf rfl) hfresh, hpending⟩, hknows⟩
  simp only [Net.step, hindex, herase, hok, if_pos hrunning]

/-! ### Reachable networks -/

/-- What every reachable network keeps: the nodes are honest, and every id stands in some phase. -/
structure Orderly (lib : Libraries Key) (net : Net Key) : Prop where
  honest : Honest lib net
  stands : ∀ i, ∃ phase, Stands lib i net phase

theorem Orderly.step (horderly : Orderly lib net) (hmove : Moves lib net next) :
    Orderly lib next where
  honest := horderly.honest.step hmove
  stands i := by
    obtain ⟨phase, hstands⟩ := horderly.stands i
    obtain ⟨after, _, hafter⟩ := horderly.honest.keeps_standing hmove hstands
    exact ⟨after, hafter⟩

theorem Net.Initial.orderly (h : net.Initial) : Orderly lib net where
  honest := .initial h
  stands i := by
    obtain ⟨phase, hshows, hunused⟩ := (Honest.initial h).shows i
    obtain rfl := hunused (h.created ▸ List.not_mem_nil)
    exact ⟨.unused, hshows, fun _ => rfl, nofun⟩

theorem Net.Reachable.orderly (h : net.Reachable lib) : Orderly lib net := by
  obtain ⟨start, events, hstart, hrun⟩ := h
  exact Transition.run_invariant (fun _ _ _ hinv hstep => hinv.step (net_step_cases hstep)) hrun
    hstart.orderly

/-! ### Both ends -/

/-- A node's end of a finished handshake. -/
def HasEnd (net : Net Key) (i g h : Guid) (secret : Bytes) : Prop :=
  ∃ address c, (net.nodes g).controller.connections.get? address = some c ∧ c.id = i
    ∧ c.state = .complete ∧ c.remote.guid = h ∧ c.sharedSecret = some secret

/-- Both ends of a handshake are finished, with one secret. -/
def Established (net : Net Key) (i g h : Guid) (secret : Bytes) : Prop :=
  HasEnd net i g h secret ∧ HasEnd net i h g secret

theorem Shows.hasEnd (hshows : Shows lib i net phase) {key : Key} {secret : Bytes}
    (hholds : phase.holds g = [⟨.complete, g, h, key, some secret⟩]) :
    HasEnd net i g h secret := by
  have hconnections := hshows.connections g
  rw [hholds] at hconnections
  obtain ⟨⟨address, c⟩, hselect, hview⟩ := List.map_eq_singleton_iff.mp hconnections
  have hmem : (address, c) ∈ net.connectionsOf i g := hselect ▸ List.mem_singleton_self _
  obtain ⟨hget, hid⟩ := Arena.mem_select.mp hmem
  exact ⟨address, c, hget, of_decide_eq_true hid, congrArg View.state hview,
    congrArg View.remoteGuid hview, congrArg View.sharedSecret hview⟩

theorem Phase.Joins.established (lib : Libraries Key) (i : Guid) (hjoins : phase.Joins g h)
    (hfinished : phase.remaining = 0) :
    ∃ σ : Secret, ∀ net : Net Key, Shows lib i net phase → Established net i g h σ.bytes := by
  cases phase with
  | complete p σ =>
      refine ⟨σ, fun net hshows => ?_⟩
      have hends : HasEnd net i p.initiator p.responder σ.bytes
          ∧ HasEnd net i p.responder p.initiator σ.bytes :=
        ⟨hshows.hasEnd Parties.hold_initiator, hshows.hasEnd Parties.hold_responder⟩
      obtain ⟨rfl, rfl⟩ | ⟨rfl, rfl⟩ := hjoins
      · exact hends
      · exact hends.symm
  | unused => cases hfinished
  | created initiator responder key => cases hfinished
  | replied p => cases hfinished
  | shared p σ => cases hfinished
  | confirmed p σ => cases hfinished

theorem Orderly.joins_of_held (horderly : Orderly lib net) {address : Nat}
    {c : ConnectionRequest Key}
    (hc : (net.nodes g).controller.connections.get? address = some c) :
    ∃ phase, Stands lib c.id net phase ∧ phase.Joins g c.remote.guid := by
  obtain ⟨phase, hstands⟩ := horderly.stands c.id
  have hmem : (address, c) ∈ net.connectionsOf c.id g :=
    Arena.mem_select.mpr ⟨hc, decide_eq_true rfl⟩
  obtain ⟨_, hholds⟩ := hstands.shows.select_eq_singleton hmem
  exact ⟨phase, hstands, Phase.joins_of_mem_holds (hholds ▸ List.mem_singleton_self c.view)⟩

/-- A finished handshake stays as it is. -/
theorem Phase.Follows.eq_of_remaining (hfollows : phase.Follows after)
    (hfinished : phase.remaining = 0) : after = phase := by
  obtain rfl | ⟨_, hadvance⟩ := hfollows
  · rfl
  · rw [hadvance.remaining_eq] at hfinished
    cases hfinished

/-- Every message of the handshake that is in flight is delivered at last. -/
def DeliversAll (course : Transition.Course (Net.step lib)) (i : Guid) : Prop :=
  ∀ n, ∀ f ∈ (course.states n).inFlight, lib.guid.fromString f.message.id = i →
    ∃ m ≥ n, ∃ index env, course.actions m = .delivers index env
      ∧ (course.states m).inFlight[index]? = some f

section Course

variable {course : Transition.Course (Net.step lib)}

theorem orderly_course (hreach : (course.states 0).Reachable lib) (n : Nat) :
    Orderly lib (course.states n) := by
  induction n with
  | zero => exact hreach.orderly
  | succ n ih => exact ih.step (net_step_cases (course.step_eq n))

/-- The handshake of an id between two nodes, with so many moves to come. -/
def Remains (lib : Libraries Key) (i g h : Guid) (rank : Nat) (net : Net Key) : Prop :=
  ∃ phase, Stands lib i net phase ∧ phase.Joins g h ∧ phase.remaining = rank

theorem Orderly.remains_step (horderly : Orderly lib net) (hmove : Moves lib net next)
    {rank : Nat} (hremains : Remains lib i g h rank net) :
    ∃ after ≤ rank, Remains lib i g h after next := by
  obtain ⟨phase, hstands, hjoins, rfl⟩ := hremains
  obtain ⟨after, hfollows, hafter⟩ := horderly.honest.keeps_standing hmove hstands
  exact ⟨after.remaining, hfollows.remaining_le, after, hafter, hjoins.follows hfollows, rfl⟩

/-- The delivery of a handshake message of the id, between nodes that know each other. -/
def MovesOn (lib : Libraries Key) (i g h : Guid) (net : Net Key) : NetEvent Key → Prop
  | .delivers index _ => Acquainted lib net g h ∧ ∃ f, net.inFlight[index]? = some f
      ∧ lib.guid.fromString f.message.id = i ∧ f.message.action ≠ .communicatingSession
  | _ => False

theorem Orderly.remains_movesOn (horderly : Orderly lib net) (hseals : SealsSecrets lib)
    (hne : g ≠ h) {event : NetEvent Key} (hstep : net.step lib event = some next)
    (hmoves : MovesOn lib i g h net event) {rank : Nat}
    (hremains : Remains lib i g h (rank + 1) net) : Remains lib i g h rank next := by
  cases event with
  | delivers index env =>
      obtain ⟨hacquainted, f, hindex, hid, haction⟩ := hmoves
      obtain ⟨phase, hstands, hjoins, hrank⟩ := hremains
      obtain ⟨next', after, hnext, hadvance, hafter, _⟩ :=
        hstands.delivers horderly.honest hseals hne hjoins hacquainted hindex hid haction env
      obtain rfl : next' = next := Option.some.inj (hnext.symm.trans hstep)
      refine ⟨after, hafter, hjoins.follows (Or.inr hadvance), ?_⟩
      obtain ⟨_, hadvance⟩ := hadvance
      rw [hadvance.remaining_eq] at hrank
      exact Nat.succ_inj.mp hrank
  | discovers g call => exact hmoves.elim
  | initiates g env remote => exact hmoves.elim
  | sends g envs s message messageLen => exact hmoves.elim

/-- **Liveness.** When two nodes know each other throughout a run without end, and what is in flight
of their handshake is delivered at last, the handshake is finished from some time on: at both ends,
and with one secret. -/
theorem handshake_completes (hreach : (course.states 0).Reachable lib) (hseals : SealsSecrets lib)
    (hne : g ≠ h) (hacquainted : ∀ n, Acquainted lib (course.states n) g h) {address : Nat}
    {c : ConnectionRequest Key}
    (hc : ((course.states 0).nodes g).controller.connections.get? address = some c)
    (hremote : c.remote.guid = h) (hdelivers : DeliversAll course c.id) :
    ∃ n secret, secret.length = 8
      ∧ ∀ m ≥ n, Established (course.states m) c.id g h secret := by
  obtain ⟨start, hstart, hjoins⟩ := (orderly_course hreach 0).joins_of_held hc
  rw [hremote] at hjoins
  have hstep : ∀ n rank, Remains lib c.id g h rank (course.states n) →
      ∃ after ≤ rank, Remains lib c.id g h after (course.states (n + 1)) :=
    fun n rank hremains =>
      (orderly_course hreach n).remains_step (net_step_cases (course.step_eq n)) hremains
  have hhelps : ∀ n rank, Remains lib c.id g h (rank + 1) (course.states n) →
      MovesOn lib c.id g h (course.states n) (course.actions n) →
        ∃ after ≤ rank, Remains lib c.id g h after (course.states (n + 1)) :=
    fun n rank hremains hmoves => ⟨rank, le_rfl,
      (orderly_course hreach n).remains_movesOn hseals hne (course.step_eq n) hmoves hremains⟩
  have hfair : ∀ n rank, Remains lib c.id g h (rank + 1) (course.states n) →
      ∃ m ≥ n, MovesOn lib c.id g h (course.states m) (course.actions m) := by
    rintro n rank ⟨phase, hstands, hjoins, hrank⟩
    have hremaining : phase.remaining ≠ 0 := hrank ▸ Nat.succ_ne_zero rank
    obtain ⟨f, hf, hid, haction⟩ := hstands.exists_message hjoins (hacquainted n) hremaining
    obtain ⟨m, hm, index, env, hdelivery, hindex⟩ := hdelivers n f hf hid
    exact ⟨m, hm, hdelivery ▸ ⟨hacquainted m, f, hindex, hid, haction⟩⟩
  obtain ⟨n, _, hzero⟩ :=
    course.reaches_zero hstep hhelps hfair ⟨start, hstart, hjoins, rfl⟩
  obtain ⟨final, hfinal, hjoinsFinal, hfinished⟩ := hzero n le_rfl
  obtain ⟨σ, hestablished⟩ := hjoinsFinal.established lib c.id hfinished
  refine ⟨n, σ.bytes, σ.length_eq, fun m hm => hestablished _ ?_⟩
  -- From `n` on the phase does not change, and so neither does the secret.
  have hsame : Stands lib c.id (course.states m) final := by
    induction m, hm using Nat.le_induction with
    | base => exact hfinal
    | succ m _ ih =>
        obtain ⟨after, hfollows, hafter⟩ := (orderly_course hreach m).honest.keeps_standing
          (net_step_cases (course.step_eq m)) ih
        exact hfollows.eq_of_remaining hfinished ▸ hafter
  exact hsame.shows

section Run

open Concrete

/-- Al has just begun a handshake with Bob. -/
def begunNet : Net CString := netAfter ((handshakeEvents fun _ => 0).take 3)

def finishingDeliveries : List (NetEvent CString) :=
  (handshakeEvents fun _ => 0).drop 3 ++ [.delivers 0 (ambient al (guid 8) fun _ => 0)]

theorem step_setLastUpdateTime (net : Net Key) (hrunning : (net.nodes g).running = true) :
    net.step lib (.discovers g
      (.setLastUpdateTime (net.nodes g).controller.ds.peers.lastUpdate)) = some net := by
  simp only [Net.step, hrunning, if_true, PeerstoreCall.step, Option.map_some, Option.some.injEq]
  simp only [Net.resume, peerstoreSetLastUpdateTime, ConnectionController.setPeers]
  exact congrArg (fun nodes => { net with nodes := nodes }) (Function.update_eq_self g net.nodes)

theorem run_netAfter {first second : List (NetEvent CString)}
    (h : (Transition.run (Net.step libraries) freshNet (first ++ second)).isSome = true) :
    Transition.run (Net.step libraries) (netAfter first) second
      = some (netAfter (first ++ second)) := by
  obtain ⟨final, hfinal⟩ := Option.isSome_iff_exists.mp h
  have hwhole : netAfter (first ++ second) = final := by rw [netAfter, hfinal, Option.getD_some]
  rw [Transition.run_append, Option.bind_eq_some_iff] at hfinal
  obtain ⟨middle, hfirst, hsecond⟩ := hfinal
  rw [hwhole, netAfter, hfirst, Option.getD_some, hsecond]

/-- The four messages are delivered one by one, and then nothing happens any more. -/
def finishingCourse : Transition.Course (Net.step libraries) :=
  .idling begunNet (agreedNet fun _ => 0) finishingDeliveries
    (.discovers (guid 1) (.setLastUpdateTime
      ((agreedNet fun _ => 0).nodes (guid 1)).controller.ds.peers.lastUpdate))
    (run_netAfter (by decide +kernel)) (step_setLastUpdateTime _ (by decide +kernel))

theorem finishingCourse_idles {n : Nat} (hn : 4 ≤ n) :
    finishingCourse.states n = finishingCourse.states 4 := by
  simp only [finishingCourse, Transition.Course.idling]
  rw [List.take_of_length_le (Nat.le_trans (by decide) hn), List.take_of_length_le (by decide)]

theorem finishingCourse_acquainted (n : Nat) :
    Acquainted libraries (finishingCourse.states n) (guid 1) (guid 2) := by
  have hchecked : ∀ n < 5,
      (((finishingCourse.states n).nodes (guid 1)).running = true
        ∧ (peerstoreLookup guidStrings ((finishingCourse.states n).nodes
          (guid 1)).controller.ds.peers (guid 2)).1.isSome = true)
      ∧ ((finishingCourse.states n).nodes (guid 2)).running = true
        ∧ (peerstoreLookup guidStrings ((finishingCourse.states n).nodes
          (guid 2)).controller.ds.peers (guid 1)).1.isSome = true := by decide +kernel
  have hknow : ∀ n < 5, Acquainted libraries (finishingCourse.states n) (guid 1) (guid 2) := by
    intro n hn
    obtain ⟨hthere, hback⟩ := hchecked n hn
    exact ⟨⟨hthere.1, hthere.2⟩, ⟨hback.1, hback.2⟩⟩
  by_cases hn : n < 5
  · exact hknow n hn
  · rw [finishingCourse_idles (by omega)]
    exact hknow 4 (by decide)

theorem finishingCourse_delivers (i : Guid) : DeliversAll finishingCourse i := by
  have hchecked : ∀ n < 4, (finishingCourse.states n).inFlight.length = 1 := by decide +kernel
  have hfinal : (finishingCourse.states 4).inFlight = [] := by decide +kernel
  intro n f hf _
  by_cases hn : n < 4
  · obtain ⟨only, honly⟩ := List.length_eq_one_iff.mp (hchecked n hn)
    have hindex : (finishingCourse.states n).inFlight[0]? = some f := by
      rw [honly, List.mem_singleton] at hf
      rw [honly, hf]
      rfl
    have haction : ∃ env, finishingCourse.actions n = .delivers 0 env := by
      match n, hn with
      | 0, _ => exact ⟨_, rfl⟩
      | 1, _ => exact ⟨_, rfl⟩
      | 2, _ => exact ⟨_, rfl⟩
      | 3, _ => exact ⟨_, rfl⟩
    obtain ⟨env, haction⟩ := haction
    exact ⟨n, le_rfl, 0, env, haction, hindex⟩
  · rw [finishingCourse_idles (Nat.le_of_not_lt hn), hfinal] at hf
    cases hf

theorem sealsSecrets_libraries : SealsSecrets libraries := fun key _ => ⟨key, _, rfl, rfl⟩

theorem handshake_completes_run : ∃ n secret, secret.length = 8
    ∧ ∀ m ≥ n, Established (finishingCourse.states m) (guid 7) (guid 1) (guid 2) secret := by
  have hreach : begunNet.Reachable libraries := reachable_netAfter _ (by decide +kernel)
  have hheld : (begunNet.nodes (guid 1)).controller.connections.get? 0
      = some ⟨guid 7, .initialChallenge, ⟨0, guid 1⟩, ⟨2, guid 2⟩, al, none⟩ := by decide +kernel
  have hstart : (finishingCourse.states 0).Reachable libraries := hreach
  exact handshake_completes hstart sealsSecrets_libraries (by decide) finishingCourse_acquainted
    hheld rfl (finishingCourse_delivers _)

end Run

end Course

/-! ### No dead ends -/

/-- Deliveries by their indices, each with the surroundings of its call. -/
def deliveries : List Nat → (Nat → Ambient Key) → List (NetEvent Key)
  | [], _ => []
  | index :: indices, envs => .delivers index (envs 0) :: deliveries indices fun k => envs (k + 1)

theorem Stands.finishes (hstands : Stands lib i net phase) (hinv : Orderly lib net)
    (hseals : SealsSecrets lib) (hne : g ≠ h) (hjoins : phase.Joins g h)
    (hacquainted : Acquainted lib net g h) (envs : Nat → Ambient Key) :
    ∃ indices final after, indices.length = phase.remaining
      ∧ Transition.run (Net.step lib) net (deliveries indices envs) = some final
      ∧ Stands lib i final after ∧ after.Joins g h ∧ after.remaining = 0
      ∧ ∀ g' h', Knows lib net g' h' → Knows lib final g' h' := by
  induction hrank : phase.remaining generalizing net phase envs with
  | zero => exact ⟨[], net, phase, rfl, rfl, hstands, hjoins, hrank, fun _ _ => id⟩
  | succ rank ih =>
      have hremaining : phase.remaining ≠ 0 := hrank ▸ Nat.succ_ne_zero rank
      obtain ⟨f, hf, hid, haction⟩ := hstands.exists_message hjoins hacquainted hremaining
      obtain ⟨index, hindex⟩ := List.getElem?_of_mem hf
      obtain ⟨next, middle, hstep, hadvance, hmiddle, hstill⟩ :=
        hstands.delivers hinv.honest hseals hne hjoins hacquainted hindex hid haction (envs 0)
      have hmoves : middle.remaining = rank := by
        obtain ⟨_, hadvance⟩ := hadvance
        rw [hadvance.remaining_eq] at hrank
        exact Nat.succ_inj.mp hrank
      have hknown : Acquainted lib next g h :=
        ⟨hstill _ _ hacquainted.there, hstill _ _ hacquainted.back⟩
      obtain ⟨indices, final, after, hlength, hrun, hafter, hjoinsAfter, hfinished, hlater⟩ :=
        ih hmiddle (hinv.step (net_step_cases hstep)) (hjoins.follows (Or.inr hadvance)) hknown
          (fun k => envs (k + 1)) hmoves
      exact ⟨index :: indices, final, after, congrArg Nat.succ hlength,
        Transition.run_cons_eq_some.mpr ⟨next, hstep, hrun⟩, hafter, hjoinsAfter, hfinished,
        fun g' h' hknows => hlater g' h' (hstill g' h' hknows)⟩

section Run

open Concrete

end Run

end WhisperCore
