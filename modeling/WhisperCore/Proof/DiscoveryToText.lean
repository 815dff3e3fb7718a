import WhisperCore.Proof.SessionDelivery
import WhisperCore.Proof.Worlds

/-!
# From discovery to a text

Two processes whose services have heard each other can talk: the one finds the other by its name,
a handshake gives both a secret, and a text that is legible under it and sent next is handed over,
either way. Whatever happened in the world before, and whatever is still in flight, none of these
steps can be refused or end a process.
-/

namespace WhisperCore

variable {Key : Type} {lib : Libraries Key} {protobuf : PeerProtobuf} {net next : Net Key}
  {i g h : Guid} {secret : Bytes}

/-! ### A secret -/

theorem run_cmr_eq {events : List (NetEvent Key)}
    (hrun : Transition.run (Net.step lib) net events = some next) (g : Guid) :
    (next.nodes g).controller.cmr = (net.nodes g).controller.cmr := by
  let Kept (other : Net Key) : Prop :=
    (other.nodes g).controller.cmr = (net.nodes g).controller.cmr
  have hkept : Kept net := rfl
  have hfinal : Kept next := Transition.run_invariant
    (fun _ _ _ hkept hstep => ((net_step_cases hstep).cmr_eq g).trans hkept) hrun hkept
  exact hfinal

/-- A node that knows another one begins a handshake. -/
theorem Acquainted.initiates (hacquainted : Acquainted lib net g h) {env : Ambient Key}
    (hfresh : env.guid ∉ net.created) (remote : PeerRef) :
    ∃ next address c, net.step lib (.initiates g env remote) = some next
      ∧ Acquainted lib next g h
      ∧ (next.nodes g).controller.connections.get? address = some c
      ∧ c.id = env.guid ∧ c.remote = remote := by
  have hrunning := hacquainted.there.running
  let outcome := connectionControllerInitiationRequest lib env (net.nodes g).controller remote
  let after : Net Key := { net.proceed g outcome net.inFlight with
    created := env.guid :: net.created }
  have hstep : net.step lib (.initiates g env remote) = some after := by
    simp only [Net.step, if_pos (And.intro hrunning hfresh)]
    rfl
  have hknows : ∀ g' h', Knows lib net g' h' → Knows lib after g' h' := by
    intro g' h' hknows
    refine ⟨(resume_running net g g' outcome.controller).trans hknows.running, ?_⟩
    rw [peers_of_connects (by simp) hstep g']
    exact hknows.found
  have hconnections : (after.nodes g).controller.connections
      = (net.nodes g).controller.connections.add (connectionRequestCreate env remote
        (net.nodes g).controller.ds.peers .initialChallenge) := by
    have hresume := resume_controller net g g outcome.controller
    rw [if_pos rfl] at hresume
    exact congrArg ConnectionController.connections hresume
  refine ⟨after, _, _, hstep, ⟨hknows _ _ hacquainted.there, hknows _ _ hacquainted.back⟩,
    hconnections ▸ Arena.get?_add_next _ _, rfl, rfl⟩

/-- Nodes that know each other can agree on a secret: one of them begins a handshake, and at most
four deliveries finish it. -/
theorem Orderly.can_agree (horderly : Orderly lib net) (hseals : SealsSecrets lib) (hne : g ≠ h)
    (hacquainted : Acquainted lib net g h) {env : Ambient Key} (hfresh : env.guid ∉ net.created)
    {remote : PeerRef} (hremote : remote.guid = h) (envs : Nat → Ambient Key) :
    ∃ indices final secret, indices.length ≤ 4 ∧ secret.length = 8
      ∧ Transition.run (Net.step lib) net (.initiates g env remote :: deliveries indices envs)
        = some final
      ∧ Honest lib final ∧ Acquainted lib final g h ∧ Established final env.guid g h secret := by
  obtain ⟨begun, address, c, hstep, hbegun, hheld, hid, rfl⟩ :=
    hacquainted.initiates hfresh remote
  have horderlyBegun := horderly.step (net_step_cases hstep)
  obtain ⟨phase, hstands, hjoins⟩ := horderlyBegun.joins_of_held hheld
  rw [hid] at hstands
  rw [hremote] at hjoins
  obtain ⟨indices, final, after, hlength, hrun, hafter, hjoinsAfter, hfinished, hknown⟩ :=
    hstands.finishes horderlyBegun hseals hne hjoins hbegun envs
  obtain ⟨σ, hestablished⟩ := hjoinsAfter.established lib env.guid hfinished
  have hhonest : Honest lib final := Transition.run_invariant
    (fun _ _ _ hinv hstep => hinv.step (net_step_cases hstep)) hrun horderlyBegun.honest
  exact ⟨indices, final, σ.bytes, hlength ▸ hjoins.remaining_le, σ.length_eq,
    Transition.run_cons_eq_some.mpr ⟨begun, hstep, hrun⟩, hhonest,
    ⟨hknown _ _ hbegun.there, hknown _ _ hbegun.back⟩, hestablished final hafter.shows⟩

/-! ### Runs of a world -/

namespace World

variable {start world : World Key} {events : List (WorldEvent Key)}

theorem Initial.net_initial (hstart : start.Initial) : start.post.net.Initial where
  fresh g := by
    obtain ⟨port, nc, ic, cmr, hnode⟩ := hstart.fresh g
    obtain ⟨localPeer, iap, now, hguid, hservice⟩ := hstart.lan.fresh g
    refine ⟨port, localPeer, iap, now, nc, ic, cmr, hguid, ?_⟩
    rw [hnode, hservice]
  inFlight := hstart.inFlight
  created := hstart.created

/-- A service that is never given a strategy, and whose store was created with a predicate that is
always true. -/
structure Quiet (start : World Key) (events : List (WorldEvent Key)) (g : Guid) : Prop where
  active : ∀ t p, (start.lan.store g).isActivePeer t p = true
  settles : ∀ strategy, .discovers (.settles g (some strategy)) ∉ events

/-- The services that are started. -/
def started (events : List (WorldEvent Key)) : Set Guid := {g | .discovers (.starts g) ∈ events}

theorem Initial.sound (hstart : start.Initial) {members quiet : Set Guid}
    (hactive : ∀ g ∈ quiet, ∀ t p, (start.lan.store g).isActivePeer t p = true) :
    Sound lib protobuf start.lan.localPeer members quiet start where
  posted := hstart.lan.posted
  truthful := hstart.lan.truthful
  mirrors g hg := hstart.lan.mirrors (hactive g hg)
  shared g := by
    obtain ⟨port, nc, ic, cmr, hnode⟩ := hstart.fresh g
    rw [hnode]
    rfl
  orderly := hstart.net_initial.orderly

theorem sound_run (hstart : start.Initial)
    (hrun : Transition.run (World.step lib protobuf) start events = some world)
    (hdistinct : Distinct start.lan.localPeer (started events)) :
    Sound lib protobuf start.lan.localPeer (started events) {g | Quiet start events g} world := by
  have hfits : ∀ event ∈ events, Fits (started events) {g | Quiet start events g} event := by
    intro event hevent
    refine ⟨fun g hstarts => ?_, fun g strategy hsettles hquiet => ?_⟩
    · rw [hstarts] at hevent
      exact hevent
    · rw [hsettles] at hevent
      exact hquiet.settles strategy hevent
  exact Transition.run_invariant_along
    (fun _ _ _ hsound hfits hstep => hsound.step hdistinct hfits hstep)
    (Transition.along_of_forall hfits start) hrun
    (hstart.sound fun g hquiet => hquiet.active)

/-- What the controllers can do as a network, they can do in the world. -/
theorem run_connects (protobuf : PeerProtobuf) {post : Post Key} {events : List (NetEvent Key)}
    (hevents : ∀ event ∈ events, ∀ g call, event ≠ .discovers g call)
    (hrun : Transition.run (Post.step lib) world.post events = some post) :
    ∃ last, Transition.run (World.step lib protobuf) world (events.map .connects) = some last
      ∧ last.post = post := by
  induction events generalizing world with
  | nil => exact ⟨world, rfl, Option.some.inj hrun⟩
  | cons event events ih =>
      obtain ⟨middle, hstep, hrest⟩ := Transition.run_cons_eq_some.mp hrun
      have hconnects : world.step lib protobuf (.connects event)
          = some ⟨world.lan.follow middle.net, middle⟩ := by
        cases event with
        | discovers g call => exact absurd rfl (hevents _ List.mem_cons_self g call)
        | initiates g env remote => simp [World.step, hstep]
        | delivers index env => simp [World.step, hstep]
        | sends g envs s message messageLen => simp [World.step, hstep]
      let next : World Key := ⟨world.lan.follow middle.net, middle⟩
      have hnext : Transition.run (Post.step lib) next.post events = some post := hrest
      obtain ⟨last, hlast, hpost⟩ :=
        ih (fun other hother => hevents other (List.mem_cons_of_mem _ hother)) hnext
      exact ⟨last, Transition.run_cons_eq_some.mpr ⟨_, hconnects, hlast⟩, hpost⟩

theorem ne_discovers_of_mem_deliveries {indices : List Nat} {envs : Nat → Ambient Key}
    {event : NetEvent Key} (h : event ∈ deliveries indices envs) (g : Guid)
    (call : PeerstoreCall) : event ≠ .discovers g call := by
  induction indices generalizing envs with
  | nil => exact absurd h List.not_mem_nil
  | cons index indices ih =>
      rcases List.mem_cons.mp h with rfl | hlater
      · simp
      · exact ih hlater

/-! ### Texts -/

/-- The node `g` can tell `h` every text that is legible under their secret: when it is sent now
over their connection and delivered at once, `h` is handed it once, and the network is as it was.
-/
def Tells (lib : Libraries Key) (protobuf : PeerProtobuf) (world : World Key) (i g h : Guid)
    (secret : Bytes) : Prop :=
  ∃ address, ∀ (text : CString) (rest : Bytes) (id : Guid) (envs : Nat → Ambient Key)
      (env : Ambient Key), LegibleUnder lib text secret →
    ∃ told, Transition.run (World.step lib protobuf) world
        [.connects (.sends g envs ⟨id, [address]⟩ (text.inMemory rest) text.bytes.length),
          .connects (.delivers world.post.net.inFlight.length env)] = some told
      ∧ told.post.received = world.post.received ++ [⟨i, g, h, text⟩]
      ∧ told.post.lost = world.post.lost ∧ told.post.net = world.post.net

theorem tells_of_hasEnd (hinv : Honest lib world.post.net)
    (hend : HasEnd world.post.net i g h secret)
    (hrunning : (world.post.net.nodes g).running = true) (hknows : Knows lib world.post.net h g)
    (hcmr : (world.post.net.nodes h).controller.cmr = true) :
    Tells lib protobuf world i g h secret := by
  obtain ⟨address, c, hget, rfl, hcomplete, rfl, hsecret⟩ := hend
  obtain ⟨hlocal, _, _⟩ := hinv.complete_connection hget hcomplete
  refine ⟨address, fun text rest id envs env hlegible => ?_⟩
  have hready : isReadyList (world.post.net.nodes g).controller [address] = .ok true := by
    simp [isReadyList, hget, hcomplete]
  have hconnections : sessionConnections (world.post.net.nodes g).controller [address] = [c] := by
    simp [sessionConnections, hget]
  have hsecrets : sendSecrets (world.post.net.nodes g).controller [address] = [secret] := by
    simp [sendSecrets, hget, hcomplete, hsecret]
  have htext : ∀ other ∈ sendSecrets (world.post.net.nodes g).controller [address],
      LegibleUnder lib text other := by
    rw [hsecrets]
    intro other hother
    exact List.mem_singleton.mp hother ▸ hlegible
  have hpeers : ∀ other ∈ sessionConnections (world.post.net.nodes g).controller [address],
      Knows lib world.post.net other.remote.guid g
        ∧ (world.post.net.nodes other.remote.guid).controller.cmr = true := by
    rw [hconnections]
    intro other hother
    obtain rfl := List.mem_singleton.mp hother
    exact ⟨hknows, hcmr⟩
  obtain ⟨final, hrun, hreceived, hlost, hnet⟩ := hinv.list_text_arrives (s := ⟨id, [address]⟩)
    hrunning hready htext hpeers rest envs fun _ => env
  obtain ⟨told, htold, rfl⟩ := run_connects protobuf (by simp [deliveries]) hrun
  refine ⟨told, htold, ?_, hlost, hnet⟩
  rw [hreceived, hconnections, lettersOver, List.map_singleton, hlocal]

/-- **From discovery to a text.** Let the services that are started stand at distinct host addresses
and have distinct names. In any state of the world, whatever happened before, let two running
processes whose services are quiet have heard each other. Then the one finds the other by its name,
and a handshake it begins with the peer it found is finished by at most four deliveries: both ends
are complete with one secret, and in that state each can tell the other every text legible under it,
if the other has a message handler. -/
theorem heard_peers_talk (hstart : start.Initial)
    (hrun : Transition.run (World.step lib protobuf) start events = some world)
    (haddresses : Set.InjOn (fun g => (start.lan.localPeer g).hostAddress) (started events))
    (hnames : Set.InjOn (fun g => (start.lan.localPeer g).userName) (started events))
    (hseals : SealsSecrets lib) (hne : g ≠ h)
    (hquiet : Quiet start events g) (hquiet' : Quiet start events h)
    (hrunning : (world.post.net.nodes g).running = true)
    (hrunning' : (world.post.net.nodes h).running = true) {t t' : Int}
    (hheard : world.lan.heard g h = some t) (hheard' : world.lan.heard h g = some t')
    {env : Ambient Key} (hfresh : env.guid ∉ world.post.net.created)
    (envs : Nat → Ambient Key) :
    ∃ r, peerstoreLookupByUsername (world.lan.store g) (start.lan.localPeer h).userName
        = some (some r, world.lan.store g)
      ∧ ∃ indices final secret, indices.length ≤ 4 ∧ secret.length = 8
        ∧ Transition.run (World.step lib protobuf) world
          ((.initiates g env r.ref :: deliveries indices envs).map .connects) = some final
        ∧ Established final.post.net env.guid g h secret
        ∧ ((world.post.net.nodes h).controller.cmr = true →
          Tells lib protobuf final env.guid g h secret)
        ∧ ((world.post.net.nodes g).controller.cmr = true →
          Tells lib protobuf final env.guid h g secret) := by
  have hsound := sound_run hstart hrun ⟨hstart.lan.localPeer_guid, haddresses, hnames⟩
  obtain ⟨r, hguid, _, _, _, hfound, hnamed⟩ := (hsound.mirrors g hquiet).found hheard
  obtain ⟨r', _, _, _, _, hfound', _⟩ := (hsound.mirrors h hquiet').found hheard'
  have hacquainted : Acquainted lib world.post.net g h := by
    refine ⟨⟨hrunning, ?_⟩, ⟨hrunning', ?_⟩⟩
    · rw [hsound.shared g, hfound]
      rfl
    · rw [hsound.shared h, hfound']
      rfl
  have hguidRef : r.ref.guid = h := hguid
  obtain ⟨indices, agreed, secret, hindices, hlength, hagreed, hhonest, hknown, hestablished⟩ :=
    hsound.orderly.can_agree hseals hne hacquainted hfresh hguidRef envs
  have hcmr := run_cmr_eq hagreed
  obtain ⟨post, hpost, rfl⟩ := run_of_net hagreed
  have hevents : ∀ event ∈ NetEvent.initiates g env r.ref :: deliveries indices envs,
      ∀ g call, event ≠ .discovers g call := by
    intro event hevent
    rcases List.mem_cons.mp hevent with rfl | hdelivery
    · simp
    · exact ne_discovers_of_mem_deliveries hdelivery
  obtain ⟨final, hfinal, rfl⟩ := run_connects protobuf hevents hpost
  refine ⟨r, hnamed, indices, final, secret, hindices, hlength, hfinal, hestablished,
    fun hhandler => ?_, fun hhandler => ?_⟩
  · exact tells_of_hasEnd hhonest hestablished.1 hknown.there.running hknown.back
      ((hcmr h).trans hhandler)
  · exact tells_of_hasEnd hhonest hestablished.2 hknown.back.running hknown.there
      ((hcmr g).trans hhandler)

section Run

open Concrete Lan

def freshWorld : World CString where
  lan := freshLan
  post := Post.start {
    nodes := fun g =>
      ⟨connectionControllerCreate (host 0) (freshLan.nodes g).svc true true true, true⟩
    inFlight := []
    created := [] }

theorem freshWorld_initial : freshWorld.Initial where
  lan := freshLan_initial
  fresh _ := ⟨host 0, true, true, true, rfl⟩
  post := rfl
  inFlight := rfl
  created := rfl

/-- Al asks, Bob answers, and so does Al himself, whose own request reaches him too. -/
def meetEvents : List (WorldEvent CString) :=
  let answers : List LanEvent :=
    [.receives (guid 1) 0 ⟨⟨7, []⟩, 3⟩ [], .receives (guid 2) 2 ⟨⟨7, []⟩, 4⟩ []]
  (askEvents ++ answerEvents ++ answers).map .discovers

def metWorld : World CString :=
  (Transition.run (World.step libraries Concrete.protobuf) freshWorld meetEvents).getD freshWorld

theorem run_metWorld : Transition.run (World.step libraries Concrete.protobuf) freshWorld meetEvents
    = some metWorld := by
  have hdefined : (Transition.run (World.step libraries Concrete.protobuf) freshWorld
      meetEvents).isSome = true := by decide +kernel
  obtain ⟨final, hfinal⟩ := Option.isSome_iff_exists.mp hdefined
  rw [metWorld, hfinal]
  rfl

theorem mem_started_meetEvents (g : Guid) (hg : g ∈ started meetEvents) :
    g = guid 1 ∨ g = guid 2 := by
  simpa [started, meetEvents, askEvents, answerEvents] using hg

theorem quiet_meetEvents (g : Guid) : Quiet freshWorld meetEvents g where
  active _ _ := rfl
  settles strategy := by simp [meetEvents, askEvents, answerEvents]

theorem heard_peers_talk_run :
    ∃ r, peerstoreLookupByUsername (metWorld.lan.store (guid 1)) (freshLan.localPeer
          (guid 2)).userName = some (some r, metWorld.lan.store (guid 1))
      ∧ ∃ indices final secret, indices.length ≤ 4 ∧ secret.length = 8
        ∧ Transition.run (World.step libraries Concrete.protobuf) metWorld
          ((.initiates (guid 1) (ambient al (guid 7) fun _ => 0) r.ref
            :: deliveries indices fun _ => ambient bob (guid 8) fun _ => 0).map .connects)
          = some final
        ∧ Established final.post.net (guid 7) (guid 1) (guid 2) secret
        ∧ ((metWorld.post.net.nodes (guid 2)).controller.cmr = true →
          Tells libraries Concrete.protobuf final (guid 7) (guid 1) (guid 2) secret)
        ∧ ((metWorld.post.net.nodes (guid 1)).controller.cmr = true →
          Tells libraries Concrete.protobuf final (guid 7) (guid 2) (guid 1) secret) := by
  have hheard : metWorld.lan.heard (guid 1) (guid 2) = some 2 := by decide +kernel
  have hheard' : metWorld.lan.heard (guid 2) (guid 1) = some 4 := by decide +kernel
  have hcreated : metWorld.post.net.created = [] := by decide +kernel
  have hfresh : (ambient al (guid 7) fun _ => 0).guid ∉ metWorld.post.net.created := by
    rw [hcreated]
    exact List.not_mem_nil
  exact heard_peers_talk freshWorld_initial run_metWorld
    (injOn_of_ne (f := Peer.hostAddress) (by decide +kernel) mem_started_meetEvents)
    (injOn_of_ne (f := Peer.userName) (by decide +kernel) mem_started_meetEvents)
    sealsSecrets_libraries (by decide) (quiet_meetEvents _) (quiet_meetEvents _)
    (by decide +kernel) (by decide +kernel) hheard hheard' hfresh
    fun _ => ambient bob (guid 8) fun _ => 0

end Run

end World

end WhisperCore
