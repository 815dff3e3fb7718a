import WhisperCore.World
import WhisperCore.Proof.HandshakeLiveness
import WhisperCore.Proof.LetterDelivery
import WhisperCore.Proof.PeersFound

/-!
# What holds in every world

The services of a world keep what services on one network keep, its controllers what a network of
nodes keeps, and each process has one peerstore. A controller never changes the store it looks into,
so nothing it does makes its service forget a peer.
-/

namespace WhisperCore

variable {Key : Type} {lib : Libraries Key} {protobuf : PeerProtobuf} {net next : Net Key}
  {lan : Lan} {post after : Post Key} {world : World Key} {g h : Guid}

/-! ### Controllers -/

/-- A node's store is its own business: no event of the network but discovery changes one. -/
theorem peers_of_connects {event : NetEvent Key} (hevent : ∀ g call, event ≠ .discovers g call)
    (hstep : net.step lib event = some next) (g : Guid) :
    (next.nodes g).controller.ds = (net.nodes g).controller.ds := by
  have hresume : ∀ (g' : Guid) (controller : ConnectionController Key),
      controller.ds = (net.nodes g').controller.ds →
      ((net.resume g' controller).nodes g).controller.ds = (net.nodes g).controller.ds := by
    intro g' controller hds
    rw [resume_controller]
    split_ifs with hg
    · rw [hds, hg]
    · rfl
  cases event with
  | discovers g' call => exact absurd rfl (hevent g' call)
  | initiates g' env remote =>
      obtain ⟨_, hnext⟩ := Option.ite_none_right_eq_some.mp hstep
      obtain rfl := Option.some.inj hnext
      exact hresume g' _ rfl
  | delivers index env =>
      simp only [Net.step] at hstep
      cases hindex : net.inFlight[index]? with
      | none => simp [hindex] at hstep
      | some f =>
          simp only [hindex] at hstep
          obtain ⟨_, hnext⟩ := Option.ite_none_right_eq_some.mp hstep
          cases hprocess : internalConnnectionMessageProcessor lib env
              (net.nodes (lib.guid.fromString f.message.recipient)).controller f.message with
          | error stop =>
              rw [hprocess] at hnext
              obtain rfl := Option.some.inj hnext
              exact congrArg ConnectionController.ds (halt_controller net _ g)
          | ok outcome =>
              rw [hprocess] at hnext
              obtain rfl := Option.some.inj hnext
              obtain ⟨remote, _, hprocessed⟩ := processor_cases hprocess
              exact hresume _ _ hprocessed.ownIdOnly.peers
  | sends g' envs s message messageLen =>
      obtain ⟨_, hnext⟩ := Option.ite_none_right_eq_some.mp hstep
      cases hsend : sessionControllerSessionSendMessage lib envs (net.nodes g').controller s message
          messageLen with
      | error stop =>
          rw [hsend] at hnext
          obtain rfl := Option.some.inj hnext
          exact congrArg ConnectionController.ds (halt_controller net g' g)
      | ok messages =>
          rw [hsend] at hnext
          obtain rfl := Option.some.inj hnext
          rfl

/-- What the services do leaves connections and messages alone. -/
theorem Orderly.follow (horderly : Orderly lib net) (hown : ∀ g, (lan.localPeer g).guid = g)
    (hfiled : ∀ g, FiledByGuid lib.guid (lan.store g)) : Orderly lib (net.follow lan) := by
  have hshows : ∀ i phase, Shows lib i net phase → Shows lib i (net.follow lan) phase := by
    intro i phase hshows
    exact hshows.frame (fun _ => rfl) (List.Sublist.refl _) fun f hf _ _ => Or.inl hf
  refine ⟨⟨hown, hfiled, fun i => ?_⟩, fun i => ?_⟩
  · obtain ⟨phase, hphase, hunused⟩ := horderly.honest.shows i
    exact ⟨phase, hshows i phase hphase, hunused⟩
  · obtain ⟨phase, hstands⟩ := horderly.stands i
    refine ⟨phase, hshows i phase hstands.shows, hstands.unused, ?_⟩
    refine hstands.pending.frame (fun g' hruns => ?_) fun hinFlight => hinFlight
    exact (Bool.and_eq_true_iff.mp hruns).1

/-! ### Services -/

namespace Lan

variable {profile : Guid → Peer} {members : Set Guid}

@[simp]
theorem store_follow (lan : Lan) (net : Net Key) (g : Guid) :
    (lan.follow net).store g = lan.store g := by
  simp only [Lan.follow, Lan.store]
  split_ifs <;> rfl

theorem status_follow_cases (lan : Lan) (net : Net Key) (g : Guid) :
    (lan.follow net).status g = lan.status g ∨ (lan.follow net).status g = .crashed := by
  simp only [Lan.follow, Lan.status]
  split_ifs
  · exact Or.inl rfl
  · exact Or.inr rfl

theorem Posted.follow (h : Posted protobuf profile members lan) (net : Net Key) :
    Posted protobuf profile members (lan.follow net) where
  own g := by
    rw [Lan.localPeer, store_follow]
    exact h.own g
  genuine := h.genuine
  started g hlistens := by
    apply h.started g
    rw [Listens] at hlistens ⊢
    rcases status_follow_cases lan net g with hsame | hcrashed
    · rwa [hsame] at hlistens
    · rw [hcrashed] at hlistens
      rcases hlistens with hruns | hstops
      · cases hruns
      · cases hstops
  announcer := h.announcer

end Lan

/-! ### Worlds -/

namespace World

variable {next : World Key} {event : WorldEvent Key} {profile : Guid → Peer}
  {members quiet : Set Guid}

/-- What every world keeps, if only members are started and no quiet service is given a
strategy. -/
structure Sound (lib : Libraries Key) (protobuf : PeerProtobuf) (profile : Guid → Peer)
    (members quiet : Set Guid) (world : World Key) : Prop where
  posted : world.lan.Posted protobuf profile members
  truthful : ∀ g, Lan.Truthful lib.guid profile (world.lan.heard g) (world.lan.store g)
  mirrors : ∀ g ∈ quiet,
    Lan.Mirrors lib.guid profile members (world.lan.heard g) (world.lan.store g)
  shared : ∀ g, (world.post.net.nodes g).controller.ds.peers = world.lan.store g
  orderly : Orderly lib world.post.net

/-- The members can be told apart by name and by address. -/
structure Distinct (profile : Guid → Peer) (members : Set Guid) : Prop where
  guid : ∀ g, (profile g).guid = g
  addresses : Set.InjOn (fun g => (profile g).hostAddress) members
  names : Set.InjOn (fun g => (profile g).userName) members

/-- An event that starts members only, and gives no quiet service a strategy. -/
structure Fits (members quiet : Set Guid) (event : WorldEvent Key) : Prop where
  starts : ∀ g, event = .discovers (.starts g) → g ∈ members
  settles : ∀ g strategy, event = .discovers (.settles g (some strategy)) → g ∉ quiet

/-- A step of the controllers is one of the network that leaves the stores alone. -/
theorem step_connects {event : NetEvent Key}
    (hstep : world.step lib protobuf (.connects event) = some next) :
    (∀ g call, event ≠ .discovers g call) ∧ world.post.step lib event = some next.post
      ∧ next.lan = world.lan.follow next.post.net := by
  cases event with
  | discovers g call => cases hstep
  | initiates g env remote =>
      obtain ⟨post, hpost, rfl⟩ := Option.map_eq_some_iff.mp hstep
      exact ⟨by simp, hpost, rfl⟩
  | delivers index env =>
      obtain ⟨post, hpost, rfl⟩ := Option.map_eq_some_iff.mp hstep
      exact ⟨by simp, hpost, rfl⟩
  | sends g envs s message messageLen =>
      obtain ⟨post, hpost, rfl⟩ := Option.map_eq_some_iff.mp hstep
      exact ⟨by simp, hpost, rfl⟩

theorem Sound.connects (hsound : Sound lib protobuf profile members quiet world)
    {event : NetEvent Key} (hstep : world.step lib protobuf (.connects event) = some next) :
    Sound lib protobuf profile members quiet next := by
  obtain ⟨hevent, hpost, hlan⟩ := step_connects hstep
  obtain ⟨lan, post⟩ := next
  obtain rfl : lan = world.lan.follow post.net := hlan
  have hnet : world.post.net.step lib event = some post.net := by
    rw [step_net hpost]
  refine ⟨hsound.posted.follow post.net, fun g => ?_, fun g hg => ?_, fun g => ?_,
    hsound.orderly.step (net_step_cases hnet)⟩
  · rw [Lan.store_follow]
    exact hsound.truthful g
  · rw [Lan.store_follow]
    exact hsound.mirrors g hg
  · rw [Lan.store_follow, peers_of_connects hevent hnet]
    exact hsound.shared g

theorem Sound.discovers (hsound : Sound lib protobuf profile members quiet world)
    (hdistinct : Distinct profile members) {event : LanEvent}
    (hfits : Fits members quiet (.discovers event : WorldEvent Key))
    (hstep : world.lan.step lib.guid protobuf event = some lan) :
    Sound lib protobuf profile members quiet
      ⟨lan, { world.post with net := world.post.net.follow lan }⟩ := by
  have hmoves := Lan.store_moves hsound.posted.genuine hstep
  have hposted : lan.Posted protobuf profile members :=
    hsound.posted.step (fun g hg => hfits.starts g (congrArg _ hg)) hstep
  have htruthful : ∀ g, Lan.Truthful lib.guid profile (lan.heard g) (lan.store g) :=
    fun g => (hsound.truthful g).step hdistinct.guid (hmoves g)
  refine ⟨hposted, htruthful, fun g hg => ?_, fun _ => rfl, ?_⟩
  · refine (hsound.mirrors g hg).step hsound.posted hdistinct.addresses hdistinct.names
      hdistinct.guid (fun strategy hevent => ?_) (hmoves g)
    exact hfits.settles g strategy (congrArg _ hevent) hg
  · refine hsound.orderly.follow (fun g => ?_) fun g => (htruthful g).filed
    rw [hposted.own]
    exact hdistinct.guid g

theorem Sound.step (hsound : Sound lib protobuf profile members quiet world)
    (hdistinct : Distinct profile members) (hfits : Fits members quiet event)
    (hstep : world.step lib protobuf event = some next) :
    Sound lib protobuf profile members quiet next := by
  cases event with
  | discovers event =>
      obtain ⟨lan, hlan, rfl⟩ := Option.map_eq_some_iff.mp hstep
      exact hsound.discovers hdistinct hfits hlan
  | connects event => exact hsound.connects hstep

end World

end WhisperCore
