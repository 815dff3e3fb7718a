import WhisperCore.Proof.HandshakeLiveness
import WhisperCore.Proof.HandshakeOrder

/-!
# Sessions become ready

The handshakes of a session's connections do not stand in each other's way: one after another they
are finished, and a finished one stays finished, so the whole session can be made ready.
-/

namespace WhisperCore

variable {Key : Type} {lib : Libraries Key} {net next : Net Key} {i g h : Guid} {address : Nat}
  {c : ConnectionRequest Key}

/-! ### Connections stay where they are -/

theorem SameRequest.refl (c : ConnectionRequest Key) : SameRequest c c := ⟨rfl, rfl, rfl, rfl⟩

/-- No event of the network takes a connection away or makes another one of it. -/
theorem Moves.same_request (hmove : Moves lib net next)
    (hget : (net.nodes g).controller.connections.get? address = some c) :
    ∃ c', (next.nodes g).controller.connections.get? address = some c' ∧ SameRequest c c' := by
  have hresume : ∀ (g' : Guid) (controller : ConnectionController Key),
      (g = g' → ∃ c', controller.connections.get? address = some c' ∧ SameRequest c c') →
      ∃ c', ((net.resume g' controller).nodes g).controller.connections.get? address = some c'
        ∧ SameRequest c c' := by
    intro g' controller hmoved
    rw [resume_controller]
    by_cases hg : g = g'
    · rw [if_pos hg]
      exact hmoved hg
    · rw [if_neg hg]
      exact ⟨c, hget, .refl c⟩
  cases hmove with
  | discovered g' call peers hcall =>
      refine hresume g' _ ?_
      rintro rfl
      exact ⟨c, hget, .refl c⟩
  | initiated g' env remote hfresh =>
      refine hresume g' _ ?_
      rintro rfl
      exact ⟨c, Arena.get?_add_eq_some_iff.mpr (Or.inl hget), .refl c⟩
  | rejected f earlier later hsplit =>
      refine ⟨c, ?_, .refl c⟩
      rw [← hget]
      exact congrArg (fun controller => controller.connections.get? address)
        (halt_controller net _ g)
  | processed f earlier later env outcome hsplit hok =>
      refine hresume _ _ ?_
      rintro rfl
      obtain ⟨remote, _, hprocessed⟩ := processor_cases hok
      let process : Process Key :=
        ⟨(net.nodes (lib.guid.fromString f.message.recipient)).controller, []⟩
      have hprocessed' : Processed lib env process.controller f.message remote outcome := hprocessed
      obtain ⟨c', hget', hmoves⟩ := hprocessed'.connection_moves hget
      exact ⟨c', hget', hmoves.sameRequest⟩
  | sendStopped g' =>
      rw [halt_controller]
      exact ⟨c, hget, .refl c⟩
  | sent g' fs hsent => exact ⟨c, hget, .refl c⟩

theorem run_same_request {events : List (NetEvent Key)}
    (hrun : Transition.run (Net.step lib) net events = some next)
    (hget : (net.nodes g).controller.connections.get? address = some c) :
    ∃ c', (next.nodes g).controller.connections.get? address = some c' ∧ SameRequest c c' := by
  let There (net : Net Key) : Prop :=
    ∃ c', (net.nodes g).controller.connections.get? address = some c' ∧ SameRequest c c'
  have hthere : There net := ⟨c, hget, .refl c⟩
  suffices hfinal : There next from hfinal
  refine Transition.run_invariant ?_ hrun hthere
  rintro before event after ⟨c', hget', hsame⟩ hstep
  obtain ⟨c'', hget'', hsame'⟩ := (net_step_cases hstep).same_request hget'
  exact ⟨c'', hget'', hsame.trans hsame'⟩

/-! ### Finished handshakes -/

/-- The handshake of an id between two nodes is finished. -/
theorem remains_zero_run (horderly : Orderly lib net) (hremains : Remains lib i g h 0 net)
    {events : List (NetEvent Key)}
    (hrun : Transition.run (Net.step lib) net events = some next) :
    Orderly lib next ∧ Remains lib i g h 0 next := by
  let Finished (net : Net Key) : Prop := Orderly lib net ∧ Remains lib i g h 0 net
  have hfinished : Finished net := ⟨horderly, hremains⟩
  suffices hfinal : Finished next from hfinal
  refine Transition.run_invariant ?_ hrun hfinished
  rintro before event after ⟨horderly, hremains⟩ hstep
  have hmove := net_step_cases hstep
  obtain ⟨rank, hrank, hafter⟩ := horderly.remains_step hmove hremains
  obtain rfl : rank = 0 := Nat.le_zero.mp hrank
  exact ⟨horderly.step hmove, hafter⟩

/-- A connection whose handshake is finished is complete. -/
theorem Remains.complete (hremains : Remains lib c.id g h 0 net)
    (hget : (net.nodes g).controller.connections.get? address = some c) :
    c.state = .complete := by
  obtain ⟨phase, hstands, hjoins, hfinished⟩ := hremains
  obtain ⟨σ, hestablished⟩ := hjoins.established lib c.id hfinished
  obtain ⟨⟨other, c', hother, hid, hcomplete, _⟩, _⟩ := hestablished net hstands.shows
  have hmem : (address, c) ∈ net.connectionsOf c.id g :=
    Arena.mem_select.mpr ⟨hget, decide_eq_true rfl⟩
  have hmem' : (other, c') ∈ net.connectionsOf c.id g :=
    Arena.mem_select.mpr ⟨hother, decide_eq_true hid⟩
  have hselect := (hstands.shows.select_eq_singleton hmem).1
  have hsame : (other, c') = (address, c) := List.mem_singleton.mp (hselect ▸ hmem')
  rw [← (Prod.mk.inj hsame).2]
  exact hcomplete

/-! ### Sessions -/

theorem deliveries_append (first second : List Nat) (envs : Nat → Ambient Key) :
    deliveries (first ++ second) envs
      = deliveries first envs ++ deliveries second fun k => envs (first.length + k) := by
  induction first generalizing envs with
  | nil => simp [deliveries]
  | cons index first ih =>
      simp only [List.cons_append, deliveries, ih, List.length_cons]
      congr 4
      funext k
      congr 1
      omega

/-- A connection of `g` to another node that knows `g` and is known to it. -/
def Reaches (lib : Libraries Key) (net : Net Key) (g : Guid) (address : Nat) : Prop :=
  ∃ c, (net.nodes g).controller.connections.get? address = some c ∧ g ≠ c.remote.guid
    ∧ Acquainted lib net g c.remote.guid

theorem Reaches.run (hreaches : Reaches lib net g address) {events : List (NetEvent Key)}
    (hrun : Transition.run (Net.step lib) net events = some next)
    (hknows : ∀ g' h', Knows lib net g' h' → Knows lib next g' h') :
    Reaches lib next g address := by
  obtain ⟨c, hget, hother, hthere, hback⟩ := hreaches
  obtain ⟨c', hget', hsame⟩ := run_same_request hrun hget
  refine ⟨c', hget', hsame.remote ▸ hother, ?_⟩
  rw [hsame.remote]
  exact ⟨hknows _ _ hthere, hknows _ _ hback⟩

/-- The handshakes of a list of connections are finished one after another. -/
theorem Orderly.finishes_all (horderly : Orderly lib net) (hseals : SealsSecrets lib)
    {addresses : List Nat} (hreaches : ∀ address ∈ addresses, Reaches lib net g address)
    (envs : Nat → Ambient Key) :
    ∃ indices final, indices.length ≤ 4 * addresses.length
      ∧ Transition.run (Net.step lib) net (deliveries indices envs) = some final
      ∧ Orderly lib final ∧ (∀ g' h', Knows lib net g' h' → Knows lib final g' h')
      ∧ ∀ address ∈ addresses, ∃ c,
        (final.nodes g).controller.connections.get? address = some c ∧ c.state = .complete := by
  induction addresses generalizing net envs with
  | nil => exact ⟨[], net, Nat.le_refl 0, rfl, horderly, fun _ _ => id, by simp⟩
  | cons address addresses ih =>
      obtain ⟨c, hget, hother, hacquainted⟩ := hreaches address List.mem_cons_self
      obtain ⟨phase, hstands, hjoins⟩ := horderly.joins_of_held hget
      obtain ⟨first, middle, after, hlength, hfirst, hafter, hjoinsAfter, hfinished, hknows⟩ :=
        hstands.finishes horderly hseals hother hjoins hacquainted envs
      have hmiddle : Orderly lib middle := Transition.run_invariant
        (fun _ _ _ hinv hstep => hinv.step (net_step_cases hstep)) hfirst horderly
      obtain ⟨second, final, hlengths, hsecond, hfinal, hknowsFinal, hcomplete⟩ :=
        ih hmiddle
          (fun other hmem => (hreaches other (List.mem_cons_of_mem _ hmem)).run hfirst hknows)
          fun k => envs (first.length + k)
      refine ⟨first ++ second, final, ?_, ?_, hfinal,
        fun g' h' hknown => hknowsFinal g' h' (hknows g' h' hknown), fun other hmem => ?_⟩
      · have hfour : first.length ≤ 4 := hlength ▸ hjoins.remaining_le
        rw [List.length_append, List.length_cons]
        omega
      · rw [deliveries_append, Transition.run_append, hfirst, Option.bind_some]
        exact hsecond
      · rcases List.mem_cons.mp hmem with rfl | hmem
        · obtain ⟨c', hget', hsame⟩ := run_same_request hfirst hget
          obtain ⟨c'', hget'', hsame'⟩ := run_same_request hsecond hget'
          have hid : c''.id = c.id := (hsame.trans hsame').id
          obtain ⟨_, hremains⟩ := remains_zero_run hmiddle
            ⟨after, hafter, hjoinsAfter, hfinished⟩ hsecond
          rw [← hid] at hremains
          exact ⟨c'', hget'', hremains.complete hget''⟩
        · exact hcomplete other hmem

theorem isReadyList_of_complete {controller : ConnectionController Key} {addresses : List Nat}
    (h : ∀ address ∈ addresses, ∃ c, controller.connections.get? address = some c
      ∧ c.state = .complete) : isReadyList controller addresses = .ok true := by
  induction addresses with
  | nil => rfl
  | cons address addresses ih =>
      obtain ⟨c, hget, hcomplete⟩ := h address List.mem_cons_self
      rw [isReadyList]
      simp only [hget, hcomplete, ne_eq, not_true_eq_false, if_false]
      exact ih fun other hother => h other (List.mem_cons_of_mem _ hother)

theorem ready_of_isReadyList {controller : ConnectionController Key} {s : Session}
    (hoccupied : s.connectionRequestList ≠ [])
    (hready : isReadyList controller s.connectionRequestList = .ok true) :
    sessionControllerIsSessionReady controller s = .ok true := by
  unfold sessionControllerIsSessionReady
  cases haddresses : s.connectionRequestList with
  | nil => exact absurd haddresses hoccupied
  | cons address addresses =>
      rw [haddresses] at hready
      exact hready

end WhisperCore
