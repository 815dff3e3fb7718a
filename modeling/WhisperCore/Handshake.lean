import WhisperCore.ConnectionRequest

/-!
# The handshake, in the abstract

One handshake between two nodes, as it should go: the phases it passes through, what each node holds
of it in each phase, which message is expected next and which messages of the session may be under
way. The network refines this machine, one copy for each connection id.
-/

namespace WhisperCore

variable {Key : Type}

/-- What the two ends have to agree on about a connection request. -/
structure View (Key : Type) where
  state : ConnectionRequestState
  localGuid : Guid
  remoteGuid : Guid
  keypair : Key
  sharedSecret : Option Bytes

def ConnectionRequest.view (c : ConnectionRequest Key) : View Key :=
  ⟨c.state, c.localPeer.guid, c.remote.guid, c.keypair, c.sharedSecret⟩

structure Secret where
  bytes : Bytes
  length_eq : bytes.length = 8

structure Parties (Key : Type) where
  initiator : Guid
  responder : Guid
  initiatorKey : Key
  responderKey : Key
  distinct : initiator ≠ responder

namespace Parties

variable (p : Parties Key)

def initiatorView (state : ConnectionRequestState) (secret : Option Secret) : View Key :=
  ⟨state, p.initiator, p.responder, p.initiatorKey, secret.map Secret.bytes⟩

def responderView (state : ConnectionRequestState) (secret : Option Secret) : View Key :=
  ⟨state, p.responder, p.initiator, p.responderKey, secret.map Secret.bytes⟩

def hold (v w : View Key) (g : Guid) : List (View Key) :=
  if g = p.initiator then [v] else if g = p.responder then [w] else []

variable {p} {v w : View Key} {g : Guid}

@[simp]
theorem hold_initiator : p.hold v w p.initiator = [v] := if_pos rfl

@[simp]
theorem hold_responder : p.hold v w p.responder = [w] := by
  rw [hold, if_neg p.distinct.symm, if_pos rfl]

theorem hold_of_ne (hinitiator : g ≠ p.initiator) (hresponder : g ≠ p.responder) :
    p.hold v w g = [] := by
  rw [hold, if_neg hinitiator, if_neg hresponder]

theorem mem_hold {u : View Key} :
    u ∈ p.hold v w g ↔ (g = p.initiator ∧ u = v) ∨ (g = p.responder ∧ u = w) := by
  by_cases hinitiator : g = p.initiator
  · subst hinitiator
    simp [p.distinct]
  · by_cases hresponder : g = p.responder
    · subst hresponder
      simp [hinitiator]
    · simp [hold_of_ne hinitiator hresponder, hinitiator, hresponder]

end Parties

inductive Phase (Key : Type) where
  | unused
  | created (initiator responder : Guid) (key : Key)
  | replied (p : Parties Key)
  | shared (p : Parties Key) (σ : Secret)
  | confirmed (p : Parties Key) (σ : Secret)
  | complete (p : Parties Key) (σ : Secret)

namespace Phase

/-- What a node holds of the handshake. -/
def holds : Phase Key → Guid → List (View Key)
  | unused, _ => []
  | created initiator responder key, g =>
      if g = initiator then [⟨.initialChallenge, initiator, responder, key, none⟩] else []
  | replied p, g =>
      p.hold (p.initiatorView .initialChallenge none) (p.responderView .challengeReply none) g
  | shared p σ, g =>
      p.hold (p.initiatorView .sessionKeyShare (some σ)) (p.responderView .challengeReply none) g
  | confirmed p σ, g =>
      p.hold (p.initiatorView .sessionKeyShare (some σ)) (p.responderView .complete (some σ)) g
  | complete p σ, g =>
      p.hold (p.initiatorView .complete (some σ)) (p.responderView .complete (some σ)) g

/-- The handshake message under way, with its sender and its recipient. -/
def expects : Phase Key → Option (SelectedAction × Guid × Guid)
  | unused => none
  | created initiator responder _ => some (.createSession, initiator, responder)
  | replied p => some (.respondingCreatedSession, p.responder, p.initiator)
  | shared p _ => some (.sharingSessionKey, p.initiator, p.responder)
  | confirmed p _ => some (.completedSession, p.responder, p.initiator)
  | complete _ _ => none

/-- The nodes that may send over the session, with the node they send to and the secret they
encrypt under. -/
def Carries : Phase Key → (sender recipient : Guid) → (secret : Bytes) → Prop
  | confirmed p σ, sender, recipient, secret =>
      sender = p.responder ∧ recipient = p.initiator ∧ secret = σ.bytes
  | complete p σ, sender, recipient, secret =>
      (sender = p.responder ∧ recipient = p.initiator
        ∨ sender = p.initiator ∧ recipient = p.responder) ∧ secret = σ.bytes
  | _, _, _, _ => False

/-- The handshake moves on at a node. -/
inductive Advances : Guid → Phase Key → Phase Key → Prop where
  | create (initiator responder : Guid) (key : Key) :
      Advances initiator unused (created initiator responder key)
  | reply (p : Parties Key) :
      Advances p.responder (created p.initiator p.responder p.initiatorKey) (replied p)
  | share (p : Parties Key) (σ : Secret) : Advances p.initiator (replied p) (shared p σ)
  | confirm (p : Parties Key) (σ : Secret) : Advances p.responder (shared p σ) (confirmed p σ)
  | complete (p : Parties Key) (σ : Secret) :
      Advances p.initiator (confirmed p σ) (complete p σ)

def Follows (phase after : Phase Key) : Prop := after = phase ∨ ∃ g, phase.Advances g after

variable {phase next : Phase Key} {g h : Guid} {v w : View Key}

/-- The other nodes hold what they held. -/
theorem Advances.holds_of_ne (hadvance : Advances g phase next) (hne : h ≠ g) :
    next.holds h = phase.holds h := by
  cases hadvance with
  | create initiator responder key => simp [holds, hne]
  | reply p => simp [holds, Parties.hold, hne, Parties.initiatorView]
  | share p σ => simp [holds, Parties.hold, hne]
  | confirm p σ => simp [holds, Parties.hold, hne]
  | complete p σ => simp [holds, Parties.hold, hne]

/-- Messages of the session under way stay covered. -/
theorem Advances.carries (hadvance : Advances g phase next) {sender recipient : Guid}
    {secret : Bytes} (hcarries : phase.Carries sender recipient secret) :
    next.Carries sender recipient secret := by
  cases hadvance with
  | create initiator responder key => exact hcarries.elim
  | reply p => exact hcarries.elim
  | share p σ => exact hcarries.elim
  | confirm p σ => exact hcarries.elim
  | complete p σ =>
      obtain ⟨hsender, hrecipient, hsecret⟩ := hcarries
      exact ⟨Or.inl ⟨hsender, hrecipient⟩, hsecret⟩

theorem length_holds (phase : Phase Key) (g : Guid) : (phase.holds g).length ≤ 1 := by
  have hhold : ∀ (p : Parties Key) (v w : View Key), (p.hold v w g).length ≤ 1 := by
    intro p v w
    unfold Parties.hold
    split_ifs <;> simp
  cases phase with
  | unused => simp [holds]
  | created initiator responder key =>
      simp only [holds]
      split_ifs <;> simp
  | replied p => exact hhold _ _ _
  | shared p σ => exact hhold _ _ _
  | confirmed p σ => exact hhold _ _ _
  | complete p σ => exact hhold _ _ _

/-- The phase an expected message belongs to. -/
theorem of_expects {action : SelectedAction} {sender recipient : Guid}
    (h : phase.expects = some (action, sender, recipient)) :
    match action with
    | .createSession => ∃ key, phase = created sender recipient key
    | .respondingCreatedSession =>
        ∃ p, phase = replied p ∧ sender = p.responder ∧ recipient = p.initiator
    | .sharingSessionKey =>
        ∃ p σ, phase = shared p σ ∧ sender = p.initiator ∧ recipient = p.responder
    | .completedSession =>
        ∃ p σ, phase = confirmed p σ ∧ sender = p.responder ∧ recipient = p.initiator
    | .communicatingSession => False := by
  cases phase with
  | unused => cases h
  | created initiator responder key =>
      obtain ⟨rfl, rfl, rfl⟩ := by simpa [expects] using h
      exact ⟨key, rfl⟩
  | replied p =>
      obtain ⟨rfl, rfl, rfl⟩ := by simpa [expects] using h
      exact ⟨p, rfl, rfl, rfl⟩
  | shared p σ =>
      obtain ⟨rfl, rfl, rfl⟩ := by simpa [expects] using h
      exact ⟨p, σ, rfl, rfl, rfl⟩
  | confirmed p σ =>
      obtain ⟨rfl, rfl, rfl⟩ := by simpa [expects] using h
      exact ⟨p, σ, rfl, rfl, rfl⟩
  | complete p σ => cases h

/-- A node that has completed may send. -/
theorem carries_of_complete (hv : v ∈ phase.holds g) (hcomplete : v.state = .complete) :
    ∃ σ : Secret, v.sharedSecret = some σ.bytes
      ∧ phase.Carries v.localGuid v.remoteGuid σ.bytes := by
  cases phase with
  | unused => simp [holds] at hv
  | created initiator responder key =>
      have hview : g = initiator ∧ v = ⟨.initialChallenge, initiator, responder, key, none⟩ := by
        simpa [holds] using hv
      rw [hview.2] at hcomplete
      cases hcomplete
  | replied p =>
      rcases Parties.mem_hold.mp hv with ⟨_, rfl⟩ | ⟨_, rfl⟩ <;> cases hcomplete
  | shared p σ =>
      rcases Parties.mem_hold.mp hv with ⟨_, rfl⟩ | ⟨_, rfl⟩ <;> cases hcomplete
  | confirmed p σ =>
      rcases Parties.mem_hold.mp hv with ⟨_, rfl⟩ | ⟨_, rfl⟩
      · cases hcomplete
      · exact ⟨σ, rfl, rfl, rfl, rfl⟩
  | complete p σ =>
      rcases Parties.mem_hold.mp hv with ⟨_, rfl⟩ | ⟨_, rfl⟩
      · exact ⟨σ, rfl, Or.inr ⟨rfl, rfl⟩, rfl⟩
      · exact ⟨σ, rfl, Or.inl ⟨rfl, rfl⟩, rfl⟩

/-- The node a message of the session goes to holds the secret it was encrypted under. -/
theorem exists_holds_of_carries {sender recipient : Guid} {secret : Bytes}
    (hcarries : phase.Carries sender recipient secret) :
    ∃ v, phase.holds recipient = [v] ∧ v.sharedSecret = some secret := by
  cases phase with
  | unused => exact hcarries.elim
  | created initiator responder key => exact hcarries.elim
  | replied p => exact hcarries.elim
  | shared p σ => exact hcarries.elim
  | confirmed p σ =>
      obtain ⟨_, rfl, rfl⟩ := hcarries
      exact ⟨_, Parties.hold_initiator, rfl⟩
  | complete p σ =>
      obtain ⟨⟨_, rfl⟩ | ⟨_, rfl⟩, rfl⟩ := hcarries
      · exact ⟨_, Parties.hold_initiator, rfl⟩
      · exact ⟨_, Parties.hold_responder, rfl⟩

/-- **Agreement.** Two nodes that have both completed hold one secret and each other's guid. -/
theorem agree (hv : v ∈ phase.holds g) (hw : w ∈ phase.holds h) (hne : g ≠ h)
    (hvcomplete : v.state = .complete) (hwcomplete : w.state = .complete) :
    ∃ σ : Secret, v.sharedSecret = some σ.bytes ∧ w.sharedSecret = some σ.bytes
      ∧ v.remoteGuid = w.localGuid ∧ w.remoteGuid = v.localGuid := by
  obtain ⟨σ, hvsecret, hvcarries⟩ := carries_of_complete hv hvcomplete
  cases phase with
  | unused => exact hvcarries.elim
  | created initiator responder key => exact hvcarries.elim
  | replied p => exact hvcarries.elim
  | shared p τ => exact hvcarries.elim
  | confirmed p τ =>
      rcases Parties.mem_hold.mp hv with ⟨rfl, rfl⟩ | ⟨rfl, rfl⟩
      · cases hvcomplete
      · rcases Parties.mem_hold.mp hw with ⟨rfl, rfl⟩ | ⟨rfl, rfl⟩
        · cases hwcomplete
        · exact absurd rfl hne
  | complete p τ =>
      rcases Parties.mem_hold.mp hv with ⟨rfl, rfl⟩ | ⟨rfl, rfl⟩ <;>
        rcases Parties.mem_hold.mp hw with ⟨rfl, rfl⟩ | ⟨rfl, rfl⟩
      · exact absurd rfl hne
      · exact ⟨τ, rfl, rfl, rfl, rfl⟩
      · exact ⟨τ, rfl, rfl, rfl, rfl⟩
      · exact absurd rfl hne

end Phase

end WhisperCore
