import WhisperCore.Concrete

/-!
# Peers written and read back

`peerton` and `ntopeer` agree on everything but the name of a peer without one, which `peer_create`
never sets. What `ntopeer` makes of other messages depends on one length: it copies as many bytes of
guid as the message brings, and a guid has sixteen.
-/

namespace WhisperCore

variable {protobuf : PeerProtobuf} {env : PeerSurroundings} {payload : Bytes} {len : Nat}

/-! ### Round trip -/

/-- The peer read is the peer written, with an empty name for one that had none. A name that
`peer_create` sets is a string, so what is not unset is one. -/
structure ReadBack (p : OutgoingPeer) (q : CreatedPeer) : Prop where
  guid : q.guid = p.guid
  hostAddress : q.hostAddress = p.hostAddress
  userName : q.userName = some (packedName p.userName)
  discoveryInterval : q.discoveryInterval = p.discoveryInterval

theorem packedName_ne_nil_iff {userName : Option CString} :
    (packedName userName).bytes ≠ [] ↔ ∃ name, userName = some name ∧ name.bytes ≠ [] := by
  cases userName with
  | none => simp [packedName]
  | some name => simp [packedName]

/-- **Round trip, exactly.** Reading what was written gives the same peer if and only if the peer
has a name. -/
theorem readBack_iff (protobuf : PeerProtobuf) (env : PeerSurroundings) (p : OutgoingPeer) :
    (∃ q, ntopeer protobuf env (p.peerton protobuf) (p.peerton protobuf).length = .created q
        ∧ ReadBack p q)
      ↔ ∃ name, p.userName = some name ∧ name.bytes ≠ [] := by
  rw [ntopeer_outgoing, ← packedName_ne_nil_iff]
  constructor
  · rintro ⟨q, hread, hback⟩
    obtain rfl := UnpackedPeer.created.inj hread
    exact (peerCreate_userName_eq_some_iff.mp hback.userName).1
  · intro hname
    exact ⟨_, rfl, rfl, rfl, peerCreate_userName_eq_some_iff.mpr ⟨hname, rfl⟩, rfl⟩

/-! ### Guids -/

/-- `ntopeer` makes no peer, or one whose guid is the message's, byte for byte. -/
def ExactGuid (protobuf : PeerProtobuf) (env : PeerSurroundings) (payload : Bytes) (len : Nat) :
    Prop :=
  ntopeer protobuf env payload len = .null
    ∨ ∃ msg p, protobuf.unpack (readBytes payload len) = some msg
      ∧ ntopeer protobuf env payload len = .created p ∧ p.guid.bytes = msg.guid

theorem ntopeer_of_length_le (env : PeerSurroundings) {msg : PeerMessage}
    (h : protobuf.unpack (readBytes payload len) = some msg) (hlength : msg.guid.length ≤ 16) :
    ∃ p, ntopeer protobuf env payload len = .created p
      ∧ p.guid.bytes = readBytes (msg.guid ++ env.stack) 16 := by
  simp only [ntopeer, h, copyGuid, if_pos hlength]
  exact ⟨_, rfl, rfl⟩

theorem ntopeer_of_lt_length {msg : PeerMessage}
    (h : protobuf.unpack (readBytes payload len) = some msg) (hlength : 16 < msg.guid.length) :
    ntopeer protobuf env payload len = .guidOverflow := by
  simp only [ntopeer, h, copyGuid, if_neg (Nat.not_le.mpr hlength)]

/-- **Guids, exactly.** Of any bytes, `ntopeer` makes no peer or one with the guid on the wire if
and only if they are no message, or one whose guid has sixteen bytes. -/
theorem exactGuid_iff (protobuf : PeerProtobuf) (env : PeerSurroundings) (payload : Bytes)
    (len : Nat) :
    ExactGuid protobuf env payload len
      ↔ ∀ msg, protobuf.unpack (readBytes payload len) = some msg → msg.guid.length = 16 := by
  cases hunpack : protobuf.unpack (readBytes payload len) with
  | none =>
      have hnull : ntopeer protobuf env payload len = .null := by simp only [ntopeer, hunpack]
      exact iff_of_true (Or.inl hnull) (by simp)
  | some msg =>
      constructor
      · rintro (hnull | ⟨_, p, hmsg, _, hguid⟩) other hother
        · rcases Nat.lt_or_ge 16 msg.guid.length with hlong | hshort
          · cases hnull.symm.trans (ntopeer_of_lt_length hunpack hlong)
          · obtain ⟨p, hcreated, _⟩ := ntopeer_of_length_le env hunpack hshort
            cases hnull.symm.trans hcreated
        · obtain rfl := Option.some.inj (hunpack.symm.trans hmsg)
          obtain rfl := Option.some.inj hother
          rw [← hguid, p.guid.length_eq]
      · intro hlength
        have hsixteen := hlength msg rfl
        obtain ⟨p, hcreated, hguid⟩ := ntopeer_of_length_le env hunpack hsixteen.le
        refine Or.inr ⟨msg, p, hunpack, hcreated, ?_⟩
        rw [hguid, ← hsixteen, readBytes_append]

section Run

open Concrete

/-- What is read back of a peer. -/
def readBackOf (p : OutgoingPeer) : UnpackedPeer :=
  ntopeer Concrete.protobuf ⟨7, []⟩ (p.peerton Concrete.protobuf)
    (p.peerton Concrete.protobuf).length

def namelessPeer : OutgoingPeer := ⟨guid 1, host 1, none, 5⟩

def emptyNamedPeer : OutgoingPeer := ⟨guid 1, host 1, some ⟨[], List.not_mem_nil⟩, 5⟩

/-- Of a peer without a name, or with an empty one, a peer with an unset name is read. -/
theorem not_readBack_namelessPeer :
    readBackOf namelessPeer = .created ⟨7, guid 1, host 1, none, 5⟩
      ∧ (¬ ∃ q, readBackOf namelessPeer = .created q ∧ ReadBack namelessPeer q)
      ∧ readBackOf emptyNamedPeer = .created ⟨7, guid 1, host 1, none, 5⟩
      ∧ ¬ ∃ q, readBackOf emptyNamedPeer = .created q ∧ ReadBack emptyNamedPeer q := by
  have hread : readBackOf namelessPeer = .created ⟨7, guid 1, host 1, none, 5⟩ := by
    decide +kernel
  have hempty : readBackOf emptyNamedPeer = .created ⟨7, guid 1, host 1, none, 5⟩ := by
    decide +kernel
  refine ⟨hread, ?_, hempty, ?_⟩
  · rintro ⟨q, hq, hback⟩
    obtain rfl := UnpackedPeer.created.inj (hread.symm.trans hq)
    cases hback.userName
  · rintro ⟨q, hq, hback⟩
    obtain rfl := UnpackedPeer.created.inj (hempty.symm.trans hq)
    cases hback.userName

/-- A message with a guid of so many bytes. -/
def guidMessage (length : Nat) : Bytes :=
  Concrete.protobuf.pack ⟨List.replicate length 1, host 1, bob, 5⟩

/-- Seventeen bytes of guid are copied past the end of a guid, and after fifteen the last byte of
the peer's guid is what lay there before. -/
theorem not_exactGuid_guidMessage :
    ntopeer Concrete.protobuf ⟨7, []⟩ (guidMessage 17) (guidMessage 17).length = .guidOverflow
      ∧ ¬ ExactGuid Concrete.protobuf ⟨7, []⟩ (guidMessage 17) (guidMessage 17).length
      ∧ ntopeer Concrete.protobuf ⟨7, [0xAA]⟩ (guidMessage 15) (guidMessage 15).length
        = .created ⟨7, ⟨List.replicate 15 1 ++ [0xAA], rfl⟩, host 1, some bob, 5⟩
      ∧ ¬ ExactGuid Concrete.protobuf ⟨7, [0xAA]⟩ (guidMessage 15) (guidMessage 15).length := by
  have hlong : ntopeer Concrete.protobuf ⟨7, []⟩ (guidMessage 17) (guidMessage 17).length
      = .guidOverflow := by
    decide +kernel
  have hshort : ntopeer Concrete.protobuf ⟨7, [0xAA]⟩ (guidMessage 15) (guidMessage 15).length
      = .created ⟨7, ⟨List.replicate 15 1 ++ [0xAA], rfl⟩, host 1, some bob, 5⟩ := by
    decide +kernel
  refine ⟨hlong, ?_, hshort, ?_⟩
  · rintro (hnull | ⟨_, p, _, hcreated, _⟩)
    · cases hlong.symm.trans hnull
    · cases hlong.symm.trans hcreated
  · rintro (hnull | ⟨msg, p, hmsg, hcreated, hguid⟩)
    · cases hshort.symm.trans hnull
    · rw [guidMessage, readBytes_self, Concrete.protobuf.unpack_pack] at hmsg
      obtain rfl := Option.some.inj hmsg
      have hlength := p.guid.length_eq
      rw [hguid] at hlength
      cases hlength

end Run

end WhisperCore
