import WhisperCore.Lib.Transition
import WhisperCore.Proof.DiscoveryPackets

/-!
# Peers that leave

A peer that stops says so with a STOP packet, and the handler lets STOP packets pass: `handle_stop`,
which would remove the sender's record, is not called. A record is removed only by another peer that
announces the name it is filed under from its address, and that need not be the name its own peer
announced. Histories of packets in which departures are honoured, and only the peers that others
replaced are gone, are characterised exactly.
-/

namespace WhisperCore

variable {strings : GuidStrings} {protobuf : PeerProtobuf}

/-! ### Well-formed packets -/

/-- The packets discovery services send. -/
inductive DiscoveryPacket where
  | list
  | peer (p : Peer)
  | stop (p : Peer)

/-- A LIST is sent with its terminator. -/
def DiscoveryPacket.bytes (protobuf : PeerProtobuf) : DiscoveryPacket → Bytes
  | .list => listCommand.bytes ++ [0]
  | .peer p => peerCommand.bytes ++ peerton protobuf p
  | .stop p => stopPacket protobuf p

/-- A packet that arrives, what it finds, and what lies behind it in memory. -/
structure PacketEvent where
  env : PacketSurroundings
  packet : DiscoveryPacket
  beyond : Bytes

/-- What was last heard of a peer. A peer is replaced when another peer announces the user name and
the address it announced itself. -/
inductive LastWord where
  | unheard
  | announced (userName hostAddress : CString)
  | replaced
  | departed
deriving DecidableEq

/-- A discovery service, and what it was told of each peer. -/
structure Listener where
  svc : DiscoveryService
  lastWord : Guid → LastWord

namespace Listener

def start (localPeer : Peer) (isActivePeer : Option (Int → Peer → Bool)) (now : Int) :
    Listener where
  svc := ⟨peerstoreInit localPeer isActivePeer now⟩
  lastWord := fun _ => .unheard

def hear (lastWord : Guid → LastWord) : DiscoveryPacket → Guid → LastWord
  | .list => lastWord
  | .peer p => fun guid =>
      if guid = p.guid then .announced p.userName p.hostAddress
      else if lastWord guid = .announced p.userName p.hostAddress then .replaced
      else lastWord guid
  | .stop p => Function.update lastWord p.guid .departed

def step (strings : GuidStrings) (protobuf : PeerProtobuf) (listener : Listener)
    (event : PacketEvent) : Option Listener :=
  let packet := event.packet.bytes protobuf
  match (discoveryReceiveHandler strings protobuf event.env listener.svc (packet ++ event.beyond)
    packet.length).result with
  | .error _ => none
  | .ok outcome => some ⟨outcome.svc, hear listener.lastWord event.packet⟩

variable {listener next : Listener} {env : PacketSurroundings} {p : Peer} {beyond : Bytes}

/-! ### One packet -/

theorem step_list (strings : GuidStrings) (protobuf : PeerProtobuf) (listener : Listener)
    (env : PacketSurroundings) (beyond : Bytes) :
    listener.step strings protobuf ⟨env, .list, beyond⟩
      = some ⟨⟨peerstoreSetLastUpdateTime listener.svc.peers env.now⟩, listener.lastWord⟩ := by
  simp only [step, DiscoveryPacket.bytes]
  rw [handler_of_list]
  rfl

theorem step_stop (strings : GuidStrings) (protobuf : PeerProtobuf) (listener : Listener)
    (env : PacketSurroundings) (p : Peer) (beyond : Bytes) :
    listener.step strings protobuf ⟨env, .stop p, beyond⟩
      = some ⟨listener.svc, Function.update listener.lastWord p.guid .departed⟩ := by
  have hlength : 4 ≤ (stopPacket protobuf p).length := by simp [stopPacket, stopCommand]
  have hlist : ¬ ∃ rest, stopPacket protobuf p = listCommand.bytes ++ rest := by
    simp [stopPacket, stopCommand, listCommand]
  have hpeer : ¬ ∃ payload, stopPacket protobuf p = peerCommand.bytes ++ payload := by
    simp [stopPacket, stopCommand, peerCommand]
  simp only [step, DiscoveryPacket.bytes]
  rw [handler_of_other hlength beyond hlist hpeer]
  rfl

/-- The record `ntopeer` makes of an announcement of `p`. -/
def received (env : PacketSurroundings) (p : Peer) : Peer :=
  { p with address := env.address, lastSeen := 0 }

theorem step_peer_eq_some_iff :
    listener.step strings protobuf ⟨env, .peer p, beyond⟩ = some next
      ↔ p.userName.bytes ≠ [] ∧ next.lastWord = hear listener.lastWord (.peer p)
        ∧ peerstoreStorePeer strings listener.svc.peers env.now (received env p)
          = some next.svc.peers := by
  have hhandled : ∀ after, handlePeer strings protobuf env listener.svc (peerton protobuf p)
      (peerton protobuf p).length = .ok after
        ↔ p.userName.bytes ≠ [] ∧ peerstoreStorePeer strings listener.svc.peers env.now
          (received env p) = some after.peers := by
    intro after
    rw [handlePeer_eq_ok_iff, ntopeer_peerton]
    constructor
    · rintro ⟨created, userName, hcreated, huserName, hstore⟩
      cases hcreated
      obtain ⟨hnonempty, rfl⟩ := peerCreate_userName_eq_some_iff.mp huserName
      exact ⟨hnonempty, hstore⟩
    · rintro ⟨hnonempty, hstore⟩
      exact ⟨_, p.userName, rfl, peerCreate_userName_eq_some_iff.mpr ⟨hnonempty, rfl⟩, hstore⟩
  simp only [step, DiscoveryPacket.bytes]
  rw [handler_of_peer]
  cases hresult : handlePeer strings protobuf env listener.svc (peerton protobuf p)
      (peerton protobuf p).length with
  | error fault =>
      constructor
      · intro hnext
        cases hnext
      · rintro ⟨hnonempty, _, hstore⟩
        rw [(hhandled next.svc).mpr ⟨hnonempty, hstore⟩] at hresult
        cases hresult
  | ok after =>
      constructor
      · intro hnext
        obtain rfl := Option.some.inj hnext
        obtain ⟨hnonempty, hstore⟩ := (hhandled after).mp hresult
        exact ⟨hnonempty, rfl, hstore⟩
      · rintro ⟨hnonempty, hword, hstore⟩
        rw [(hhandled next.svc).mpr ⟨hnonempty, hstore⟩] at hresult
        obtain rfl := Except.ok.inj hresult
        simp only [Except.map, ← hword]

/-! ### What every packet keeps -/

theorem filedByGuid_start (localPeer : Peer) (isActivePeer : Option (Int → Peer → Bool))
    (now : Int) : FiledByGuid strings (start localPeer isActivePeer now).svc.peers := nofun

theorem filedByGuid_step {event : PacketEvent} (h : FiledByGuid strings listener.svc.peers)
    (hstep : listener.step strings protobuf event = some next) :
    FiledByGuid strings next.svc.peers := by
  obtain ⟨env, packet, beyond⟩ := event
  cases packet with
  | list =>
      rw [step_list] at hstep
      obtain rfl := Option.some.inj hstep
      exact h
  | peer p =>
      obtain ⟨_, _, hstore⟩ := step_peer_eq_some_iff.mp hstep
      exact h.storePeer hstore
  | stop p =>
      rw [step_stop] at hstep
      obtain rfl := Option.some.inj hstep
      exact h

/-! ### Departures -/

/-- A peer, other than the local one, that has departed is not listed and not found; a peer that was
announced and not replaced is stored. -/
structure Honoured (strings : GuidStrings) (listener : Listener) : Prop where
  departed : ∀ guid, guid ≠ listener.svc.peers.localPeer.guid →
    listener.lastWord guid = .departed →
      guid ∉ peerstoreGetActiveGuids listener.svc.peers
      ∧ (peerstoreLookup strings listener.svc.peers guid).1 = none
      ∧ ∀ username r after, peerstoreLookupByUsername listener.svc.peers username
          = some (some r, after) → r.guid ≠ guid
  announced : ∀ guid userName hostAddress,
    listener.lastWord guid = .announced userName hostAddress →
    ∃ r, listener.svc.peers.peers.lookup (strings.toString guid) = some r

/-- The record of a guid, if there is one, is not active. -/
def Unseen (strings : GuidStrings) (ps : Peerstore) (guid : Guid) : Prop :=
  ∀ r, ps.peers.lookup (strings.toString guid) = some r → isPeerActive ps r = false

/-- The packet comes when it does no harm. A PEER has a name, whose entry in the namestore is not
freed, and a record it reconnects over belongs to a peer that announced that name and address; a
STOP of another peer finds no record of it that is active; a LIST brings the store to a time at
which no record of a departed peer is active. -/
def Considerate (strings : GuidStrings) (listener : Listener) (event : PacketEvent) : Prop :=
  match event.packet with
  | .list => ∀ guid, guid ≠ listener.svc.peers.localPeer.guid →
      listener.lastWord guid = .departed →
        Unseen strings (peerstoreSetLastUpdateTime listener.svc.peers event.env.now) guid
  | .peer p => p.userName.bytes ≠ []
      ∧ listener.svc.peers.namestore.lookup p.userName ≠ some .freed
      ∧ ∀ guidStr r userName hostAddress, Reconnects strings listener.svc.peers p guidStr r →
        listener.lastWord r.guid = .announced userName hostAddress →
          userName = p.userName ∧ hostAddress = p.hostAddress
  | .stop p => p.guid ≠ listener.svc.peers.localPeer.guid →
      Unseen strings listener.svc.peers p.guid

theorem unseen_iff {ps : Peerstore} (hfiled : FiledByGuid strings ps) {guid : Guid} :
    (guid ∉ peerstoreGetActiveGuids ps ∧ (peerstoreLookup strings ps guid).1 = none
        ∧ ∀ username r after, peerstoreLookupByUsername ps username = some (some r, after) →
          r.guid ≠ guid)
      ↔ Unseen strings ps guid := by
  have hof : ∀ guidStr r, ps.peers.lookup guidStr = some r → r.guid = guid →
      ps.peers.lookup (strings.toString guid) = some r := by
    rintro guidStr r hr rfl
    exact hfiled guidStr r hr ▸ hr
  constructor
  · rintro ⟨hlisted, _, _⟩ r hr
    by_contra hactive
    refine hlisted (mem_activeGuids.mpr ⟨_, r, hr, by simpa using hactive, ?_⟩)
    exact (strings.toString_injective (hfiled _ r hr)).symm
  · intro hunseen
    refine ⟨fun hlisted => ?_, ?_, fun username r after hlookup hguid => ?_⟩
    · obtain ⟨guidStr, r, hr, hactive, hguid⟩ := mem_activeGuids.mp hlisted
      rw [hunseen r (hof guidStr r hr hguid)] at hactive
      cases hactive
    · cases hlookup : peerstoreLookup strings ps guid with
      | mk result after =>
          cases result with
          | none => rfl
          | some r =>
              obtain ⟨hr, hactive, _⟩ := peerstoreLookup_eq_some hlookup
              rw [hunseen r hr] at hactive
              cases hactive
    · rcases lookupByUsername_cases hlookup with
        ⟨guidStr, found, _, hfound, hactive, hresult, _⟩ | ⟨_, _, _, _, _, hresult, _⟩
          | ⟨_, _, _, hresult, _⟩ | ⟨_, hresult, _⟩
      · obtain rfl : r = found := Option.some.inj hresult
        rw [hunseen r (hof guidStr r hfound hguid)] at hactive
        cases hactive
      all_goals cases hresult

theorem honoured_iff (hfiled : FiledByGuid strings listener.svc.peers) :
    Honoured strings listener
      ↔ (∀ guid, guid ≠ listener.svc.peers.localPeer.guid → listener.lastWord guid = .departed →
          Unseen strings listener.svc.peers guid)
        ∧ ∀ guid userName hostAddress, listener.lastWord guid = .announced userName hostAddress →
          ∃ r, listener.svc.peers.peers.lookup (strings.toString guid) = some r := by
  constructor
  · intro h
    refine ⟨fun guid hother hdeparted => ?_, h.announced⟩
    exact (unseen_iff hfiled).mp (h.departed guid hother hdeparted)
  · rintro ⟨hunseen, hstored⟩
    refine ⟨fun guid hother hdeparted => ?_, hstored⟩
    exact (unseen_iff hfiled).mpr (hunseen guid hother hdeparted)

theorem isPeerActive_storePeer {ps after : Peerstore} {now : Int}
    (hstore : peerstoreStorePeer strings ps now p = some after) (r : Peer) :
    isPeerActive after r = isPeerActive ps r := by
  obtain ⟨middle, hmiddle, hstored⟩ := storePeer_cases hstore
  have hmiddleActive : isPeerActive middle r = isPeerActive ps r := by
    rcases handlePeerReconnection_cases hmiddle with ⟨rfl, _⟩ | ⟨_, _, _, rfl⟩ <;> rfl
  rw [← hmiddleActive]
  cases hstored <;> rfl

section Announcement

variable (hword : next.lastWord = hear listener.lastWord (.peer p))
  (hstore : peerstoreStorePeer strings listener.svc.peers env.now (received env p)
    = some next.svc.peers)

theorem reconnects_received {ps : Peerstore} {guidStr : CString} {r : Peer} :
    Reconnects strings ps (received env p) guidStr r ↔ Reconnects strings ps p guidStr r :=
  ⟨fun h => ⟨h.named, h.other, h.filed, h.address⟩, fun h => ⟨h.named, h.other, h.filed, h.address⟩⟩

include hword hstore in
/-- An announcement changes nothing for a peer that has departed, unless the peer is back. -/
theorem Honoured.unseen_storePeer (hfiled : FiledByGuid strings listener.svc.peers)
    (h : Honoured strings listener) (guid : Guid)
    (hother : guid ≠ listener.svc.peers.localPeer.guid)
    (hdeparted : next.lastWord guid = .departed) : Unseen strings next.svc.peers guid := by
  intro r hr
  by_cases hown : guid = p.guid
  · simp [hword, hear, hown] at hdeparted
  · have hne : strings.toString guid ≠ strings.toString (received env p).guid := fun heq =>
      hown (strings.toString_injective heq)
    simp only [hword, hear, if_neg hown] at hdeparted
    split_ifs at hdeparted
    rw [isPeerActive_storePeer hstore]
    exact ((honoured_iff hfiled).mp h).1 guid hother hdeparted r
      (storePeer_lookup_of_ne hstore hne hr)

include hword hstore in
/-- An announcement leaves every announced peer stored if and only if a record it reconnects over
belongs to a peer that announced the same. -/
theorem Honoured.stored_storePeer_iff (hfiled : FiledByGuid strings listener.svc.peers)
    (h : Honoured strings listener) :
    (∀ guid userName hostAddress, next.lastWord guid = .announced userName hostAddress →
        ∃ r, next.svc.peers.peers.lookup (strings.toString guid) = some r)
      ↔ ∀ guidStr r userName hostAddress, Reconnects strings listener.svc.peers p guidStr r →
        listener.lastWord r.guid = .announced userName hostAddress →
          userName = p.userName ∧ hostAddress = p.hostAddress := by
  constructor
  · intro hstored guidStr r userName hostAddress hre hannounced
    by_contra hdiffers
    obtain rfl : guidStr = strings.toString r.guid := hfiled guidStr r hre.filed
    have hown : r.guid ≠ p.guid := fun heq => hre.other (congrArg strings.toString heq)
    have hkept : next.lastWord r.guid = .announced userName hostAddress := by
      simp only [hword, hear, if_neg hown, hannounced, LastWord.announced.injEq, if_neg hdiffers]
    obtain ⟨r', hr'⟩ := hstored r.guid userName hostAddress hkept
    obtain ⟨hfound, hnot⟩ := (storePeer_lookup_iff hstore hre.other).mp hr'
    obtain rfl : r = r' := Option.some.inj (hre.filed.symm.trans hfound)
    exact hnot (reconnects_received.mpr hre)
  · intro hsame guid userName hostAddress hannounced
    by_cases hown : guid = p.guid
    · subst hown
      obtain ⟨_, _, hstored⟩ := storePeer_cases hstore
      obtain ⟨r, hr, _⟩ := hstored.exists_record
      exact ⟨r, hr⟩
    · have hne : strings.toString guid ≠ strings.toString (received env p).guid := fun heq =>
        hown (strings.toString_injective heq)
      simp only [hword, hear, if_neg hown] at hannounced
      split_ifs at hannounced with hreplaced
      obtain ⟨r, hr⟩ := h.announced guid userName hostAddress hannounced
      refine ⟨r, (storePeer_lookup_iff hstore hne).mpr ⟨hr, fun hre => hreplaced ?_⟩⟩
      have hguid : guid = r.guid := strings.toString_injective (hfiled _ r hr)
      obtain ⟨rfl, rfl⟩ := hsame _ r userName hostAddress (reconnects_received.mp hre)
        (hguid ▸ hannounced)
      exact hannounced

end Announcement

/-- **One packet.** -/
theorem honoured_step_iff (hfiled : FiledByGuid strings listener.svc.peers)
    (h : Honoured strings listener) (event : PacketEvent) :
    (∃ next, listener.step strings protobuf event = some next ∧ Honoured strings next)
      ↔ Considerate strings listener event := by
  obtain ⟨env, packet, beyond⟩ := event
  obtain ⟨hunseen, hstored⟩ := (honoured_iff hfiled).mp h
  cases packet with
  | list =>
      have hnext := step_list strings protobuf listener env beyond
      have hexact := honoured_iff (filedByGuid_step hfiled hnext)
      constructor
      · rintro ⟨next, hstep, hhonoured⟩
        obtain rfl := Option.some.inj (hnext.symm.trans hstep)
        exact (hexact.mp hhonoured).1
      · intro hcond
        exact ⟨_, hnext, hexact.mpr ⟨hcond, hstored⟩⟩
  | peer p =>
      constructor
      · rintro ⟨next, hstep, hhonoured⟩
        obtain ⟨hnonempty, hword, hstore⟩ := step_peer_eq_some_iff.mp hstep
        have halive : listener.svc.peers.namestore.lookup (received env p).userName
            ≠ some .freed := storePeer_defined_iff.mp ⟨_, hstore⟩
        exact ⟨hnonempty, halive,
          (h.stored_storePeer_iff hword hstore hfiled).mp hhonoured.announced⟩
      · rintro ⟨hnonempty, halive, hsame⟩
        obtain ⟨peers, hstore⟩ : ∃ peers, peerstoreStorePeer strings listener.svc.peers env.now
            (received env p) = some peers := storePeer_defined_iff.mpr halive
        let next : Listener := ⟨⟨peers⟩, hear listener.lastWord (.peer p)⟩
        have hnext : listener.step strings protobuf ⟨env, .peer p, beyond⟩ = some next :=
          step_peer_eq_some_iff.mpr ⟨hnonempty, rfl, hstore⟩
        have hcall : (PeerstoreCall.storePeer env.now (received env p)).step strings
            listener.svc.peers = some next.svc.peers := hstore
        have hlocal : next.svc.peers.localPeer = listener.svc.peers.localPeer :=
          localPeer_step hcall
        refine ⟨next, hnext, (honoured_iff (filedByGuid_step hfiled hnext)).mpr ⟨?_, ?_⟩⟩
        · rw [hlocal]
          exact h.unseen_storePeer rfl hstore hfiled
        · exact (h.stored_storePeer_iff rfl hstore hfiled).mpr hsame
  | stop p =>
      have hnext := step_stop strings protobuf listener env p beyond
      have hexact := honoured_iff (filedByGuid_step hfiled hnext)
      constructor
      · rintro ⟨next, hstep, hhonoured⟩ hother
        obtain rfl := Option.some.inj (hnext.symm.trans hstep)
        exact (hexact.mp hhonoured).1 p.guid hother (Function.update_self _ _ _)
      · intro hcond
        refine ⟨_, hnext, hexact.mpr ⟨fun guid hother hdeparted => ?_, fun guid _ _ hword => ?_⟩⟩
        · by_cases hown : guid = p.guid
          · subst hown
            exact hcond hother
          · exact hunseen guid hother (by simpa [hown] using hdeparted)
        · by_cases hown : guid = p.guid
          · subst hown
            simp at hword
          · exact hstored guid _ _ (by simpa [hown] using hword)

/-- **Departures, exactly.** Over any well-formed packets a fresh store is told, every packet is
handled and every departure honoured in every state reached if and only if every packet comes when
it does no harm. -/
theorem stays_honoured_iff (strings : GuidStrings) (protobuf : PeerProtobuf) (localPeer : Peer)
    (isActivePeer : Option (Int → Peer → Bool)) (now : Int) (events : List PacketEvent) :
    Transition.Stays (step strings protobuf) (Honoured strings)
        (start localPeer isActivePeer now) events
      ↔ Transition.Along (step strings protobuf) (Considerate strings)
        (start localPeer isActivePeer now) events := by
  have hfiled : FiledByGuid strings (start localPeer isActivePeer now).svc.peers :=
    filedByGuid_start localPeer isActivePeer now
  refine Transition.stays_iff_along_of_kept (fun _ _ _ h hstep => filedByGuid_step h hstep)
    (fun _ event h hhonoured => honoured_step_iff h hhonoured event) hfiled ?_ events
  exact (honoured_iff hfiled).mpr ⟨nofun, nofun⟩

section Run

open Concrete

/-- Al announces himself and leaves. -/
def alLeaves : List PacketEvent :=
  [⟨⟨⟨7, []⟩, 1⟩, .peer (peer 1 al), []⟩, ⟨⟨⟨7, []⟩, 2⟩, .stop (peer 1 al), []⟩]

theorem not_honoured_alLeaves :
    ∃ listener, Transition.run (step guidStrings Concrete.protobuf)
        (start (peer 0 bob) none 0) alLeaves = some listener
      ∧ listener.lastWord (guid 1) = .departed
      ∧ peerstoreGetActiveGuids listener.svc.peers = [guid 1]
      ∧ (peerstoreLookup guidStrings listener.svc.peers (guid 1)).1.isSome
      ∧ ¬ Honoured guidStrings listener := by
  obtain ⟨listener, hrun⟩ : ∃ listener, Transition.run (step guidStrings Concrete.protobuf)
      (start (peer 0 bob) none 0) alLeaves = some listener := ⟨_, rfl⟩
  have hword : listener.lastWord (guid 1) = .departed := by
    obtain rfl := Option.some.inj hrun
    decide +kernel
  have hlisted : peerstoreGetActiveGuids listener.svc.peers = [guid 1] := by
    obtain rfl := Option.some.inj hrun
    decide +kernel
  have hother : guid 1 ≠ listener.svc.peers.localPeer.guid := by
    obtain rfl := Option.some.inj hrun
    decide +kernel
  have hfound : (peerstoreLookup guidStrings listener.svc.peers (guid 1)).1.isSome := by
    obtain rfl := Option.some.inj hrun
    decide +kernel
  refine ⟨listener, hrun, hword, hlisted, hfound, fun hhonoured => ?_⟩
  obtain ⟨hunlisted, _⟩ := hhonoured.departed (guid 1) hother hword
  rw [hlisted] at hunlisted
  exact hunlisted (List.mem_singleton_self _)

/-- A third peer announces, from Bob's address, the name a clash gave him. -/
def takesSuffix : List PacketEvent :=
  [⟨⟨⟨7, []⟩, 1⟩, .peer (peer 1 bob), []⟩, ⟨⟨⟨8, []⟩, 2⟩, .peer (peer 2 bob), []⟩,
    ⟨⟨⟨9, []⟩, 3⟩, .peer { peer 3 (uniqueUsername bob (guidStrings.toString (guid 2))) with
      hostAddress := host 2 }, []⟩]

/-- Bob is gone, though nobody announced what he announced. -/
example : (Transition.run (step guidStrings Concrete.protobuf) (start (peer 0 al) none 0)
    takesSuffix).any (fun listener => listener.lastWord (guid 2) = .announced bob (host 2)
      && listener.svc.peers.peers.lookup (guidStrings.toString (guid 2)) = none) = true := by
  decide +kernel

end Run

end Listener

end WhisperCore
