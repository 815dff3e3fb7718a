import WhisperCore.Concrete
import WhisperCore.Proof.HandshakeOrder

/-!
# Peer records and the connections that point to them

A connection request holds a pointer to a record of the peerstore, and nothing tells it when the
record goes. Records go in two ways: a lookup evicts one that is no longer active, and an
announcement of the same name from the same address takes another peer's place. A run is safe as
long as neither happens to the record of a connection.
-/

namespace WhisperCore

/-! ### Records in the peerstore -/

section Records

variable {strings : GuidStrings} {ps after : Peerstore} {p r : Peer} {now : Int} {ref : PeerRef}

/-- The store still holds the record a pointer points to. -/
def Held (strings : GuidStrings) (ps : Peerstore) (ref : PeerRef) : Prop :=
  ∃ r, ps.peers.lookup (strings.toString ref.guid) = some r ∧ r.ref = ref

/-- A call that removes a record and frees it. -/
inductive CallRemoves (strings : GuidStrings) (ps : Peerstore) : PeerstoreCall → Peer → Prop where
  | reconnection (now : Int) (p : Peer) (guidStr : CString) (old : Peer)
      (hreconnects : Reconnects strings ps p guidStr old) :
      CallRemoves strings ps (.storePeer now p) old
  | lookup (guid : Guid) (r : Peer)
      (hfiled : ps.peers.lookup (strings.toString guid) = some r)
      (hinactive : isPeerActive ps r = false) : CallRemoves strings ps (.lookup guid) r
  | lookupByUsername (username guidStr : CString) (r : Peer)
      (hname : ps.namestore.lookup username = some (.live guidStr))
      (hfiled : ps.peers.lookup guidStr = some r) (hinactive : isPeerActive ps r = false) :
      CallRemoves strings ps (.lookupByUsername username) r

theorem callRemoves_storePeer_iff :
    CallRemoves strings ps (.storePeer now p) r
      ↔ ∃ guidStr, Reconnects strings ps p guidStr r := by
  constructor
  · rintro ⟨⟩
    exact ⟨_, ‹_›⟩
  · rintro ⟨guidStr, hreconnects⟩
    exact .reconnection now p guidStr r hreconnects

theorem callRemoves_lookup_iff {guid : Guid} :
    CallRemoves strings ps (.lookup guid) r
      ↔ ps.peers.lookup (strings.toString guid) = some r ∧ isPeerActive ps r = false := by
  constructor
  · rintro ⟨⟩
    exact ⟨‹_›, ‹_›⟩
  · rintro ⟨hfiled, hinactive⟩
    exact .lookup guid r hfiled hinactive

/-- A lookup that finds a record removes none. -/
theorem not_callRemoves_of_found {guid : Guid} {found : Peer}
    (hfound : peerstoreLookup strings ps guid = (some found, after)) :
    ¬ CallRemoves strings ps (.lookup guid) r := by
  obtain ⟨hfiled, hactive, _⟩ := peerstoreLookup_eq_some hfound
  rw [callRemoves_lookup_iff]
  rintro ⟨hr, hinactive⟩
  obtain rfl := Option.some.inj (hfiled.symm.trans hr)
  cases hactive.symm.trans hinactive

theorem callRemoves_lookupByUsername_iff {username : CString} :
    CallRemoves strings ps (.lookupByUsername username) r
      ↔ ∃ guidStr, ps.namestore.lookup username = some (.live guidStr)
        ∧ ps.peers.lookup guidStr = some r ∧ isPeerActive ps r = false := by
  constructor
  · rintro ⟨⟩
    exact ⟨_, ‹_›, ‹_›, ‹_›⟩
  · rintro ⟨guidStr, hname, hfiled, hinactive⟩
    exact .lookupByUsername username guidStr r hname hfiled hinactive

theorem CallRemoves.exists_step {call : PeerstoreCall} (h : CallRemoves strings ps call r) :
    ∃ after, call.step strings ps = some after := by
  cases h with
  | reconnection now p guidStr old hreconnects =>
      apply Option.ne_none_iff_exists'.mp
      intro hnone
      have hfreed := (storePeer_eq_none_iff now).mp hnone
      cases hfreed.symm.trans hreconnects.named
  | lookup guid r hfiled hinactive => exact ⟨_, rfl⟩
  | lookupByUsername username guidStr r hname hfiled hinactive =>
      apply Option.ne_none_iff_exists'.mp
      intro hnone
      have hfreed := lookupByUsername_eq_none_iff.mp (Option.map_eq_none_iff.mp hnone)
      cases hfreed.symm.trans hname

theorem Held.of_lookup (hfiled : FiledByGuid strings ps) {guidStr : CString}
    (hr : ps.peers.lookup guidStr = some r) : Held strings ps r.ref :=
  ⟨r, hfiled guidStr r hr ▸ hr, rfl⟩

/-- Erasing a record takes it from the pointers to it and from no others. -/
theorem held_erase_iff (hfiled : FiledByGuid strings ps) {guidStr : CString}
    (hr : ps.peers.lookup guidStr = some r) (namestore : JnxHash GuidStr)
    (hheld : Held strings ps ref) :
    Held strings { ps with peers := ps.peers.erase guidStr, namestore := namestore } ref
      ↔ r.ref ≠ ref := by
  constructor
  · rintro ⟨found, hfound, rfl⟩ heq
    obtain ⟨hother, _⟩ := lookup_erase_eq_some_iff.mp hfound
    have hguid : r.guid = found.guid := congrArg PeerRef.guid heq
    exact hother (by rw [hfiled guidStr r hr, hguid, Peer.ref_guid])
  · intro hne
    obtain ⟨found, hfound, rfl⟩ := hheld
    refine ⟨found, lookup_erase_eq_some_iff.mpr ⟨fun heq => hne ?_, hfound⟩, rfl⟩
    rw [heq] at hfound
    rw [Option.some.inj (hr.symm.trans hfound)]

/-- Once no record has to give way, storing a peer keeps every record where it is. -/
theorem held_stored_iff (h : Stored strings ps now p after)
    (hkept : ref.guid = p.guid → Held strings ps ref) :
    Held strings after ref ↔ Held strings ps ref := by
  by_cases hguid : ref.guid = p.guid
  · refine ⟨fun _ => hkept hguid, fun _ => ?_⟩
    obtain ⟨found, hfound, rfl⟩ := hkept hguid
    rw [hguid] at hfound
    have hself : ∀ new : Peer, new.ref = found.ref →
        ∃ r, (ps.peers.insert (strings.toString p.guid) new).lookup
          (strings.toString found.ref.guid) = some r ∧ r.ref = found.ref := fun new hnew =>
      ⟨new, by rw [hguid]; exact AList.lookup_insert _, hnew⟩
    cases h with
    | updated old hfiled hname =>
        obtain rfl := Option.some.inj (hfiled.symm.trans hfound)
        exact hself _ rfl
    | renamed old name hfiled hname hfiledName =>
        obtain rfl := Option.some.inj (hfiled.symm.trans hfound)
        exact hself _ rfl
    | inserted name hfiled hfiledName => cases hfiled.symm.trans hfound
  · have hne : strings.toString ref.guid ≠ strings.toString p.guid := fun heq =>
      hguid (strings.toString_injective heq)
    rw [Held, Held, h.lookup_of_ne hne]

theorem held_storePeer_iff (hfiled : FiledByGuid strings ps) (hheld : Held strings ps ref)
    (hstore : peerstoreStorePeer strings ps now p = some after) :
    Held strings after ref
      ↔ ∀ old, CallRemoves strings ps (.storePeer now p) old → old.ref ≠ ref := by
  obtain ⟨middle, hmiddle, hstored⟩ := storePeer_cases hstore
  simp only [callRemoves_storePeer_iff]
  rcases handlePeerReconnection_cases hmiddle with ⟨rfl, hnone⟩ | ⟨guidStr, old, hre, rfl⟩
  · rw [held_stored_iff hstored fun _ => hheld]
    refine iff_of_true hheld fun removed hremoves => ?_
    obtain ⟨guidStr, hother⟩ := hremoves
    exact absurd hother (hnone guidStr removed)
  · have herase := held_erase_iff hfiled hre.filed (ps.namestore.insert p.userName .freed) hheld
    have hkept : ref.guid = p.guid → Held strings
        { ps with
          peers := ps.peers.erase guidStr
          namestore := ps.namestore.insert p.userName .freed } ref := by
      intro hguid
      apply herase.mpr
      intro heq
      apply hre.other
      rw [hfiled guidStr old hre.filed, ← hguid, ← heq, Peer.ref_guid]
    rw [held_stored_iff hstored hkept, herase]
    constructor
    · rintro hne removed ⟨other, hother⟩
      obtain rfl : other = guidStr := by simpa using hother.named.symm.trans hre.named
      rwa [Option.some.inj (hother.filed.symm.trans hre.filed)]
    · exact fun h => h old ⟨guidStr, hre⟩

/-- **What a call does to a held record.** It stays unless the call removes it. -/
theorem held_step_iff (hfiled : FiledByGuid strings ps) (hheld : Held strings ps ref)
    {call : PeerstoreCall} (hstep : call.step strings ps = some after) :
    Held strings after ref ↔ ∀ r, CallRemoves strings ps call r → r.ref ≠ ref := by
  cases call with
  | storePeer now p => exact held_storePeer_iff hfiled hheld hstep
  | lookup guid =>
      obtain rfl := Option.some.inj hstep
      simp only [callRemoves_lookup_iff]
      rcases peerstoreLookup_cases strings ps guid with
        ⟨r, hr, hactive, heq⟩ | ⟨r, hr, hinactive, heq⟩ | ⟨hr, heq⟩
      · rw [heq]
        exact iff_of_true hheld (by simp [hr, hactive])
      · rw [heq, held_erase_iff hfiled hr ps.namestore hheld]
        simp [hr, hinactive]
      · rw [heq]
        exact iff_of_true hheld (by simp [hr])
  | lookupByUsername username =>
      obtain ⟨⟨result, next⟩, hlookup, rfl⟩ := Option.map_eq_some_iff.mp hstep
      simp only [callRemoves_lookupByUsername_iff]
      rcases lookupByUsername_cases hlookup with
        ⟨guidStr, r, hname, hr, hactive, _, rfl⟩ | ⟨guidStr, r, hname, hr, hinactive, _, rfl⟩
        | ⟨guidStr, hname, hr, _, rfl⟩ | ⟨hname, _, rfl⟩
      · exact iff_of_true hheld (by simp [hname, hr, hactive])
      · rw [held_erase_iff hfiled hr ps.namestore hheld]
        simp [hname, hr, hinactive]
      · exact iff_of_true hheld (by simp [hname, hr])
      · exact iff_of_true hheld (by simp [hname])
  | setLastUpdateTime lastUpdate =>
      obtain rfl := Option.some.inj hstep
      exact iff_of_true hheld fun removed hremoves => nomatch hremoves

end Records

/-! ### Connections and the mux -/

variable {Key : Type} {lib : Libraries Key} {process next : Process Key}
  {event : ProcessEvent Key} {address : Nat} {c c' : ConnectionRequest Key}

/-- The store holds the record every connection has as its remote. -/
def RemotesHeld (lib : Libraries Key) (process : Process Key) : Prop :=
  ∀ address c, process.controller.connections.get? address = some c →
    Held lib.guid process.controller.ds.peers c.remote

/-- Every message the mux still has to send goes to the remote peer of some connection. -/
def QueuedToRemotes (lib : Libraries Key) (process : Process Key) : Prop :=
  ∀ message ∈ process.mux, ∃ address c, process.controller.connections.get? address = some c
    ∧ message.recipient = lib.guid.toString c.remote.guid

structure Anchored (lib : Libraries Key) (process : Process Key) : Prop where
  held : RemotesHeld lib process
  filed : FiledByGuid lib.guid process.controller.ds.peers
  queued : QueuedToRemotes lib process

/-- A connection after a step was there before, was opened towards the sender of a message, whose
record is held, or was initiated. -/
theorem remote_before (hstep : process.step lib event = some next)
    (hget : next.controller.connections.get? address = some c')
    (hfiled : FiledByGuid lib.guid process.controller.ds.peers) :
    (∃ c, process.controller.connections.get? address = some c ∧ c.remote = c'.remote)
      ∨ (∃ env m, event = .incoming env m
        ∧ Held lib.guid process.controller.ds.peers c'.remote)
      ∨ ∃ env, event = .initiation env c'.remote := by
  rcases connection_before hstep hget with ⟨c, hbefore, hmoves⟩ | hopens
  · exact Or.inl ⟨c, hbefore, hmoves.sameRequest.remote.symm⟩
  · cases hopens with
    | initiated env remote => exact Or.inr (Or.inr ⟨env, rfl⟩)
    | answered env m remote hknown =>
        obtain ⟨hremote, _, _⟩ := peerstoreLookup_eq_some hknown.found
        exact Or.inr (Or.inl ⟨env, m, rfl, Held.of_lookup hfiled hremote⟩)

/-- What the processor pushes goes to the remote peer of a connection. -/
theorem Processed.pushed_recipient {env : Ambient Key} {controller : ConnectionController Key}
    {message out : Wpmessage} {remote : Peer} {outcome : Outcome Key}
    (h : Processed lib env controller message remote outcome) (hout : out ∈ outcome.pushed) :
    ∃ address c, outcome.controller.connections.get? address = some c
      ∧ out.recipient = lib.guid.toString c.remote.guid := by
  cases h with
  | createSession haction hfind =>
      obtain rfl := List.mem_singleton.mp hout
      exact ⟨_, _, Arena.get?_add_next _ _, rfl⟩
  | respondingCreatedSession address c cipher haction hfind hcipher =>
      obtain rfl := List.mem_singleton.mp hout
      exact ⟨address, _, Arena.get?_set_self _ (get?_of_findConnection hfind).1, rfl⟩
  | sharingSessionKey address c decrypted secret haction hfind hdecrypt hdecode hlong =>
      obtain rfl := List.mem_singleton.mp hout
      exact ⟨address, _, Arena.get?_set_self _ (get?_of_findConnection hfind).1, rfl⟩
  | completedSession address c secret haction hfind hkey => cases hout
  | communicatingSession address c secret haction hfind hkey => cases hout

/-- The records of the remote peers outlive a step, and an emission finds its recipient's record. -/
structure RecordsOutlive (lib : Libraries Key) (process : Process Key) (event : ProcessEvent Key) :
    Prop where
  remotes : ∀ next, process.step lib event = some next → RemotesHeld lib next
  emitter : event = .emits → ∀ message rest, process.mux = message :: rest →
    ∃ r peers, peerstoreLookup lib.guid process.controller.ds.peers
      (lib.guid.fromString message.recipient) = (some r, peers)

/-- An event in which a call removes a record and frees it. The processor makes a lookup too, of the
message's sender, but a lookup that removes the record ends the process. -/
inductive Removes (lib : Libraries Key) (process : Process Key) :
    ProcessEvent Key → Peer → Prop where
  | discovery (call : PeerstoreCall) (r : Peer)
      (hcall : CallRemoves lib.guid process.controller.ds.peers call r) :
      Removes lib process (.discovery call) r
  | emission (message : Wpmessage) (rest : List Wpmessage) (r : Peer)
      (hmux : process.mux = message :: rest)
      (hcall : CallRemoves lib.guid process.controller.ds.peers
        (.lookup (lib.guid.fromString message.recipient)) r) :
      Removes lib process .emits r

/-- Initiations go to stored peers, and no record is removed that a connection has as its remote. -/
structure SparesRemotes (lib : Libraries Key) (process : Process Key) (event : ProcessEvent Key) :
    Prop where
  stored : ∀ env remote, event = .initiation env remote →
    Held lib.guid process.controller.ds.peers remote
  spared : ∀ r, Removes lib process event r →
    ∀ address c, process.controller.connections.get? address = some c → c.remote ≠ r.ref

/-- What a step does to a record the store holds. -/
theorem held_process_step_iff (hstep : process.step lib event = some next)
    (hfiled : FiledByGuid lib.guid process.controller.ds.peers) {ref : PeerRef}
    (hheld : Held lib.guid process.controller.ds.peers ref) :
    Held lib.guid next.controller.ds.peers ref
      ↔ ∀ r, Removes lib process event r → r.ref ≠ ref := by
  cases process_step_cases hstep with
  | discovered call peers hcall =>
      rw [ConnectionController.setPeers_peers, held_step_iff hfiled hheld hcall]
      constructor
      · intro hspared r hremoves
        cases hremoves with
        | discovery _ _ hcallRemoves => exact hspared r hcallRemoves
      · exact fun hspared r hremoves => hspared r (.discovery call r hremoves)
  | initiated env remote => exact iff_of_true hheld fun r hremoves => nomatch hremoves
  | processed env m remote outcome hknown hprocessed =>
      have hpeers : outcome.controller.ds.peers = process.controller.ds.peers := by
        cases hprocessed <;> rfl
      simp only [hpeers]
      exact iff_of_true hheld fun r hremoves => nomatch hremoves
  | sent envs s text len messages hsent =>
      exact iff_of_true hheld fun r hremoves => nomatch hremoves
  | idle hmux =>
      refine iff_of_true hheld fun r hremoves => ?_
      cases hremoves with
      | emission message rest _ hother _ => cases hmux.symm.trans hother
  | emitted message rest remotePeer hmux hfound =>
      refine iff_of_true hheld fun r hremoves => ?_
      cases hremoves with
      | emission other _ _ hother hcall =>
          obtain ⟨rfl, _⟩ := List.cons_eq_cons.mp (hmux.symm.trans hother)
          exact absurd hcall (not_callRemoves_of_found hfound)

theorem Anchored.init (port : CString) (localPeer : Peer) (iap : Option (Int → Peer → Bool))
    (now : Int) (nc ic cmr : Bool) :
    Anchored lib (Process.start port localPeer iap now nc ic cmr) where
  held := fun _ _ hget => nomatch hget
  filed := fun _ _ hr => nomatch hr
  queued := fun _ hmessage => nomatch hmessage

/-- A removal goes through: the step is taken. -/
theorem Removes.exists_step {r : Peer} (h : Removes lib process event r)
    (houtlive : RecordsOutlive lib process event) : ∃ next, process.step lib event = some next := by
  cases h with
  | discovery call r hcall =>
      obtain ⟨peers, hpeers⟩ := hcall.exists_step
      exact ⟨_, by rw [Process.step, hpeers]; rfl⟩
  | emission message rest r hmux hcall =>
      obtain ⟨found, peers, hfound⟩ := houtlive.emitter rfl message rest hmux
      exact absurd hcall (not_callRemoves_of_found hfound)

theorem sparesRemotes_of_recordsOutlive (hanchored : Anchored lib process)
    (h : RecordsOutlive lib process event) : SparesRemotes lib process event where
  stored := by
    rintro env remote rfl
    exact h.remotes _ rfl _ _ (Arena.get?_add_next _ _)
  spared := by
    intro r hremoves address c hget heq
    obtain ⟨next, hstep⟩ := hremoves.exists_step h
    obtain ⟨c', hget', hmoves⟩ := connection_moves hstep hget
    have hafter := h.remotes next hstep address c' hget'
    rw [hmoves.sameRequest.remote] at hafter
    exact (held_process_step_iff hstep hanchored.filed (hanchored.held address c hget)).mp hafter r
      hremoves heq.symm

theorem recordsOutlive_of_sparesRemotes (hanchored : Anchored lib process)
    (h : SparesRemotes lib process event) : RecordsOutlive lib process event where
  remotes := by
    intro next hstep address c' hget
    have hkept : ∀ ref, Held lib.guid process.controller.ds.peers ref →
        (∀ r, Removes lib process event r → r.ref ≠ ref) →
        Held lib.guid next.controller.ds.peers ref := fun _ hheld hspared =>
      (held_process_step_iff hstep hanchored.filed hheld).mpr hspared
    rcases remote_before hstep hget hanchored.filed with
      ⟨c, hbefore, hremote⟩ | ⟨env, m, rfl, hheld⟩ | ⟨env, rfl⟩
    · rw [← hremote]
      apply hkept _ (hanchored.held address c hbefore)
      intro r hremoves heq
      exact h.spared r hremoves address c hbefore heq.symm
    · exact hkept _ hheld fun r hremoves => nomatch hremoves
    · exact hkept _ (h.stored env _ rfl) fun r hremoves => nomatch hremoves
  emitter := by
    rintro rfl message rest hmux
    obtain ⟨address, c, hget, hrecipient⟩ :=
      hanchored.queued message (hmux ▸ List.mem_cons_self)
    obtain ⟨r, hr, hremote⟩ := hanchored.held address c hget
    have hguid : lib.guid.fromString message.recipient = c.remote.guid := by
      rw [hrecipient, GuidStrings.fromString_toString]
    rcases peerstoreLookup_cases lib.guid process.controller.ds.peers c.remote.guid with
      ⟨found, _, _, heq⟩ | ⟨found, hfound, hinactive, _⟩ | ⟨hnone, _⟩
    · exact ⟨found, _, hguid ▸ heq⟩
    · obtain rfl := Option.some.inj (hr.symm.trans hfound)
      have hremoves : Removes lib process .emits r :=
        .emission message rest r hmux (hguid.symm ▸ .lookup _ r hr hinactive)
      exact absurd hremote.symm (h.spared r hremoves address c hget)
    · cases hr.symm.trans hnone

theorem recordsOutlive_iff (hanchored : Anchored lib process) :
    RecordsOutlive lib process event ↔ SparesRemotes lib process event :=
  ⟨sparesRemotes_of_recordsOutlive hanchored, recordsOutlive_of_sparesRemotes hanchored⟩

/-- What was queued stays addressed to a connection's remote, and so is what is queued now. -/
theorem QueuedToRemotes.step (h : QueuedToRemotes lib process)
    (hstep : process.step lib event = some next) : QueuedToRemotes lib next := by
  have hkept : ∀ message ∈ process.mux, ∃ address c,
      next.controller.connections.get? address = some c
        ∧ message.recipient = lib.guid.toString c.remote.guid := by
    intro message hmessage
    obtain ⟨address, c, hget, hrecipient⟩ := h message hmessage
    obtain ⟨c', hget', hmoves⟩ := connection_moves hstep hget
    exact ⟨address, c', hget', by rw [hrecipient, hmoves.sameRequest.remote]⟩
  intro message hmessage
  cases process_step_cases hstep with
  | discovered call peers hcall => exact hkept message hmessage
  | initiated env remote =>
      rcases List.mem_append.mp hmessage with hold | hnew
      · exact hkept message hold
      · obtain rfl := List.mem_singleton.mp hnew
        exact ⟨_, _, Arena.get?_add_next _ _, rfl⟩
  | processed env m remote outcome hknown hprocessed =>
      rcases List.mem_append.mp hmessage with hold | hnew
      · exact hkept message hold
      · exact hprocessed.pushed_recipient hnew
  | sent envs s text len messages hsent =>
      rcases List.mem_append.mp hmessage with hold | hnew
      · exact hkept message hold
      · obtain ⟨f, address, c, rfl, hover⟩ := hsent message hnew
        exact ⟨address, c, hover.held, hover.recipient⟩
  | idle hmux => exact hkept message hmessage
  | emitted sent rest remotePeer hmux hfound =>
      exact hkept message (hmux ▸ List.mem_cons_of_mem _ hmessage)

theorem FiledByGuid.processStep (h : FiledByGuid lib.guid process.controller.ds.peers)
    (hstep : process.step lib event = some next) :
    FiledByGuid lib.guid next.controller.ds.peers := by
  cases process_step_cases hstep with
  | discovered call peers hcall => exact h.step hcall
  | initiated env remote => exact h
  | processed env m remote outcome hknown hprocessed => cases hprocessed <;> exact h
  | sent envs s text len messages hsent => exact h
  | idle hmux => exact h
  | emitted message rest remotePeer hmux hfound => exact h

theorem Anchored.step (h : Anchored lib process) (houtlive : RecordsOutlive lib process event)
    (hstep : process.step lib event = some next) : Anchored lib next where
  held := houtlive.remotes next hstep
  filed := h.filed.processStep hstep
  queued := h.queued.step hstep

/-! ### Runs -/

section Run

open Concrete

/-- Bob's process, under the discovery service's periodic updates. -/
def watchfulBob : Process CString :=
  Process.start (host 0) (peer 0 bob) (some isActivePeerPeriodicUpdate) 0 true true true

/-- Bob opens a connection to Al and then hears nothing of him for a while. -/
def waitingEvents : List (ProcessEvent CString) :=
  [.discovery (.storePeer 1 (peer 1 al)),
    .initiation (ambient bob (guid 7) fun _ => 0) (peer 1 al).ref,
    .discovery (.setLastUpdateTime 12)]

/-- Bob looks Al up, with the first message to him still queued. -/
def evictingEvents : List (ProcessEvent CString) := waitingEvents ++ [.discovery (.lookup (guid 1))]

end Run

end WhisperCore
