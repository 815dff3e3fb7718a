import WhisperCore.Proof.TruePeers

/-!
# Peers found

Where services stand at distinct addresses and have distinct names, a service without a strategy
knows exactly the peers it has heard, and hears those that answer its requests.
-/

namespace WhisperCore

namespace Lan

variable {strings : GuidStrings} {protobuf : PeerProtobuf} {lan next : Lan} {event : LanEvent}
  {g h : Guid} {profile : Guid → Peer} {heard : Guid → Option Int} {ps after : Peerstore}
  {members : Set Guid}

/-! ### Everybody that was heard -/

/-- The store of a service without a strategy, among members with distinct names: the tables hold
the peers that were heard, each under its own name. -/
structure Mirrors (strings : GuidStrings) (profile : Guid → Peer) (members : Set Guid)
    (heard : Guid → Option Int) (ps : Peerstore) : Prop extends
    Settled strings profile members heard ps where
  active : ∀ t p, ps.isActivePeer t p = true
  recorded : ∀ h t, heard h = some t → ∃ r, ps.peers.lookup (strings.toString h) = some r
    ∧ r.userName = (profile h).userName
  named : ∀ h t, heard h = some t →
    ps.namestore.lookup (profile h).userName = some (.live (strings.toString h))
  only : ∀ username entry, ps.namestore.lookup username = some entry →
    ∃ h t, heard h = some t ∧ username = (profile h).userName

/-- A name in the store leads to the record of the peer that has it. -/
theorem Mirrors.leads (hm : Mirrors strings profile members heard ps) {username guidStr : CString}
    (hname : ps.namestore.lookup username = some (.live guidStr)) :
    ∃ h r, username = (profile h).userName ∧ guidStr = strings.toString h
      ∧ ps.peers.lookup guidStr = some r := by
  obtain ⟨h, t, hheard, rfl⟩ := hm.only username _ hname
  obtain ⟨r, hr, _⟩ := hm.recorded h t hheard
  have hguidStr := GuidStr.live.inj (Option.some.inj (hname.symm.trans (hm.named h t hheard)))
  exact ⟨h, r, rfl, hguidStr, hguidStr ▸ hr⟩

theorem Mirrors.lookup_eq (hm : Mirrors strings profile members heard ps) (guid : Guid) :
    (peerstoreLookup strings ps guid).2 = ps := by
  rcases peerstoreLookup_cases strings ps guid with
    ⟨_, _, _, heq⟩ | ⟨r, _, hinactive, _⟩ | ⟨_, heq⟩
  · rw [heq]
  · cases hinactive.symm.trans (hm.active ps.lastUpdate r)
  · rw [heq]

theorem Mirrors.lookupByUsername_eq (hm : Mirrors strings profile members heard ps)
    {username : CString} {result : Option Peer}
    (hlookup : peerstoreLookupByUsername ps username = some (result, after)) : after = ps := by
  rcases lookupByUsername_cases hlookup with
    ⟨_, _, _, _, _, _, rfl⟩ | ⟨_, r, _, _, hinactive, _, _⟩ | ⟨_, hname, hgone, _, _⟩
      | ⟨_, _, rfl⟩
  · rfl
  · cases hinactive.symm.trans (hm.active ps.lastUpdate r)
  · obtain ⟨_, r, _, _, hr⟩ := hm.leads hname
    cases hgone.symm.trans hr
  · rfl

/-- Who was heard stays heard. -/
theorem heard_update {other : Guid} {t : Int} (hother : heard other = some t) (h : Guid)
    (now : Int) : ∃ t', Function.update heard h (some now) other = some t' := by
  by_cases hsame : other = h
  · subst hsame
    exact ⟨now, Function.update_self _ _ _⟩
  · exact ⟨t, (Function.update_of_ne hsame _ _).trans hother⟩

/-- The name of a member that was not heard is free. -/
theorem Mirrors.free (hm : Mirrors strings profile members heard ps)
    (hdistinct : Set.InjOn (fun g => (profile g).userName) members) (hmember : h ∈ members)
    (hunheard : heard h = none) : ps.namestore.lookup (profile h).userName = none := by
  apply Option.eq_none_iff_forall_ne_some.mpr
  intro entry hentry
  obtain ⟨other, t, hother, hname⟩ := hm.only _ entry hentry
  have hmemberOther : other ∈ members := hm.members other (by simp [hother])
  obtain rfl : h = other := hdistinct hmember hmemberOther hname
  cases hunheard.symm.trans hother

/-- An announcement adds its peer to what the store holds, or brings its record up to date. -/
theorem Mirrors.storePeer (hm : Mirrors strings profile members heard ps)
    (haddresses : Set.InjOn (fun g => (profile g).hostAddress) members)
    (hdistinct : Set.InjOn (fun g => (profile g).userName) members)
    (hguid : ∀ g, (profile g).guid = g) (hmember : h ∈ members) {env : PacketSurroundings}
    (hstore : peerstoreStorePeer strings ps env.now (announcedPeer env (profile h)) = some after)
    (hsettled : Settled strings profile members (Function.update heard h (some env.now)) after) :
    Mirrors strings profile members (Function.update heard h (some env.now)) after := by
  have hstored := storePeer_of_forall_not hstore (hm.not_reconnects haddresses (hguid h) hmember)
  have hstring : strings.toString (announcedPeer env (profile h)).guid = strings.toString h :=
    congrArg strings.toString (hguid h)
  have hkey : ∀ {other}, other ≠ h → strings.toString other ≠ strings.toString h :=
    fun hne heq => hne (strings.toString_injective heq)
  cases hstored with
  | updated old hfound hprefix =>
      rw [hstring] at hfound hsettled ⊢
      have hheard : heard h = some old.lastSeen := by
        have hold : old.guid = h := (strings.toString_injective (hm.filed _ old hfound)).symm
        exact hold ▸ (hm.records _ old hfound).lastSeen
      have hname : old.userName = (profile h).userName := by
        obtain ⟨r, hr, hname⟩ := hm.recorded h _ hheard
        obtain rfl : r = old := Option.some.inj (hr.symm.trans hfound)
        exact hname
      refine ⟨hsettled, hm.active, fun other t hother => ?_, fun other t hother => ?_,
        fun username entry hentry => ?_⟩
      · by_cases hsame : other = h
        · subst hsame
          exact ⟨_, AList.lookup_insert _, hname⟩
        · rw [Function.update_of_ne hsame] at hother
          rw [AList.lookup_insert_ne (hkey hsame)]
          exact hm.recorded other t hother
      · by_cases hsame : other = h
        · subst hsame
          exact hm.named other _ hheard
        · rw [Function.update_of_ne hsame] at hother
          exact hm.named other t hother
      · obtain ⟨other, t, hother, husername⟩ := hm.only username entry hentry
        obtain ⟨t', ht'⟩ := heard_update hother h env.now
        exact ⟨other, t', ht', husername⟩
  | renamed old name hfound hdiffers hname =>
      rw [hstring] at hfound
      have hold : old.guid = h := (strings.toString_injective (hm.filed _ old hfound)).symm
      have hgoes := (hm.records _ old hfound).userName
      rw [hold] at hgoes
      exact absurd hgoes.isPrefix hdiffers
  | inserted name hfound hname =>
      rw [hstring] at hfound hname hsettled ⊢
      have hunheard : heard h = none := by
        apply Option.eq_none_iff_forall_ne_some.mpr
        intro t ht
        obtain ⟨r, hr, _⟩ := hm.recorded h t ht
        cases hfound.symm.trans hr
      have hfree := hm.free hdistinct hmember hunheard
      obtain rfl : name = (profile h).userName := hname.trans (filedName_of_none hfree)
      refine ⟨hsettled, hm.active, fun other t hother => ?_, fun other t hother => ?_,
        fun username entry hentry => ?_⟩
      · by_cases hsame : other = h
        · subst hsame
          exact ⟨_, AList.lookup_insert _, rfl⟩
        · rw [Function.update_of_ne hsame] at hother
          rw [AList.lookup_insert_ne (hkey hsame)]
          exact hm.recorded other t hother
      · by_cases hsame : other = h
        · subst hsame
          exact AList.lookup_insert _
        · rw [Function.update_of_ne hsame] at hother
          have hmemberOther : other ∈ members := hm.members other (by simp [hother])
          have hother' : (profile other).userName ≠ (profile h).userName :=
            fun heq => hsame (hdistinct hmemberOther hmember heq)
          rw [AList.lookup_insert_ne hother']
          exact hm.named other t hother
      · rcases lookup_insert_eq_some_iff.mp hentry with ⟨husername, _⟩ | ⟨_, hentry⟩
        · exact ⟨h, env.now, Function.update_self _ _ _, husername⟩
        · obtain ⟨other, t, hother, husername⟩ := hm.only username entry hentry
          obtain ⟨t', ht'⟩ := heard_update hother h env.now
          exact ⟨other, t', ht', husername⟩

theorem Mirrors.step (hm : Mirrors strings profile members (lan.heard g) (lan.store g))
    (hposted : Posted protobuf profile members lan)
    (haddresses : Set.InjOn (fun g => (profile g).hostAddress) members)
    (hdistinct : Set.InjOn (fun g => (profile g).userName) members)
    (hguid : ∀ g, (profile g).guid = g) (hasks : ∀ strategy, event ≠ .settles g (some strategy))
    (hmoves : StoreMoves strings profile lan g event after heard) :
    Mirrors strings profile members heard after := by
  have hsettled := hm.toSettled.step hposted haddresses hguid hmoves
  cases hmoves with
  | kept after hpeers hnamestore hactive =>
      refine ⟨hsettled, ?_, ?_, ?_, ?_⟩
      · rcases hactive with hactive | hactive | ⟨strategy, hevent⟩
        · rw [hactive]
          exact hm.active
        · rw [hactive]
          exact fun _ _ => rfl
        · exact absurd hevent (hasks strategy)
      · rw [hpeers]
        exact hm.recorded
      · rw [hnamestore]
        exact hm.named
      · rw [hnamestore]
        exact hm.only
  | lookedUp guid =>
      rw [hm.lookup_eq]
      exact hm
  | lookedUpByUsername username result after hlookup =>
      rw [hm.lookupByUsername_eq hlookup]
      exact hm
  | stored packet h env after hsent hannounced hstore =>
      exact hm.storePeer haddresses hdistinct hguid (hposted.announcer packet hsent h hannounced)
        hstore hsettled

/-- A peer that was heard is found by its guid and by its name. -/
theorem Mirrors.found (hm : Mirrors strings profile members heard ps) {t : Int}
    (hheard : heard h = some t) :
    ∃ r, r.guid = h ∧ r.lastSeen = t ∧ r.userName = (profile h).userName
      ∧ TrueRecord strings profile heard r ∧ peerstoreLookup strings ps h = (some r, ps)
      ∧ peerstoreLookupByUsername ps (profile h).userName = some (some r, ps) := by
  obtain ⟨r, hr, hname⟩ := hm.recorded h t hheard
  have htrue := hm.records _ r hr
  have hguid : r.guid = h := (strings.toString_injective (hm.filed _ r hr)).symm
  have hseen := htrue.lastSeen
  rw [hguid, hheard] at hseen
  have hactive : isPeerActive ps r = true := hm.active ps.lastUpdate r
  refine ⟨r, hguid, (Option.some.inj hseen).symm, hname, htrue, ?_, ?_⟩
  · simp [peerstoreLookup, hr, hactive]
  · simp [peerstoreLookupByUsername, hm.named h t hheard, hr, hactive]

theorem Mirrors.not_found (hm : Mirrors strings profile members heard ps)
    (hunheard : heard h = none) : peerstoreLookup strings ps h = (none, ps) := by
  have habsent : ps.peers.lookup (strings.toString h) = none := by
    apply Option.eq_none_iff_forall_ne_some.mpr
    intro r hr
    have hguid : r.guid = h := (strings.toString_injective (hm.filed _ r hr)).symm
    cases hunheard.symm.trans (hguid ▸ (hm.records _ r hr).lastSeen)
  simp [peerstoreLookup, habsent]

theorem Mirrors.not_named (hm : Mirrors strings profile members heard ps) {username : CString}
    (hnobody : ∀ h, heard h ≠ none → (profile h).userName ≠ username) :
    peerstoreLookupByUsername ps username = some (none, ps) := by
  have habsent : ps.namestore.lookup username = none := by
    apply Option.eq_none_iff_forall_ne_some.mpr
    intro entry hentry
    obtain ⟨h, t, hheard, rfl⟩ := hm.only username entry hentry
    exact hnobody h (by simp [hheard]) rfl
  simp [peerstoreLookupByUsername, habsent]

theorem Mirrors.listed (hm : Mirrors strings profile members heard ps) (h : Guid) :
    h ∈ peerstoreGetActiveGuids ps ↔ heard h ≠ none := by
  rw [mem_activeGuids]
  constructor
  · rintro ⟨guidStr, r, hr, _, rfl⟩
    rw [(hm.records guidStr r hr).lastSeen]
    exact Option.some_ne_none _
  · intro hheard
    obtain ⟨t, ht⟩ := Option.ne_none_iff_exists'.mp hheard
    obtain ⟨r, hr, _⟩ := hm.recorded h t ht
    have hguid : r.guid = h := (strings.toString_injective (hm.filed _ r hr)).symm
    exact ⟨_, r, hr, hm.active ps.lastUpdate r, hguid⟩

section Runs

variable {start : Lan} {events : List LanEvent}

theorem Initial.mirrors (hstart : start.Initial)
    (hactive : ∀ t p, (start.store g).isActivePeer t p = true) :
    Mirrors strings start.localPeer members (start.heard g) (start.store g) := by
  obtain ⟨localPeer, iap, now, _, hstore⟩ := hstart.store_eq g
  refine ⟨hstart.settled g, hactive, fun h t hh => ?_, fun h t hh => ?_, fun _ _ hentry => ?_⟩
  · simp [hstart.heard] at hh
  · simp [hstart.heard] at hh
  · simp [hstore, peerstoreInit] at hentry

theorem mirrors_run (hstart : start.Initial)
    (hrun : Transition.run (step strings protobuf) start events = some lan)
    (haddresses : Set.InjOn (fun g => (start.localPeer g).hostAddress) {g | .starts g ∈ events})
    (hdistinct : Set.InjOn (fun g => (start.localPeer g).userName) {g | .starts g ∈ events})
    (hactive : ∀ t p, (start.store g).isActivePeer t p = true)
    (hasks : ∀ strategy, .settles g (some strategy) ∉ events) :
    Mirrors strings start.localPeer {g | .starts g ∈ events} (lan.heard g) (lan.store g) := by
  let members : Set Guid := {g | .starts g ∈ events}
  let Inv (g' : Guid) (heard : Guid → Option Int) (ps : Peerstore) : Prop :=
    g' = g → Mirrors strings start.localPeer members heard ps
  have hinitial : ∀ g', Inv g' (start.heard g') (start.store g') := by
    intro g' hg
    rw [hg]
    exact hstart.mirrors hactive
  have hrunning : Posted protobuf start.localPeer members lan
      ∧ ∀ g', Inv g' (lan.heard g') (lan.store g') := by
    refine run_stores hstart (fun g hg => hg) hinitial ?_ hrun
    intro lan event g' heard after hevent hposted hmirrors hmoves hg
    subst hg
    refine (hmirrors rfl).step hposted haddresses hdistinct hstart.localPeer_guid ?_ hmoves
    rintro strategy rfl
    exact hasks strategy hevent
  exact hrunning.2 g rfl

/-- **Found, exactly.** Let the services that are started stand at distinct host addresses and have
distinct names, and let the service `g` be given no strategy and its store a predicate that is
always true. After any run, `g` finds exactly the services it has heard: by their guid, by their
name and in a listing, with records that are true. -/
theorem found_iff_heard (hstart : start.Initial)
    (hrun : Transition.run (step strings protobuf) start events = some lan)
    (haddresses : Set.InjOn (fun g => (start.localPeer g).hostAddress) {g | .starts g ∈ events})
    (hdistinct : Set.InjOn (fun g => (start.localPeer g).userName) {g | .starts g ∈ events})
    (g : Guid) (hactive : ∀ t p, (start.store g).isActivePeer t p = true)
    (hasks : ∀ strategy, .settles g (some strategy) ∉ events) :
    (∀ h t, lan.heard g h = some t → ∃ r, r.guid = h ∧ r.lastSeen = t
        ∧ r.userName = (start.localPeer h).userName
        ∧ TrueRecord strings start.localPeer (lan.heard g) r
        ∧ peerstoreLookup strings (lan.store g) h = (some r, lan.store g)
        ∧ peerstoreLookupByUsername (lan.store g) (start.localPeer h).userName
          = some (some r, lan.store g))
      ∧ (∀ h, lan.heard g h = none → peerstoreLookup strings (lan.store g) h = (none, lan.store g))
      ∧ (∀ username, (∀ h, lan.heard g h ≠ none → (start.localPeer h).userName ≠ username) →
        peerstoreLookupByUsername (lan.store g) username = some (none, lan.store g))
      ∧ ∀ h, h ∈ peerstoreGetActiveGuids (lan.store g) ↔ lan.heard g h ≠ none := by
  have hm := mirrors_run hstart hrun haddresses hdistinct hactive hasks
  exact ⟨fun h t => hm.found, fun h => hm.not_found, fun username => hm.not_named, hm.listed⟩

section Run

open Concrete

theorem settles_notMem (strategy : UpdateStrategy) :
    LanEvent.settles (guid 1) (some strategy) ∉ askEvents ++ answerEvents := by
  simp [askEvents, answerEvents]

theorem found_iff_heard_run :
    (∀ h t, answeredLan.heard (guid 1) h = some t →
      ∃ r, r.guid = h ∧ r.lastSeen = t ∧ r.userName = (freshLan.localPeer h).userName
        ∧ TrueRecord guidStrings freshLan.localPeer (answeredLan.heard (guid 1)) r
        ∧ peerstoreLookup guidStrings (answeredLan.store (guid 1)) h
          = (some r, answeredLan.store (guid 1))
        ∧ peerstoreLookupByUsername (answeredLan.store (guid 1)) (freshLan.localPeer h).userName
          = some (some r, answeredLan.store (guid 1)))
      ∧ (∀ h, answeredLan.heard (guid 1) h = none →
        peerstoreLookup guidStrings (answeredLan.store (guid 1)) h
          = (none, answeredLan.store (guid 1)))
      ∧ (∀ username, (∀ h, answeredLan.heard (guid 1) h ≠ none →
          (freshLan.localPeer h).userName ≠ username) →
        peerstoreLookupByUsername (answeredLan.store (guid 1)) username
          = some (none, answeredLan.store (guid 1)))
      ∧ ∀ h, h ∈ peerstoreGetActiveGuids (answeredLan.store (guid 1))
        ↔ answeredLan.heard (guid 1) h ≠ none :=
  found_iff_heard freshLan_initial run_answeredLan
    (injOn_started (f := Peer.hostAddress) (by decide +kernel))
    (injOn_started (f := Peer.userName) (by decide +kernel)) (guid 1) (fun _ _ => rfl)
    settles_notMem

end Run

/-! ### Answers -/

theorem sent_isPrefix_step (hgenuine : ∀ packet ∈ lan.sent, Genuine protobuf profile packet)
    (hstep : lan.step strings protobuf event = some next) : lan.sent <+: next.sent := by
  cases lan_step_cases hgenuine hstep with
  | started g => exact List.prefix_rfl
  | ended event g => exact List.prefix_rfl
  | settled g strategy packets hpackets => exact List.prefix_append _ _
  | told event packet hpacket => exact List.prefix_append _ _
  | stopped event g hlistens => exact List.prefix_append _ _
  | announced event g now hlistens => exact List.prefix_append _ _
  | rested event => exact List.prefix_rfl
  | stored event g h packet env peers hsent hannounced hstore =>
      rw [sent_hear]
      exact List.prefix_rfl
  | crashed event g hlistens packet h hsent hannounced hcrash => exact List.prefix_rfl
  | lookedUp event g guid => exact List.prefix_rfl
  | lookedUpByUsername event g username result peers hlookup => exact List.prefix_rfl
  | tripped g username hfreed => exact List.prefix_rfl

/-- What was broadcast stays there to be received, and who was heard stays heard. -/
theorem lasting_run (hposted : Posted protobuf profile Set.univ lan)
    (hrun : Transition.run (step strings protobuf) lan events = some next) :
    lan.sent <+: next.sent ∧ (lan.heard g h ≠ none → next.heard g h ≠ none)
      ∧ Posted protobuf profile Set.univ next := by
  let Later (next : Lan) : Prop := lan.sent <+: next.sent
    ∧ (lan.heard g h ≠ none → next.heard g h ≠ none) ∧ Posted protobuf profile Set.univ next
  have hlater : Later lan := ⟨List.prefix_rfl, id, hposted⟩
  suffices hfinal : Later next from hfinal
  refine Transition.run_invariant ?_ hrun hlater
  rintro middle event next ⟨hsent, hheard, hposted⟩ hstep
  refine ⟨hsent.trans (sent_isPrefix_step hposted.genuine hstep), fun hlan => ?_,
    hposted.step (fun _ _ => Set.mem_univ _) hstep⟩
  have hmiddle := hheard hlan
  have hmoves := store_moves hposted.genuine hstep g
  generalize next.store g = after, next.heard g = heard at hmoves ⊢
  cases hmoves with
  | kept after hpeers hnamestore hactive => exact hmiddle
  | lookedUp guid => exact hmiddle
  | lookedUpByUsername username result after hlookup => exact hmiddle
  | stored packet other env after hsent hannounced hstore =>
      obtain ⟨t, ht⟩ := Option.ne_none_iff_exists'.mp hmiddle
      obtain ⟨t', ht'⟩ := heard_update ht other env.now
      simp [ht']

/-- A service that receives a request broadcasts its own peer. -/
theorem step_request {index : Nat} {env : PacketSurroundings} {beyond : Bytes}
    (hrequest : lan.sent[index]? = some ⟨discoveryRequest, none⟩)
    (hstep : lan.step strings protobuf (.receives h index env beyond) = some next) :
    next.sent[lan.sent.length]?
      = some ⟨peerCommand.bytes ++ peerton protobuf (lan.localPeer h), some h⟩ := by
  obtain ⟨_, hnext⟩ := Option.ite_none_right_eq_some.mp hstep
  rw [hrequest, Option.map_some, Option.some.injEq, receive, discoveryRequest] at hnext
  rw [handler_of_list] at hnext
  rw [← hnext]
  simp [sendPeerPacket, Lan.localPeer, store]

/-- A service that handles an announcement without crashing has heard it. -/
theorem step_announcement {index : Nat} {env : PacketSurroundings} {beyond : Bytes}
    {packet : Broadcast} (hgenuine : Genuine protobuf profile packet)
    (hindex : lan.sent[index]? = some packet) (hannounced : packet.announced = some h)
    (hstep : lan.step strings protobuf (.receives g index env beyond) = some next)
    (hup : next.status g ≠ .crashed) : next.heard g h = some env.now := by
  obtain ⟨_, hnext⟩ := Option.ite_none_right_eq_some.mp hstep
  rw [hindex, Option.map_some, Option.some.injEq] at hnext
  have hreceived : Received strings protobuf profile lan g packet env
      (lan.receive strings protobuf g packet env beyond) := receive_cases hgenuine g env beyond
  rw [hnext] at hreceived
  cases hreceived with
  | answered hnone => cases hnone.symm.trans hannounced
  | ignored hnone => cases hnone.symm.trans hannounced
  | stored other peers hother hnamed hstore =>
      obtain rfl := Option.some.inj (hannounced.symm.trans hother)
      rw [heard_hear_self, Function.update_self]
  | crashed other hother hcrash => exact absurd status_setStatus_self hup

/-- **Who answers is found.** Let the services that are started stand at distinct host addresses and
have distinct names that are not empty, and let `g` be given no strategy and its store a predicate
that is always true. When `h` receives a request and `g`, later, the packet `h` broadcast then, `g`
finds `h` from then on, by guid and by name, whatever else happens before, between and after. -/
theorem answerer_found {before between later : List LanEvent} {asked : Lan} {index : Nat}
    {env env' : PacketSurroundings} {beyond beyond' : Bytes} (hstart : start.Initial)
    (hbefore : Transition.run (step strings protobuf) start before = some asked)
    (hrequest : asked.sent[index]? = some ⟨discoveryRequest, none⟩)
    (hevents : events = before ++ .receives h index env beyond :: (between
      ++ .receives g asked.sent.length env' beyond' :: later))
    (hrun : Transition.run (step strings protobuf) start events = some lan)
    (haddresses : Set.InjOn (fun g => (start.localPeer g).hostAddress) {g | .starts g ∈ events})
    (hdistinct : Set.InjOn (fun g => (start.localPeer g).userName) {g | .starts g ∈ events})
    (hnames : ∀ g, .starts g ∈ events → (start.localPeer g).userName.bytes ≠ [])
    (hactive : ∀ t p, (start.store g).isActivePeer t p = true)
    (hasks : ∀ strategy, .settles g (some strategy) ∉ events) :
    ∃ r, TrueRecord strings start.localPeer (lan.heard g) r ∧ r.guid = h
      ∧ peerstoreLookup strings (lan.store g) h = (some r, lan.store g)
      ∧ peerstoreLookupByUsername (lan.store g) (start.localPeer h).userName
        = some (some r, lan.store g) := by
  have hm := mirrors_run hstart hrun haddresses hdistinct hactive hasks
  subst hevents
  have hposted : Posted protobuf start.localPeer Set.univ start := hstart.posted
  rw [Transition.run_append, hbefore, Option.bind_some] at hrun
  obtain ⟨answered, hanswered, hrun⟩ := Transition.run_cons_eq_some.mp hrun
  rw [Transition.run_append] at hrun
  obtain ⟨waiting, hbetween, hrun⟩ := Option.bind_eq_some_iff.mp hrun
  obtain ⟨hearing, hhearing, hlater⟩ := Transition.run_cons_eq_some.mp hrun
  have hpostedAsked := (lasting_run (g := g) (h := h) hposted hbefore).2.2
  have hpostedAnswered := hpostedAsked.step (fun _ _ => Set.mem_univ _) hanswered
  obtain ⟨hsent, _, hpostedWaiting⟩ := lasting_run (g := g) (h := h) hpostedAnswered hbetween
  have hpostedHearing := hpostedWaiting.step (fun _ _ => Set.mem_univ _) hhearing
  -- The answer is still there when `g` receives.
  have hanswer := step_request hrequest hanswered
  obtain ⟨hlt, hget⟩ := List.getElem?_eq_some_iff.mp hanswer
  have hindex := List.prefix_iff_getElem?.mp hsent _ hlt
  rw [hget] at hindex
  -- Up to there nobody has crashed.
  have hrunHearing : Transition.run (step strings protobuf) start (before
      ++ .receives h index env beyond :: (between
        ++ [.receives g asked.sent.length env' beyond'])) = some hearing := by
    rw [Transition.run_append, hbefore, Option.bind_some]
    refine Transition.run_cons_eq_some.mpr ⟨answered, hanswered, ?_⟩
    rw [Transition.run_append, hbetween, Option.bind_some]
    exact Transition.run_cons_eq_some.mpr ⟨hearing, hhearing, rfl⟩
  have hsub : ∀ g', LanEvent.starts g' ∈ before ++ .receives h index env beyond :: (between
      ++ [.receives g asked.sent.length env' beyond']) →
        LanEvent.starts g' ∈ before ++ .receives h index env beyond :: (between
          ++ .receives g asked.sent.length env' beyond' :: later) := by
    intro g' hg'
    simp only [List.mem_append, List.mem_cons, List.not_mem_nil] at hg' ⊢
    tauto
  have hup := (settled_run hstart hrunHearing (haddresses.mono hsub)
    fun g' hg' => hnames g' (hsub g' hg')).2 g
  have hheard := step_announcement (hpostedWaiting.genuine _ (List.mem_of_getElem? hindex)) hindex
    rfl hhearing hup
  have hlasts := (lasting_run (g := g) (h := h) hpostedHearing hlater).2.1 (by simp [hheard])
  obtain ⟨t, ht⟩ := Option.ne_none_iff_exists'.mp hlasts
  obtain ⟨r, hguid, _, _, htrue, hlookup, hbyName⟩ := hm.found ht
  exact ⟨r, htrue, hguid, hlookup, hbyName⟩

section Run

open Concrete

theorem answerer_found_run :
    ∃ r, TrueRecord guidStrings freshLan.localPeer (answeredLan.heard (guid 1)) r ∧ r.guid = guid 2
      ∧ peerstoreLookup guidStrings (answeredLan.store (guid 1)) (guid 2)
        = (some r, answeredLan.store (guid 1))
      ∧ peerstoreLookupByUsername (answeredLan.store (guid 1))
          (freshLan.localPeer (guid 2)).userName
        = some (some r, answeredLan.store (guid 1)) := by
  have hevents : askEvents ++ answerEvents
      = askEvents ++ .receives (guid 2) 0 ⟨⟨7, []⟩, 1⟩ [] :: ([]
        ++ .receives (guid 1) (lanAfter askEvents).sent.length ⟨⟨7, []⟩, 2⟩ [] :: []) := rfl
  exact answerer_found freshLan_initial (run_lanAfter (by decide +kernel)) (by decide +kernel)
    hevents run_answeredLan (injOn_started (f := Peer.hostAddress) (by decide +kernel))
    (injOn_started (f := Peer.userName) (by decide +kernel)) named_started (fun _ _ => rfl)
    settles_notMem

end Run

end Runs

end Lan

end WhisperCore
