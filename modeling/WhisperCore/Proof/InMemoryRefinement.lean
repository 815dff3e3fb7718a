import WhisperCore.Concrete
import WhisperCore.Lib.Transition
import WhisperCore.Proof.Representation

/-!
# The peerstore in memory is the peerstore

Every function of the peerstore does in memory what it does to values. So records are never used
after they were freed nor freed twice, a freed guid string is read exactly where the model of values
says so, and once the store is destroyed no record is left.
-/

namespace WhisperCore

namespace InMemory

variable {strings : GuidStrings} {strcmp : Strcmp} {store : Store} {ps : WhisperCore.Peerstore}
  {held : List Peer} {fresh : List Nat} {r announced : Peer} {guidStr name : CString} {p text : Nat}

/-- A function in memory and one on values agree: neither is defined, or both are and leave stores
of which one stands for the other. -/
abbrev Agree (held : List Peer) (fresh : List Nat) :
    Option Store → Option WhisperCore.Peerstore → Prop :=
  Option.Rel fun store ps => Represents store ps held fresh

/-! ### Storing -/

theorem handlePeerReconnection_agree (strings : GuidStrings)
    (h : Represents store ps (announced :: held) fresh) :
    Agree (announced :: held) fresh (handlePeerReconnection strings store announced.address)
      (WhisperCore.handlePeerReconnection strings ps announced) := by
  have hread := h.callers announced List.mem_cons_self
  have hcompared := h.write_unnamed h.unnamed_next (.live (strings.toString announced.guid))
  simp only [handlePeerReconnection, hread, Option.bind_eq_bind, Option.bind_some,
    Store.guidToString_eq]
  generalize hnext : store.writeGuidStr store.guidStrs.next
    (.live (strings.toString announced.guid)) = next at hcompared ⊢
  have hnames : store.namestore = next.namestore := hnext ▸ rfl
  rw [hnames, WhisperCore.handlePeerReconnection]
  rcases hcompared.name_cases announced.userName with
    ⟨hname, hvalue⟩ | ⟨text, hname, hstring, hvalue⟩ | ⟨text, guidStr, hname, hstring, hvalue⟩
  · simp only [hname, hvalue]
    exact .some h
  · simp only [hname, hstring, hvalue, Option.bind_none]
    exact .none
  · simp only [hname, hstring, hvalue, Option.bind_some]
    by_cases hother : guidStr = strings.toString announced.guid
    · rw [if_neg (not_not_intro hother), if_neg (not_not_intro hother)]
      exact .some hcompared
    · rw [if_pos hother, if_pos hother]
      cases hlookup : next.peers.lookup guidStr with
      | none =>
          rw [hcompared.lookup_eq_none hlookup]
          exact .some hcompared
      | some old =>
          obtain ⟨oldPeer, hold, hfiled, rfl⟩ := hcompared.exists_record hlookup
          simp only [hfiled, hold, Option.bind_some]
          by_cases haddress : announced.hostAddress = oldPeer.hostAddress
          · obtain ⟨hfree, hevicted⟩ := hcompared.evict hlookup hold
            have hstring' : ((next.deletePeer guidStr).writeRecord oldPeer.address
                .freed).guidStrs.get? text = some guidStr := hstring
            rw [if_pos haddress, if_pos haddress, hfree, Option.bind_some,
              Store.freeGuidStr_of_live hstring']
            exact .some (hevicted.free_named hname)
          · rw [if_neg haddress, if_neg haddress]
            exact .some hcompared

theorem ensureUsernameUnique_agree (h : Represents store ps (announced :: held) fresh)
    (guidStr : CString) :
    ∃ next, ensureUsernameUnique store announced.address guidStr = some next
      ∧ Represents next ps
        (WhisperCore.ensureUsernameUnique ps.namestore announced guidStr :: held) fresh
      ∧ next.namestore = store.namestore ∧ next.peers = store.peers
      ∧ next.guidStrs = store.guidStrs := by
  have hread := h.callers announced List.mem_cons_self
  have hsome : (ps.namestore.lookup announced.userName).isSome
      = (store.namestore.lookup announced.userName).isSome := by
    rw [h.names, Option.isSome_map]
  simp only [ensureUsernameUnique, hread, Option.bind_eq_bind, Option.bind_some,
    WhisperCore.ensureUsernameUnique, hsome]
  cases hnamed : (store.namestore.lookup announced.userName).isSome with
  | false => exact ⟨store, rfl, h, rfl, rfl, rfl⟩
  | true =>
      simp only [if_true]
      rw [Store.assign_of_live hread]
      exact ⟨_, rfl, h.assign_held rfl, rfl, rfl, rfl⟩

/-- Fields of the record under a key are assigned to. -/
theorem Represents.assign (h : Represents store ps held fresh)
    (hlookup : store.peers.lookup guidStr = some p) (hr : store.records.get? p = some r)
    (fields : Peer → Peer) (haddress : (fields r).address = r.address) :
    ∃ next, store.assign p fields = some next
      ∧ Represents next { ps with peers := ps.peers.insert guidStr (fields r) } held fresh
      ∧ next.peers.lookup guidStr = some p ∧ next.records.get? p = some (fields r)
      ∧ next.namestore = store.namestore ∧ next.guidStrs = store.guidStrs :=
  ⟨_, Store.assign_of_live hr fields, h.assign_filed hlookup hr haddress, hlookup,
    Heap.get?_write_live .., rfl, rfl⟩

/-- A caller's peer is freed. -/
theorem Represents.peerFree (h : Represents store ps (r :: held) fresh) :
    ∃ next, store.peerFree r.address = some next ∧ Represents next ps held fresh :=
  ⟨_, Store.peerFree_of_live (h.callers r List.mem_cons_self), h.free⟩

@[simp]
theorem ensureUsernameUnique_address (namestore : JnxHash GuidStr) (p : Peer) (text : CString) :
    (WhisperCore.ensureUsernameUnique namestore p text).address = p.address := by
  unfold WhisperCore.ensureUsernameUnique
  split <;> rfl

@[simp]
theorem ensureUsernameUnique_lastSeen_eq (namestore : JnxHash GuidStr) (p : Peer)
    (text : CString) :
    (WhisperCore.ensureUsernameUnique namestore p text).lastSeen = p.lastSeen := by
  unfold WhisperCore.ensureUsernameUnique
  split <;> rfl

/-- The branch of a peer without a record. -/
theorem insert_agree (h : Represents store ps (r :: held) fresh) (hunnamed : Unnamed store text)
    (hstring : store.guidStrs.get? text = some guidStr)
    (hlookup : store.peers.lookup guidStr = none) :
    Agree held fresh
      ((ensureUsernameUnique store r.address guidStr).bind fun store =>
        (store.records.get? r.address).bind fun announced =>
          some ((store.putName announced.userName text).putPeer guidStr r.address))
      (some { ps with
        namestore := ps.namestore.insert
          (WhisperCore.ensureUsernameUnique ps.namestore r guidStr).userName (.live guidStr)
        peers := ps.peers.insert guidStr
          (WhisperCore.ensureUsernameUnique ps.namestore r guidStr) }) := by
  obtain ⟨next, hunique, hnext, hnames, hpeers, hstrings⟩ := ensureUsernameUnique_agree h guidStr
  generalize hnamed : WhisperCore.ensureUsernameUnique ps.namestore r guidStr = named at hnext ⊢
  have haddress : named.address = r.address := by rw [← hnamed, ensureUsernameUnique_address]
  have hread := hnext.callers named List.mem_cons_self
  have hunnamed' : Unnamed next text := by
    intro name
    rw [hnames]
    exact hunnamed name
  have hcalled := hnext.call hunnamed' (hstrings ▸ hstring) named.userName
  rw [hunique, Option.bind_some, ← haddress, hread, Option.bind_some]
  exact .some (hcalled.file (hpeers ▸ hlookup))

/-- The branch of a peer with a record. -/
theorem update_agree {old : Nat} {oldPeer : Peer} (h : Represents store ps (r :: held) fresh)
    (hunnamed : Unnamed store text) (hstring : store.guidStrs.get? text = some guidStr)
    (hlookup : store.peers.lookup guidStr = some old)
    (hold : store.records.get? old = some oldPeer) :
    Agree held fresh
      ((store.assign old fun old => { old with hostAddress := r.hostAddress }).bind fun store =>
        (store.records.get? old).bind fun oldPeer =>
          if strncmpEqual oldPeer.userName r.userName r.userName.bytes.length then
            (store.assign old fun old => { old with lastSeen := r.lastSeen }).bind fun store =>
              store.peerFree r.address
          else
            (ensureUsernameUnique (store.deleteName oldPeer.userName) r.address guidStr).bind
              fun store => (store.records.get? r.address).bind fun announced =>
                (store.assign old fun old => { old with userName := announced.userName }).bind
                  fun store =>
                    ((store.putName announced.userName text).assign old fun old =>
                      { old with lastSeen := announced.lastSeen }).bind fun store =>
                        store.peerFree r.address)
      (some
        (if strncmpEqual oldPeer.userName r.userName r.userName.bytes.length then
          { ps with
            peers := ps.peers.insert guidStr
              { oldPeer with hostAddress := r.hostAddress, lastSeen := r.lastSeen } }
        else
          let namestore := ps.namestore.erase oldPeer.userName
          let p := WhisperCore.ensureUsernameUnique namestore r guidStr
          { ps with
            namestore := namestore.insert p.userName (.live guidStr)
            peers := ps.peers.insert guidStr
              { oldPeer with
                hostAddress := r.hostAddress
                lastSeen := r.lastSeen
                userName := p.userName } })) := by
  obtain ⟨moved, hmove, hmoved, hlookup, hold, hnames, hstrings⟩ :=
    h.assign hlookup hold (fun old => { old with hostAddress := r.hostAddress }) rfl
  rw [hmove, Option.bind_some, hold, Option.bind_some]
  cases hsame : strncmpEqual oldPeer.userName r.userName r.userName.bytes.length with
  | true =>
      obtain ⟨seen, hsee, hseen, _⟩ :=
        hmoved.assign hlookup hold (fun old => { old with lastSeen := r.lastSeen }) rfl
      obtain ⟨next, hfree, hnext⟩ := hseen.peerFree
      rw [if_pos rfl, if_pos rfl, hsee, Option.bind_some, hfree]
      simp only [AList.insert_insert] at hnext
      exact .some hnext
  | false =>
      obtain ⟨unique, hunique, hnext, hnames', hpeers, hstrings'⟩ :=
        ensureUsernameUnique_agree (hmoved.forget oldPeer.userName) guidStr
      simp only [Bool.false_eq_true, if_false, hunique, Option.bind_some]
      generalize hnamed : WhisperCore.ensureUsernameUnique (ps.namestore.erase oldPeer.userName) r
        guidStr = named at hnext ⊢
      have haddress : named.address = r.address := by rw [← hnamed, ensureUsernameUnique_address]
      have hseen : named.lastSeen = r.lastSeen := by rw [← hnamed, ensureUsernameUnique_lastSeen_eq]
      have hread := hnext.callers named List.mem_cons_self
      have hlookup' : unique.peers.lookup guidStr = some old := hpeers ▸ hlookup
      obtain ⟨found, hfound, hfiled, _⟩ := hnext.exists_record hlookup'
      rw [AList.lookup_insert, Option.some.injEq] at hfiled
      subst hfiled
      rw [← haddress, hread, Option.bind_some]
      obtain ⟨renamed, hrename, hrenamed, hlookup', hfound, hnames'', hstrings''⟩ :=
        hnext.assign hlookup' hfound (fun old => { old with userName := named.userName }) rfl
      have hunnamed' : Unnamed renamed text := by
        intro name hname
        rw [hnames'', hnames'] at hname
        exact hunnamed name (hnames ▸ (lookup_erase_eq_some_iff.mp hname).2)
      have hstring' : renamed.guidStrs.get? text = some guidStr := by
        rw [hstrings'', hstrings']
        exact hstrings ▸ hstring
      obtain ⟨seen, hsee, hseenNext, _⟩ :=
        (hrenamed.call hunnamed' hstring' named.userName).assign hlookup' hfound
          (fun old => { old with lastSeen := named.lastSeen }) rfl
      obtain ⟨final, hfree, hfinal⟩ := hseenNext.peerFree
      rw [hrename, Option.bind_some, hsee, Option.bind_some, hfree]
      simp only [AList.insert_insert, hseen] at hfinal
      exact .some hfinal

theorem storePeer_agree (h : Represents store ps (announced :: held) fresh) (now : Int) :
    Agree held fresh (peerstoreStorePeer strings store now announced.address)
      (WhisperCore.peerstoreStorePeer strings ps now announced) := by
  have hreconnection := handlePeerReconnection_agree strings h
  simp only [peerstoreStorePeer, WhisperCore.peerstoreStorePeer, Option.bind_eq_bind]
  generalize handlePeerReconnection strings store announced.address = result at hreconnection ⊢
  generalize WhisperCore.handlePeerReconnection strings ps announced = value at hreconnection ⊢
  cases hreconnection with
  | none => exact .none
  | @some middle psMiddle hmiddle =>
      have hread := hmiddle.callers announced List.mem_cons_self
      have hwritten : Represents (middle.writeRecord announced.address
          (.live { announced with lastSeen := now })) psMiddle
          ({ announced with lastSeen := now } :: held) fresh := hmiddle.assign_held rfl
      rw [Option.bind_some, Option.map_some, Store.assign_of_live hread, Option.bind_some]
      generalize middle.writeRecord announced.address (.live { announced with lastSeen := now })
        = noted at hwritten ⊢
      have hseen : noted.records.get? announced.address = some { announced with lastSeen := now } :=
        hwritten.callers _ List.mem_cons_self
      have hfresh := hwritten.write_unnamed hwritten.unnamed_next
        (.live (strings.toString announced.guid))
      have hunnamed : Unnamed (noted.writeGuidStr noted.guidStrs.next
        (.live (strings.toString announced.guid))) noted.guidStrs.next := hwritten.unnamed_next
      have hstring : (noted.writeGuidStr noted.guidStrs.next
          (.live (strings.toString announced.guid))).guidStrs.get? noted.guidStrs.next
        = some (strings.toString announced.guid) := Heap.get?_write_live ..
      simp only [hseen, Option.bind_some, Store.guidToString_eq]
      generalize noted.writeGuidStr noted.guidStrs.next (.live (strings.toString announced.guid))
        = next at hfresh hunnamed hstring ⊢
      cases hlookup : next.peers.lookup (strings.toString announced.guid) with
      | none =>
          rw [hfresh.lookup_eq_none hlookup]
          exact insert_agree hfresh hunnamed hstring hlookup
      | some old =>
          obtain ⟨oldPeer, hold, hfiled, _⟩ := hfresh.exists_record hlookup
          rw [hfiled]
          exact update_agree hfresh hunnamed hstring hlookup hold

/-! ### Lookups -/

/-- The pointer a lookup answers with points to the record it stands for. -/
def Answers (store : Store) (answer : Option Nat) (value : Option Peer) : Prop :=
  answer.map store.records.get? = value.map some

theorem lookup_agree (strings : GuidStrings) (h : Represents store ps held fresh) (guid : Guid) :
    ∃ answer next, peerstoreLookup strings store guid = some (answer, next)
      ∧ Answers next answer (WhisperCore.peerstoreLookup strings ps guid).1
      ∧ Represents next (WhisperCore.peerstoreLookup strings ps guid).2 held fresh := by
  have hasked := h.write_unnamed h.unnamed_next (.live (strings.toString guid))
  have hunnamed : Unnamed (store.writeGuidStr store.guidStrs.next
    (.live (strings.toString guid))) store.guidStrs.next := h.unnamed_next
  have hstring : (store.writeGuidStr store.guidStrs.next
      (.live (strings.toString guid))).guidStrs.get? store.guidStrs.next
    = some (strings.toString guid) := Heap.get?_write_live ..
  rw [peerstoreLookup, WhisperCore.peerstoreLookup, Store.guidToString_eq]
  dsimp only [Option.bind_eq_bind]
  generalize store.writeGuidStr store.guidStrs.next (.live (strings.toString guid)) = next
    at hasked hunnamed hstring ⊢
  cases hlookup : next.peers.lookup (strings.toString guid) with
  | none =>
      simp only [hasked.lookup_eq_none hlookup, Store.freeGuidStr_of_live hstring,
        Option.bind_some]
      exact ⟨none, _, rfl, rfl, hasked.write_unnamed hunnamed _⟩
  | some p =>
      obtain ⟨found, hfound, hfiled, _⟩ := hasked.exists_record hlookup
      simp only [hfiled, hfound, Option.bind_some, hasked.isPeerActive]
      cases WhisperCore.isPeerActive ps found with
      | true =>
          simp only [if_true, Store.freeGuidStr_of_live hstring, Option.bind_some]
          exact ⟨some p, _, rfl, congrArg some hfound, hasked.write_unnamed hunnamed _⟩
      | false =>
          obtain ⟨hfree, hevicted⟩ := hasked.evict hlookup hfound
          have hstring' : ((next.deletePeer (strings.toString guid)).writeRecord p
            .freed).guidStrs.get? store.guidStrs.next = some (strings.toString guid) := hstring
          simp only [Bool.false_eq_true, if_false, hfree, Option.bind_some,
            Store.freeGuidStr_of_live hstring']
          exact ⟨none, _, rfl, rfl, hevicted.write_unnamed hunnamed _⟩

theorem lookupByUsername_agree (h : Represents store ps held fresh) (username : CString) :
    Option.Rel (fun found value => Answers found.2 found.1 value.1
        ∧ Represents found.2 value.2 held fresh)
      (peerstoreLookupByUsername store username)
      (WhisperCore.peerstoreLookupByUsername ps username) := by
  rw [peerstoreLookupByUsername, WhisperCore.peerstoreLookupByUsername]
  simp only [Option.bind_eq_bind]
  rcases h.name_cases username with
    ⟨hname, hvalue⟩ | ⟨text, hname, hstring, hvalue⟩ | ⟨text, guidStr, hname, hstring, hvalue⟩
  · simp only [hname, hvalue]
    exact .some ⟨rfl, h⟩
  · simp only [hname, hvalue, hstring, Option.bind_none]
    exact .none
  · simp only [hname, hvalue, hstring, Option.bind_some]
    cases hlookup : store.peers.lookup guidStr with
    | none =>
        have hstring' : (store.deleteName username).guidStrs.get? text = some guidStr := hstring
        simp only [h.lookup_eq_none hlookup, Store.freeGuidStr_of_live hstring',
          Option.bind_some]
        exact .some ⟨rfl, (h.forget username).write_unnamed (h.unnamed_of_forget hname) _⟩
    | some p =>
        obtain ⟨found, hfound, hfiled, _⟩ := h.exists_record hlookup
        simp only [hfiled, hfound, Option.bind_some, h.isPeerActive]
        cases WhisperCore.isPeerActive ps found with
        | true => exact .some ⟨congrArg some hfound, h⟩
        | false =>
            obtain ⟨hfree, hevicted⟩ := h.evict hlookup hfound
            simp only [Bool.false_eq_true, if_false, hfree, Option.bind_some]
            exact .some ⟨rfl, hevicted⟩

/-! ### Removal -/

theorem noLongerActive_agree (h : Represents store ps (announced :: held) fresh) :
    Agree (announced :: held) fresh (peerstorePeerNoLongerActive store announced.address)
      (WhisperCore.peerstorePeerNoLongerActive ps announced) := by
  have hread := h.callers announced List.mem_cons_self
  simp only [peerstorePeerNoLongerActive, WhisperCore.peerstorePeerNoLongerActive, hread,
    Option.bind_eq_bind, Option.bind_some]
  rcases h.name_cases announced.userName with
    ⟨hname, hvalue⟩ | ⟨text, hname, hstring, hvalue⟩ | ⟨text, guidStr, hname, hstring, hvalue⟩
  · simp only [hname, hvalue, Option.bind_none]
    exact .none
  · have hstring' : (store.deleteName announced.userName).guidStrs.get? text = none := hstring
    simp only [hname, hvalue, hstring', Option.bind_some, Option.bind_none]
    exact .none
  · have hforgotten := h.forget announced.userName
    have hunnamed := h.unnamed_of_forget hname
    have hstring' : (store.deleteName announced.userName).guidStrs.get? text = some guidStr :=
      hstring
    simp only [hname, hvalue, Option.bind_some]
    generalize store.deleteName announced.userName = next at hforgotten hunnamed hstring' ⊢
    simp only [hstring', Option.bind_some]
    cases hlookup : next.peers.lookup guidStr with
    | none =>
        have hnone : ps.peers.lookup guidStr = none := hforgotten.lookup_eq_none hlookup
        simp only [hnone, Option.bind_none]
        exact .none
    | some pr =>
        obtain ⟨gone, hgone, hfiled, _⟩ := hforgotten.exists_record hlookup
        have hfiled' : ps.peers.lookup guidStr = some gone := hfiled
        obtain ⟨hfree, hevicted⟩ := hforgotten.evict hlookup hgone
        have hstring'' : ((next.deletePeer guidStr).writeRecord pr .freed).guidStrs.get? text
          = some guidStr := hstring'
        simp only [hfiled', Option.bind_some, hfree, Store.freeGuidStr_of_live hstring'']
        exact .some (hevicted.write_unnamed hunnamed _)

theorem handleStop_agree (h : Represents store ps [] (r.address :: fresh)) :
    Agree [] fresh (handleStop strcmp store r) (WhisperCore.handleStop strcmp ps r) := by
  have hunused := h.unused r.address List.mem_cons_self
  have hcreated := h.create
  simp only [handleStop, WhisperCore.handleStop, Store.peerCreate_of_unused hunused,
    Option.bind_eq_bind, Option.bind_some]
  generalize store.writeRecord r.address (.live r) = next at hcreated ⊢
  simp only [hcreated.callers r List.mem_cons_self, hcreated.localPeer, Option.bind_some]
  by_cases hown : peersCompare strcmp r ps.localPeer = .peersEquivalent
  · obtain ⟨final, hfree, hfinal⟩ := hcreated.peerFree
    rw [if_pos hown, if_pos hown, hfree]
    exact .some hfinal
  · rw [if_neg hown, if_neg hown]
    have hremoval := noLongerActive_agree hcreated
    generalize peerstorePeerNoLongerActive next r.address = result at hremoval ⊢
    generalize WhisperCore.peerstorePeerNoLongerActive ps r = value at hremoval ⊢
    cases hremoval with
    | none => exact .none
    | some hremoved =>
        obtain ⟨final, hfree, hfinal⟩ := hremoved.peerFree
        rw [Option.bind_some, hfree]
        exact .some hfinal

/-! ### Runs -/

/-- Where the events of a run allocate their peers. -/
def allocations (events : List PeerEvent) : List Nat := events.filterMap PeerEvent.allocates

theorem allocations_cons (event : PeerEvent) (events : List PeerEvent) :
    allocations (event :: events) = event.allocates.toList ++ allocations events := by
  rw [allocations, List.filterMap_cons]
  cases event.allocates <;> rfl

theorem step_agree (strings : GuidStrings) (strcmp : Strcmp) {event : PeerEvent}
    (h : Represents store ps [] (event.allocates.toList ++ fresh)) :
    Agree [] fresh (step strings strcmp store event) (event.step strings strcmp ps) := by
  cases event with
  | handlesPeer now p =>
      have hunused := h.unused p.address List.mem_cons_self
      rw [step, handlePeer, PeerEvent.step, Option.bind_eq_bind,
        Store.peerCreate_of_unused hunused, Option.bind_some]
      exact storePeer_agree (Represents.create h) now
  | handlesStop p => exact handleStop_agree h
  | looksUp guid =>
      obtain ⟨answer, next, hlookup, _, hnext⟩ := lookup_agree strings h guid
      rw [step, PeerEvent.step, hlookup]
      exact .some hnext
  | looksUpByUsername username =>
      have hlookup := lookupByUsername_agree h username
      rw [step, PeerEvent.step]
      generalize peerstoreLookupByUsername store username = result at hlookup ⊢
      generalize WhisperCore.peerstoreLookupByUsername ps username = value at hlookup ⊢
      cases hlookup with
      | none => exact .none
      | some hfound => exact .some hfound.2
  | setsLastUpdateTime lastUpdate => exact .some { h with lastUpdate := rfl }

theorem run_agree (strings : GuidStrings) (strcmp : Strcmp) {events : List PeerEvent}
    (h : Represents store ps [] (allocations events)) :
    Agree [] [] (Transition.run (step strings strcmp) store events)
      (Transition.run (PeerEvent.step strings strcmp) ps events) := by
  induction events generalizing store ps with
  | nil => exact .some h
  | cons event events ih =>
      rw [allocations_cons] at h
      have hstep := step_agree strings strcmp h
      rw [Transition.run_cons, Transition.run_cons]
      generalize step strings strcmp store event = result at hstep ⊢
      generalize event.step strings strcmp ps = value at hstep ⊢
      cases hstep with
      | none => exact .none
      | some hnext => exact ih hnext

/-- A store just created stands for a store just created. -/
theorem Represents.init {localPeer : Peer} (iap : Option (Int → Peer → Bool)) (now : Int)
    (hfresh : (localPeer.address :: fresh).Nodup) :
    Represents (peerstoreInit localPeer iap now) (WhisperCore.peerstoreInit localPeer iap now) []
      fresh where
  localPeer := Heap.get?_write_live ..
  lastUpdate := rfl
  isActivePeer := rfl
  callers := by simp
  peers _ := rfl
  owned := by
    have hempty : (Heap.empty : Heap Peer).OwnedBy [] :=
      ⟨List.nodup_nil, by simp [Heap.get?, Heap.empty]⟩
    exact hempty.place rfl localPeer
  addressed := by
    intro p r hr
    by_cases hp : p = localPeer.address
    · subst hp
      rw [peerstoreInit, Heap.get?_write_live, Option.some.injEq] at hr
      rw [← hr]
    · rw [peerstoreInit, Heap.get?_write_of_ne _ _ hp] at hr
      cases hr
  names _ := rfl
  apart := by
    intro name other text hname
    cases hname
  given := by
    intro name text hname
    cases hname
  fresh_nodup := (List.nodup_cons.mp hfresh).2
  unused := by
    intro p hp
    rw [peerstoreInit, Heap.cells_write_of_ne]
    · rfl
    · rintro rfl
      exact (List.nodup_cons.mp hfresh).1 hp

/-- **The peerstore in memory is the peerstore.** Where `malloc` gives out no address twice, a run
in memory is undefined exactly if the run of values is, and else it ends in a store whose lookups
answer with pointers to the records that the store of values answers with, and in which the local
peer and the records of the table are all the peers there are, each once. -/
theorem run_in_memory {localPeer : Peer} {iap : Option (Int → Peer → Bool)} {now : Int}
    {events : List PeerEvent} (hfresh : (localPeer.address :: allocations events).Nodup) :
    (Transition.run (step strings strcmp) (peerstoreInit localPeer iap now) events = none
        ↔ Transition.run (PeerEvent.step strings strcmp)
          (WhisperCore.peerstoreInit localPeer iap now) events = none)
      ∧ ∀ store,
        Transition.run (step strings strcmp) (peerstoreInit localPeer iap now) events = some store →
        ∃ ps, Transition.run (PeerEvent.step strings strcmp)
            (WhisperCore.peerstoreInit localPeer iap now) events = some ps
          ∧ (∀ guid, ∃ answer next, peerstoreLookup strings store guid = some (answer, next)
            ∧ Answers next answer (WhisperCore.peerstoreLookup strings ps guid).1)
          ∧ (∀ username, Option.Rel (fun found value => Answers found.2 found.1 value.1)
            (peerstoreLookupByUsername store username)
            (WhisperCore.peerstoreLookupByUsername ps username))
          ∧ store.records.OwnedBy (store.localPeer :: pointers store.peers) := by
  have hrun := run_agree strings strcmp (Represents.init iap now hfresh)
  generalize Transition.run (step strings strcmp) (peerstoreInit localPeer iap now) events = result
    at hrun ⊢
  generalize Transition.run (PeerEvent.step strings strcmp)
    (WhisperCore.peerstoreInit localPeer iap now) events = value at hrun ⊢
  cases hrun with
  | none => exact ⟨by simp, fun store hstore => by cases hstore⟩
  | @some final ps hfinal =>
      refine ⟨by simp, fun store hstore => ?_⟩
      obtain rfl := Option.some.inj hstore
      refine ⟨ps, rfl, fun guid => ?_, fun username => ?_, hfinal.owned⟩
      · obtain ⟨answer, next, hlookup, hanswer, _⟩ := lookup_agree strings hfinal guid
        exact ⟨answer, next, hlookup, hanswer⟩
      · have hlookup := lookupByUsername_agree hfinal username
        generalize peerstoreLookupByUsername final username = result at hlookup ⊢
        generalize WhisperCore.peerstoreLookupByUsername ps username = value at hlookup ⊢
        cases hlookup with
        | none => exact .none
        | some hfound => exact .some hfound.1

/-! ### The end of the store -/

/-- The keys of a table lead to all its pointers, in whatever order they come. -/
theorem pointers_of_keys {table : JnxHash Nat} {keys : List CString}
    (hkeys : keys.Perm table.keys) : (keys.filterMap table.lookup).Perm (pointers table) := by
  have hentries : table.keys.filterMap table.lookup = pointers table := by
    rw [AList.keys, List.keys, List.filterMap_map, pointers, ← List.filterMap_eq_map]
    apply List.filterMap_congr
    intro entry hentry
    exact AList.mem_lookup_iff.mpr hentry
  rw [← hentries]
  exact hkeys.filterMap table.lookup

/-- **Nothing is left.** After any run in memory that is defined, `peerstore_destroy` frees the
local peer and every record of the table, and no peer that was ever allocated remains. -/
theorem destroy_frees_all {localPeer : Peer} {iap : Option (Int → Peer → Bool)} {now : Int}
    {events : List PeerEvent} (hfresh : (localPeer.address :: allocations events).Nodup)
    (hrun : Transition.run (step strings strcmp) (peerstoreInit localPeer iap now) events
      = some store) {keys : List CString} (hkeys : keys.Perm store.peers.keys) :
    ∃ left, peerstoreDestroy store keys = some left ∧ ∀ p, left.get? p = none := by
  have hagree := run_agree strings strcmp (Represents.init iap now hfresh)
  rw [hrun] at hagree
  generalize Transition.run (PeerEvent.step strings strcmp)
    (WhisperCore.peerstoreInit localPeer iap now) events = value at hagree
  cases hagree with
  | some hfinal =>
      have howned : store.records.OwnedBy
          (store.localPeer :: keys.filterMap store.peers.lookup) :=
        hfinal.owned.perm ((pointers_of_keys hkeys).symm.cons _)
      obtain ⟨left, hfreed, hnone⟩ := howned.free.freeAll
      refine ⟨left, ?_, hnone⟩
      rw [peerstoreDestroy, Heap.free_of_live hfinal.localPeer, Option.bind_eq_bind,
        Option.bind_some, hfreed]

section Run

open Concrete

/-- Bob comes, comes back under a new guid, falls silent and is evicted; Al comes. -/
def comings : List PeerEvent :=
  [.handlesPeer 1 (peer 1 bob), .handlesPeer 2 { peer 2 bob with hostAddress := host 1 },
    .setsLastUpdateTime 20, .looksUp (guid 2), .handlesPeer 21 (peer 3 al)]

def afterComings : Store :=
  (Transition.run (step guidStrings byteStrcmp)
    (peerstoreInit (peer 0 al) (some isActivePeerPeriodicUpdate) 0) comings).getD
      (peerstoreInit (peer 0 al) none 0)

theorem run_afterComings :
    Transition.run (step guidStrings byteStrcmp)
      (peerstoreInit (peer 0 al) (some isActivePeerPeriodicUpdate) 0) comings
        = some afterComings := by
  have hsome : (Transition.run (step guidStrings byteStrcmp)
      (peerstoreInit (peer 0 al) (some isActivePeerPeriodicUpdate) 0) comings).isSome = true := by
    decide +kernel
  obtain ⟨final, hfinal⟩ := Option.isSome_iff_exists.mp hsome
  rw [afterComings, hfinal]
  rfl

theorem run_in_memory_run :
    ∃ ps, Transition.run (PeerEvent.step guidStrings byteStrcmp)
        (WhisperCore.peerstoreInit (peer 0 al) (some isActivePeerPeriodicUpdate) 0) comings
          = some ps
      ∧ (∀ guid, ∃ answer next, peerstoreLookup guidStrings afterComings guid = some (answer, next)
        ∧ Answers next answer (WhisperCore.peerstoreLookup guidStrings ps guid).1)
      ∧ (∀ username, Option.Rel (fun found value => Answers found.2 found.1 value.1)
        (peerstoreLookupByUsername afterComings username)
        (WhisperCore.peerstoreLookupByUsername ps username))
      ∧ afterComings.records.OwnedBy (afterComings.localPeer :: pointers afterComings.peers) :=
  (run_in_memory (by decide)).2 afterComings run_afterComings

theorem destroy_frees_all_run :
    ∃ left, peerstoreDestroy afterComings afterComings.peers.keys = some left
      ∧ ∀ p, left.get? p = none :=
  destroy_frees_all (by decide) run_afterComings (List.Perm.refl _)

end Run

end InMemory

end WhisperCore
