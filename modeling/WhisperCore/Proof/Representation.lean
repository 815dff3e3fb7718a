import WhisperCore.InMemory
import WhisperCore.Proof.PeerstoreCases

/-!
# What the peerstore in memory stands for

A store with pointers stands for a store of values: the record at the pointer filed under a guid
string is the value filed there, and a name leads to the string its pointer points to. Each record
has one owner, which is the table, the caller of a function, or the store itself for the local
peer. What a function does to memory is a change of the values, one lemma for each.
-/

namespace WhisperCore

namespace InMemory

variable {strings : GuidStrings} {store : Store} {ps : WhisperCore.Peerstore} {held : List Peer}
  {fresh : List Nat} {r : Peer} {guidStr : CString} {name : CString} {p text : Nat}

/-! ### Tables of pointers -/

def pointers (table : JnxHash Nat) : List Nat := table.entries.map Sigma.snd

theorem mem_pointers {table : JnxHash Nat} :
    p ∈ pointers table ↔ ∃ key, table.lookup key = some p := by
  simp only [pointers, List.mem_map, Sigma.exists]
  constructor
  · rintro ⟨key, _, hentry, rfl⟩
    exact ⟨key, AList.mem_lookup_iff.mpr hentry⟩
  · rintro ⟨key, hlookup⟩
    exact ⟨key, p, AList.mem_lookup_iff.mp hlookup, rfl⟩

theorem pointers_erase {table : JnxHash Nat} {key : CString} (hlookup : table.lookup key = some p) :
    (pointers table).Perm (p :: pointers (table.erase key)) := by
  have hkey : key ∈ table.entries.keys := by
    apply AList.mem_keys.mp
    apply AList.lookup_isSome.mp
    rw [hlookup]
    rfl
  obtain ⟨found, before, after, _, hentries, herased⟩ := List.exists_of_kerase hkey
  have hfound : table.lookup key = some found := by
    apply AList.mem_lookup_iff.mpr
    rw [hentries]
    exact List.mem_append_right _ List.mem_cons_self
  obtain rfl : p = found := Option.some.inj (hlookup.symm.trans hfound)
  have hrest : (table.erase key).entries = before ++ after := herased
  rw [pointers, pointers, hrest, hentries, List.map_append, List.map_append]
  exact List.perm_middle

theorem pointers_insert {table : JnxHash Nat} {key : CString} (hlookup : table.lookup key = none) :
    pointers (table.insert key p) = p :: pointers table := by
  rw [pointers, AList.entries_insert_of_notMem (AList.lookup_eq_none.mp hlookup)]
  rfl

/-! ### Memory written -/

def Store.writeRecord (store : Store) (p : Nat) (cell : Cell Peer) : Store :=
  { store with records := store.records.write p cell }

def Store.writeGuidStr (store : Store) (text : Nat) (cell : Cell CString) : Store :=
  { store with guidStrs := store.guidStrs.write text cell }

theorem Store.peerCreate_of_unused (hunused : store.records.cells r.address = .unused) :
    store.peerCreate r = some (store.writeRecord r.address (.live r)) := by
  rw [Store.peerCreate, Heap.place_of_unused hunused, Option.map_some, Store.writeRecord]

theorem Store.peerFree_of_live (hlive : store.records.get? p = some r) :
    store.peerFree p = some (store.writeRecord p .freed) := by
  rw [Store.peerFree, Heap.free_of_live hlive, Option.map_some, Store.writeRecord]

theorem Store.assign_of_live (hlive : store.records.get? p = some r) (fields : Peer → Peer) :
    store.assign p fields = some (store.writeRecord p (.live (fields r))) := by
  rw [Store.assign, Heap.modify_of_live hlive, Option.map_some, Store.writeRecord]

theorem Store.freeGuidStr_of_live (hlive : store.guidStrs.get? text = some guidStr) :
    store.freeGuidStr text = some (store.writeGuidStr text .freed) := by
  rw [Store.freeGuidStr, Heap.free_of_live hlive, Option.map_some, Store.writeGuidStr]

theorem Store.guidToString_eq (store : Store) (strings : GuidStrings) (guid : Guid) :
    store.guidToString strings guid
      = (store.guidStrs.next,
        store.writeGuidStr store.guidStrs.next (.live (strings.toString guid))) := rfl

/-! ### Representation -/

/-- What an entry of the namestore is, by its pointer. -/
def Store.entry (store : Store) (guidStr : Nat) : GuidStr :=
  match store.guidStrs.get? guidStr with
  | none => .freed
  | some text => .live text

/-- The store in memory stands for a store of values, while callers hold some peers of their own and
some addresses have not been given out. -/
structure Represents (store : Store) (ps : WhisperCore.Peerstore) (held : List Peer)
    (fresh : List Nat) : Prop where
  localPeer : store.records.get? store.localPeer = some ps.localPeer
  lastUpdate : store.lastUpdate = ps.lastUpdate
  isActivePeer : store.isActivePeer = ps.isActivePeer
  callers : ∀ r ∈ held, store.records.get? r.address = some r
  peers : ∀ key, ps.peers.lookup key = (store.peers.lookup key).bind store.records.get?
  owned : store.records.OwnedBy
    (held.map Peer.address ++ store.localPeer :: pointers store.peers)
  addressed : ∀ p r, store.records.get? p = some r → r.address = p
  names : ∀ name, ps.namestore.lookup name = (store.namestore.lookup name).map store.entry
  apart : ∀ name other text, store.namestore.lookup name = some text →
    store.namestore.lookup other = some text → name = other
  given : ∀ name text, store.namestore.lookup name = some text → text < store.guidStrs.next
  fresh_nodup : fresh.Nodup
  unused : ∀ p ∈ fresh, store.records.cells p = .unused

theorem Represents.lookup_eq_none (h : Represents store ps held fresh)
    (hlookup : store.peers.lookup guidStr = none) : ps.peers.lookup guidStr = none := by
  rw [h.peers, hlookup, Option.bind_none]

/-- A pointer of the table points to the record filed there. -/
theorem Represents.exists_record (h : Represents store ps held fresh)
    (hlookup : store.peers.lookup guidStr = some p) :
    ∃ r, store.records.get? p = some r ∧ ps.peers.lookup guidStr = some r ∧ r.address = p := by
  have hmem : p ∈ held.map Peer.address ++ store.localPeer :: pointers store.peers :=
    List.mem_append_right _ (List.mem_cons_of_mem _ (mem_pointers.mpr ⟨guidStr, hlookup⟩))
  obtain ⟨r, hr⟩ := h.owned.exists_object hmem
  exact ⟨r, hr, by rw [h.peers, hlookup, Option.bind_some, hr], h.addressed p r hr⟩

/-- No two keys have one pointer. -/
theorem Represents.key_unique (h : Represents store ps held fresh) {key other : CString}
    (hkey : store.peers.lookup key = some p) (hother : store.peers.lookup other = some p) :
    other = key := by
  by_contra hne
  have hperm := pointers_erase hkey
  have hnodup := (List.nodup_cons.mp (List.nodup_append.mp h.owned.nodup).2.1).2
  have habsent := (List.nodup_cons.mp (hperm.nodup_iff.mp hnodup)).1
  exact habsent (mem_pointers.mpr ⟨other, lookup_erase_eq_some_iff.mpr ⟨hne, hother⟩⟩)

theorem Represents.held_ne_localPeer (h : Represents store ps held fresh) (hr : r ∈ held) :
    store.localPeer ≠ r.address := fun heq =>
  (List.nodup_append.mp h.owned.nodup).2.2 r.address (List.mem_map_of_mem hr) store.localPeer
    List.mem_cons_self heq.symm

theorem Represents.held_ne_filed (h : Represents store ps held fresh) (hr : r ∈ held)
    (hlookup : store.peers.lookup guidStr = some p) : p ≠ r.address := fun heq =>
  (List.nodup_append.mp h.owned.nodup).2.2 r.address (List.mem_map_of_mem hr) p
    (List.mem_cons_of_mem _ (mem_pointers.mpr ⟨guidStr, hlookup⟩)) heq.symm

theorem Represents.filed_ne_localPeer (h : Represents store ps held fresh)
    (hlookup : store.peers.lookup guidStr = some p) : store.localPeer ≠ p := fun heq =>
  (List.nodup_cons.mp (List.nodup_append.mp h.owned.nodup).2.1).1
    (heq ▸ mem_pointers.mpr ⟨guidStr, hlookup⟩)

theorem Represents.isPeerActive (h : Represents store ps held fresh) (r : Peer) :
    isPeerActive store r = WhisperCore.isPeerActive ps r := by
  rw [InMemory.isPeerActive, WhisperCore.isPeerActive, h.isActivePeer, h.lastUpdate]

theorem Represents.name_cases (h : Represents store ps held fresh) (name : CString) :
    (store.namestore.lookup name = none ∧ ps.namestore.lookup name = none)
      ∨ (∃ text, store.namestore.lookup name = some text
        ∧ store.guidStrs.get? text = none ∧ ps.namestore.lookup name = some .freed)
      ∨ ∃ text guidStr, store.namestore.lookup name = some text
        ∧ store.guidStrs.get? text = some guidStr
        ∧ ps.namestore.lookup name = some (.live guidStr) := by
  have hname := h.names name
  cases hlookup : store.namestore.lookup name with
  | none =>
      rw [hlookup] at hname
      exact Or.inl ⟨rfl, hname⟩
  | some text =>
      rw [hlookup, Option.map_some, Store.entry] at hname
      cases hread : store.guidStrs.get? text with
      | none =>
          rw [hread] at hname
          exact Or.inr (Or.inl ⟨text, rfl, hread, hname⟩)
      | some guidStr =>
          rw [hread] at hname
          exact Or.inr (Or.inr ⟨text, guidStr, rfl, hread, hname⟩)

/-! ### Peers -/

/-- A peer is created for a caller. -/
theorem Represents.create (h : Represents store ps held (r.address :: fresh)) :
    Represents (store.writeRecord r.address (.live r)) ps (r :: held) fresh := by
  unfold Store.writeRecord
  have hunused := h.unused r.address List.mem_cons_self
  have hnone := Heap.get?_of_unused hunused
  have hkept : ∀ p found, store.records.get? p = some found →
      (store.records.write r.address (.live r)).get? p = some found := by
    intro p found hfound
    rw [Heap.get?_write_of_ne]
    · exact hfound
    · rintro rfl
      cases hnone.symm.trans hfound
  exact
    { h with
      localPeer := hkept _ _ h.localPeer
      callers := by
        intro other hother
        rcases List.mem_cons.mp hother with rfl | hother
        · exact Heap.get?_write_live ..
        · exact hkept _ _ (h.callers other hother)
      peers := by
        intro key
        rw [h.peers]
        cases hlookup : store.peers.lookup key with
        | none => rfl
        | some p =>
            obtain ⟨found, hfound, _⟩ := h.exists_record hlookup
            rw [Option.bind_some, Option.bind_some, hfound, hkept p found hfound]
      owned := h.owned.place hunused r
      addressed := by
        intro p found hfound
        by_cases hp : p = r.address
        · subst hp
          rw [Heap.get?_write_live, Option.some.injEq] at hfound
          rw [hfound]
        · rw [Heap.get?_write_of_ne _ _ hp] at hfound
          exact h.addressed p found hfound
      fresh_nodup := (List.nodup_cons.mp h.fresh_nodup).2
      unused := by
        intro p hp
        rw [Heap.cells_write_of_ne]
        · exact h.unused p (List.mem_cons_of_mem _ hp)
        · rintro rfl
          exact (List.nodup_cons.mp h.fresh_nodup).1 hp }

/-- A write to a record leaves what is not allocated yet as it was. -/
theorem Represents.unused_write (h : Represents store ps held fresh)
    (hr : store.records.get? p = some r) (cell : Cell Peer) {other : Nat} (hother : other ∈ fresh) :
    (store.records.write p cell).cells other = .unused := by
  have hunused := h.unused other hother
  rw [Heap.cells_write_of_ne, hunused]
  rintro rfl
  cases (Heap.get?_of_unused hunused).symm.trans hr

/-- Whatever a caller does at a peer of its own, the rest of memory is as it was. -/
theorem Represents.kept_write_held (h : Represents store ps (r :: held) fresh) (cell : Cell Peer) :
    (store.records.write r.address cell).get? store.localPeer = some ps.localPeer
      ∧ (∀ found ∈ held, (store.records.write r.address cell).get? found.address = some found)
      ∧ (∀ key, ps.peers.lookup key
        = (store.peers.lookup key).bind (store.records.write r.address cell).get?)
      ∧ ∀ p, p ≠ r.address → ∀ found, (store.records.write r.address cell).get? p = some found →
        found.address = p := by
  have hother : ∀ p, p ≠ r.address →
      (store.records.write r.address cell).get? p = store.records.get? p :=
    fun p hp => Heap.get?_write_of_ne _ _ hp
  refine ⟨?_, fun found hfound => ?_, fun key => ?_, fun p hp found hfound => ?_⟩
  · rw [hother _ (h.held_ne_localPeer List.mem_cons_self)]
    exact h.localPeer
  · have hnodup := h.owned.nodup
    rw [List.map_cons, List.cons_append, List.nodup_cons] at hnodup
    rw [hother]
    · exact h.callers found (List.mem_cons_of_mem _ hfound)
    · exact fun heq => hnodup.1 (List.mem_append_left _ (heq ▸ List.mem_map_of_mem hfound))
  · rw [h.peers]
    cases hlookup : store.peers.lookup key with
    | none => rfl
    | some p =>
        rw [Option.bind_some, Option.bind_some,
          hother p (h.held_ne_filed List.mem_cons_self hlookup)]
  · rw [hother p hp] at hfound
    exact h.addressed p found hfound

/-- A caller frees a peer of its own. -/
theorem Represents.free (h : Represents store ps (r :: held) fresh) :
    Represents (store.writeRecord r.address .freed) ps held fresh := by
  unfold Store.writeRecord
  obtain ⟨hlocalPeer, hcallers, hpeers, haddressed⟩ := h.kept_write_held .freed
  have howned := h.owned
  rw [List.map_cons, List.cons_append] at howned
  exact
    { h with
      localPeer := hlocalPeer
      callers := hcallers
      peers := hpeers
      owned := howned.free
      unused := fun _ => h.unused_write (h.callers r List.mem_cons_self) .freed
      addressed := by
        intro p found hfound
        by_cases hp : p = r.address
        · subst hp
          simp at hfound
        · exact haddressed p hp found hfound }

/-- A caller writes to a peer of its own. -/
theorem Represents.assign_held (h : Represents store ps (r :: held) fresh) {new : Peer}
    (haddress : new.address = r.address) :
    Represents (store.writeRecord r.address (.live new)) ps (new :: held) fresh := by
  unfold Store.writeRecord
  obtain ⟨hlocalPeer, hcallers, hpeers, haddressed⟩ := h.kept_write_held (.live new)
  have howned := h.owned
  rw [List.map_cons, List.cons_append] at howned
  exact
    { h with
      localPeer := hlocalPeer
      callers := by
        intro found hfound
        rcases List.mem_cons.mp hfound with rfl | hfound
        · rw [haddress]
          exact Heap.get?_write_live ..
        · exact hcallers found hfound
      peers := hpeers
      owned := by
        rw [List.map_cons, List.cons_append, haddress]
        exact howned.modify (h.callers r List.mem_cons_self) new
      unused := fun _ => h.unused_write (h.callers r List.mem_cons_self) (.live new)
      addressed := by
        intro p found hfound
        by_cases hp : p = r.address
        · subst hp
          rw [Heap.get?_write_live, Option.some.injEq] at hfound
          rw [← hfound, haddress]
        · exact haddressed p hp found hfound }

/-- A write to the record under a key. -/
theorem Represents.assign_filed (h : Represents store ps held fresh)
    (hlookup : store.peers.lookup guidStr = some p) (hr : store.records.get? p = some r)
    {new : Peer} (haddress : new.address = r.address) :
    Represents (store.writeRecord p (.live new))
      { ps with peers := ps.peers.insert guidStr new } held fresh := by
  unfold Store.writeRecord
  have hother : ∀ other, other ≠ p →
      (store.records.write p (.live new)).get? other = store.records.get? other :=
    fun other hne => Heap.get?_write_of_ne _ _ hne
  exact
    { h with
      localPeer := by
        rw [hother _ (h.filed_ne_localPeer hlookup)]
        exact h.localPeer
      callers := by
        intro found hfound
        rw [hother _ (h.held_ne_filed hfound hlookup).symm]
        exact h.callers found hfound
      peers := by
        intro key
        by_cases hkey : key = guidStr
        · subst hkey
          rw [AList.lookup_insert, hlookup, Option.bind_some, Heap.get?_write_live]
        · rw [AList.lookup_insert_ne hkey, h.peers]
          cases hfiled : store.peers.lookup key with
          | none => rfl
          | some found =>
              rw [Option.bind_some, Option.bind_some, hother]
              rintro rfl
              exact hkey (h.key_unique hlookup hfiled)
      owned := h.owned.modify hr new
      unused := fun _ => h.unused_write hr (.live new)
      addressed := by
        intro found content hcontent
        by_cases hp : found = p
        · subst hp
          rw [Heap.get?_write_live, Option.some.injEq] at hcontent
          rw [← hcontent, haddress]
          exact h.addressed found r hr
        · rw [hother found hp] at hcontent
          exact h.addressed found content hcontent }

/-- A caller takes a record out of the table. -/
theorem Represents.take (h : Represents store ps held fresh)
    (hlookup : store.peers.lookup guidStr = some p) (hr : store.records.get? p = some r) :
    Represents (store.deletePeer guidStr)
      { ps with peers := ps.peers.erase guidStr } (r :: held) fresh := by
  unfold Store.deletePeer
  have haddress := h.addressed p r hr
  exact
    { h with
      callers := by
        intro found hfound
        rcases List.mem_cons.mp hfound with rfl | hfound
        · rw [haddress]
          exact hr
        · exact h.callers found hfound
      peers := by
        intro key
        by_cases hkey : key = guidStr
        · subst hkey
          rw [AList.lookup_erase, AList.lookup_erase, Option.bind_none]
        · rw [AList.lookup_erase_ne hkey, AList.lookup_erase_ne hkey]
          exact h.peers key
      owned := by
        apply h.owned.perm
        rw [List.map_cons, List.cons_append, haddress]
        have htable : (store.localPeer :: pointers store.peers).Perm
            (p :: store.localPeer :: pointers (store.peers.erase guidStr)) :=
          ((pointers_erase hlookup).cons _).trans (.swap ..)
        exact (htable.append_left _).trans List.perm_middle }

/-- A record is taken out of the table and freed. -/
theorem Represents.evict (h : Represents store ps held fresh)
    (hlookup : store.peers.lookup guidStr = some p) (hr : store.records.get? p = some r) :
    (store.deletePeer guidStr).peerFree p
        = some ((store.deletePeer guidStr).writeRecord p .freed)
      ∧ Represents ((store.deletePeer guidStr).writeRecord p .freed)
        { ps with peers := ps.peers.erase guidStr } held fresh := by
  refine ⟨Store.peerFree_of_live hr, ?_⟩
  have htaken := (h.take hlookup hr).free
  rwa [h.addressed p r hr] at htaken

/-- A caller leaves a peer of its own to the table. -/
theorem Represents.file (h : Represents store ps (r :: held) fresh)
    (hlookup : store.peers.lookup guidStr = none) :
    Represents (store.putPeer guidStr r.address)
      { ps with peers := ps.peers.insert guidStr r } held fresh := by
  unfold Store.putPeer
  exact
    { h with
      callers := fun found hfound => h.callers found (List.mem_cons_of_mem _ hfound)
      peers := by
        intro key
        by_cases hkey : key = guidStr
        · subst hkey
          rw [AList.lookup_insert, AList.lookup_insert, Option.bind_some,
            h.callers r List.mem_cons_self]
        · rw [AList.lookup_insert_ne hkey, AList.lookup_insert_ne hkey]
          exact h.peers key
      owned := by
        apply h.owned.perm
        rw [pointers_insert hlookup, List.map_cons, List.cons_append]
        have htable : (r.address :: store.localPeer :: pointers store.peers).Perm
            (store.localPeer :: r.address :: pointers store.peers) := .swap ..
        exact List.perm_middle.symm.trans (htable.append_left _) }

/-! ### Names -/

/-- No name has the pointer to a string. -/
def Unnamed (store : Store) (text : Nat) : Prop :=
  ∀ name, store.namestore.lookup name ≠ some text

theorem Represents.unnamed_next (h : Represents store ps held fresh) :
    Unnamed store store.guidStrs.next := fun _ hname =>
  Nat.lt_irrefl _ (h.given _ _ hname)

/-- Strings come and go without a name. -/
theorem Represents.write_unnamed (h : Represents store ps held fresh)
    (hunnamed : Unnamed store text) (cell : Cell CString) :
    Represents (store.writeGuidStr text cell) ps held fresh := by
  unfold Store.writeGuidStr
  exact
    { h with
      names := by
        intro name
        rw [h.names]
        apply Option.map_congr
        intro other hother
        rw [Store.entry, Store.entry, Heap.get?_write_of_ne]
        exact fun heq => hunnamed name (heq ▸ hother)
      given := fun name other hname => lt_max_of_lt_left (h.given name other hname) }

/-- The string of a name is freed. -/
theorem Represents.free_named (h : Represents store ps held fresh)
    (hname : store.namestore.lookup name = some text) :
    Represents (store.writeGuidStr text .freed)
      { ps with namestore := ps.namestore.insert name .freed } held fresh := by
  unfold Store.writeGuidStr
  exact
    { h with
      names := by
        intro other
        by_cases hother : other = name
        · subst hother
          rw [AList.lookup_insert, hname, Option.map_some, Store.entry, Heap.get?_write_freed]
        · rw [AList.lookup_insert_ne hother, h.names]
          apply Option.map_congr
          intro found hfound
          rw [Store.entry, Store.entry, Heap.get?_write_of_ne]
          rintro rfl
          exact hother (h.apart _ _ _ hfound hname)
      given := fun other found hfound => lt_max_of_lt_left (h.given other found hfound) }

theorem Represents.forget (h : Represents store ps held fresh) (name : CString) :
    Represents (store.deleteName name)
      { ps with namestore := ps.namestore.erase name } held fresh := by
  unfold Store.deleteName
  exact
    { h with
      names := by
        intro other
        by_cases hother : other = name
        · subst hother
          rw [AList.lookup_erase, AList.lookup_erase, Option.map_none]
        · rw [AList.lookup_erase_ne hother, AList.lookup_erase_ne hother]
          exact h.names other
      apart := fun first second found hfirst hsecond =>
        h.apart first second found (lookup_erase_eq_some_iff.mp hfirst).2
          (lookup_erase_eq_some_iff.mp hsecond).2
      given := fun other found hfound =>
        h.given other found (lookup_erase_eq_some_iff.mp hfound).2 }

theorem Represents.unnamed_of_forget (h : Represents store ps held fresh)
    (hname : store.namestore.lookup name = some text) :
    Unnamed (store.deleteName name) text := by
  intro other hother
  obtain ⟨hne, hfound⟩ := lookup_erase_eq_some_iff.mp hother
  exact hne (h.apart _ _ _ hfound hname)

/-- A name gets a string that had none. -/
theorem Represents.call (h : Represents store ps held fresh) (hunnamed : Unnamed store text)
    (hread : store.guidStrs.get? text = some guidStr) (name : CString) :
    Represents (store.putName name text)
      { ps with namestore := ps.namestore.insert name (.live guidStr) } held fresh := by
  unfold Store.putName
  exact
    { h with
      names := by
        intro other
        by_cases hother : other = name
        · subst hother
          rw [AList.lookup_insert, AList.lookup_insert, Option.map_some, Store.entry, hread]
        · rw [AList.lookup_insert_ne hother, AList.lookup_insert_ne hother]
          exact h.names other
      apart := by
        intro first second found hfirst hsecond
        rcases lookup_insert_eq_some_iff.mp hfirst with ⟨rfl, rfl⟩ | ⟨_, hbefore⟩
        · rcases lookup_insert_eq_some_iff.mp hsecond with ⟨rfl, _⟩ | ⟨_, hother⟩
          · rfl
          · exact absurd hother (hunnamed second)
        · rcases lookup_insert_eq_some_iff.mp hsecond with ⟨rfl, rfl⟩ | ⟨_, hother⟩
          · exact absurd hbefore (hunnamed first)
          · exact h.apart first second found hbefore hother
      given := by
        intro other found hfound
        rcases lookup_insert_eq_some_iff.mp hfound with ⟨_, rfl⟩ | ⟨_, hfound⟩
        · exact Heap.lt_next_of_live hread
        · exact h.given other found hfound }

end InMemory

end WhisperCore
