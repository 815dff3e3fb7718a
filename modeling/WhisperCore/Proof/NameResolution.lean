import WhisperCore.Concrete
import WhisperCore.Proof.PeerstoreCases
import WhisperCore.Lib.Transition

/-!
# What a name resolves to

A lookup by name should return the record that has the name now, or nothing. A name entry goes wrong
in two ways. A reconnection frees the guid string its entry points to and leaves the entry. An
eviction leaves the entry of the evicted record, and when the same guid is stored again under
another name the old entry leads to it.
-/

namespace WhisperCore

variable {strings : GuidStrings} {ps after : Peerstore} {p : Peer} {now : Int}

/-- Under any activity predicate and update time a lookup by name is defined, and a record it
returns has that name. -/
def NeverSomebodyElse (ps : Peerstore) : Prop :=
  ∀ (isActivePeer : Int → Peer → Bool) (lastUpdate : Int) (username : CString),
    ∃ result next, peerstoreLookupByUsername
        { ps with isActivePeer := isActivePeer, lastUpdate := lastUpdate } username
      = some (result, next) ∧ ∀ r, result = some r → r.userName = username

/-- No name entry points to a freed string, and the record an entry leads to has its name. -/
structure NamesResolve (ps : Peerstore) : Prop where
  live : ∀ username, ps.namestore.lookup username ≠ some .freed
  own : ∀ {username guidStr r}, ps.namestore.lookup username = some (.live guidStr) →
    ps.peers.lookup guidStr = some r → r.userName = username

theorem neverSomebodyElse_iff : NeverSomebodyElse ps ↔ NamesResolve ps := by
  constructor
  · intro h
    refine ⟨fun username hfreed => ?_, fun {username guidStr r} hname hr => ?_⟩
    · obtain ⟨result, next, hlookup, _⟩ := h alwaysActive 0 username
      have hnone : peerstoreLookupByUsername
          { ps with isActivePeer := alwaysActive, lastUpdate := 0 } username = none :=
        lookupByUsername_eq_none_iff.mpr hfreed
      rw [hnone] at hlookup
      cases hlookup
    · obtain ⟨result, next, hlookup, howns⟩ := h alwaysActive 0 username
      simp only [peerstoreLookupByUsername, hname, hr, isPeerActive, alwaysActive, if_true,
        Option.some.injEq, Prod.mk.injEq] at hlookup
      exact howns r hlookup.1.symm
  · intro h isActivePeer lastUpdate username
    obtain ⟨result, next, hlookup⟩ : ∃ result next, peerstoreLookupByUsername
        { ps with isActivePeer := isActivePeer, lastUpdate := lastUpdate } username
          = some (result, next) :=
      lookupByUsername_defined_iff.mpr (h.live username)
    refine ⟨result, next, hlookup, fun r hr => ?_⟩
    rcases lookupByUsername_cases hlookup with
      ⟨guidStr, found, hname, hfound, _, hresult, _⟩ | ⟨_, _, _, _, _, hresult, _⟩
        | ⟨_, _, _, hresult, _⟩ | ⟨_, hresult, _⟩
    · obtain rfl : found = r := Option.some.inj (hresult.symm.trans hr)
      exact h.own hname hfound
    all_goals
      rw [hresult] at hr
      cases hr

theorem namesResolve_init (localPeer : Peer) (iap : Option (Int → Peer → Bool)) (now : Int) :
    NamesResolve (peerstoreInit localPeer iap now) where
  live := by simp [peerstoreInit]
  own := by simp [peerstoreInit]

/-! ### Lookups -/

theorem NamesResolve.erase_peer (h : NamesResolve ps) (guidStr : CString) :
    NamesResolve { ps with peers := ps.peers.erase guidStr } where
  live := h.live
  own hname hr := h.own hname (lookup_erase_eq_some_iff.mp hr).2

theorem NamesResolve.erase_name (h : NamesResolve ps) (username : CString) :
    NamesResolve { ps with namestore := ps.namestore.erase username } where
  live other hfreed := h.live other (lookup_erase_eq_some_iff.mp hfreed).2
  own hname hr := h.own (lookup_erase_eq_some_iff.mp hname).2 hr

theorem NamesResolve.lookup (h : NamesResolve ps) (guid : Guid) :
    NamesResolve (peerstoreLookup strings ps guid).2 :=
  peerstoreLookup_invariant h h.erase_peer guid

theorem NamesResolve.lookupByUsername (h : NamesResolve ps) {username : CString}
    {result : Option Peer}
    (hlookup : peerstoreLookupByUsername ps username = some (result, after)) : NamesResolve after :=
  lookupByUsername_invariant h h.erase_peer (fun _ _ _ => h.erase_name username) hlookup

/-! ### Storing -/

/-- A store removes no record, and where it inserts a guid no name entry left behind by an earlier
record of that guid remains, other than the one it files under. -/
structure LeavesNoName (strings : GuidStrings) (ps : Peerstore) (p : Peer) : Prop where
  keeps : ∀ guidStr old, ¬ Reconnects strings ps p guidStr old
  forgotten : ps.peers.lookup (strings.toString p.guid) = none →
    ∀ username, ps.namestore.lookup username = some (.live (strings.toString p.guid)) →
      username = filedName ps.namestore p (strings.toString p.guid)

/-- Filing the record of `p` under `name` is safe when no entry of another name leads to its guid.
-/
theorem NamesResolve.file {namestore : JnxHash GuidStr} (h : NamesResolve ps) {name : CString}
    {record : Peer} (hname : record.userName = name)
    (hsub : ∀ username entry, namestore.lookup username = some entry →
      ps.namestore.lookup username = some entry)
    (honly : ∀ username, namestore.lookup username = some (.live (strings.toString p.guid)) →
      username = name) :
    NamesResolve { ps with
      namestore := namestore.insert name (.live (strings.toString p.guid))
      peers := ps.peers.insert (strings.toString p.guid) record } where
  live username hfreed := by
    rcases lookup_insert_eq_some_iff.mp hfreed with ⟨_, hlive⟩ | ⟨_, hold⟩
    · cases hlive
    · exact h.live username (hsub _ _ hold)
  own := by
    intro username guidStr r hentry hr
    rcases lookup_insert_eq_some_iff.mp hentry with ⟨rfl, hlive⟩ | ⟨hother, hold⟩
    · obtain rfl : guidStr = strings.toString p.guid := by simpa using hlive
      obtain rfl : r = record := by simpa [eq_comm] using hr
      exact hname
    · rcases lookup_insert_eq_some_iff.mp hr with ⟨rfl, _⟩ | ⟨_, hr⟩
      · exact absurd (honly username hold) hother
      · exact h.own (hsub _ _ hold) hr

theorem NamesResolve.storePeer (h : NamesResolve ps) (hcond : LeavesNoName strings ps p)
    (hstore : peerstoreStorePeer strings ps now p = some after) : NamesResolve after := by
  cases storePeer_of_forall_not hstore hcond.keeps with
  | updated old hfiled hstarts =>
      refine ⟨h.live, fun {username guidStr r} hname hr => ?_⟩
      rcases lookup_insert_eq_some_iff.mp hr with ⟨rfl, rfl⟩ | ⟨_, hr⟩
      · exact (h.own hname hfiled : old.userName = username)
      · exact h.own hname hr
  | renamed old name hfiled hstarts hname =>
      refine h.file rfl (fun _ _ hold => (lookup_erase_eq_some_iff.mp hold).2) ?_
      intro username hold
      obtain ⟨hne, hold⟩ := lookup_erase_eq_some_iff.mp hold
      exact absurd (h.own hold hfiled).symm hne
  | inserted name hfiled hname =>
      refine h.file rfl (fun _ _ hold => hold) ?_
      intro username hold
      exact (hcond.forgotten hfiled username hold).trans hname.symm

theorem leavesNoName_of_namesResolve
    (hstore : peerstoreStorePeer strings ps now p = some after) (hafter : NamesResolve after) :
    LeavesNoName strings ps p := by
  have hkeeps : ∀ guidStr old, ¬ Reconnects strings ps p guidStr old := fun _ _ hre =>
    hafter.live _ (hre.freed_after hstore)
  refine ⟨hkeeps, fun habsent username hold => ?_⟩
  cases storePeer_of_forall_not hstore hkeeps with
  | updated old hfiled hstarts =>
      rw [habsent] at hfiled
      cases hfiled
  | renamed old name hfiled hstarts hname =>
      rw [habsent] at hfiled
      cases hfiled
  | inserted name hfiled hname =>
      by_contra hother
      have hentry : (ps.namestore.insert name (.live (strings.toString p.guid))).lookup username
          = some (.live (strings.toString p.guid)) :=
        lookup_insert_eq_some_iff.mpr (Or.inr ⟨fun heq => hother (heq.trans hname), hold⟩)
      have hresolved := hafter.own hentry (AList.lookup_insert _)
      exact hother (hresolved.symm.trans hname)

/-! ### Runs -/

/-- The condition on a call: a store leaves no name behind. -/
def NoNameLeftBehind (strings : GuidStrings) (ps : Peerstore) : PeerstoreCall → Prop
  | .storePeer _ p => LeavesNoName strings ps p
  | .lookup _ => True
  | .lookupByUsername _ => True
  | .setLastUpdateTime _ => True

theorem neverSomebodyElse_step_iff (h : NeverSomebodyElse ps) (call : PeerstoreCall) :
    (∃ next, call.step strings ps = some next ∧ NeverSomebodyElse next)
      ↔ NoNameLeftBehind strings ps call := by
  rw [neverSomebodyElse_iff] at h
  simp only [neverSomebodyElse_iff]
  cases call with
  | storePeer now p =>
      constructor
      · rintro ⟨next, hnext, hresolve⟩
        exact leavesNoName_of_namesResolve hnext hresolve
      · intro hcond
        obtain ⟨next, hnext⟩ := storePeer_defined_iff.mpr (h.live p.userName)
        exact ⟨next, hnext, h.storePeer hcond hnext⟩
  | lookup guid => exact ⟨fun _ => trivial, fun _ => ⟨_, rfl, h.lookup guid⟩⟩
  | lookupByUsername username =>
      refine ⟨fun _ => trivial, fun _ => ?_⟩
      obtain ⟨result, next, hlookup⟩ := lookupByUsername_defined_iff.mpr (h.live username)
      exact ⟨next, by simp [PeerstoreCall.step, hlookup], h.lookupByUsername hlookup⟩
  | setLastUpdateTime lastUpdate => exact ⟨fun _ => trivial, fun _ => ⟨_, rfl, h.live, h.own⟩⟩

/-- **Names resolve, exactly.** Along a run of calls from a fresh store no call is undefined and no
name ever resolves to a record of another name, exactly when no store removes a reconnecting peer's
record or inserts a guid that a name entry left behind still leads to. -/
theorem stays_neverSomebodyElse_iff (localPeer : Peer) (iap : Option (Int → Peer → Bool))
    (now : Int) (calls : List PeerstoreCall) :
    Transition.Stays (PeerstoreCall.step strings) NeverSomebodyElse
        (peerstoreInit localPeer iap now) calls
      ↔ Transition.Along (PeerstoreCall.step strings) (NoNameLeftBehind strings)
        (peerstoreInit localPeer iap now) calls :=
  Transition.stays_iff_along (fun _ call h => neverSomebodyElse_step_iff h call)
    (neverSomebodyElse_iff.mpr (namesResolve_init localPeer iap now)) calls

section Run

open Concrete

/-- Bob is evicted and announces himself again. -/
def bobReturns : List PeerstoreCall :=
  [.storePeer 1 (peer 1 bob), .setLastUpdateTime 12, .lookup (guid 1),
    .storePeer 13 (peer 1 bob)]

theorem not_neverSomebodyElse_bobReturns :
    ∃ ps r next, Transition.run (PeerstoreCall.step guidStrings)
        (peerstoreInit (peer 0 al) (some isActivePeerPeriodicUpdate) 0) bobReturns = some ps
      ∧ peerstoreLookupByUsername ps bob = some (some r, next) ∧ r.userName ≠ bob
      ∧ ¬ NeverSomebodyElse ps := by
  have hbob : ∀ ps, Transition.run (PeerstoreCall.step guidStrings)
      (peerstoreInit (peer 0 al) (some isActivePeerPeriodicUpdate) 0) bobReturns = some ps →
      peerstoreLookupByUsername ps bob = some (some { peer 1 bob with
        userName := uniqueUsername bob (guidStrings.toString (guid 1)), lastSeen := 13 }, ps) := by
    rintro ps hps
    obtain rfl := Option.some.inj hps
    rfl
  have hother : uniqueUsername bob (guidStrings.toString (guid 1)) ≠ bob := by decide
  refine ⟨_, _, _, rfl, hbob _ rfl, hother, fun hnever => ?_⟩
  obtain ⟨result, next, hlookup, howns⟩ := hnever isActivePeerPeriodicUpdate 12 bob
  have hsame := hlookup.symm.trans (hbob _ rfl)
  obtain ⟨hresult, _⟩ := Prod.mk.inj (Option.some.inj hsame)
  exact hother (howns _ hresult)

end Run

end WhisperCore
