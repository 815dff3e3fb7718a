import WhisperCore.Concrete
import WhisperCore.LockedCalls
import WhisperCore.Proof.PeerstoreCases

/-!
# Interleaved calls

Each call under its locks does what its function does in one piece. So whatever order the threads of
a process take their steps in, they see what they would see if the functions were called one after
another, and no set of calls ever waits for itself. The service's update time and its store's differ
only in the middle of an update.
-/

namespace WhisperCore

open Monitor

/-! ### The order of the locks -/

theorem updateTimeLock_lt_storeLock : ServiceLock.updateTimeLock < ServiceLock.storeLock :=
  Nat.zero_lt_one

instance : WellFoundedGT ServiceLock where
  wf := by
    refine Subrelation.wf (fun {l k} hlk => ?_) (measure fun l => 1 - ServiceLock.rank l).wf
    have hrank : k.rank < l.rank := hlk
    have hbound : l.rank ≤ 1 := by cases l <;> decide
    change 1 - l.rank < 1 - k.rank
    omega

/-! ### Runs of accesses -/

section Runs

variable {shared : (l : ServiceLock) → l.Guards} {ps other : Peerstore}

@[simp]
theorem withStore_storeLock : withStore shared ps .storeLock = ps := Function.update_self ..

@[simp]
theorem withStore_withStore : withStore (withStore shared ps) other = withStore shared other :=
  Function.update_idem ..

theorem withStore_self (h : shared .storeLock = ps) : withStore shared ps = shared := by
  subst h
  exact Function.update_eq_self ..

@[simp]
theorem run_acquire {l : ServiceLock} {rest : ServiceProgram} :
    (Program.acquire l rest).run shared = rest.run shared := rfl

@[simp]
theorem run_reading {α : Type} {read : Peerstore → α} {next : α → ServiceProgram} :
    (reading read next).run shared = (next (read (shared .storeLock))).run shared := by
  have hsame : Function.update shared .storeLock (shared .storeLock) = shared :=
    Function.update_eq_self ..
  exact congrArg (next (read (shared .storeLock))).run hsame

@[simp]
theorem run_writing {write : Peerstore → Peerstore} {next : ServiceProgram} :
    (writing write next).run shared = next.run (withStore shared (write (shared .storeLock))) := rfl

@[simp]
theorem run_faulting : faulting.run shared = none := rfl

@[simp]
theorem run_unlockAndReturn {answer : ServiceAnswer} :
    (unlockAndReturn answer).run shared = some (shared, answer) := rfl

end Runs

/-! ### What the calls do -/

section Calls

variable {strings : GuidStrings} {shared : (l : ServiceLock) → l.Guards} {ps : Peerstore}

theorem run_handlePeerReconnectionProgram {p : Peer} {next : ServiceProgram}
    (hps : shared .storeLock = ps) :
    (handlePeerReconnectionProgram strings p next).run shared
      = (handlePeerReconnection strings ps p).bind fun ps => next.run (withStore shared ps) := by
  rw [handlePeerReconnectionProgram, run_reading, hps, handlePeerReconnection]
  cases hname : ps.namestore.lookup p.userName with
  | none => simp [withStore_self hps]
  | some entry =>
      cases entry with
      | freed => rfl
      | live guidStr =>
          by_cases hother : guidStr ≠ strings.toString p.guid
          · simp only [if_pos hother, run_reading, hps]
            cases hold : ps.peers.lookup guidStr with
            | none => simp [withStore_self hps]
            | some oldPeer =>
                by_cases hhost : p.hostAddress = oldPeer.hostAddress
                · simp [hhost, deletePeer, putName, hps]
                · simp [hhost, withStore_self hps]
          · simp only [if_neg hother]
            simp [withStore_self hps]

/-- A record that is there, updated. -/
theorem run_updateRecordProgram {p old : Peer} {guidStr : CString} (hps : shared .storeLock = ps)
    (hold : ps.peers.lookup guidStr = some old) :
    (updateRecordProgram p old guidStr).run shared
      = some (withStore shared (
          let old' := { old with hostAddress := p.hostAddress, lastSeen := p.lastSeen }
          if strncmpEqual old.userName p.userName p.userName.bytes.length then
            { ps with peers := ps.peers.insert guidStr old' }
          else
            let namestore := ps.namestore.erase old.userName
            let p := ensureUsernameUnique namestore p guidStr
            { ps with
              namestore := namestore.insert p.userName (.live guidStr)
              peers := ps.peers.insert guidStr { old' with userName := p.userName } }), .void) := by
  by_cases hname : strncmpEqual old.userName p.userName p.userName.bytes.length
  · simp [updateRecordProgram, hps, hname, writeRecord, putPeer, hold, AList.lookup_insert,
      AList.insert_insert]
  · simp [updateRecordProgram, ensureUsernameUniqueProgram, hps, hname, writeRecord, putPeer,
      deleteName, putName, hold, AList.lookup_insert, AList.insert_insert]

theorem run_insertRecordProgram {p : Peer} {guidStr : CString} (hps : shared .storeLock = ps) :
    (insertRecordProgram p guidStr).run shared
      = some (withStore shared (
          let p := ensureUsernameUnique ps.namestore p guidStr
          { ps with
            namestore := ps.namestore.insert p.userName (.live guidStr)
            peers := ps.peers.insert guidStr p }), .void) := by
  simp [insertRecordProgram, ensureUsernameUniqueProgram, hps, putName, putPeer]

theorem run_storePeer (now : Int) (p : Peer) (hps : shared .storeLock = ps) :
    (peerstoreStorePeerProgram strings now p).run shared
      = (peerstoreStorePeer strings ps now p).map fun ps => (withStore shared ps, .void) := by
  rw [peerstoreStorePeerProgram, run_acquire, run_handlePeerReconnectionProgram hps,
    peerstoreStorePeer]
  cases handlePeerReconnection strings ps p with
  | none => rfl
  | some ps =>
      simp only [Option.bind_some, Option.map_some, run_reading, withStore_storeLock]
      cases hold : ps.peers.lookup (strings.toString p.guid) with
      | none => rw [run_insertRecordProgram withStore_storeLock, withStore_withStore]
      | some old => 
          rw [run_updateRecordProgram withStore_storeLock hold, withStore_withStore]

theorem run_returnActiveProgram {guidStr : CString} {p : Peer} (hps : shared .storeLock = ps) :
    (returnActiveProgram guidStr p).run shared
      = if isPeerActive ps p then some (withStore shared ps, .peer (some p))
        else some (withStore shared (deletePeer guidStr ps), .peer none) := by
  by_cases hactive : isPeerActive ps p
  · simp [returnActiveProgram, hps, hactive, withStore_self hps]
  · simp [returnActiveProgram, hps, hactive]

theorem run_lookup (guid : Guid) (hps : shared .storeLock = ps) :
    (peerstoreLookupProgram strings guid).run shared
      = some (withStore shared (peerstoreLookup strings ps guid).2,
        .peer (peerstoreLookup strings ps guid).1) := by
  rw [peerstoreLookupProgram, run_acquire, run_reading, hps, peerstoreLookup]
  cases ps.peers.lookup (strings.toString guid) with
  | none => simp [withStore_self hps]
  | some p =>
      simp only [run_returnActiveProgram hps]
      by_cases hactive : isPeerActive ps p
      · simp [hactive]
      · simp [hactive, deletePeer]

theorem run_lookupByUsername (username : CString) (hps : shared .storeLock = ps) :
    (peerstoreLookupByUsernameProgram username).run shared
      = (peerstoreLookupByUsername ps username).map fun found =>
          (withStore shared found.2, .peer found.1) := by
  rw [peerstoreLookupByUsernameProgram, run_acquire, run_reading, hps, peerstoreLookupByUsername]
  cases ps.namestore.lookup username with
  | none => simp [withStore_self hps]
  | some entry =>
      cases entry with
      | freed => rfl
      | live guidStr =>
          simp only [run_reading, hps]
          cases ps.peers.lookup guidStr with
          | none => simp [deleteName, hps]
          | some p =>
              simp only [run_returnActiveProgram hps]
              by_cases hactive : isPeerActive ps p
              · simp [hactive]
              · simp [hactive, deletePeer]

theorem run_peerNoLongerActive (p : Peer) (hps : shared .storeLock = ps) :
    (peerstorePeerNoLongerActiveProgram p).run shared
      = (peerstorePeerNoLongerActive ps p).map fun ps => (withStore shared ps, .void) := by
  rw [peerstorePeerNoLongerActiveProgram, run_acquire, run_reading, hps,
    peerstorePeerNoLongerActive]
  cases ps.namestore.lookup p.userName with
  | none => rfl
  | some entry =>
      cases entry with
      | freed => rfl
      | live guidStr =>
          cases hfound : ps.peers.lookup guidStr with
          | none => simp [hps, deleteName, hfound]
          | some found => simp [hps, deleteName, deletePeer, hfound]

/-- The loop finds every record whose key is left, for no key is left without one. -/
theorem run_activeGuidsProgram {entries : List (Sigma fun _ : CString => Peer)}
    {guids : List Guid} (hps : shared .storeLock = ps)
    (hentries : ∀ entry ∈ entries, entry ∈ ps.peers.entries) :
    (activeGuidsProgram (entries.map Sigma.fst) guids).run shared
      = some (shared, .guids (guids ++ (entries.filter fun entry =>
          isPeerActive ps entry.2).map fun entry => entry.2.guid)) := by
  induction entries generalizing guids with
  | nil => simp [activeGuidsProgram]
  | cons entry entries ih =>
      have hfound : ps.peers.lookup entry.1 = some entry.2 :=
        AList.mem_lookup_iff.mpr (hentries entry List.mem_cons_self)
      have hrest := fun guids : List Guid => @ih guids fun other hother =>
        hentries other (List.mem_cons_of_mem entry hother)
      by_cases hactive : isPeerActive ps entry.2
      · simp [activeGuidsProgram, hps, hfound, hactive, hrest]
      · simp [activeGuidsProgram, hps, hfound, hactive, hrest]

theorem run_getActiveGuids (hps : shared .storeLock = ps) :
    peerstoreGetActiveGuidsProgram.run shared
      = some (shared, .guids (peerstoreGetActiveGuids ps)) := by
  rw [peerstoreGetActiveGuidsProgram, run_acquire, run_reading, hps]
  exact (run_activeGuidsProgram hps fun _ hentry => hentry).trans rfl

theorem run_setLastUpdateTime (lastUpdate : Int) (shared : (l : ServiceLock) → l.Guards) :
    (peerstoreSetLastUpdateTimeProgram lastUpdate).run shared
      = some (withStore shared (peerstoreSetLastUpdateTime (shared .storeLock) lastUpdate),
        .void) := rfl

theorem run_safelyUpdateLastUpdateTime (now : Int) (shared : (l : ServiceLock) → l.Guards) :
    (safelyUpdateLastUpdateTimeProgram now).run shared
      = some (guarded now (peerstoreSetLastUpdateTime (shared .storeLock) now), .void) := by
  refine congrArg (fun after => some (after, ServiceAnswer.void)) (funext fun l => ?_)
  cases l with
  | updateTimeLock => rfl
  | storeLock => rfl

theorem run_getLastUpdateTime (shared : (l : ServiceLock) → l.Guards) :
    getLastUpdateTimeProgram.run shared = some (shared, .time (shared .updateTimeLock)) := by
  have hsame : Function.update shared .updateTimeLock (shared .updateTimeLock) = shared :=
    Function.update_eq_self ..
  exact congrArg (fun after => some (after, ServiceAnswer.time (shared .updateTimeLock))) hsame

/-- **One piece.** Run without interruption, a call does what its function does. -/
theorem run_program (call : ServiceCall) (shared : (l : ServiceLock) → l.Guards) :
    (call.program strings).run shared = call.serve strings shared := by
  cases call with
  | storePeer now p => exact run_storePeer now p rfl
  | lookup guid => exact run_lookup guid rfl
  | lookupByUsername username => exact run_lookupByUsername username rfl
  | peerNoLongerActive p => exact run_peerNoLongerActive p rfl
  | getActiveGuids => exact run_getActiveGuids rfl
  | setLastUpdateTime lastUpdate => exact run_setLastUpdateTime lastUpdate shared
  | safelyUpdateLastUpdateTime now => exact run_safelyUpdateLastUpdateTime now shared
  | getLastUpdateTime => exact run_getLastUpdateTime shared

end Calls

/-! ### What the calls are made of -/

/-- What a call does while it holds `store_lock`, if it sets no time: it reads the store and writes
to it, and in the end it gives the lock back or faults. -/
inductive StoreProgram : ServiceProgram → Prop where
  | reads {α : Type} (read : Peerstore → α) (next : α → ServiceProgram)
      (hnext : ∀ value, StoreProgram (next value)) : StoreProgram (reading read next)
  | writes (write : Peerstore → Peerstore) (next : ServiceProgram)
      (hkeeps : ∀ ps, (write ps).lastUpdate = ps.lastUpdate) (hnext : StoreProgram next) :
      StoreProgram (writing write next)
  | returns (answer : ServiceAnswer) : StoreProgram (unlockAndReturn answer)
  | faults : StoreProgram faulting

section Shapes

variable {strings : GuidStrings}

theorem lastUpdate_writeRecord {guidStr : CString} {write : Peer → Peer} (ps : Peerstore) :
    (writeRecord guidStr write ps).lastUpdate = ps.lastUpdate := by
  unfold writeRecord
  cases ps.peers.lookup guidStr <;> rfl

theorem storeProgram_handlePeerReconnection {p : Peer} {next : ServiceProgram}
    (hnext : StoreProgram next) : StoreProgram (handlePeerReconnectionProgram strings p next) := by
  refine .reads _ _ fun entry => ?_
  match entry with
  | none => exact hnext
  | some .freed => exact .faults
  | some (.live guidStr) =>
      by_cases hother : guidStr ≠ strings.toString p.guid
      · simp only [if_pos hother]
        refine .reads _ _ fun found => ?_
        match found with
        | none => exact hnext
        | some oldPeer =>
            by_cases hhost : p.hostAddress = oldPeer.hostAddress
            · simp only [if_pos hhost]
              exact .writes _ _ (fun _ => rfl) (.writes _ _ (fun _ => rfl) hnext)
            · simpa only [if_neg hhost] using hnext
      · simpa only [if_neg hother] using hnext

theorem storeProgram_updateRecord (p old : Peer) (guidStr : CString) :
    StoreProgram (updateRecordProgram p old guidStr) := by
  have hstamp (write : Peer → Peer) :
      StoreProgram (writing (writeRecord guidStr write) (unlockAndReturn .void)) :=
    .writes _ _ lastUpdate_writeRecord (.returns _)
  refine .writes _ _ lastUpdate_writeRecord ?_
  by_cases hname : strncmpEqual old.userName p.userName p.userName.bytes.length
  · simpa only [if_pos hname] using hstamp _
  · simp only [if_neg hname]
    refine .writes _ _ (fun _ => rfl) (.reads _ _ fun unique => ?_)
    exact .writes _ _ lastUpdate_writeRecord (.writes _ _ (fun _ => rfl) (hstamp _))

theorem storeProgram_insertRecord (p : Peer) (guidStr : CString) :
    StoreProgram (insertRecordProgram p guidStr) := by
  rw [insertRecordProgram, ensureUsernameUniqueProgram]
  refine .reads _ _ fun unique => ?_
  exact .writes _ _ (fun _ => rfl) (.writes _ _ (fun _ => rfl) (.returns _))

theorem storeProgram_returnActive (guidStr : CString) (p : Peer) :
    StoreProgram (returnActiveProgram guidStr p) := by
  refine .reads _ _ fun active => ?_
  cases active with
  | true => exact .returns _
  | false => exact .writes _ _ (fun _ => rfl) (.returns _)

theorem storeProgram_activeGuids (keys : List CString) (guids : List Guid) :
    StoreProgram (activeGuidsProgram keys guids) := by
  induction keys generalizing guids with
  | nil => exact .returns _
  | cons key keys ih =>
      refine .reads _ _ fun found => ?_
      match found with
      | none => exact .faults
      | some temp => exact .reads _ _ fun active => ih _

/-- All calls but those about the times take `store_lock` and then work on the store. -/
theorem program_cases (call : ServiceCall) :
    (∃ rest, call.program strings = .acquire .storeLock rest ∧ StoreProgram rest)
      ∨ (∃ lastUpdate, call = .setLastUpdateTime lastUpdate)
      ∨ (∃ now, call = .safelyUpdateLastUpdateTime now) ∨ call = .getLastUpdateTime := by
  cases call with
  | storePeer now p =>
      refine Or.inl ⟨_, rfl, storeProgram_handlePeerReconnection (.reads _ _ fun found => ?_)⟩
      match found with
      | none => exact storeProgram_insertRecord _ _
      | some old => exact storeProgram_updateRecord _ old _
  | lookup guid =>
      refine Or.inl ⟨_, rfl, .reads _ _ fun found => ?_⟩
      match found with
      | none => exact .returns _
      | some p => exact storeProgram_returnActive _ p
  | lookupByUsername username =>
      refine Or.inl ⟨_, rfl, .reads _ _ fun entry => ?_⟩
      match entry with
      | none => exact .returns _
      | some .freed => exact .faults
      | some (.live guidStr) =>
          refine .reads _ _ fun found => ?_
          match found with
          | none => exact .writes _ _ (fun _ => rfl) (.returns _)
          | some p => exact storeProgram_returnActive guidStr p
  | peerNoLongerActive p =>
      refine Or.inl ⟨_, rfl, .reads _ _ fun entry => .writes _ _ (fun _ => rfl) ?_⟩
      match entry with
      | none => exact .faults
      | some .freed => exact .faults
      | some (.live guidStr) =>
          refine .reads _ _ fun found => .writes _ _ (fun _ => rfl) ?_
          match found with
          | none => exact .faults
          | some _ => exact .returns _
  | getActiveGuids => exact Or.inl ⟨_, rfl, .reads _ _ fun keys => storeProgram_activeGuids keys []⟩
  | setLastUpdateTime lastUpdate => exact Or.inr (Or.inl ⟨lastUpdate, rfl⟩)
  | safelyUpdateLastUpdateTime now => exact Or.inr (Or.inr (Or.inl ⟨now, rfl⟩))
  | getLastUpdateTime => exact Or.inr (Or.inr (Or.inr rfl))

end Shapes

/-! ### The discipline of the calls -/

section Discipline

variable {strings : GuidStrings}

theorem orderly_unlockAndReturn (answer : ServiceAnswer) :
    (unlockAndReturn answer).Orderly {.storeLock} :=
  ⟨List.nodup_singleton _, fun _ => List.mem_singleton⟩

theorem StoreProgram.orderly {program : ServiceProgram} (h : StoreProgram program) :
    program.Orderly {.storeLock} := by
  induction h with
  | reads read next _ ih => exact ⟨rfl, fun ps => ih (read ps)⟩
  | writes write next _ _ ih => exact ⟨rfl, fun _ => ih⟩
  | returns answer => exact orderly_unlockAndReturn answer
  | faults => exact ⟨rfl, fun _ => orderly_unlockAndReturn .void⟩

theorem orderly_acquire {rest : ServiceProgram} (h : rest.Orderly {.storeLock}) :
    (Program.acquire .storeLock rest : ServiceProgram).Orderly ∅ :=
  ⟨fun _ hk => hk.elim, by simpa using h⟩

/-- Every call keeps the discipline. -/
theorem orderly_program (call : ServiceCall) : (call.program strings).Orderly ∅ := by
  rcases program_cases call with
    ⟨rest, hprogram, hrest⟩ | ⟨lastUpdate, rfl⟩ | ⟨now, rfl⟩ | rfl
  · rw [hprogram]
    exact orderly_acquire hrest.orderly
  · exact orderly_acquire ⟨rfl, fun _ => orderly_unlockAndReturn .void⟩
  · refine ⟨fun _ hk => hk.elim, Set.mem_insert _ _, fun _ => ⟨Set.mem_insert _ _, fun _ => ?_⟩⟩
    refine ⟨fun k hk => ?_, Set.mem_insert _ _, fun _ => ?_⟩
    · obtain rfl : k = .updateTimeLock := by simpa using hk
      exact updateTimeLock_lt_storeLock
    · exact ⟨by decide, fun l => by simp⟩
  · exact ⟨fun _ hk => hk.elim, Set.mem_insert _ _, fun _ =>
      ⟨List.nodup_singleton _, fun l => by simp⟩⟩

end Discipline

/-! ### Interleaved runs -/

/-- The threads of a process with a store and a service. -/
abbrev Threads (Thread : Type) := Machine Thread ServiceLock.Guards ServiceCall ServiceAnswer

abbrev Served (Thread : Type) := Server Thread ServiceLock.Guards ServiceCall ServiceAnswer

section Interleaved

variable {strings : GuidStrings} {Thread : Type} [DecidableEq Thread] {lastUpdated : Int}
  {ps : Peerstore} {c : Threads Thread}

/-- The threads after some steps, in any order, from when the service was created. -/
def Threads.Reachable (strings : GuidStrings) (lastUpdated : Int) (ps : Peerstore)
    (c : Threads Thread) : Prop :=
  ∃ actions, Transition.run (Machine.step (ServiceCall.program strings))
    (Machine.start (guarded lastUpdated ps)) actions = some c

theorem Threads.Reachable.linearizes (h : Threads.Reachable strings lastUpdated ps c) :
    ∃ served, ∃ a : Served Thread, Transition.run (Server.step (ServiceCall.serve strings))
        (Server.start (guarded lastUpdated ps)) served = some a
      ∧ Linearizes (ServiceCall.serve strings) c a := by
  obtain ⟨actions, hrun⟩ := h
  exact linearizable orderly_program run_program hrun

/-- **Linearizability.** What the threads observe of their calls, when each begins and when it
returns with what, they could observe of calls of the plain functions, one after another. -/
theorem calls_linearizable (h : Threads.Reachable strings lastUpdated ps c) :
    ∃ served, ∃ a : Served Thread, Transition.run (Server.step (ServiceCall.serve strings))
        (Server.start (guarded lastUpdated ps)) served = some a
      ∧ a.history = c.history ∧ ∀ l, c.owner l = none → a.shared l = c.shared l := by
  obtain ⟨served, a, hserved, hlinearizes⟩ := h.linearizes
  exact ⟨served, a, hserved, hlinearizes.history, hlinearizes.free⟩

section Run

open Concrete

/-- One thread updates the times while another stores Al. -/
def overlapping : List (Action Bool ServiceCall) :=
  [.begins true (.safelyUpdateLastUpdateTime 5), .begins false (.storePeer 4 (peer 1 al)),
    .moves false, .moves true, .moves true, .moves true] ++ List.replicate 7 (.moves false)
    ++ [.returns false] ++ List.replicate 5 (.moves true) ++ [.returns true]

/-- The threads after some of these steps: after six the first one waits for the other, after twenty
both calls have returned. -/
def overlapped (steps : Nat) : Threads Bool :=
  (Transition.run (Machine.step (ServiceCall.program guidStrings))
    (Machine.start (guarded 0 freshStore)) (overlapping.take steps)).getD
    (Machine.start (guarded 0 freshStore))

theorem overlapped_reachable {steps : Nat}
    (h : (Transition.run (Machine.step (ServiceCall.program guidStrings))
      (Machine.start (guarded 0 freshStore)) (overlapping.take steps)).isSome = true) :
    Threads.Reachable guidStrings 0 freshStore (overlapped steps) := by
  obtain ⟨c, hc⟩ := Option.isSome_iff_exists.mp h
  refine ⟨overlapping.take steps, ?_⟩
  rw [overlapped, hc]
  rfl

theorem calls_linearizable_run :
    ∃ served, ∃ a : Served Bool, Transition.run (Server.step (ServiceCall.serve guidStrings))
        (Server.start (guarded 0 freshStore)) served = some a
      ∧ a.history = (overlapped 20).history
      ∧ ∀ l, (overlapped 20).owner l = none → a.shared l = (overlapped 20).shared l :=
  calls_linearizable (overlapped_reachable (by decide +kernel))

end Run

/-- **No deadlock.** As long as some call has not returned, some call that has not returned can take
its next step, or is about to read a freed string or through NULL, where the process ends. -/
theorem calls_never_deadlock (h : Threads.Reachable strings lastUpdated ps c) {t : Thread}
    (hbusy : c.threads t ≠ .idle) :
    ∃ other, c.threads other ≠ .idle ∧ c.Goes (ServiceCall.program strings) other := by
  obtain ⟨actions, hrun⟩ := h
  exact (disciplined_run orderly_program hrun).exists_goes hbusy

section Run

theorem calls_never_deadlock_run :
    ∃ other, (overlapped 6).threads other ≠ .idle
      ∧ (overlapped 6).Goes (ServiceCall.program Concrete.guidStrings) other := by
  have hworking : ∃ op rest, (overlapped 6).threads true = .working op rest := ⟨_, _, rfl⟩
  obtain ⟨op, rest, hworking⟩ := hworking
  have hbusy : (overlapped 6).threads true ≠ .idle := by
    rw [hworking]
    nofun
  exact calls_never_deadlock (overlapped_reachable (by decide +kernel)) hbusy

end Run

/-! ### The store between calls -/

/-- The event of the store a call amounts to. -/
def ServiceCall.event : ServiceCall → Option PeerstoreEvent
  | storePeer now p => some (.call (.storePeer now p))
  | lookup guid => some (.call (.lookup guid))
  | lookupByUsername username => some (.call (.lookupByUsername username))
  | peerNoLongerActive p => some (.noLongerActive p)
  | getActiveGuids => none
  | setLastUpdateTime lastUpdate => some (.call (.setLastUpdateTime lastUpdate))
  | safelyUpdateLastUpdateTime now => some (.call (.setLastUpdateTime now))
  | getLastUpdateTime => none

theorem serve_store {call : ServiceCall} {shared after : (l : ServiceLock) → l.Guards}
    {answer : ServiceAnswer} (h : call.serve strings shared = some (after, answer)) :
    Transition.run (PeerstoreEvent.step strings) (shared .storeLock) call.event.toList
      = some (after .storeLock) := by
  cases call with
  | storePeer now p =>
      obtain ⟨ps, hps, hsame⟩ := Option.map_eq_some_iff.mp h
      obtain ⟨rfl, rfl⟩ := Prod.mk.inj hsame
      exact Transition.run_cons_eq_some.mpr ⟨ps, hps, rfl⟩
  | lookup guid =>
      obtain ⟨rfl, rfl⟩ := Prod.mk.inj (Option.some.inj h)
      exact Transition.run_cons_eq_some.mpr ⟨_, rfl, rfl⟩
  | lookupByUsername username =>
      obtain ⟨⟨found, ps⟩, hps, hsame⟩ := Option.map_eq_some_iff.mp h
      obtain ⟨rfl, rfl⟩ := Prod.mk.inj hsame
      refine Transition.run_cons_eq_some.mpr ⟨ps, ?_, rfl⟩
      exact Option.map_eq_some_iff.mpr ⟨(found, ps), hps, rfl⟩
  | peerNoLongerActive p =>
      obtain ⟨ps, hps, hsame⟩ := Option.map_eq_some_iff.mp h
      obtain ⟨rfl, rfl⟩ := Prod.mk.inj hsame
      exact Transition.run_cons_eq_some.mpr ⟨ps, hps, rfl⟩
  | getActiveGuids =>
      obtain ⟨rfl, rfl⟩ := Prod.mk.inj (Option.some.inj h)
      rfl
  | setLastUpdateTime lastUpdate =>
      obtain ⟨rfl, rfl⟩ := Prod.mk.inj (Option.some.inj h)
      exact Transition.run_cons_eq_some.mpr ⟨_, rfl, rfl⟩
  | safelyUpdateLastUpdateTime now =>
      obtain ⟨rfl, rfl⟩ := Prod.mk.inj (Option.some.inj h)
      exact Transition.run_cons_eq_some.mpr ⟨_, rfl, rfl⟩
  | getLastUpdateTime =>
      obtain ⟨rfl, rfl⟩ := Prod.mk.inj (Option.some.inj h)
      rfl

/-- **The store between calls.** Whenever nobody holds `store_lock`, the store is one that calls one
after another lead to; so what holds of all of these holds of it. -/
theorem store_sequential (h : Threads.Reachable strings lastUpdated ps c)
    (hfree : c.owner .storeLock = none) :
    ∃ events, Transition.run (PeerstoreEvent.step strings) ps events
      = some (c.shared .storeLock) := by
  obtain ⟨served, a, hserved, hlinearizes⟩ := h.linearizes
  let Inv (a : Served Thread) : Prop :=
    ∃ events, Transition.run (PeerstoreEvent.step strings) ps events = some (a.shared .storeLock)
  have hinv : Inv a := by
    refine Transition.run_invariant ?_ hserved ⟨[], rfl⟩
    rintro a action after ⟨events, hevents⟩ hstep
    cases server_step_cases hstep with
    | began t op hidle => exact ⟨events, hevents⟩
    | served t op shared answer hcalled hserve =>
        refine ⟨events ++ op.event.toList, ?_⟩
        rw [Transition.run_append, hevents]
        exact serve_store hserve
    | returned t op answer hserved => exact ⟨events, hevents⟩
  rw [← hlinearizes.free .storeLock hfree]
  exact hinv

section Run

open Concrete

theorem store_sequential_run :
    ∃ events, Transition.run (PeerstoreEvent.step guidStrings) freshStore events
      = some ((overlapped 14).shared .storeLock) :=
  store_sequential (overlapped_reachable (by decide +kernel)) (by decide +kernel)

end Run

/-! ### The two times -/

/-- The service's `last_updated` and its store's `last_update`. -/
def times (shared : (l : ServiceLock) → l.Guards) : Int × Int :=
  (shared .updateTimeLock, (shared .storeLock : Peerstore).lastUpdate)

/-- `last_updated` of the service is the `last_update` its store judges activity by. -/
def TimesAgree (shared : (l : ServiceLock) → l.Guards) : Prop :=
  shared .updateTimeLock = (shared .storeLock : Peerstore).lastUpdate

theorem TimesAgree.of_times_eq {shared after : (l : ServiceLock) → l.Guards}
    (h : TimesAgree shared) (htimes : times after = times shared) : TimesAgree after := by
  obtain ⟨hservice, hstore⟩ := Prod.mk.inj htimes
  exact hservice.trans (h.trans hstore.symm)

theorem times_update_of_lastUpdate {shared : (l : ServiceLock) → l.Guards} {ps : Peerstore}
    (h : ps.lastUpdate = (shared .storeLock : Peerstore).lastUpdate) :
    times (Function.update shared .storeLock ps) = times shared := Prod.ext rfl h

theorem StoreProgram.spares {program : ServiceProgram} (h : StoreProgram program) :
    program.Spares times := by
  induction h with
  | reads read next _ ih =>
      refine ⟨fun shared after hwrite => ?_, fun ps => ih (read ps)⟩
      obtain rfl := Option.some.inj hwrite
      exact times_update_of_lastUpdate rfl
  | writes write next hkeeps _ ih =>
      refine ⟨fun shared after hwrite => ?_, fun _ => ih⟩
      obtain rfl := Option.some.inj hwrite
      exact times_update_of_lastUpdate (hkeeps _)
  | returns answer => trivial
  | faults => exact ⟨fun _ _ hwrite => (nomatch hwrite), fun _ => trivial⟩

/-- A call that is not about setting the times leaves them as they are. -/
theorem spares_program {call : ServiceCall}
    (hset : ∀ lastUpdate, call ≠ .setLastUpdateTime lastUpdate)
    (hsafely : ∀ now, call ≠ .safelyUpdateLastUpdateTime now) :
    (call.program strings).Spares times := by
  rcases program_cases call with ⟨rest, hprogram, hrest⟩ | ⟨lastUpdate, rfl⟩ | ⟨now, rfl⟩ | rfl
  · rw [hprogram]
    exact hrest.spares
  · exact absurd rfl (hset lastUpdate)
  · exact absurd rfl (hsafely now)
  · refine ⟨fun shared after hwrite => ?_, fun _ => trivial⟩
    obtain rfl := Option.some.inj hwrite
    exact congrArg times (Function.update_eq_self ..)

/-- The end of `safely_update_last_update_time`, in which it holds both locks. -/
def setStoreTimeProgram (lastUpdated : Int) : ServiceProgram :=
  writing (fun ps => peerstoreSetLastUpdateTime ps lastUpdated) <|
    .finish [.storeLock, .updateTimeLock] .void

/-- How far a call of `safely_update_last_update_time` is. -/
inductive UpdateStage (now : Int) (shared : (l : ServiceLock) → l.Guards) :
    ServiceProgram → Prop where
  | called : UpdateStage now shared (safelyUpdateLastUpdateTimeProgram now)
  | locked : UpdateStage now shared (.access .updateTimeLock (fun _ => some now) fun _ =>
      .access .updateTimeLock some fun lastUpdated =>
        .acquire .storeLock (setStoreTimeProgram lastUpdated))
  | written : UpdateStage now shared (.access .updateTimeLock some fun lastUpdated =>
      .acquire .storeLock (setStoreTimeProgram lastUpdated))
  | read (lastUpdated : Int) (hservice : shared .updateTimeLock = lastUpdated) :
      UpdateStage now shared (.acquire .storeLock (setStoreTimeProgram lastUpdated))
  | storeLocked (lastUpdated : Int) (hservice : shared .updateTimeLock = lastUpdated) :
      UpdateStage now shared (setStoreTimeProgram lastUpdated)
  | done (hagree : TimesAgree shared) :
      UpdateStage now shared (.finish [.storeLock, .updateTimeLock] .void)

/-- What is left of a call, given what the locks guard. -/
inductive Timely (shared : (l : ServiceLock) → l.Guards) : ServiceCall → ServiceProgram → Prop where
  | updates (now : Int) (rest : ServiceProgram) (hstage : UpdateStage now shared rest) :
      Timely shared (.safelyUpdateLastUpdateTime now) rest
  | spares (call : ServiceCall) (rest : ServiceProgram)
      (hcall : ∀ now, call ≠ .safelyUpdateLastUpdateTime now) (hrest : rest.Spares times) :
      Timely shared call rest

theorem UpdateStage.congr {now : Int} {shared after : (l : ServiceLock) → l.Guards}
    {rest : ServiceProgram} (h : UpdateStage now shared rest)
    (htimes : times after = times shared) : UpdateStage now after rest := by
  have hservice := (Prod.mk.inj htimes).1
  cases h with
  | called => exact .called
  | locked => exact .locked
  | written => exact .written
  | read lastUpdated hread => exact .read lastUpdated (hservice.trans hread)
  | storeLocked lastUpdated hread => exact .storeLocked lastUpdated (hservice.trans hread)
  | done hagree => exact .done (hagree.of_times_eq htimes)

/-- Once it has begun, an update holds `update_time_lock` until it leaves. -/
theorem UpdateStage.holds {now : Int} {shared : (l : ServiceLock) → l.Guards}
    {rest : ServiceProgram} {held : Set ServiceLock} (h : UpdateStage now shared rest)
    (horderly : rest.Orderly held) :
    rest = safelyUpdateLastUpdateTimeProgram now ∨ .updateTimeLock ∈ held := by
  cases h with
  | called => exact Or.inl rfl
  | locked => exact Or.inr horderly.1
  | written => exact Or.inr horderly.1
  | read lastUpdated hread =>
      have hinsert : .updateTimeLock ∈ insert .storeLock held :=
        ((horderly.2.2 (shared .storeLock)).2 .updateTimeLock).mp (by simp)
      exact Or.inr (by simpa using hinsert)
  | storeLocked lastUpdated hread =>
      exact Or.inr (((horderly.2 (shared .storeLock)).2 .updateTimeLock).mp (by simp))
  | done hagree => exact Or.inr ((horderly.2 .updateTimeLock).mp (by simp))

theorem UpdateStage.acquires {now : Int} {shared : (l : ServiceLock) → l.Guards} {l : ServiceLock}
    {rest : ServiceProgram} (h : UpdateStage now shared (.acquire l rest)) :
    UpdateStage now shared rest := by
  cases h with
  | called => exact .locked
  | read lastUpdated hread => exact .storeLocked lastUpdated hread

theorem UpdateStage.accesses {now : Int} {shared : (l : ServiceLock) → l.Guards} {l : ServiceLock}
    {write : l.Guards → Option l.Guards} {rest : l.Guards → ServiceProgram} {after : l.Guards}
    (h : UpdateStage now shared (.access l write rest)) (hwrite : write (shared l) = some after) :
    UpdateStage now (Function.update shared l after) (rest (shared l)) := by
  cases h with
  | locked => exact .written
  | written =>
      obtain rfl := Option.some.inj hwrite
      exact .read _ (Function.update_self ..)
  | storeLocked lastUpdated hread =>
      obtain rfl := Option.some.inj hwrite
      exact .done hread

/-- What other threads do keeps a call timely. -/
theorem Timely.of_others {shared after : (l : ServiceLock) → l.Guards} {call : ServiceCall}
    {rest : ServiceProgram} {held : Set ServiceLock} (h : Timely shared call rest)
    (horderly : rest.Orderly held)
    (htimes : .updateTimeLock ∈ held → times after = times shared) : Timely after call rest := by
  cases h with
  | spares call rest hcall hrest => exact .spares call rest hcall hrest
  | updates now rest hstage =>
      rcases hstage.holds horderly with rfl | hheld
      · exact .updates now _ .called
      · exact .updates now rest (hstage.congr (htimes hheld))

/-- An access changes the times in an update only. -/
theorem Timely.times_eq {shared : (l : ServiceLock) → l.Guards} {call : ServiceCall}
    {l : ServiceLock} {write : l.Guards → Option l.Guards} {rest : l.Guards → ServiceProgram}
    {after : l.Guards} {held : Set ServiceLock} (h : Timely shared call (.access l write rest))
    (horderly : (Program.access l write rest).Orderly held)
    (hwrite : write (shared l) = some after) :
    times (Function.update shared l after) = times shared
      ∨ (∃ now, call = .safelyUpdateLastUpdateTime now) ∧ .updateTimeLock ∈ held := by
  cases h with
  | spares call rest hcall hrest => exact Or.inl (hrest.1 shared after hwrite)
  | updates now rest hstage =>
      rcases hstage.holds horderly with hcalled | hheld
      · cases hcalled
      · exact Or.inr ⟨⟨now, rfl⟩, hheld⟩

/-- Some thread is in the middle of an update. -/
def Updating (c : Threads Thread) : Prop :=
  ∃ t now rest, c.threads t = .working (.safelyUpdateLastUpdateTime now) rest
    ∧ c.owner .updateTimeLock = some t

/-- Some thread has updated the times, or is about to return from it. -/
def Updated (c : Threads Thread) : Prop :=
  (∃ t now answer, .returned t (.safelyUpdateLastUpdateTime now) answer ∈ c.history)
    ∨ ∃ t now locks answer, c.threads t = .leaving (.safelyUpdateLastUpdateTime now) locks answer

/-- Nobody has called `peerstore_set_last_update_time` on its own. -/
def SetsNoTime (history : List (Observation Thread ServiceCall ServiceAnswer)) : Prop :=
  ∀ t lastUpdate, .began t (.setLastUpdateTime lastUpdate) ∉ history

/-- Outside updates the times agree, once they do. -/
structure TimesKept (initially : Prop) (c : Threads Thread) : Prop where
  timely : ∀ t call rest, c.threads t = .working call rest → Timely c.shared call rest
  agree : ¬ Updating c → initially ∨ Updated c → TimesAgree c.shared

section Steps

variable {initially : Prop} {next : Threads Thread} {t : Thread}

omit [DecidableEq Thread] in
theorem TimesKept.timely_of_moves (h : TimesKept initially c) (hdisciplined : Disciplined c)
    (honly : OnlyMoves t c next)
    (htimes : .updateTimeLock ∉ heldBy c.owner t → times next.shared = times c.shared)
    (ht : ∀ call rest, next.threads t = .working call rest → Timely next.shared call rest)
    (other : Thread) (call : ServiceCall) (rest : ServiceProgram)
    (hworking : next.threads other = .working call rest) : Timely next.shared call rest := by
  by_cases hother : other = t
  · subst hother
    exact ht call rest hworking
  · rw [honly.threads other hother] at hworking
    refine (h.timely other call rest hworking).of_others (hdisciplined.keeps_of hworking) ?_
    intro hheld
    exact htimes fun hmine => hother (Option.some.inj (hheld.symm.trans hmine))

omit [DecidableEq Thread] in
theorem Updating.moves (h : Updating c) (honly : OnlyMoves t c next)
    (ht : ∀ now rest, c.threads t = .working (.safelyUpdateLastUpdateTime now) rest →
      c.owner .updateTimeLock = some t → Updating next) : Updating next := by
  obtain ⟨other, now, rest, hworking, howner⟩ := h
  by_cases hother : other = t
  · subst hother
    exact ht now rest hworking howner
  · refine ⟨other, now, rest, (honly.threads other hother).trans hworking, ?_⟩
    exact mem_heldBy.mp (honly.held other hother ▸ mem_heldBy.mpr howner)

omit [DecidableEq Thread] in
theorem Updated.of_moves (h : Updated next) (honly : OnlyMoves t c next)
    (hhistory : ∀ other now answer,
      .returned other (.safelyUpdateLastUpdateTime now) answer ∈ next.history →
        .returned other (.safelyUpdateLastUpdateTime now) answer ∈ c.history ∨ Updated c)
    (ht : ∀ now locks answer,
      next.threads t = .leaving (.safelyUpdateLastUpdateTime now) locks answer → Updated c) :
    Updated c := by
  rcases h with ⟨other, now, answer, hmem⟩ | ⟨other, now, locks, answer, hleaving⟩
  · exact (hhistory other now answer hmem).elim (fun hold => Or.inl ⟨other, now, answer, hold⟩) id
  · by_cases hother : other = t
    · subst hother
      exact ht now locks answer hleaving
    · exact Or.inr ⟨other, now, locks, answer, (honly.threads other hother).symm.trans hleaving⟩

omit [DecidableEq Thread] in
/-- A thread that leaves the times as they are keeps them, if it does not leave an update. -/
theorem TimesKept.moves (h : TimesKept initially c) (hdisciplined : Disciplined c)
    (honly : OnlyMoves t c next) (htimes : times next.shared = times c.shared)
    (htimely : ∀ call rest, next.threads t = .working call rest → Timely next.shared call rest)
    (hupdating : ∀ now rest, c.threads t = .working (.safelyUpdateLastUpdateTime now) rest →
      c.owner .updateTimeLock = some t → Updating next)
    (hhistory : ∀ other now answer,
      .returned other (.safelyUpdateLastUpdateTime now) answer ∈ next.history →
        .returned other (.safelyUpdateLastUpdateTime now) answer ∈ c.history ∨ Updated c)
    (hleaving : ∀ now locks answer,
      next.threads t = .leaving (.safelyUpdateLastUpdateTime now) locks answer → Updated c) :
    TimesKept initially next where
  timely := h.timely_of_moves hdisciplined honly (fun _ => htimes) htimely
  agree hnone hsettled := by
    have hbefore : ¬ Updating c := fun hc => hnone (hc.moves honly hupdating)
    have hsettled' : initially ∨ Updated c :=
      hsettled.imp id fun hnext => hnext.of_moves honly hhistory hleaving
    exact (h.agree hbefore hsettled').of_times_eq htimes

theorem TimesKept.step (h : TimesKept initially c) (hdisciplined : Disciplined c)
    (hmoved : Moved (ServiceCall.program strings) c next) (halone : SetsNoTime next.history) :
    TimesKept initially next := by
  cases hmoved with
  | began t call hidle =>
      have hset : ∀ lastUpdate, call ≠ .setLastUpdateTime lastUpdate := by
        rintro lastUpdate rfl
        exact halone t lastUpdate (by simp)
      refine h.moves hdisciplined (onlyMoves_setThread _) rfl ?_ ?_ ?_ ?_
      · intro call' rest hworking
        obtain ⟨rfl, rfl⟩ := by simpa [Machine.setThread] using hworking
        by_cases hsafely : ∃ now, call = .safelyUpdateLastUpdateTime now
        · obtain ⟨now, rfl⟩ := hsafely
          exact .updates now _ .called
        · have hother : ∀ now, call ≠ .safelyUpdateLastUpdateTime now :=
            fun now heq => hsafely ⟨now, heq⟩
          exact .spares call _ hother (spares_program hset hother)
      · intro now rest hworking
        cases hidle.symm.trans hworking
      · intro other now answer hmem
        exact Or.inl (by simpa using hmem)
      · intro now locks answer hleaving
        simp [Machine.setThread] at hleaving
  | acquired t call l rest hworking hfree =>
      refine h.moves hdisciplined (onlyMoves_acquired hfree) rfl ?_ ?_ (fun _ _ _ => Or.inl) ?_
      · intro call' rest' hworking'
        obtain ⟨rfl, rfl⟩ := by simpa [Machine.setThread] using hworking'
        cases h.timely t call _ hworking with
        | updates now _ hstage => exact .updates now _ hstage.acquires
        | spares _ _ hcall hrest => exact .spares call _ hcall hrest
      · intro now rest' hworking' howner
        obtain ⟨rfl, -⟩ := Activity.working.inj (hworking.symm.trans hworking')
        have hne : ServiceLock.updateTimeLock ≠ l := by
          rintro rfl
          cases hfree.symm.trans howner
        exact ⟨t, now, rest, by simp [Machine.setThread], by simpa [hne] using howner⟩
      · intro now locks answer hleaving
        simp [Machine.setThread] at hleaving
  | accessed t call l write rest after hworking hwrite =>
      have horderly := hdisciplined.keeps_of hworking
      have honly : OnlyMoves t c { c.setThread t (.working call (rest (c.shared l))) with
          shared := Function.update c.shared l after } := onlyMoves_accessed horderly.1 after
      have htimely := h.timely t call _ hworking
      have hnext : ∀ call' rest', (c.setThread t (.working call (rest (c.shared l)))).threads t
          = .working call' rest' → Timely (Function.update c.shared l after) call' rest' := by
        intro call' rest' hworking'
        obtain ⟨rfl, rfl⟩ := by simpa [Machine.setThread] using hworking'
        cases htimely with
        | updates now _ hstage => exact .updates now _ (hstage.accesses hwrite)
        | spares _ _ hcall hrest => exact .spares call _ hcall (hrest.2 _)
      rcases htimely.times_eq horderly hwrite with htimes | ⟨⟨now, rfl⟩, hheld⟩
      · refine h.moves hdisciplined honly htimes hnext ?_ (fun _ _ _ => Or.inl) ?_
        · intro now rest' hworking' howner
          obtain ⟨rfl, -⟩ := Activity.working.inj (hworking.symm.trans hworking')
          exact ⟨t, now, rest (c.shared l), by simp [Machine.setThread], howner⟩
        · intro now locks answer hleaving
          simp [Machine.setThread] at hleaving
      · refine ⟨h.timely_of_moves hdisciplined honly (fun hnot => absurd hheld hnot) hnext, ?_⟩
        intro hnone
        exact absurd ⟨t, now, rest (c.shared l), by simp [Machine.setThread], hheld⟩ hnone
  | finished t call locks answer hworking =>
      have honly : OnlyMoves t c (c.setThread t (.leaving call locks answer)) :=
        onlyMoves_setThread c.history
      have hnext : ∀ call' rest', (c.setThread t (.leaving call locks answer)).threads t
          = .working call' rest' → Timely c.shared call' rest' := by
        intro call' rest hworking'
        simp [Machine.setThread] at hworking'
      cases h.timely t call _ hworking with
      | updates now _ hstage =>
          cases hstage with
          | done hagree =>
              exact ⟨h.timely_of_moves hdisciplined honly (fun _ => rfl) hnext, fun _ _ => hagree⟩
      | spares _ _ hcall hrest =>
          refine h.moves hdisciplined honly rfl hnext ?_ (fun _ _ _ => Or.inl) ?_
          · intro now rest' hworking'
            cases hworking.symm.trans hworking'
            exact absurd rfl (hcall now)
          · intro now locks' answer' hleaving
            obtain ⟨rfl, -⟩ := by simpa [Machine.setThread] using hleaving
            exact absurd rfl (hcall now)
  | released t call l locks answer hleaving =>
      have hheld : l ∈ heldBy c.owner t :=
        ((hdisciplined.keeps_of hleaving).2 l).mp List.mem_cons_self
      refine h.moves hdisciplined (onlyMoves_released hheld) rfl ?_ ?_ (fun _ _ _ => Or.inl) ?_
      · intro call' rest hworking
        simp [Machine.setThread] at hworking
      · intro now rest hworking
        cases hleaving.symm.trans hworking
      · intro now locks' answer' hleaving'
        obtain ⟨rfl, -⟩ := by simpa [Machine.setThread] using hleaving'
        exact Or.inr ⟨t, now, _, _, hleaving⟩
  | returned t call answer hleaving =>
      refine h.moves hdisciplined (onlyMoves_setThread _) rfl ?_ ?_ ?_ ?_
      · intro call' rest hworking
        simp [Machine.setThread] at hworking
      · intro now rest hworking
        cases hleaving.symm.trans hworking
      · intro other now answer' hmem
        rcases List.mem_append.mp hmem with hold | hnew
        · exact Or.inl hold
        · obtain ⟨rfl, rfl, rfl⟩ := by simpa using hnew
          exact Or.inr (Or.inr ⟨_, now, _, _, hleaving⟩)
      · intro now locks answer' hleaving'
        simp [Machine.setThread] at hleaving'

end Steps

omit [DecidableEq Thread] in
theorem timesKept_start :
    TimesKept (lastUpdated = ps.lastUpdate)
      (Machine.start (guarded lastUpdated ps) : Threads Thread) where
  timely _ _ _ hworking := nomatch hworking
  agree _ hsettled := by
    rcases hsettled with hsame | ⟨_, _, _, hmem⟩ | ⟨_, _, _, _, hleaving⟩
    · exact hsame
    · cases hmem
    · cases hleaving

theorem timesKept_run {actions : List (Action Thread ServiceCall)}
    (hrun : Transition.run (Machine.step (ServiceCall.program strings))
      (Machine.start (guarded lastUpdated ps)) actions = some c) (halone : SetsNoTime c.history) :
    TimesKept (lastUpdated = ps.lastUpdate) c := by
  let Inv (c : Threads Thread) : Prop :=
    Disciplined c ∧ (SetsNoTime c.history → TimesKept (lastUpdated = ps.lastUpdate) c)
  have hinv : Inv c := by
    refine Transition.run_invariant ?_ hrun ⟨disciplined_start _, fun _ => timesKept_start⟩
    rintro c action next ⟨hdisciplined, hkept⟩ hstep
    have hmoved := step_cases hstep
    refine ⟨hdisciplined.step orderly_program hmoved, fun halone => ?_⟩
    have hbefore : SetsNoTime c.history := fun t lastUpdate hmem =>
      halone t lastUpdate (hmoved.history_subset hmem)
    exact (hkept hbefore).step hdisciplined hmoved halone
  exact hinv.2 halone

/-- **The two times.** If they agreed at the start or an update of the times has returned, and
nobody sets the store's alone, then the service's time and the one its store judges activity by are
the same whenever `update_time_lock` is free, whatever the other calls are in the middle of. -/
theorem times_agree (h : Threads.Reachable strings lastUpdated ps c)
    (halone : SetsNoTime c.history)
    (hsettled : lastUpdated = ps.lastUpdate ∨ ∃ t now answer,
      .returned t (.safelyUpdateLastUpdateTime now) answer ∈ c.history)
    (hfree : c.owner .updateTimeLock = none) :
    c.shared .updateTimeLock = (c.shared .storeLock : Peerstore).lastUpdate := by
  obtain ⟨actions, hrun⟩ := h
  refine (timesKept_run hrun halone).agree ?_ (hsettled.imp id Or.inl)
  rintro ⟨t, now, rest, _, howner⟩
  cases hfree.symm.trans howner

section Run

open Concrete

/-- While the store is locked before any update, and after both calls. -/
theorem times_agree_run :
    (overlapped 3).owner .storeLock = some false
      ∧ (overlapped 3).shared .updateTimeLock
        = ((overlapped 3).shared .storeLock : Peerstore).lastUpdate
      ∧ (overlapped 20).shared .updateTimeLock
        = ((overlapped 20).shared .storeLock : Peerstore).lastUpdate := by
  have hreturned : .returned true (.safelyUpdateLastUpdateTime 5) .void
      ∈ (overlapped 20).history := by decide +kernel
  have halone₃ : SetsNoTime (overlapped 3).history := by
    have hhistory : (overlapped 3).history
        = [.began true (.safelyUpdateLastUpdateTime 5),
          .began false (.storePeer 4 (peer 1 al))] := by decide +kernel
    simp [SetsNoTime, hhistory]
  have halone₂₀ : SetsNoTime (overlapped 20).history := by
    have hhistory : (overlapped 20).history
        = [.began true (.safelyUpdateLastUpdateTime 5), .began false (.storePeer 4 (peer 1 al)),
          .returned false (.storePeer 4 (peer 1 al)) .void,
          .returned true (.safelyUpdateLastUpdateTime 5) .void] := by decide +kernel
    simp [SetsNoTime, hhistory]
  refine ⟨by decide +kernel, ?_, ?_⟩
  · exact times_agree (overlapped_reachable (by decide +kernel)) halone₃ (Or.inl rfl)
      (by decide +kernel)
  · exact times_agree (overlapped_reachable (by decide +kernel)) halone₂₀
      (Or.inr ⟨true, 5, .void, hreturned⟩) (by decide +kernel)

end Run

end Interleaved

end WhisperCore
