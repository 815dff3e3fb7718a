import WhisperCore.Discovery
import WhisperCore.Lib.Monitor

/-!
# Calls under their locks

The functions of `src/data/peerstore.c` and the two of `src/net/discovery.c` that take a lock, as
the threads of a process run them: one access to the tables, to a record or to a time after the
other. `store_lock` guards the store, `update_time_lock` the service's `last_updated`. What a call
reads and does not use, the keys and the guid in `ensure_username_unique`, is not read here.
-/

namespace WhisperCore

open Monitor

inductive ServiceLock where
  | updateTimeLock
  | storeLock
deriving DecidableEq

namespace ServiceLock

/-- The order in which `safely_update_last_update_time` takes the two. -/
def rank : ServiceLock → Nat
  | updateTimeLock => 0
  | storeLock => 1

instance : Preorder ServiceLock := Preorder.lift rank

/-- What a lock guards. -/
def Guards : ServiceLock → Type
  | updateTimeLock => Int
  | storeLock => Peerstore

end ServiceLock

/-- `last_updated` and the store. -/
def guarded (lastUpdated : Int) (ps : Peerstore) : (l : ServiceLock) → l.Guards
  | .updateTimeLock => lastUpdated
  | .storeLock => ps

inductive ServiceCall where
  | storePeer (now : Int) (p : Peer)
  | lookup (guid : Guid)
  | lookupByUsername (username : CString)
  | peerNoLongerActive (p : Peer)
  | getActiveGuids
  | setLastUpdateTime (lastUpdate : Int)
  | safelyUpdateLastUpdateTime (now : Int)
  | getLastUpdateTime
deriving DecidableEq

inductive ServiceAnswer where
  | void
  | peer (found : Option Peer)
  | guids (active : List Guid)
  | time (lastUpdate : Int)
deriving DecidableEq

abbrev ServiceProgram := Program ServiceLock.Guards ServiceAnswer

/-! ### Accesses -/

/-- One read of the store. -/
def reading {α : Type} (read : Peerstore → α) (next : α → ServiceProgram) : ServiceProgram :=
  .access .storeLock some fun ps => next (read ps)

/-- One write to the store. -/
def writing (write : Peerstore → Peerstore) (next : ServiceProgram) : ServiceProgram :=
  .access .storeLock (fun ps => some (write ps)) fun _ => next

/-- A read of a string that was freed, or through NULL. -/
def faulting : ServiceProgram :=
  .access .storeLock (fun _ => none) fun _ => .finish [.storeLock] .void

def unlockAndReturn (answer : ServiceAnswer) : ServiceProgram := .finish [.storeLock] answer

def deletePeer (guidStr : CString) (ps : Peerstore) : Peerstore :=
  { ps with peers := ps.peers.erase guidStr }

def deleteName (userName : CString) (ps : Peerstore) : Peerstore :=
  { ps with namestore := ps.namestore.erase userName }

def putPeer (guidStr : CString) (p : Peer) (ps : Peerstore) : Peerstore :=
  { ps with peers := ps.peers.insert guidStr p }

def putName (userName : CString) (guidStr : GuidStr) (ps : Peerstore) : Peerstore :=
  { ps with namestore := ps.namestore.insert userName guidStr }

/-- A write into the record filed under a guid string. -/
def writeRecord (guidStr : CString) (write : Peer → Peer) (ps : Peerstore) : Peerstore :=
  match ps.peers.lookup guidStr with
  | none => ps
  | some p => putPeer guidStr (write p) ps

/-! ### Calls -/

section Programs

variable (strings : GuidStrings)

def handlePeerReconnectionProgram (p : Peer) (next : ServiceProgram) : ServiceProgram :=
  reading (fun ps => ps.namestore.lookup p.userName) fun
    | none => next
    | some .freed => faulting
    | some (.live guidStr) =>
        if guidStr ≠ strings.toString p.guid then
          reading (fun ps => ps.peers.lookup guidStr) fun
            | none => next
            | some oldPeer =>
                if p.hostAddress = oldPeer.hostAddress then
                  writing (deletePeer guidStr) (writing (putName p.userName .freed) next)
                else next
        else next

def ensureUsernameUniqueProgram (p : Peer) (guidStr : CString) (next : Peer → ServiceProgram) :
    ServiceProgram :=
  reading (fun ps => ensureUsernameUnique ps.namestore p guidStr) next

/-- `p` is the announced peer with its `last_seen` written. -/
def updateRecordProgram (p old : Peer) (guidStr : CString) : ServiceProgram :=
  writing (writeRecord guidStr fun record => { record with hostAddress := p.hostAddress }) <|
    let stamp := writing (writeRecord guidStr fun record => { record with lastSeen := p.lastSeen })
      (unlockAndReturn .void)
    if strncmpEqual old.userName p.userName p.userName.bytes.length then stamp
    else
      writing (deleteName old.userName) <|
        ensureUsernameUniqueProgram p guidStr fun p =>
          writing (writeRecord guidStr fun record => { record with userName := p.userName }) <|
            writing (putName p.userName (.live guidStr)) stamp

def insertRecordProgram (p : Peer) (guidStr : CString) : ServiceProgram :=
  ensureUsernameUniqueProgram p guidStr fun p =>
    writing (putName p.userName (.live guidStr)) <|
      writing (putPeer guidStr p) (unlockAndReturn .void)

def peerstoreStorePeerProgram (now : Int) (p : Peer) : ServiceProgram :=
  .acquire .storeLock <|
    handlePeerReconnectionProgram strings p <|
      let p := { p with lastSeen := now }
      let guidStr := strings.toString p.guid
      reading (fun ps => ps.peers.lookup guidStr) fun
        | some old => updateRecordProgram p old guidStr
        | none => insertRecordProgram p guidStr

/-- What both lookups do with the record they find. -/
def returnActiveProgram (guidStr : CString) (p : Peer) : ServiceProgram :=
  reading (fun ps => isPeerActive ps p) fun active =>
    if active then unlockAndReturn (.peer (some p))
    else writing (deletePeer guidStr) (unlockAndReturn (.peer none))

def peerstoreLookupProgram (guid : Guid) : ServiceProgram :=
  .acquire .storeLock <|
    reading (fun ps => ps.peers.lookup (strings.toString guid)) fun
      | none => unlockAndReturn (.peer none)
      | some p => returnActiveProgram (strings.toString guid) p

def peerstoreLookupByUsernameProgram (username : CString) : ServiceProgram :=
  .acquire .storeLock <|
    reading (fun ps => ps.namestore.lookup username) fun
      | none => unlockAndReturn (.peer none)
      | some .freed => faulting
      | some (.live guidStr) =>
          reading (fun ps => ps.peers.lookup guidStr) fun
            | none => writing (deleteName username) (unlockAndReturn (.peer none))
            | some p => returnActiveProgram guidStr p

def peerstorePeerNoLongerActiveProgram (p : Peer) : ServiceProgram :=
  .acquire .storeLock <|
    reading (fun ps => ps.namestore.lookup p.userName) fun found =>
      writing (deleteName p.userName) <|
        match found with
        | none => faulting
        | some .freed => faulting
        | some (.live guidStr) =>
            reading (fun ps => ps.peers.lookup guidStr) fun found =>
              writing (deletePeer guidStr) <|
                match found with
                | none => faulting
                | some _ => unlockAndReturn .void

/-- The loop over the keys, with the guids found so far. -/
def activeGuidsProgram : List CString → List Guid → ServiceProgram
  | [], guids => unlockAndReturn (.guids guids)
  | key :: keys, guids =>
      reading (fun ps => ps.peers.lookup key) fun
        | none => faulting
        | some temp =>
            reading (fun ps => isPeerActive ps temp) fun active =>
              activeGuidsProgram keys (if active then guids ++ [temp.guid] else guids)

def peerstoreGetActiveGuidsProgram : ServiceProgram :=
  .acquire .storeLock <| reading (fun ps => ps.peers.keys) fun keys => activeGuidsProgram keys []

def peerstoreSetLastUpdateTimeProgram (lastUpdate : Int) : ServiceProgram :=
  .acquire .storeLock <|
    writing (fun ps => peerstoreSetLastUpdateTime ps lastUpdate) (unlockAndReturn .void)

/-- `update_time_lock` is held while `peerstore_set_last_update_time` takes `store_lock`. -/
def safelyUpdateLastUpdateTimeProgram (now : Int) : ServiceProgram :=
  .acquire .updateTimeLock <|
    .access .updateTimeLock (fun _ => some now) fun _ =>
      .access .updateTimeLock some fun lastUpdated =>
        .acquire .storeLock <|
          writing (fun ps => peerstoreSetLastUpdateTime ps lastUpdated) <|
            .finish [.storeLock, .updateTimeLock] .void

def getLastUpdateTimeProgram : ServiceProgram :=
  .acquire .updateTimeLock <|
    .access .updateTimeLock some fun lastUpdated =>
      .finish [.updateTimeLock] (.time lastUpdated)

def ServiceCall.program : ServiceCall → ServiceProgram
  | storePeer now p => peerstoreStorePeerProgram strings now p
  | lookup guid => peerstoreLookupProgram strings guid
  | lookupByUsername username => peerstoreLookupByUsernameProgram username
  | peerNoLongerActive p => peerstorePeerNoLongerActiveProgram p
  | getActiveGuids => peerstoreGetActiveGuidsProgram
  | setLastUpdateTime lastUpdate => peerstoreSetLastUpdateTimeProgram lastUpdate
  | safelyUpdateLastUpdateTime now => safelyUpdateLastUpdateTimeProgram now
  | getLastUpdateTime => getLastUpdateTimeProgram

/-! ### Calls in one piece -/

def withStore (shared : (l : ServiceLock) → l.Guards) (ps : Peerstore) :
    (l : ServiceLock) → l.Guards :=
  Function.update shared .storeLock ps

/-- The same calls as functions of what the locks guard. -/
def ServiceCall.serve (call : ServiceCall) (shared : (l : ServiceLock) → l.Guards) :
    Option (((l : ServiceLock) → l.Guards) × ServiceAnswer) :=
  let ps : Peerstore := shared .storeLock
  match call with
  | storePeer now p =>
      (peerstoreStorePeer strings ps now p).map fun ps => (withStore shared ps, .void)
  | lookup guid =>
      let (found, ps) := peerstoreLookup strings ps guid
      some (withStore shared ps, .peer found)
  | lookupByUsername username =>
      (peerstoreLookupByUsername ps username).map fun (found, ps) =>
        (withStore shared ps, .peer found)
  | peerNoLongerActive p =>
      (peerstorePeerNoLongerActive ps p).map fun ps => (withStore shared ps, .void)
  | getActiveGuids => some (shared, .guids (peerstoreGetActiveGuids ps))
  | setLastUpdateTime lastUpdate =>
      some (withStore shared (peerstoreSetLastUpdateTime ps lastUpdate), .void)
  | safelyUpdateLastUpdateTime now =>
      some (guarded now (peerstoreSetLastUpdateTime ps now), .void)
  | getLastUpdateTime => some (shared, .time (shared .updateTimeLock))

end Programs

end WhisperCore
