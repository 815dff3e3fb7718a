import WhisperCore.Lib.Heap
import WhisperCore.PeerCodec

/-!
# The peerstore in memory

`src/data/peerstore.c` again, with the pointers: the peers table keeps pointers to peer records, the
namestore pointers to guid strings, and records and strings stand in memory until they are freed. A
use of either after it was freed is undefined (`none`), and so is freeing it once more. A record's
own two strings are part of it.
-/

namespace WhisperCore

namespace InMemory

structure Store where
  localPeer : Nat
  lastUpdate : Int
  isActivePeer : Int → Peer → Bool
  namestore : JnxHash Nat
  peers : JnxHash Nat
  records : Heap Peer
  guidStrs : Heap CString

/-- The local peer was allocated before. -/
def peerstoreInit (localPeer : Peer) (isActivePeer : Option (Int → Peer → Bool)) (now : Int) :
    Store where
  localPeer := localPeer.address
  lastUpdate := now
  isActivePeer := isActivePeer.getD alwaysActive
  namestore := ∅
  peers := ∅
  records := Heap.empty.write localPeer.address (.live localPeer)
  guidStrs := Heap.empty

namespace Store

/-- A peer is allocated where `p` says. -/
def peerCreate (store : Store) (p : Peer) : Option Store :=
  (store.records.place p.address p).map fun records => { store with records := records }

def peerFree (store : Store) (p : Nat) : Option Store :=
  (store.records.free p).map fun records => { store with records := records }

/-- Assigns to fields of the peer at `p`. -/
def assign (store : Store) (p : Nat) (fields : Peer → Peer) : Option Store :=
  (store.records.modify p fields).map fun records => { store with records := records }

def guidToString (store : Store) (strings : GuidStrings) (guid : Guid) : Nat × Store :=
  let (guidStr, guidStrs) := store.guidStrs.alloc (strings.toString guid)
  (guidStr, { store with guidStrs := guidStrs })

def freeGuidStr (store : Store) (guidStr : Nat) : Option Store :=
  (store.guidStrs.free guidStr).map fun guidStrs => { store with guidStrs := guidStrs }

/-- `jnx_hash_put` in the peers table. -/
def putPeer (store : Store) (key : CString) (p : Nat) : Store :=
  { store with peers := store.peers.insert key p }

/-- `jnx_hash_delete_value` in the peers table. -/
def deletePeer (store : Store) (key : CString) : Store :=
  { store with peers := store.peers.erase key }

/-- `jnx_hash_put` in the namestore. -/
def putName (store : Store) (name : CString) (guidStr : Nat) : Store :=
  { store with namestore := store.namestore.insert name guidStr }

/-- `jnx_hash_delete_value` in the namestore. -/
def deleteName (store : Store) (name : CString) : Store :=
  { store with namestore := store.namestore.erase name }

end Store

def isPeerActive (store : Store) (p : Peer) : Bool := store.isActivePeer store.lastUpdate p

section

variable (strings : GuidStrings)

/-- `new_guid_str` is not freed. -/
def handlePeerReconnection (store : Store) (p : Nat) : Option Store := do
  let announced ← store.records.get? p
  match store.namestore.lookup announced.userName with
  | none => some store
  | some guidStr =>
      let (_, store) := store.guidToString strings announced.guid
      let text ← store.guidStrs.get? guidStr
      if text ≠ strings.toString announced.guid then
        match store.peers.lookup text with
        | none => some store
        | some old =>
            let oldPeer ← store.records.get? old
            if announced.hostAddress = oldPeer.hostAddress then
              let store ← (store.deletePeer text).peerFree old
              store.freeGuidStr guidStr
            else some store
      else some store

def ensureUsernameUnique (store : Store) (p : Nat) (text : CString) : Option Store := do
  let announced ← store.records.get? p
  if (store.namestore.lookup announced.userName).isSome then
    store.assign p fun p => { p with userName := uniqueUsername announced.userName text }
  else some store

/-- The update branch does not free `guid_str`, except that a renamed peer's goes to the
namestore. -/
def peerstoreStorePeer (store : Store) (now : Int) (p : Nat) : Option Store := do
  let store ← handlePeerReconnection strings store p
  let store ← store.assign p fun p => { p with lastSeen := now }
  let announced ← store.records.get? p
  let (guidStr, store) := store.guidToString strings announced.guid
  let text := strings.toString announced.guid
  match store.peers.lookup text with
  | some old =>
      let store ← store.assign old fun old => { old with hostAddress := announced.hostAddress }
      let oldPeer ← store.records.get? old
      if strncmpEqual oldPeer.userName announced.userName announced.userName.bytes.length then
        let store ← store.assign old fun old => { old with lastSeen := announced.lastSeen }
        store.peerFree p
      else
        let store ← ensureUsernameUnique (store.deleteName oldPeer.userName) p text
        let announced ← store.records.get? p
        let store ← store.assign old fun old => { old with userName := announced.userName }
        let store := store.putName announced.userName guidStr
        let store ← store.assign old fun old => { old with lastSeen := announced.lastSeen }
        store.peerFree p
  | none =>
      let store ← ensureUsernameUnique store p text
      let announced ← store.records.get? p
      some ((store.putName announced.userName guidStr).putPeer text p)

/-- The pointer answered, and the store after it. -/
def peerstoreLookup (store : Store) (guid : Guid) : Option (Option Nat × Store) := do
  let (guidStr, store) := store.guidToString strings guid
  match store.peers.lookup (strings.toString guid) with
  | none =>
      let store ← store.freeGuidStr guidStr
      some (none, store)
  | some p =>
      let found ← store.records.get? p
      if isPeerActive store found then
        let store ← store.freeGuidStr guidStr
        some (some p, store)
      else
        let store ← (store.deletePeer (strings.toString guid)).peerFree p
        let store ← store.freeGuidStr guidStr
        some (none, store)

end

def peerstoreLookupByUsername (store : Store) (username : CString) :
    Option (Option Nat × Store) :=
  match store.namestore.lookup username with
  | none => some (none, store)
  | some guidStr => do
      let text ← store.guidStrs.get? guidStr
      match store.peers.lookup text with
      | none =>
          let store ← (store.deleteName username).freeGuidStr guidStr
          some (none, store)
      | some p =>
          let found ← store.records.get? p
          if isPeerActive store found then some (some p, store)
          else
            let store ← (store.deletePeer text).peerFree p
            some (none, store)

/-- NULL for the guid string or the record is undefined. -/
def peerstorePeerNoLongerActive (store : Store) (p : Nat) : Option Store := do
  let gone ← store.records.get? p
  let guidStr ← store.namestore.lookup gone.userName
  let store := store.deleteName gone.userName
  let text ← store.guidStrs.get? guidStr
  let pr ← store.peers.lookup text
  let store ← (store.deletePeer text).peerFree pr
  store.freeGuidStr guidStr

def peerstoreSetLastUpdateTime (store : Store) (lastUpdate : Int) : Store :=
  { store with lastUpdate := lastUpdate }

/-- `jnx_hash_get_keys` answers with the keys in some order. What is left of the records. -/
def peerstoreDestroy (store : Store) (keys : List CString) : Option (Heap Peer) := do
  let records ← store.records.free store.localPeer
  records.freeAll (keys.filterMap store.peers.lookup)

end InMemory

/-! ### The handlers of packets about peers -/

/-- What reaches a peerstore. `p` is the peer `ntopeer` made of a packet, with its name set. -/
inductive PeerEvent where
  | handlesPeer (now : Int) (p : Peer)
  | handlesStop (p : Peer)
  | looksUp (guid : Guid)
  | looksUpByUsername (username : CString)
  | setsLastUpdateTime (lastUpdate : Int)

/-- Where the event allocates a peer. -/
def PeerEvent.allocates : PeerEvent → Option Nat
  | .handlesPeer _ p => some p.address
  | .handlesStop p => some p.address
  | _ => none

section Handlers

variable (strings : GuidStrings) (strcmp : Strcmp)

/-- `handle_stop` -/
def handleStop (ps : Peerstore) (p : Peer) : Option Peerstore :=
  if peersCompare strcmp p ps.localPeer = .peersEquivalent then some ps
  else peerstorePeerNoLongerActive ps p

def PeerEvent.step (ps : Peerstore) : PeerEvent → Option Peerstore
  | .handlesPeer now p => peerstoreStorePeer strings ps now p
  | .handlesStop p => handleStop strcmp ps p
  | .looksUp guid => some (peerstoreLookup strings ps guid).2
  | .looksUpByUsername username => (peerstoreLookupByUsername ps username).map Prod.snd
  | .setsLastUpdateTime lastUpdate => some (peerstoreSetLastUpdateTime ps lastUpdate)

namespace InMemory

/-- `handle_peer`, from where `ntopeer` has allocated the peer on. -/
def handlePeer (store : Store) (now : Int) (p : Peer) : Option Store := do
  let store ← store.peerCreate p
  peerstoreStorePeer strings store now p.address

/-- `handle_stop`, which frees the peer in either branch. -/
def handleStop (store : Store) (p : Peer) : Option Store := do
  let store ← store.peerCreate p
  let received ← store.records.get? p.address
  let localPeer ← store.records.get? store.localPeer
  if peersCompare strcmp received localPeer = .peersEquivalent then store.peerFree p.address
  else
    let store ← peerstorePeerNoLongerActive store p.address
    store.peerFree p.address

def step (store : Store) : PeerEvent → Option Store
  | .handlesPeer now p => handlePeer strings store now p
  | .handlesStop p => handleStop strcmp store p
  | .looksUp guid => (peerstoreLookup strings store guid).map Prod.snd
  | .looksUpByUsername username => (peerstoreLookupByUsername store username).map Prod.snd
  | .setsLastUpdateTime lastUpdate => some (peerstoreSetLastUpdateTime store lastUpdate)

end InMemory

end Handlers

end WhisperCore
