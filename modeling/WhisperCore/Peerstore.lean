import WhisperCore.Libraries
import Mathlib.Data.List.AList

/-!
# The peerstore

`src/data/peerstore.c` over two hash tables. `jnx_hash` is a finite map from string contents: it
copies its keys, and putting a key again replaces the value. The peers table maps guid strings to
peer records. The namestore maps user names to pointers to guid strings; each such string is
allocated for one entry, so whether it has been freed is recorded with the entry. Reading a freed
string is undefined, and the operation that does so returns `none`.
-/

namespace WhisperCore

abbrev JnxHash (α : Type) := AList fun _ : CString => α

-- `address` is the allocation the record stands in: what a `peer *` to it compares as.
structure Peer where
  address : Nat
  guid : Guid
  hostAddress : CString
  userName : CString
  discoveryInterval : UInt32
  lastSeen : Int
deriving DecidableEq

/-- A guid string the namestore points to. -/
inductive GuidStr where
  | live (string : CString)
  | freed
deriving DecidableEq

structure Peerstore where
  localPeer : Peer
  lastUpdate : Int
  isActivePeer : Int → Peer → Bool
  namestore : JnxHash GuidStr
  peers : JnxHash Peer

def alwaysActive (_lastUpdate : Int) (_p : Peer) : Bool := true

def peerstoreInit (localPeer : Peer) (isActivePeer : Option (Int → Peer → Bool)) (now : Int) :
    Peerstore where
  localPeer := localPeer
  lastUpdate := now
  isActivePeer := isActivePeer.getD alwaysActive
  namestore := ∅
  peers := ∅

def isPeerActive (ps : Peerstore) (p : Peer) : Bool := ps.isActivePeer ps.lastUpdate p

/-- `"-"` -/
def dash : CString := ⟨[0x2D], by decide⟩

/-- `strcpy`, `strcat "-"`, `strncat` of four characters. -/
def uniqueUsername (userName guidStr : CString) : CString :=
  (userName.append dash).append (guidStr.take 4)

section Store

variable (strings : GuidStrings)

def handlePeerReconnection (ps : Peerstore) (p : Peer) : Option Peerstore :=
  match ps.namestore.lookup p.userName with
  | none => some ps
  | some .freed => none
  | some (.live guidStr) =>
      if guidStr ≠ strings.toString p.guid then
        match ps.peers.lookup guidStr with
        | none => some ps
        | some oldPeer =>
            if p.hostAddress = oldPeer.hostAddress then
              -- `free(guid_str)` leaves the namestore entry pointing to the freed string
              some { ps with
                peers := ps.peers.erase guidStr
                namestore := ps.namestore.insert p.userName .freed }
            else some ps
      else some ps

-- The test is on the pointer alone, so an entry whose string is freed counts as a clash too.
def ensureUsernameUnique (namestore : JnxHash GuidStr) (p : Peer) (guidStr : CString) : Peer :=
  if (namestore.lookup p.userName).isSome then
    { p with userName := uniqueUsername p.userName guidStr }
  else p

/-- `peerstore_store_peer`, at clock time `now`. The update branch writes into the record already
stored and frees the announced one; the discovery interval is not copied. -/
def peerstoreStorePeer (ps : Peerstore) (now : Int) (p : Peer) : Option Peerstore :=
  (handlePeerReconnection strings ps p).map fun ps =>
    let p := { p with lastSeen := now }
    let guidStr := strings.toString p.guid
    match ps.peers.lookup guidStr with
    | some old =>
        let old := { old with hostAddress := p.hostAddress, lastSeen := p.lastSeen }
        if strncmpEqual old.userName p.userName p.userName.bytes.length then
          { ps with peers := ps.peers.insert guidStr old }
        else
          let namestore := ps.namestore.erase old.userName
          let p := ensureUsernameUnique namestore p guidStr
          { ps with
            namestore := namestore.insert p.userName (.live guidStr)
            peers := ps.peers.insert guidStr { old with userName := p.userName } }
    | none =>
        let p := ensureUsernameUnique ps.namestore p guidStr
        { ps with
          namestore := ps.namestore.insert p.userName (.live guidStr)
          peers := ps.peers.insert guidStr p }

/-- The record found, or NULL, and the store after it; an inactive record is evicted and freed. -/
def peerstoreLookup (ps : Peerstore) (guid : Guid) : Option Peer × Peerstore :=
  match ps.peers.lookup (strings.toString guid) with
  | none => (none, ps)
  | some p =>
      if isPeerActive ps p then (some p, ps)
      else (none, { ps with peers := ps.peers.erase (strings.toString guid) })

end Store

def peerstoreLookupByUsername (ps : Peerstore) (username : CString) :
    Option (Option Peer × Peerstore) :=
  match ps.namestore.lookup username with
  | none => some (none, ps)
  | some .freed => none
  | some (.live guidStr) =>
      match ps.peers.lookup guidStr with
      | none => some (none, { ps with namestore := ps.namestore.erase username })
      | some p =>
          if isPeerActive ps p then some (some p, ps)
          else some (none, { ps with peers := ps.peers.erase guidStr })

/-- `peerstore_peer_no_longer_active`. Without an entry for the name there is no guid string, and
without a record no peer: `peer_free` is then given NULL (`none`), as it is where the guid string
was freed before. -/
def peerstorePeerNoLongerActive (ps : Peerstore) (p : Peer) : Option Peerstore :=
  match ps.namestore.lookup p.userName with
  | none => none
  | some .freed => none
  | some (.live guidStr) =>
      match ps.peers.lookup guidStr with
      | none => none
      | some _ => some { ps with
          namestore := ps.namestore.erase p.userName
          peers := ps.peers.erase guidStr }

/-- The guids pointed to, in some order. -/
def peerstoreGetActiveGuids (ps : Peerstore) : List Guid :=
  (ps.peers.entries.filter fun entry => isPeerActive ps entry.2).map fun entry => entry.2.guid

def peerstoreSetLastUpdateTime (ps : Peerstore) (lastUpdate : Int) : Peerstore :=
  { ps with lastUpdate := lastUpdate }

/-! ### Calls -/

inductive PeerstoreCall where
  | storePeer (now : Int) (p : Peer)
  | lookup (guid : Guid)
  | lookupByUsername (username : CString)
  | setLastUpdateTime (lastUpdate : Int)

/-- The store after a call, `none` where the call reads a freed string. -/
def PeerstoreCall.step (strings : GuidStrings) (ps : Peerstore) : PeerstoreCall → Option Peerstore
  | .storePeer now p => peerstoreStorePeer strings ps now p
  | .lookup guid => some (peerstoreLookup strings ps guid).2
  | .lookupByUsername username => (peerstoreLookupByUsername ps username).map Prod.snd
  | .setLastUpdateTime lastUpdate => some (peerstoreSetLastUpdateTime ps lastUpdate)

/-- A call, or the removal of a peer that says it is no longer active; the program has a handler
that removes peers, but never calls it. -/
inductive PeerstoreEvent where
  | call (made : PeerstoreCall)
  | noLongerActive (p : Peer)

def PeerstoreEvent.step (strings : GuidStrings) (ps : Peerstore) :
    PeerstoreEvent → Option Peerstore
  | .call made => made.step strings ps
  | .noLongerActive p => peerstorePeerNoLongerActive ps p

end WhisperCore
