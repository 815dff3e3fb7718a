import WhisperCore.Lib.Encodings
import WhisperCore.Lib.Wire
import WhisperCore.Network
import WhisperCore.Process

/-!
# Concrete libraries

One instance of the libraries the source is linked with, on which the model runs. Guid strings are
hexadecimal and base 64 is base 64. An RSA key is its own public string, and a ciphertext is the
message behind the key it was encrypted for. DES in cipher feedback mode is taken from a table,
which holds the block DES makes of the initial vector for the two keys used here; with these two
entries messages of up to eight bytes are encrypted as DES does it.
-/

namespace WhisperCore.Concrete

def guidStrings : GuidStrings where
  toString guid := ⟨Hexadecimal.encode guid.bytes, Hexadecimal.zero_notMem_encode guid.bytes⟩
  fromString string := ⟨readBytes (Hexadecimal.decode string.bytes) 16, length_readBytes _ 16⟩
  fromString_toString guid := by
    obtain ⟨bytes, hlength⟩ := guid
    simp only [Hexadecimal.decode_encode, Guid.mk.injEq]
    rw [← hlength, readBytes_self]

def base64 : Base64 where
  encode bytes := ⟨Base64Codec.encode bytes, Base64Codec.zero_notMem_encode bytes⟩
  decode := Base64Codec.decode
  decode_encode := Base64Codec.decode_encode

def rsa : Rsa CString where
  publicString key := key
  readPublicString := some
  publicEncrypt key _padding message := some (key.inMemory message)
  privateDecrypt key cipher :=
    if cipher.take (key.bytes.length + 1) = key.bytes ++ [0] then
      some (cipher.drop (key.bytes.length + 1))
    else none
  decrypt_encrypt key padding message cipher hcipher := by
    obtain rfl : key.inMemory message = cipher := by simpa using hcipher
    have hsplit : key.inMemory message = (key.bytes ++ [0]) ++ message := by
      simp [CString.inMemory]
    have hlength : (key.bytes ++ [0]).length = key.bytes.length + 1 := by simp
    rw [hsplit, ← hlength, List.take_left, List.drop_left, if_pos rfl]

/-- The same with a block of 2048 bits: OAEP leaves 214 of its 256 bytes for a message. -/
def rsa2048 : Rsa CString where
  publicString := rsa.publicString
  readPublicString := rsa.readPublicString
  publicEncrypt key padding message :=
    if message.length ≤ 214 then rsa.publicEncrypt key padding message else none
  privateDecrypt := rsa.privateDecrypt
  decrypt_encrypt key padding message cipher hcipher := by
    obtain ⟨_, hread, hfits⟩ := Option.bind_eq_some_iff.mp hcipher
    obtain ⟨_, hencrypt⟩ := Option.ite_none_right_eq_some.mp hfits
    exact rsa.decrypt_encrypt key padding message cipher
      (Option.bind_eq_some_iff.mpr ⟨_, hread, hencrypt⟩)

def oaepBlock (keypair : CString) : OaepBlock rsa2048 keypair where
  capacity := 214
  isSome_publicEncrypt_iff padding message := by
    by_cases hfits : message.length ≤ 214 <;> simp [rsa2048, rsa, hfits]
  decrypt_encrypt padding message cipher hcipher := by
    obtain ⟨_, hencrypt⟩ := Option.ite_none_right_eq_some.mp hcipher
    exact rsa.decrypt_encrypt keypair padding message cipher
      (Option.bind_eq_some_iff.mpr ⟨keypair, rfl, hencrypt⟩)

/-- `DES_set_odd_parity` on one byte. -/
def oddParity (byte : UInt8) : UInt8 :=
  let ones := ((List.range 8).filter fun bit => 1 ≤ bit ∧ byte.toNat.testBit bit).length
  if ones % 2 = 0 then byte ||| 1 else byte &&& 0xFE

/-- "AAAAAAAA" -/
def secretA : Bytes := List.replicate 8 0x41

/-- "LLLLLLLn" -/
def secretL : Bytes := List.replicate 7 0x4C ++ [0x6E]

def desBlock (key block : Bytes) : Bytes :=
  if key = secretA ∧ block = List.replicate 8 0x40 then
    [0x6D, 0x55, 0xDD, 0xBC, 0x8D, 0xEA, 0x95, 0xFF]
  else if key = secretL ∧ block = secretL then
    [0x4F, 0x1D, 0x25, 0xE7, 0x11, 0x92, 0x51, 0x21]
  else block

def libraries : Libraries CString where
  guid := guidStrings
  base64 := base64
  rsa := rsa
  des := StreamCipher.cipherFeedback desBlock fun key => key.map oddParity

/-- The wire format of `peer.proto`, with the fields in the order in which protobuf-c writes them;
other orders and unknown fields are not read. -/
def protobuf : PeerProtobuf where
  pack msg :=
    0x0A :: (Wire.delimited msg.guid ++ 0x12 :: (Wire.delimited msg.hostAddress.bytes
      ++ 0x1A :: (Wire.delimited msg.userName.bytes
        ++ 0x20 :: Wire.varint msg.discoveryInterval.toNat)))
  unpack input := do
    let (guid, rest) ← (Wire.readTag 0x0A input).bind Wire.readDelimited
    let (hostAddress, rest) ← (Wire.readTag 0x12 rest).bind Wire.readDelimited
    let (userName, rest) ← (Wire.readTag 0x1A rest).bind Wire.readDelimited
    let (discoveryInterval, rest) ← (Wire.readTag 0x20 rest).bind Wire.readVarint
    if rest = [] then
      some ⟨guid, .read hostAddress, .read userName, UInt32.ofNat discoveryInterval⟩
    else none
  unpack_pack msg := by
    have hinterval : Wire.readVarint (Wire.varint msg.discoveryInterval.toNat)
        = some (msg.discoveryInterval.toNat, []) := by
      simpa using Wire.readVarint_varint msg.discoveryInterval.toNat []
    simp [Wire.readDelimited_delimited, hinterval]

/-! ### String comparison -/

/-- The difference of the first two characters that differ, where a terminator counts as zero. -/
def byteDifference : Bytes → Bytes → Int
  | [], [] => 0
  | [], b :: _ => -b.toNat
  | a :: _, [] => a.toNat
  | a :: first, b :: second => if a = b then byteDifference first second else a.toNat - b.toNat

theorem toNat_pos_of_zero_notMem {byte : UInt8} {rest : Bytes} (h : 0 ∉ byte :: rest) :
    0 < byte.toNat := by
  rw [List.mem_cons, not_or, eq_comm, ← UInt8.toNat_inj] at h
  exact Nat.pos_of_ne_zero h.1

theorem byteDifference_bounds (first second : Bytes) :
    -256 < byteDifference first second ∧ byteDifference first second < 256 := by
  induction first, second using byteDifference.induct with
  | case1 => simp [byteDifference]
  | case2 b second =>
      have := b.toNat_lt
      simp only [byteDifference]
      omega
  | case3 a first =>
      have := a.toNat_lt
      simp only [byteDifference]
      omega
  | case4 a first second ih => simpa [byteDifference] using ih
  | case5 a first b second hne =>
      have := a.toNat_lt
      have := b.toNat_lt
      simp only [byteDifference, if_neg hne]
      omega

theorem byteDifference_eq_zero_iff {first second : Bytes} (hfirst : 0 ∉ first)
    (hsecond : 0 ∉ second) : byteDifference first second = 0 ↔ first = second := by
  induction first, second using byteDifference.induct with
  | case1 => simp [byteDifference]
  | case2 b second =>
      simpa [byteDifference] using (toNat_pos_of_zero_notMem hsecond).ne'
  | case3 a first =>
      simpa [byteDifference] using (toNat_pos_of_zero_notMem hfirst).ne'
  | case4 a first second ih =>
      rw [List.mem_cons, not_or] at hfirst hsecond
      simpa [byteDifference] using ih hfirst.2 hsecond.2
  | case5 a first b second hne =>
      have hnat : a.toNat ≠ b.toNat := fun h => hne (UInt8.toNat_inj.mp h)
      rw [byteDifference, if_neg hne]
      simp only [List.cons.injEq, hne, false_and, iff_false]
      omega

theorem byteDifference_neg_iff {first second : Bytes} (hsecond : 0 ∉ second) :
    byteDifference first second < 0 ↔ first < second := by
  induction first, second using byteDifference.induct with
  | case1 => simp [byteDifference]
  | case2 b second =>
      have hb := toNat_pos_of_zero_notMem hsecond
      simp only [byteDifference, List.nil_lt_cons, iff_true]
      omega
  | case3 a first => simp [byteDifference]
  | case4 a first second ih =>
      rw [List.mem_cons, not_or] at hsecond
      simpa [byteDifference, List.cons_lt_cons_iff] using ih hsecond.2
  | case5 a first b second hne =>
      rw [byteDifference, if_neg hne, List.cons_lt_cons_iff, UInt8.lt_iff_toNat_lt]
      simp only [hne, false_and, or_false]
      omega

/-- Behind what two strings have in common, the first characters decide. -/
theorem byteDifference_append {first second : Bytes} (hne : first.head? ≠ second.head?)
    (common : Bytes) : byteDifference (common ++ first) (common ++ second)
      = (first.headD 0).toNat - (second.headD 0).toNat := by
  induction common with
  | nil =>
      cases first with
      | nil => cases second <;> simp [byteDifference]
      | cons a first =>
          cases second with
          | nil => simp [byteDifference]
          | cons b second =>
              have hbytes : a ≠ b := fun h => hne (by rw [h]; rfl)
              simp [byteDifference, hbytes]
  | cons byte common ih => simpa [byteDifference] using ih

/-- The difference fits an `int`. -/
theorem toInt_byteDifference (first second : Bytes) :
    (Int32.ofInt (byteDifference first second)).toInt = byteDifference first second := by
  have hbounds := byteDifference_bounds first second
  exact Int32.toInt_ofInt_of_le (by omega) (by omega)

/-- A `strcmp` that answers with this difference. -/
def byteStrcmp : Strcmp where
  compare first second := Int32.ofInt (byteDifference first.bytes second.bytes)
  compare_eq_zero_iff first second := by
    rw [← Int32.toInt_inj, toInt_byteDifference, Int32.toInt_zero,
      byteDifference_eq_zero_iff first.noNul second.noNul]
    exact ⟨CString.ext, congrArg CString.bytes⟩
  compare_neg_iff first second := by
    rw [Int32.lt_iff_toInt_lt, toInt_byteDifference, Int32.toInt_zero,
      byteDifference_neg_iff second.noNul]

/-- One that answers with its sign alone. -/
def signStrcmp : Strcmp where
  compare first second :=
    if first = second then 0 else if first.bytes < second.bytes then -1 else 1
  compare_eq_zero_iff first second := by
    split_ifs with hsame
    · simp [hsame]
    · simp [hsame]
    · simp [hsame]
  compare_neg_iff first second := by
    split_ifs with hsame hless
    · simp [hsame]
    · simp [hless]
    · simp [hless]

/-! ### Guids, names and peers -/

def guid (last : UInt8) : Guid := ⟨List.replicate 15 0 ++ [last], rfl⟩

/-- `"Bob"` -/
def bob : CString := ⟨[0x42, 0x6F, 0x62], by decide⟩

/-- `"Al"` -/
def al : CString := ⟨[0x41, 0x6C], by decide⟩

/-- `"10.0.0.1"` and on. -/
def host (last : Nat) : CString :=
  .read [0x31, 0x30, 0x2E, 0x30, 0x2E, 0x30, 0x2E, 0x31 + UInt8.ofNat last]

def peer (last : Nat) (userName : CString) : Peer where
  address := last
  guid := guid (UInt8.ofNat last)
  hostAddress := host last
  userName := userName
  discoveryInterval := 5
  lastSeen := 0

/-- The surroundings of a call: a key and a guid to generate, and the shared secret drawn. -/
def ambient (keypair : CString) (fresh : Guid) (draws : Nat → Nat) : Ambient CString where
  keypair := keypair
  guid := fresh
  draws := draws
  padding := []
  afterPayload := []
  afterPlaintext := []
  afterCiphertext := []
  afterLiteral := []

example : generateSharedSecret (fun _ => 0) = secretA := by decide

example : protobuf.pack ⟨[1, 2], al, bob, 300⟩
    = [0x0A, 2, 1, 2, 0x12, 2, 0x41, 0x6C, 0x1A, 3, 0x42, 0x6F, 0x62, 0x20, 0xAC, 2] := by decide

example : libraries.des.encrypt secretA okay.bytes = [0x22, 0x1E, 0x9C, 0xE5] := by decide

/-! ### Runs -/

/-- Al's store, just created. -/
def freshStore : Peerstore := peerstoreInit (peer 0 al) (some isActivePeerPeriodicUpdate) 0

def storeAfter (calls : List PeerstoreCall) : Peerstore :=
  (Transition.run (PeerstoreCall.step guidStrings) freshStore calls).getD freshStore

/-- Bob's process after some events. -/
def processAfter (events : List (ProcessEvent CString)) : Process CString :=
  (Transition.run (Process.step libraries)
    (Process.start (host 0) (peer 0 bob) none 0 true true true) events).getD
    (Process.start (host 0) (peer 0 bob) none 0 true true true)

theorem reachable_processAfter (events : List (ProcessEvent CString))
    (h : (Transition.run (Process.step libraries)
      (Process.start (host 0) (peer 0 bob) none 0 true true true) events).isSome = true) :
    (processAfter events).Reachable libraries := by
  obtain ⟨process, hprocess⟩ := Option.isSome_iff_exists.mp h
  refine ⟨host 0, peer 0 bob, none, 0, true, true, true, events, ?_⟩
  rw [processAfter, hprocess]
  rfl

/-- Bob knows two peers and opens a connection to the first, Al. -/
def openEvents : List (ProcessEvent CString) :=
  [.discovery (.storePeer 1 (peer 1 al)), .discovery (.storePeer 1 (peer 2 bob)),
    .initiation (ambient bob (guid 7) fun _ => 0) (peer 1 al).ref]

/-- A message to Bob about that connection. -/
def toBob (sender : UInt8) (action : SelectedAction) (rawdata : Bytes) : Wpmessage where
  id := guidStrings.toString (guid 7)
  sender := guidStrings.toString (guid sender)
  recipient := guidStrings.toString (guid 0)
  action := action
  rawdata := rawdata

/-- Al's public key, in answer. -/
def answer : Wpmessage := toBob 1 .respondingCreatedSession (base64.encode al.bytes).bytes

/-- Bob has the answer and has shared a secret. -/
def sharedEvents : List (ProcessEvent CString) :=
  openEvents ++ [.incoming (ambient bob (guid 8) fun _ => 0) answer]

def openRequest : ConnectionRequest CString :=
  ⟨guid 7, .initialChallenge, ⟨0, guid 0⟩, ⟨1, guid 1⟩, bob, none⟩

/-- A network in which every node runs and has the handlers set. -/
def freshNet : Net CString where
  nodes g := {
    controller := connectionControllerCreate (host 0)
      ⟨peerstoreInit { peer 0 bob with guid := g } none 0⟩ true true true
    running := true }
  inFlight := []
  created := []

def netAfter (events : List (NetEvent CString)) : Net CString :=
  (Transition.run (Net.step libraries) freshNet events).getD freshNet

theorem reachable_netAfter (events : List (NetEvent CString))
    (h : (Transition.run (Net.step libraries) freshNet events).isSome = true) :
    (netAfter events).Reachable libraries := by
  have hinitial : freshNet.Initial :=
    ⟨fun g => ⟨host 0, { peer 0 bob with guid := g }, none, 0, true, true, true, rfl, rfl⟩, rfl,
      rfl⟩
  obtain ⟨net, hnet⟩ := Option.isSome_iff_exists.mp h
  refine ⟨freshNet, events, hinitial, ?_⟩
  rw [netAfter, hnet]
  rfl

/-- The draws of `secretL`. -/
def drawsL (j : Nat) : Nat := if j < 7 then 11 else 39

/-- Two nodes, Al and Bob, that know each other, and a handshake Al starts, up to the point where
Bob has completed. -/
def handshakeEvents (draws : Nat → Nat) : List (NetEvent CString) :=
  [.discovers (guid 1) (.storePeer 1 (peer 2 bob)),
    .discovers (guid 2) (.storePeer 1 (peer 1 al)),
    .initiates (guid 1) (ambient al (guid 7) draws) (peer 2 bob).ref,
    .delivers 0 (ambient bob (guid 8) draws),
    .delivers 0 (ambient al (guid 8) draws),
    .delivers 0 (ambient bob (guid 8) draws)]

/-- The handshake, finished. -/
def agreedNet (draws : Nat → Nat) : Net CString :=
  netAfter (handshakeEvents draws ++ [.delivers 0 (ambient al (guid 8) draws)])

def initiatorRequest (secret : Bytes) : ConnectionRequest CString :=
  ⟨guid 7, .complete, ⟨0, guid 1⟩, ⟨2, guid 2⟩, al, some secret⟩

def responderRequest (secret : Bytes) : ConnectionRequest CString :=
  ⟨guid 7, .complete, ⟨0, guid 2⟩, ⟨1, guid 1⟩, bob, some secret⟩

end WhisperCore.Concrete
