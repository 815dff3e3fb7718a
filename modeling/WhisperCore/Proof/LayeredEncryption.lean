import WhisperCore.Concrete
import WhisperCore.Cryptography

/-!
# Two layers of encryption

A text encrypted with the symmetrical key and then with a key pair. The outer layer takes the inner
ciphertext for a string: a zero byte in it cuts the text short, and where there is none `strlen`
runs on into the memory behind it, as far as the block of the key pair may or may not hold.
-/

namespace WhisperCore

variable {Key : Type} {lib : Libraries Key} {keypair : Key} {key : Bytes} {text : CString}
  {env : Ambient Key} {afterCiphertext : Bytes}

/-- As in `test_multilevel_encryption`: the buffer the last decryption returns, or `none` where the
outer encryption returned NULL. The buffer of the outer decryption is zeroed beforehand. -/
def multilevelEncryption (lib : Libraries Key) (env : Ambient Key) (key : Bytes) (keypair : Key)
    (string : CString) : Option Bytes := do
  let encryptedString ← (symmetricalEncrypt lib.des (some key) (string.inMemory env.afterLiteral)
    string.bytes.length).toOption
  let encryptedMessage ← asymmetricalEncrypt lib.rsa env keypair
    (encryptedString ++ env.afterCiphertext)
  let decryptedMessage ← asymmetricalDecrypt lib.rsa keypair encryptedMessage
    encryptedMessage.length
  (symmetricalDecrypt lib.des (some key) decryptedMessage decryptedMessage.length).toOption

/-- The text is read back, whatever the padding and the memory behind the other buffers. -/
def RoundTrips (lib : Libraries Key) (key : Bytes) (keypair : Key) (text : CString)
    (afterCiphertext : Bytes) : Prop :=
  ∀ env : Ambient Key, env.afterCiphertext = afterCiphertext →
    ∃ buffer, multilevelEncryption lib env key keypair text = some buffer
      ∧ CString.read (buffer ++ env.afterPlaintext) = text

/-! ### The layers -/

theorem symmetricalEncrypt_text (des : StreamCipher Bytes) (hlength : key.length = 8)
    (text : CString) (rest : Bytes) :
    symmetricalEncrypt des (some key) (text.inMemory rest) text.bytes.length
      = .ok (des.encrypt key (text.bytes ++ [0])) := by
  rw [symmetricalEncrypt_of_le _ _ _ hlength.ge, List.take_of_length_le hlength.le,
    text.readBytes_inMemory]

theorem symmetricalDecrypt_buffer (des : StreamCipher Bytes) (hlength : key.length = 8)
    (msg : Bytes) :
    symmetricalDecrypt des (some key) msg msg.length = .ok (des.decrypt key (msg ++ [0])) := by
  rw [symmetricalDecrypt_of_le _ _ _ hlength.ge, List.take_of_length_le hlength.le,
    readBytes_length_succ]

/-- What the outer layer carries: the inner ciphertext as a string. -/
def carried (lib : Libraries Key) (key : Bytes) (text : CString) (afterCiphertext : Bytes) :
    Bytes :=
  (CString.read (lib.des.encrypt key (text.bytes ++ [0]) ++ afterCiphertext)).bytes

theorem multilevelEncryption_eq_some_iff (block : OaepBlock lib.rsa keypair)
    (hlength : key.length = 8) {buffer : Bytes} :
    multilevelEncryption lib env key keypair text = some buffer
      ↔ (carried lib key text env.afterCiphertext).length ≤ block.capacity
        ∧ lib.des.decrypt key (carried lib key text env.afterCiphertext ++ [0]) = buffer := by
  have hinner : (symmetricalEncrypt lib.des (some key) (text.inMemory env.afterLiteral)
      text.bytes.length).toOption = some (lib.des.encrypt key (text.bytes ++ [0])) := by
    rw [symmetricalEncrypt_text lib.des hlength]
    rfl
  have houter : asymmetricalEncrypt lib.rsa env keypair
      (lib.des.encrypt key (text.bytes ++ [0]) ++ env.afterCiphertext)
      = lib.rsa.publicEncrypt keypair env.padding
        (carried lib key text env.afterCiphertext) := by
    rw [asymmetricalEncrypt, readBytes_strlen, carried]
  rw [← block.isSome_publicEncrypt_iff env.padding, multilevelEncryption, hinner]
  simp only [Option.bind_eq_bind, Option.bind_some, houter]
  cases hcipher : lib.rsa.publicEncrypt keypair env.padding
      (carried lib key text env.afterCiphertext) with
  | none => simp
  | some cipher =>
      have hdecrypted := block.decrypt_encrypt _ _ _ hcipher
      simp only [Option.bind_some, asymmetricalDecrypt, readBytes_self, hdecrypted,
        symmetricalDecrypt_buffer lib.des hlength]
      simp [Except.toOption]

/-- Without a zero byte among the characters' ciphertext, all of the ciphertext is carried. -/
theorem carried_of_zero_notMem (hzero : 0 ∉ lib.des.encrypt key text.bytes)
    (afterCiphertext : Bytes) :
    ∃ more, carried lib key text afterCiphertext ++ [0]
      = lib.des.encrypt key (text.bytes ++ [0]) ++ more := by
  obtain ⟨tail, htail, _⟩ := lib.des.exists_encrypt_append key text.bytes [0]
  have hstrlen := le_strlen_append hzero (tail ++ afterCiphertext)
  rw [← List.append_assoc, ← htail] at hstrlen
  have hcount : (lib.des.encrypt key (text.bytes ++ [0])).length
      ≤ strlen (lib.des.encrypt key (text.bytes ++ [0]) ++ afterCiphertext) + 1 := by
    simpa using hstrlen
  obtain ⟨more, hmore⟩ := exists_readBytes_append _ afterCiphertext hcount
  exact ⟨more, by rw [carried, ← readBytes_strlen_succ, hmore]⟩

/-- What is carried ends before the first zero byte of the characters' ciphertext. -/
theorem carried_of_zero {first second : Bytes}
    (hsplit : lib.des.encrypt key text.bytes = first ++ 0 :: second) (hfirst : 0 ∉ first)
    (afterCiphertext : Bytes) : carried lib key text afterCiphertext = first := by
  obtain ⟨tail, htail, _⟩ := lib.des.exists_encrypt_append key text.bytes [0]
  have hcut : lib.des.encrypt key (text.bytes ++ [0]) ++ afterCiphertext
      = first ++ 0 :: (second ++ (tail ++ afterCiphertext)) := by
    rw [htail, hsplit, List.append_assoc, List.append_assoc, List.cons_append]
  rw [carried, hcut]
  exact takeWhile_append_nul hfirst _

/-! ### Round trip -/

/-- Some surroundings, given what lies behind the two buffers. -/
def memoryBehind (keypair : Key) (afterCiphertext afterPlaintext : Bytes) : Ambient Key where
  keypair := keypair
  guid := ⟨List.replicate 16 0, List.length_replicate⟩
  draws := fun _ => 0
  padding := []
  afterPayload := []
  afterPlaintext := afterPlaintext
  afterCiphertext := afterCiphertext
  afterLiteral := []

theorem RoundTrips.zero_notMem (block : OaepBlock lib.rsa keypair) (hlength : key.length = 8)
    (h : RoundTrips lib key keypair text afterCiphertext) :
    0 ∉ lib.des.encrypt key text.bytes := by
  intro hzero
  obtain ⟨first, second, hsplit, hfirst⟩ := List.eq_append_cons_of_mem hzero
  -- the memory behind the last buffer is chosen so that no text ends where `text` does
  obtain ⟨buffer, hbuffer, hread⟩ := h
    (memoryBehind keypair afterCiphertext ([1] ++ List.replicate text.bytes.length 1)) rfl
  obtain ⟨_, rfl⟩ := (multilevelEncryption_eq_some_iff block hlength).mp hbuffer
  have hcut : lib.des.decrypt key (first ++ [0]) = text.bytes.take (first.length + 1) := by
    calc
      lib.des.decrypt key (first ++ [0])
          = lib.des.decrypt key ((lib.des.encrypt key text.bytes).take (first.length + 1)) := by
            rw [hsplit, take_cut]
      _ = text.bytes.take (first.length + 1) := by
            rw [lib.des.decrypt_take, lib.des.decrypt_encrypt]
  have hlong := lt_strlen_of_ones text (first.length + 1)
  have hstrlen := congrArg (fun string : CString => string.bytes.length) hread
  simp only [memoryBehind, carried_of_zero hsplit hfirst, hcut, ← List.append_assoc] at hstrlen
  exact absurd hstrlen (Nat.ne_of_gt hlong)

theorem RoundTrips.strlen_le (block : OaepBlock lib.rsa keypair) (hlength : key.length = 8)
    (h : RoundTrips lib key keypair text afterCiphertext) :
    strlen (lib.des.encrypt key (text.bytes ++ [0]) ++ afterCiphertext) ≤ block.capacity := by
  obtain ⟨buffer, hbuffer, _⟩ := h (memoryBehind keypair afterCiphertext []) rfl
  exact ((multilevelEncryption_eq_some_iff block hlength).mp hbuffer).1

theorem roundTrips_of_zero_notMem (block : OaepBlock lib.rsa keypair) (hlength : key.length = 8)
    (hzero : 0 ∉ lib.des.encrypt key text.bytes)
    (hcapacity : strlen (lib.des.encrypt key (text.bytes ++ [0]) ++ afterCiphertext)
      ≤ block.capacity) :
    RoundTrips lib key keypair text afterCiphertext := by
  rintro env rfl
  refine ⟨_, (multilevelEncryption_eq_some_iff block hlength).mpr ⟨hcapacity, rfl⟩, ?_⟩
  obtain ⟨more, hmore⟩ := carried_of_zero_notMem hzero env.afterCiphertext
  obtain ⟨later, hlater, _⟩ := lib.des.exists_decrypt_append key (text.bytes ++ [0]) more
  have hmemory : lib.des.decrypt key (carried lib key text env.afterCiphertext ++ [0])
      ++ env.afterPlaintext = text.inMemory (later ++ env.afterPlaintext) := by
    rw [hmore, hlater, text.inMemory_eq, List.append_assoc]
  rw [hmemory]
  exact CString.ext (takeWhile_append_nul text.noNul _)

/-- **Round trip, exactly.** A text comes back if and only if no character of it is encrypted to a
zero byte, and what `strlen` finds of the ciphertext and the memory behind it fits the block. -/
theorem roundTrips_iff (block : OaepBlock lib.rsa keypair) (hlength : key.length = 8) :
    RoundTrips lib key keypair text afterCiphertext
      ↔ 0 ∉ lib.des.encrypt key text.bytes
        ∧ strlen (lib.des.encrypt key (text.bytes ++ [0]) ++ afterCiphertext)
          ≤ block.capacity := by
  constructor
  · intro h
    exact ⟨h.zero_notMem block hlength, h.strlen_le block hlength⟩
  · rintro ⟨hzero, hcapacity⟩
    exact roundTrips_of_zero_notMem block hlength hzero hcapacity

/-- A text whose ciphertext fits the block comes back whatever the memory holds exactly when the one
zero byte of the ciphertext is its last. -/
theorem forall_roundTrips_iff (block : OaepBlock lib.rsa keypair) (hlength : key.length = 8)
    (hfits : (lib.des.encrypt key (text.bytes ++ [0])).length ≤ block.capacity) :
    (∀ afterCiphertext, RoundTrips lib key keypair text afterCiphertext)
      ↔ 0 ∉ lib.des.encrypt key text.bytes ∧ 0 ∈ lib.des.encrypt key (text.bytes ++ [0]) := by
  constructor
  · intro h
    refine ⟨(h []).zero_notMem block hlength, ?_⟩
    by_contra hzero
    -- a memory without zero bytes, longer than the block
    have hones : (0 : UInt8) ∉ lib.des.encrypt key (text.bytes ++ [0])
        ++ List.replicate (block.capacity + 1) 1 := by
      simp [hzero]
    have hlong := le_strlen_append hones []
    have hshort := (h (List.replicate (block.capacity + 1) 1)).strlen_le block hlength
    simp only [List.append_nil, List.length_append, List.length_replicate] at hlong
    omega
  · rintro ⟨hzero, hterminator⟩ afterCiphertext
    obtain ⟨tail, htail, htailLength⟩ := lib.des.exists_encrypt_append key text.bytes [0]
    obtain ⟨byte, rfl⟩ := List.length_eq_one_iff.mp htailLength
    obtain rfl : byte = 0 := by
      rw [htail, List.mem_append] at hterminator
      simpa [hzero, eq_comm] using hterminator
    apply roundTrips_of_zero_notMem block hlength hzero
    rw [htail, List.length_append] at hfits
    rw [htail, List.append_assoc, List.singleton_append, strlen_append_nul hzero]
    omega

section Run

open Concrete

/-- The libraries with a key pair of 2048 bits. -/
def libraries2048 : Libraries CString := { libraries with rsa := rsa2048 }

def block2048 : OaepBlock libraries2048.rsa bob := oaepBlock bob

/-- `"OK"` -/
def okText : CString := ⟨[0x4F, 0x4B], by decide⟩

theorem roundTrips_iff_secretA :
    secretA.length = 8 ∧ RoundTrips libraries2048 secretA bob okay []
      ∧ (RoundTrips libraries2048 secretA bob okay []
        ↔ 0 ∉ libraries2048.des.encrypt secretA okay.bytes
          ∧ strlen (libraries2048.des.encrypt secretA (okay.bytes ++ [0]) ++ []) ≤ 214) := by
  have hlength : secretA.length = 8 := by decide
  have hiff : RoundTrips libraries2048 secretA bob okay []
      ↔ 0 ∉ libraries2048.des.encrypt secretA okay.bytes
        ∧ strlen (libraries2048.des.encrypt secretA (okay.bytes ++ [0]) ++ []) ≤ 214 :=
    roundTrips_iff block2048 hlength
  exact ⟨hlength, hiff.mpr (by decide +kernel), hiff⟩

/-- The first character is encrypted to a zero byte, so nothing is carried, and what comes back is
that character with whatever follows it. -/
theorem not_roundTrips_secretL :
    secretL.length = 8 ∧ (libraries2048.des.encrypt secretL (okText.bytes ++ [0])).length ≤ 214
      ∧ (∀ env : Ambient CString,
        multilevelEncryption libraries2048 env secretL bob okText = some [0x4F])
      ∧ ¬ RoundTrips libraries2048 secretL bob okText [] := by
  have hcut : ∀ env : Ambient CString,
      multilevelEncryption libraries2048 env secretL bob okText = some [0x4F] := by
    intro env
    have hsplit : libraries2048.des.encrypt secretL okText.bytes = [] ++ 0 :: [0x56] := by
      decide +kernel
    rw [multilevelEncryption_eq_some_iff block2048 (by decide), carried_of_zero hsplit (by simp)]
    decide +kernel
  refine ⟨by decide, by decide +kernel, hcut, fun h => ?_⟩
  obtain ⟨buffer, hbuffer, hread⟩ := h (memoryBehind bob [] []) rfl
  obtain rfl := Option.some.inj ((hcut _).symm.trans hbuffer)
  revert hread
  decide

end Run

end WhisperCore
