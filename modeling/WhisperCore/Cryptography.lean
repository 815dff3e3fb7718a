import WhisperCore.Libraries

/-!
# Cryptography

`src/crypto/cryptography.c` and `src/integrity/encoding.c`, with `NOASYMMETRICALCRYPTO` and
`NOSYMMETRICALCRYPTO` undefined.
-/

namespace WhisperCore

/-- Accesses the source makes without a guard. -/
inductive Fault where
  -- a field of the connection request that was not found
  | absentConnection
  -- `memcpy` of eight key bytes from a NULL secret, or from one that is shorter
  | nullSecret
  | shortSecret
  -- `decode_to_string` of the NULL a failed `asymmetrical_decrypt` returned
  | failedDecrypt
  -- `RSA_size` of an RSA object no key was read into
  | emptyKey
  -- `message->action` in `connection_request_create_exchange_message` for a state without a case
  | nullMessage
  -- `remote_peer->host_address` in the emitter
  | nullPeer
deriving DecidableEq

/-- How a process ends: a failed `JNXCHECK` or a `JNXFAIL`, `exit(1)`, or an undefined access. -/
inductive Stop where
  | check
  | exit
  | fault (fault : Fault)
deriving DecidableEq

/-- A call that does not return: how the process ends, and what the call had written by then. An
undefined access is named where it is made, and what is written after it still counts. -/
structure Ending (Written : Type) where
  stop : Stop
  written : Written

/-- Two calls in sequence return when both do. -/
theorem bind_eq_ok_iff {ε α β : Type} {first : Except ε α} {second : α → Except ε β} {b : β} :
    first >>= second = .ok b ↔ ∃ a, first = .ok a ∧ second a = .ok b := by
  cases first with
  | error stop =>
      constructor
      · intro h
        cases h
      · rintro ⟨a, h, _⟩
        cases h
  | ok a =>
      constructor
      · intro h
        exact ⟨a, rfl, h⟩
      · rintro ⟨other, hother, h⟩
        obtain rfl := Except.ok.inj hother
        exact h

theorem mapError_eq_ok_iff {ε δ α : Type} {call : Except ε α} {f : ε → δ} {a : α} :
    call.mapError f = .ok a ↔ call = .ok a := by
  cases call <;> simp [Except.mapError]

/-- What a call finds outside the program's control: the results of key and guid generation and of
`rand`, the OAEP padding, and the bytes that lie in memory after a received payload, a decrypted
buffer, a ciphertext buffer and the literal `"OKAY"`. -/
structure Ambient (Key : Type) where
  keypair : Key
  guid : Guid
  draws : Nat → Nat
  padding : Bytes
  afterPayload : Bytes
  afterPlaintext : Bytes
  afterCiphertext : Bytes
  afterLiteral : Bytes

section Asymmetrical

variable {Key : Type} (rsa : Rsa Key)

def asymmetricalKeyToString (keypair : Key) : CString := rsa.publicString keypair

/-- The object returned is never NULL; `none` is the empty `RSA_new()` the PEM reader did not
fill. -/
def asymmetricalKeyFromString (string : Bytes) : Option Key :=
  rsa.readPublicString (CString.read string)

def asymmetricalEncrypt (env : Ambient Key) (keypair : Key) (message : Bytes) : Option Bytes :=
  rsa.publicEncrypt keypair env.padding (readBytes message (strlen message))

def asymmetricalDecrypt (keypair : Key) (message : Bytes) (inLen : Nat) : Option Bytes :=
  rsa.privateDecrypt keypair (readBytes message inLen)

end Asymmetrical

/-- `memcpy(key2,key,8)`. -/
def desCblock : Option Bytes → Except Stop Bytes
  | none => .error (.fault .nullSecret)
  | some key => if key.length < 8 then .error (.fault .shortSecret) else .ok (readBytes key 8)

/-- The buffer returned has `size + 1` bytes, and so does the part of `msg` that is read. The key
schedule is taken to be the key's own, which it is not for a weak or semi-weak key: the result of
`DES_set_key_checked` is not looked at. -/
def symmetricalEncrypt (des : StreamCipher Bytes) (key : Option Bytes) (msg : Bytes) (size : Nat) :
    Except Stop Bytes := do
  let key2 ← desCblock key
  return des.encrypt key2 (readBytes msg (size + 1))

def symmetricalDecrypt (des : StreamCipher Bytes) (key : Option Bytes) (msg : Bytes) (size : Nat) :
    Except Stop Bytes := do
  let key2 ← desCblock key
  return des.decrypt key2 (readBytes msg (size + 1))

-- 'A'..'Z', 'a'..'z', '1'..'9', '0'
def alphabet : Bytes :=
  (List.range 26).map (fun i => UInt8.ofNat (0x41 + i))
    ++ (List.range 26).map (fun i => UInt8.ofNat (0x61 + i))
    ++ (List.range 9).map (fun i => UInt8.ofNat (0x31 + i)) ++ [0x30]

def generateSharedSecret (draws : Nat → Nat) : Bytes :=
  (List.range 8).map fun j => alphabet.getD (draws j % 62) 0

@[simp]
theorem length_generateSharedSecret (draws : Nat → Nat) :
    (generateSharedSecret draws).length = 8 := by
  simp [generateSharedSecret]

theorem desCblock_eq_ok_iff {key : Option Bytes} {cblock : Bytes} :
    desCblock key = .ok cblock
      ↔ ∃ secret, key = some secret ∧ 8 ≤ secret.length ∧ cblock = secret.take 8 := by
  cases key with
  | none => simp [desCblock]
  | some secret =>
      by_cases hshort : secret.length < 8
      · simp [desCblock, hshort]
      · have hlong : 8 ≤ secret.length := by omega
        simp [desCblock, hshort, hlong, readBytes_of_le hlong, eq_comm]

theorem desCblock_eq_ok {secret : Bytes} (hlong : 8 ≤ secret.length) :
    desCblock (some secret) = .ok (secret.take 8) :=
  desCblock_eq_ok_iff.mpr ⟨secret, rfl, hlong, rfl⟩

theorem desCblock_eq_error {secret : Bytes} (hshort : secret.length < 8) :
    desCblock (some secret) = .error (.fault .shortSecret) := by
  rw [desCblock, if_pos hshort]

section Symmetrical

variable {secret : Bytes} (des : StreamCipher Bytes) (msg : Bytes) (size : Nat)

theorem symmetricalEncrypt_of_le (hlong : 8 ≤ secret.length) :
    symmetricalEncrypt des (some secret) msg size
      = .ok (des.encrypt (secret.take 8) (readBytes msg (size + 1))) := by
  rw [symmetricalEncrypt, desCblock_eq_ok hlong]
  rfl

theorem symmetricalEncrypt_of_lt (hshort : secret.length < 8) :
    symmetricalEncrypt des (some secret) msg size = .error (.fault .shortSecret) := by
  rw [symmetricalEncrypt, desCblock_eq_error hshort]
  rfl

theorem symmetricalDecrypt_of_le (hlong : 8 ≤ secret.length) :
    symmetricalDecrypt des (some secret) msg size
      = .ok (des.decrypt (secret.take 8) (readBytes msg (size + 1))) := by
  rw [symmetricalDecrypt, desCblock_eq_ok hlong]
  rfl

theorem symmetricalDecrypt_of_lt (hshort : secret.length < 8) :
    symmetricalDecrypt des (some secret) msg size = .error (.fault .shortSecret) := by
  rw [symmetricalDecrypt, desCblock_eq_error hshort]
  rfl

end Symmetrical

end WhisperCore
