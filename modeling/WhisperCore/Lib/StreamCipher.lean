import Mathlib.Data.List.Basic
import Mathlib.Data.UInt

/-!
# Byte stream ciphers and cipher feedback

A stream cipher encrypts a message byte by byte: it keeps the length, a byte of output depends only
on the input up to it, and decryption inverts encryption. Cipher feedback over any block function is
one; the feedback register is the same on both sides because both feed it the ciphertext.
-/

structure StreamCipher (Key : Type*) where
  encrypt : Key → List UInt8 → List UInt8
  decrypt : Key → List UInt8 → List UInt8
  length_encrypt : ∀ key message, (encrypt key message).length = message.length
  length_decrypt : ∀ key message, (decrypt key message).length = message.length
  encrypt_take : ∀ key message count,
    encrypt key (message.take count) = (encrypt key message).take count
  decrypt_take : ∀ key message count,
    decrypt key (message.take count) = (decrypt key message).take count
  decrypt_encrypt : ∀ key message, decrypt key (encrypt key message) = message

namespace StreamCipher

variable {Key : Type*} (cipher : StreamCipher Key) (key : Key)

attribute [simp] length_encrypt length_decrypt decrypt_encrypt

/-- What is encrypted after a message does not change the message's own ciphertext. -/
theorem encrypt_append_take (message rest : List UInt8) :
    (cipher.encrypt key (message ++ rest)).take message.length = cipher.encrypt key message := by
  rw [← cipher.encrypt_take, List.take_left]

theorem exists_encrypt_append (message rest : List UInt8) :
    ∃ tail, cipher.encrypt key (message ++ rest) = cipher.encrypt key message ++ tail
      ∧ tail.length = rest.length := by
  refine ⟨(cipher.encrypt key (message ++ rest)).drop message.length, ?_, ?_⟩
  · rw [← encrypt_append_take cipher key message rest, List.take_append_drop]
  · simp

/-- The first bytes of a ciphertext decrypt to the first bytes of the message, whatever follows. -/
theorem decrypt_append_take (message rest : List UInt8) :
    (cipher.decrypt key (cipher.encrypt key message ++ rest)).take message.length = message := by
  have hlength : message.length = (cipher.encrypt key message).length := by simp
  calc
    (cipher.decrypt key (cipher.encrypt key message ++ rest)).take message.length
        = cipher.decrypt key ((cipher.encrypt key message ++ rest).take message.length) :=
          (cipher.decrypt_take key _ _).symm
    _ = cipher.decrypt key (cipher.encrypt key message) := by rw [hlength, List.take_left]
    _ = message := cipher.decrypt_encrypt key message

theorem exists_decrypt_append (message rest : List UInt8) :
    ∃ tail, cipher.decrypt key (cipher.encrypt key message ++ rest) = message ++ tail
      ∧ tail.length = rest.length := by
  refine ⟨(cipher.decrypt key (cipher.encrypt key message ++ rest)).drop message.length, ?_, ?_⟩
  · have hsplit := List.take_append_drop message.length
      (cipher.decrypt key (cipher.encrypt key message ++ rest))
    rw [decrypt_append_take cipher key message rest] at hsplit
    exact hsplit.symm
  · simp

/-- Whoever chooses the byte after a cut ciphertext chooses the byte it decrypts to. -/
theorem exists_decrypt_take (message : List UInt8) (count : Nat) (byte : UInt8) :
    ∃ cipherByte, cipher.decrypt key ((cipher.encrypt key message).take count ++ [cipherByte])
      = message.take count ++ [byte] := by
  obtain ⟨tail, htail, hlength⟩ := cipher.exists_encrypt_append key (message.take count) [byte]
  obtain ⟨cipherByte, rfl⟩ := List.length_eq_one_iff.mp hlength
  refine ⟨cipherByte, ?_⟩
  calc
    cipher.decrypt key ((cipher.encrypt key message).take count ++ [cipherByte])
        = cipher.decrypt key (cipher.encrypt key (message.take count ++ [byte])) := by
          rw [← cipher.encrypt_take, htail]
    _ = message.take count ++ [byte] := cipher.decrypt_encrypt key _

end StreamCipher

/-! ### Cipher feedback -/

namespace CipherFeedback

/-- The feedback register: the keystream not used yet, and the ciphertext since it was made. -/
structure Register where
  stream : List UInt8
  block : List UInt8

variable (blockCipher : List UInt8 → List UInt8)

/-- Encrypts the collected block into new keystream once the old one is used up. -/
def Register.refill (register : Register) : Register :=
  if register.stream = [] then ⟨blockCipher register.block, []⟩ else register

def Register.feed (register : Register) (cipherByte : UInt8) : Register :=
  ⟨register.stream.tail, register.block ++ [cipherByte]⟩

def encrypt (register : Register) : List UInt8 → List UInt8
  | [] => []
  | byte :: rest =>
      let ready := register.refill blockCipher
      let cipherByte := byte ^^^ ready.stream.headD 0
      cipherByte :: encrypt (ready.feed cipherByte) rest

def decrypt (register : Register) : List UInt8 → List UInt8
  | [] => []
  | cipherByte :: rest =>
      let ready := register.refill blockCipher
      (cipherByte ^^^ ready.stream.headD 0) :: decrypt (ready.feed cipherByte) rest

theorem length_encrypt (register : Register) (message : List UInt8) :
    (encrypt blockCipher register message).length = message.length := by
  induction message generalizing register with
  | nil => rfl
  | cons byte rest ih => simp only [encrypt, List.length_cons, ih]

theorem length_decrypt (register : Register) (message : List UInt8) :
    (decrypt blockCipher register message).length = message.length := by
  induction message generalizing register with
  | nil => rfl
  | cons cipherByte rest ih => simp only [decrypt, List.length_cons, ih]

theorem encrypt_take (register : Register) (message : List UInt8) (count : Nat) :
    encrypt blockCipher register (message.take count)
      = (encrypt blockCipher register message).take count := by
  induction message generalizing register count with
  | nil => simp [encrypt]
  | cons byte rest ih =>
      cases count with
      | zero => rfl
      | succ count => simp only [List.take_succ_cons, encrypt, ih]

theorem decrypt_take (register : Register) (message : List UInt8) (count : Nat) :
    decrypt blockCipher register (message.take count)
      = (decrypt blockCipher register message).take count := by
  induction message generalizing register count with
  | nil => simp [decrypt]
  | cons cipherByte rest ih =>
      cases count with
      | zero => rfl
      | succ count => simp only [List.take_succ_cons, decrypt, ih]

theorem decrypt_encrypt (register : Register) (message : List UInt8) :
    decrypt blockCipher register (encrypt blockCipher register message) = message := by
  induction message generalizing register with
  | nil => rfl
  | cons byte rest ih =>
      simp only [encrypt, decrypt, ih, UInt8.xor_assoc, UInt8.xor_self, UInt8.xor_zero]

end CipherFeedback

/-- Cipher feedback with a block function and an initial vector for every key. -/
def StreamCipher.cipherFeedback {Key : Type*} (blockCipher : Key → List UInt8 → List UInt8)
    (initialVector : Key → List UInt8) : StreamCipher Key where
  encrypt key := CipherFeedback.encrypt (blockCipher key) ⟨[], initialVector key⟩
  decrypt key := CipherFeedback.decrypt (blockCipher key) ⟨[], initialVector key⟩
  length_encrypt _ := CipherFeedback.length_encrypt _ _
  length_decrypt _ := CipherFeedback.length_decrypt _ _
  encrypt_take _ := CipherFeedback.encrypt_take _ _
  decrypt_take _ := CipherFeedback.decrypt_take _ _
  decrypt_encrypt _ := CipherFeedback.decrypt_encrypt _ _
