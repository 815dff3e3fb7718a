import WhisperCore.Memory
import WhisperCore.Lib.StreamCipher

/-!
# What the source takes from other libraries

jnxlibc, OpenSSL and whisper-protocol are not part of the repository. Each of their functions that
the source calls is a field below, with what its documentation promises as a law beside it; nothing
else is known of it.
-/

namespace WhisperCore

/-- `jnx_guid`. -/
structure Guid where
  bytes : Bytes
  length_eq : bytes.length = 16
deriving DecidableEq

/-- `jnx_guid_to_string` and `jnx_guid_from_string`. On a string that is not a guid's the latter
gives some guid. -/
structure GuidStrings where
  toString : Guid → CString
  fromString : CString → Guid
  fromString_toString : ∀ guid, fromString (toString guid) = guid

attribute [simp] GuidStrings.fromString_toString

theorem GuidStrings.toString_injective (strings : GuidStrings) :
    Function.Injective strings.toString :=
  Function.LeftInverse.injective strings.fromString_toString

/-- `jnx_guid_compare`: a state, success for equal guids and failure for others. -/
def jnxGuidCompare (first second : Guid) : UInt32 := if first = second then 0 else 1

/-- `strcmp`, of which the language fixes the sign and not the size: characters compare as unsigned
bytes, and a string comes before its continuations. -/
structure Strcmp where
  compare : CString → CString → Int32
  compare_eq_zero_iff : ∀ first second, compare first second = 0 ↔ first = second
  compare_neg_iff : ∀ first second, compare first second < 0 ↔ first.bytes < second.bytes

/-- `jnx_encoder`: the encoder's output is NUL-terminated, the decoder returns NULL on an input it
cannot decode. -/
structure Base64 where
  encode : Bytes → CString
  decode : Bytes → Option Bytes
  decode_encode : ∀ bytes, decode (encode bytes).bytes = some bytes

/-- OpenSSL's RSA objects. `publicString` writes the public half as PEM; `readPublicString` fails
where `PEM_read_bio_RSAPublicKey` does. Encryption is randomised by the OAEP padding, and `none`
stands for a return value of `-1`. -/
structure Rsa (Key : Type) where
  publicString : Key → CString
  readPublicString : CString → Option Key
  publicEncrypt : Key → (padding message : Bytes) → Option Bytes
  privateDecrypt : Key → Bytes → Option Bytes
  /-- What was encrypted with the public half read back from its PEM decrypts with the key. -/
  decrypt_encrypt : ∀ key padding message cipher,
    (readPublicString (publicString key)).bind (publicEncrypt · padding message) = some cipher →
      privateDecrypt key cipher = some message

/-- One key pair with OAEP: a message that fits the block is encrypted, and decrypted again. -/
structure OaepBlock {Key : Type} (rsa : Rsa Key) (keypair : Key) where
  capacity : Nat
  isSome_publicEncrypt_iff : ∀ padding message,
    (rsa.publicEncrypt keypair padding message).isSome ↔ message.length ≤ capacity
  decrypt_encrypt : ∀ padding message cipher,
    rsa.publicEncrypt keypair padding message = some cipher →
      rsa.privateDecrypt keypair cipher = some message

/-- The libraries a node is linked with; `des` is `DES_cfb64_encrypt`, keyed by the eight bytes of
the `DES_cblock`, which also serves as the initial vector. The laws of `des` leave out DES's weak
and semi-weak keys: `DES_set_key_checked` refuses these and writes no schedule, and the source
ignores its result. -/
structure Libraries (Key : Type) where
  guid : GuidStrings
  base64 : Base64
  rsa : Rsa Key
  des : StreamCipher Bytes

/-! ### whisper-protocol -/

inductive SelectedAction where
  | createSession
  | respondingCreatedSession
  | sharingSessionKey
  | completedSession
  | communicatingSession
deriving DecidableEq

/-- The fields of a `Wpmessage` the source reads: `rawdata` is `action->contextdata->rawdata`, its
length the payload's `len`. -/
structure Wpmessage where
  id : CString
  sender : CString
  recipient : CString
  action : SelectedAction
  rawdata : Bytes
deriving DecidableEq

/-- `wpprotocol_generate_message`: packs copies of its arguments; it reads `size` bytes of
payload. -/
def wpprotocolGenerateMessage (id sender recipient : CString) (payload : Bytes) (size : Nat)
    (action : SelectedAction) : Wpmessage where
  id := id
  sender := sender
  recipient := recipient
  action := action
  rawdata := readBytes payload size

end WhisperCore
