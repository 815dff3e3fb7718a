import WhisperCore.Concrete
import WhisperCore.Proof.ProcessorCases

/-!
# What arrives

A text is encrypted with its terminator, framed by the `strlen` of the ciphertext, decrypted with
one byte more than the frame and measured by the `strlen` of the result. It arrives, whatever lies
in memory beside the buffers, exactly when its ciphertext has no zero byte; the same holds of the
completion message and the first five bytes of its ciphertext.
-/

namespace WhisperCore

variable {Key : Type} {lib : Libraries Key} {controller : ConnectionController Key}
  {c o : ConnectionRequest Key} {address : Nat} {σ : Bytes} {env env' : Ambient Key}

/-- A connection `c` and the controller at its other end, which knows the sender, finds its own
connection `o` under the same id and has its handlers set. -/
structure Linked (lib : Libraries Key) (c : ConnectionRequest Key)
    (controller : ConnectionController Key) (address : Nat) (o : ConnectionRequest Key)
    (σ : Bytes) : Prop where
  length : σ.length = 8
  sending : c.sharedSecret = some σ
  receiving : o.sharedSecret = some σ
  known : ∃ remote, peerstoreLookup lib.guid controller.ds.peers c.localPeer.guid
      = (some remote, controller.ds.peers)
    ∧ remote.guid ≠ controller.ds.peers.localPeer.guid
  found : controller.connections.find? (fun other => other.id = c.id) = some (address, o)
  nc : controller.nc = true
  cmr : controller.cmr = true

/-- `cmr` receives exactly the text, whatever the memory beside the buffers holds. -/
def TextArrives (lib : Libraries Key) (c : ConnectionRequest Key)
    (controller : ConnectionController Key) (address : Nat) (text : CString) : Prop :=
  ∀ (env env' : Ambient Key) (rest : Bytes), ∃ m outcome,
    connectionRequestSendMessage lib env c (text.inMemory rest) text.bytes.length = .ok (some m)
      ∧ internalConnnectionMessageProcessor lib env' controller m = .ok outcome
      ∧ outcome.calls
        = [.messageReceived address (text.bytes ++ [0]) (text.bytes.length + 1)]

/-- The completion message makes the other end call `nc`. -/
def CompletionArrives (lib : Libraries Key) (c : ConnectionRequest Key)
    (controller : ConnectionController Key) (address : Nat) : Prop :=
  ∀ (env env' : Ambient Key) (incoming : Wpmessage), ∃ m outcome,
    connectionRequestCreateExchangeMessage lib env c incoming .complete = .ok (c, m)
      ∧ internalConnnectionMessageProcessor lib env' controller m = .ok outcome
      ∧ outcome.calls = [.completed address]

namespace Linked

theorem hasKey (h : Linked lib c controller address o σ) : c.HasKey σ ∧ o.HasKey σ :=
  ⟨⟨h.sending, h.length.ge⟩, ⟨h.receiving, h.length.ge⟩⟩

/-- A message of `c` is processed by the switch, on the connection `o`. -/
theorem processor_eq (h : Linked lib c controller address o σ) (env' : Ambient Key)
    (payload : Bytes) (size : Nat) (action : SelectedAction) :
    ∃ remote, internalConnnectionMessageProcessor lib env' controller
          (connectionMessage lib c payload size action)
        = processAction lib env' controller (connectionMessage lib c payload size action) remote
      ∧ findConnection lib controller (connectionMessage lib c payload size action)
        = some (address, o) := by
  obtain ⟨remote, hlookup, hother⟩ := h.known
  refine ⟨remote, KnownSender.processor_eq ⟨?_, hother⟩, ?_⟩
  · rw [connectionMessage_sender, lib.guid.fromString_toString]
    exact hlookup
  · simp only [findConnection, connectionMessage_id, lib.guid.fromString_toString]
    exact h.found

/-- What `cmr` is called with for a message of the session. -/
theorem calls_communicating (h : Linked lib c controller address o σ) (env' : Ambient Key)
    (payload : Bytes) (size : Nat) {memory : Bytes}
    (hmemory : decryptedPayload lib env'
      (connectionMessage lib c payload size .communicatingSession) σ ++ env'.afterPlaintext
        = memory) :
    ∃ outcome, internalConnnectionMessageProcessor lib env' controller
          (connectionMessage lib c payload size .communicatingSession) = .ok outcome
      ∧ outcome.calls = [.messageReceived address (readBytes memory (strlen memory + 1))
        (strlen memory + 1)] := by
  subst hmemory
  obtain ⟨remote, hprocess, hfind⟩ := h.processor_eq env' payload size .communicatingSession
  simp only [processAction, connectionMessage_action, hfind] at hprocess
  rw [processCommunicatingSession_eq_ok h.hasKey.2] at hprocess
  exact ⟨_, hprocess, if_pos h.cmr⟩

/-- Whether `nc` is called for a completion message. -/
theorem calls_completed (h : Linked lib c controller address o σ) (env' : Ambient Key)
    (payload : Bytes) (size : Nat) :
    ∃ outcome, internalConnnectionMessageProcessor lib env' controller
          (connectionMessage lib c payload size .completedSession) = .ok outcome
      ∧ (outcome.calls = [.completed address] ↔ OpensToOkay lib env'
          (connectionMessage lib c payload size .completedSession) σ) := by
  obtain ⟨remote, hprocess, hfind⟩ := h.processor_eq env' payload size .completedSession
  simp only [processAction, connectionMessage_action, hfind] at hprocess
  rw [processCompletedSession_eq_ok h.hasKey.2] at hprocess
  refine ⟨_, hprocess, ?_⟩
  by_cases hopens : OpensToOkay lib env'
    (connectionMessage lib c payload size .completedSession) σ
  · simp [hopens, h.nc]
  · simp [hopens]

end Linked

/-! ### The bytes -/

/-- A frame that holds at least the ciphertext decrypts to the plaintext and more. -/
theorem exists_decryptedPayload_append (env' : Ambient Key) {m : Wpmessage}
    {plain more : Bytes} (hlength : σ.length = 8)
    (hraw : m.rawdata = lib.des.encrypt σ plain ++ more) :
    ∃ later, decryptedPayload lib env' m σ = plain ++ later := by
  have hcount : (lib.des.encrypt σ plain).length ≤ m.rawdata.length + 1 := by
    rw [hraw, List.length_append]
    omega
  obtain ⟨after, hafter⟩ :=
    exists_readBytes_append (lib.des.encrypt σ plain) (more ++ env'.afterPayload) hcount
  obtain ⟨later, hlater, _⟩ := lib.des.exists_decrypt_append σ plain after
  refine ⟨later, ?_⟩
  calc
    decryptedPayload lib env' m σ
        = lib.des.decrypt σ (readBytes (lib.des.encrypt σ plain ++ (more ++ env'.afterPayload))
            (m.rawdata.length + 1)) := by
          rw [decryptedPayload, List.take_of_length_le hlength.le, ← List.append_assoc, ← hraw]
    _ = lib.des.decrypt σ (lib.des.encrypt σ plain ++ after) := by rw [hafter]
    _ = plain ++ later := hlater

/-- A frame cut short decrypts to the start of the plaintext and a byte that depends on what lies
behind the payload. -/
theorem exists_decryptedPayload_cut (lib : Libraries Key) (plain : Bytes) (hlength : σ.length = 8)
    (count : Nat) (byte : UInt8) :
    ∃ afterPayload, ∀ (m : Wpmessage) (env : Ambient Key), env.afterPayload = afterPayload →
      m.rawdata = (lib.des.encrypt σ plain).take count →
      decryptedPayload lib env m σ = plain.take count ++ [byte] := by
  obtain ⟨cipherByte, hbyte⟩ := lib.des.exists_decrypt_take σ plain count byte
  refine ⟨[cipherByte], fun m env hafter hraw => ?_⟩
  have hread : readBytes (m.rawdata ++ [cipherByte]) (m.rawdata.length + 1)
      = m.rawdata ++ [cipherByte] := by
    simpa using readBytes_self (m.rawdata ++ [cipherByte])
  calc
    decryptedPayload lib env m σ
        = lib.des.decrypt σ (readBytes (m.rawdata ++ [cipherByte]) (m.rawdata.length + 1)) := by
          rw [decryptedPayload, List.take_of_length_le hlength.le, hafter]
    _ = lib.des.decrypt σ ((lib.des.encrypt σ plain).take count ++ [cipherByte]) := by
          rw [hread, hraw]
    _ = plain.take count ++ [byte] := hbyte

/-- Some surroundings, given what lies behind a payload and behind a decrypted buffer. -/
def surroundings (c : ConnectionRequest Key) (afterPayload afterPlaintext : Bytes) :
    Ambient Key where
  keypair := c.keypair
  guid := c.id
  draws := fun _ => 0
  padding := []
  afterPayload := afterPayload
  afterPlaintext := afterPlaintext
  afterCiphertext := []
  afterLiteral := []

theorem communicationCiphertext_eq (lib : Libraries Key) (hlength : σ.length = 8) (text : CString)
    (rest : Bytes) :
    communicationCiphertext lib (text.inMemory rest) text.bytes.length σ
      = lib.des.encrypt σ (text.bytes ++ [0]) := by
  rw [communicationCiphertext, List.take_of_length_le hlength.le, text.readBytes_inMemory]

theorem exists_completionCiphertext (lib : Libraries Key) (env : Ambient Key)
    (hlength : σ.length = 8) :
    ∃ more, completionCiphertext lib env σ = lib.des.encrypt σ (okay.bytes ++ [0]) ++ more := by
  have hcount : (okay.bytes ++ [0]).length ≤ 6 := by decide
  obtain ⟨later, hlater⟩ := exists_readBytes_append (okay.bytes ++ [0]) env.afterLiteral hcount
  obtain ⟨more, hmore, _⟩ := lib.des.exists_encrypt_append σ (okay.bytes ++ [0]) later
  refine ⟨more, ?_⟩
  calc
    completionCiphertext lib env σ
        = lib.des.encrypt σ (readBytes ((okay.bytes ++ [0]) ++ env.afterLiteral) 6) := by
          rw [completionCiphertext, List.take_of_length_le hlength.le, okay.inMemory_eq]
    _ = lib.des.encrypt σ (okay.bytes ++ [0] ++ later) := by rw [hlater]
    _ = lib.des.encrypt σ (okay.bytes ++ [0]) ++ more := hmore

/-! ### Texts -/

/-- The ciphertext of a text and its terminator, as it starts in memory. -/
theorem communication_memory (lib : Libraries Key) (env : Ambient Key) (hlength : σ.length = 8)
    (text : CString) (rest : Bytes) :
    ∃ tail, tail.length = 1 ∧ lib.des.encrypt σ (text.bytes ++ [0])
        = lib.des.encrypt σ text.bytes ++ tail
      ∧ communicationCiphertext lib (text.inMemory rest) text.bytes.length σ ++ env.afterCiphertext
        = lib.des.encrypt σ text.bytes ++ (tail ++ env.afterCiphertext) := by
  obtain ⟨tail, htail, htailLength⟩ := lib.des.exists_encrypt_append σ text.bytes [0]
  refine ⟨tail, htailLength, htail, ?_⟩
  rw [communicationCiphertext_eq lib hlength, htail, List.append_assoc]

theorem Linked.textArrives (h : Linked lib c controller address o σ) {text : CString}
    (hzero : 0 ∉ lib.des.encrypt σ text.bytes) : TextArrives lib c controller address text := by
  intro env env' rest
  obtain ⟨tail, htailLength, htail, hmemory⟩ :=
    communication_memory lib env h.length text rest
  have hstrlen : text.bytes.length
      ≤ strlen (lib.des.encrypt σ text.bytes ++ (tail ++ env.afterCiphertext)) := by
    simpa using le_strlen_append hzero (tail ++ env.afterCiphertext)
  have hcount : (lib.des.encrypt σ (text.bytes ++ [0])).length
      ≤ strlen (lib.des.encrypt σ text.bytes ++ (tail ++ env.afterCiphertext)) + 1 := by
    simpa using hstrlen
  obtain ⟨more, hmore⟩ := exists_readBytes_append _ env.afterCiphertext hcount
  have hraw : (communicationMessage lib env c (text.inMemory rest) text.bytes.length σ).rawdata
      = lib.des.encrypt σ (text.bytes ++ [0]) ++ more := by
    rw [communicationMessage, connectionMessage_rawdata, hmemory, ← hmore, htail,
      List.append_assoc]
  obtain ⟨later, hlater⟩ := exists_decryptedPayload_append env' h.length hraw
  have hreceived := calc
    decryptedPayload lib env'
          (communicationMessage lib env c (text.inMemory rest) text.bytes.length σ) σ
          ++ env'.afterPlaintext
        = (text.bytes ++ [0]) ++ (later ++ env'.afterPlaintext) := by
          rw [hlater, List.append_assoc]
    _ = text.inMemory (later ++ env'.afterPlaintext) := (text.inMemory_eq _).symm
  obtain ⟨outcome, hok, hcalls⟩ := h.calls_communicating env' _ _ hreceived
  refine ⟨_, outcome, connectionRequestSendMessage_eq_ok h.hasKey.1, hok, ?_⟩
  rw [hcalls, strlen_inMemory, text.readBytes_inMemory]

/-- The payload ends with the first zero byte of the text's ciphertext. -/
theorem rawdata_communicationMessage_of_zero (env : Ambient Key) (hlength : σ.length = 8)
    {text : CString} (rest : Bytes) {first second : Bytes}
    (hsplit : lib.des.encrypt σ text.bytes = first ++ 0 :: second) (hfirst : 0 ∉ first) :
    (communicationMessage lib env c (text.inMemory rest) text.bytes.length σ).rawdata
      = (lib.des.encrypt σ text.bytes).take (first.length + 1) := by
  obtain ⟨tail, _, _, hmemory⟩ := communication_memory lib env hlength text rest
  have hcut : communicationCiphertext lib (text.inMemory rest) text.bytes.length σ
      ++ env.afterCiphertext = first ++ 0 :: (second ++ (tail ++ env.afterCiphertext)) := by
    rw [hmemory, hsplit, List.append_assoc, List.cons_append]
  let memory := first ++ 0 :: (second ++ (tail ++ env.afterCiphertext))
  have hread : (CString.read memory).bytes = first := takeWhile_append_nul hfirst _
  calc
    (communicationMessage lib env c (text.inMemory rest) text.bytes.length σ).rawdata
        = readBytes memory (strlen memory + 1) := by
          rw [communicationMessage, connectionMessage_rawdata, hcut]
    _ = first ++ [0] := by rw [readBytes_strlen_succ, hread]
    _ = (lib.des.encrypt σ text.bytes).take (first.length + 1) := by rw [hsplit, take_cut]

theorem Linked.zero_notMem_of_textArrives (h : Linked lib c controller address o σ)
    {text : CString} (harrives : TextArrives lib c controller address text) :
    0 ∉ lib.des.encrypt σ text.bytes := by
  intro hzero
  obtain ⟨first, second, hsplit, hfirst⟩ := List.eq_append_cons_of_mem hzero
  -- the byte behind the payload is chosen so that the text received has no end before `text`'s
  obtain ⟨afterPayload, hcut⟩ :=
    exists_decryptedPayload_cut lib text.bytes h.length (first.length + 1) 1
  let env' := surroundings c afterPayload (List.replicate text.bytes.length 1)
  obtain ⟨m, outcome, hsend, hok, hcalls⟩ := harrives (surroundings c [] []) env' []
  rw [connectionRequestSendMessage_eq_ok h.hasKey.1] at hsend
  obtain rfl := Option.some.inj (Except.ok.inj hsend)
  have hraw := rawdata_communicationMessage_of_zero (c := c) (surroundings c [] []) h.length []
    hsplit hfirst
  have hreceived := hcut _ env' rfl hraw
  obtain ⟨outcome', hok', hcalls'⟩ := h.calls_communicating env' _ _
    (congrArg (· ++ env'.afterPlaintext) hreceived)
  obtain rfl := Except.ok.inj (hok.symm.trans hok')
  have hlength := hcalls.symm.trans hcalls'
  simp only [List.cons.injEq, Notification.messageReceived.injEq] at hlength
  have hlong := lt_strlen_of_ones text (first.length + 1)
  have henv : env'.afterPlaintext = List.replicate text.bytes.length 1 := rfl
  rw [henv] at hlength
  omega

/-! ### The completion message -/

theorem connectionRequestCreateExchangeMessage_complete (env : Ambient Key) (incoming : Wpmessage)
    (hkey : c.HasKey σ) :
    connectionRequestCreateExchangeMessage lib env c incoming .complete
      = .ok (c, completionMessage lib env c σ) := by
  rw [connectionRequestCreateExchangeMessage,
    exchangeComplete_eq_ok_iff.mpr ⟨σ, hkey, rfl⟩]

theorem Linked.completionArrives (h : Linked lib c controller address o σ)
    (hzero : 0 ∉ lib.des.encrypt σ (okay.bytes ++ [0])) :
    CompletionArrives lib c controller address := by
  intro env env' incoming
  obtain ⟨tail, htail⟩ := exists_completionCiphertext lib env h.length
  have hmemory : completionCiphertext lib env σ ++ env.afterCiphertext
      = lib.des.encrypt σ (okay.bytes ++ [0]) ++ (tail ++ env.afterCiphertext) := by
    rw [htail, List.append_assoc]
  have hstrlen := le_strlen_append hzero (tail ++ env.afterCiphertext)
  obtain ⟨more, hmore⟩ := exists_readBytes_append _ (tail ++ env.afterCiphertext) hstrlen
  have hraw := calc
    (completionMessage lib env c σ).rawdata
        = readBytes (completionCiphertext lib env σ ++ env.afterCiphertext)
            (strlen (completionCiphertext lib env σ ++ env.afterCiphertext)) := rfl
    _ = lib.des.encrypt σ (okay.bytes ++ [0]) ++ more := by rw [hmemory, hmore]
  obtain ⟨later, hlater⟩ := exists_decryptedPayload_append env' h.length hraw
  have hopens : OpensToOkay lib env' (completionMessage lib env c σ) σ := by
    rw [OpensToOkay, hlater, List.append_assoc, ← okay.inMemory_eq]
    exact CString.ext (takeWhile_append_nul okay.noNul _)
  obtain ⟨outcome, hok, hcalls⟩ := h.calls_completed env' _ _
  exact ⟨_, outcome, connectionRequestCreateExchangeMessage_complete env incoming h.hasKey.1, hok,
    hcalls.mpr hopens⟩

/-- The payload ends before the first zero byte of the completion's ciphertext. -/
theorem rawdata_completionMessage_of_zero (env : Ambient Key) (hlength : σ.length = 8)
    {first second : Bytes}
    (hsplit : lib.des.encrypt σ (okay.bytes ++ [0]) = first ++ 0 :: second) (hfirst : 0 ∉ first) :
    (completionMessage lib env c σ).rawdata
      = (lib.des.encrypt σ (okay.bytes ++ [0])).take first.length := by
  obtain ⟨tail, htail⟩ := exists_completionCiphertext lib env hlength
  have hcut : completionCiphertext lib env σ ++ env.afterCiphertext
      = first ++ 0 :: (second ++ (tail ++ env.afterCiphertext)) := by
    rw [htail, hsplit, List.append_assoc, List.append_assoc, List.cons_append]
  calc
    (completionMessage lib env c σ).rawdata
        = readBytes (first ++ 0 :: (second ++ (tail ++ env.afterCiphertext))) first.length := by
          rw [completionMessage, connectionMessage_rawdata, hcut, strlen_append_nul hfirst]
    _ = first := readBytes_append first _
    _ = (lib.des.encrypt σ (okay.bytes ++ [0])).take first.length := by
          rw [hsplit, List.take_left]

/-- "OKAY" cut short and followed by a one is not "OKAY". -/
theorem read_okay_take_ne (count : Nat) (hcount : count ≤ okay.bytes.length) :
    CString.read ((okay.bytes ++ [0]).take count ++ [1]) ≠ okay := by
  intro hread
  rw [List.take_append_of_le_length hcount] at hread
  have hokay : (0 : UInt8) ∉ okay.bytes.take count := (okay.take count).noNul
  have hnoNul : (0 : UInt8) ∉ okay.bytes.take count ++ [1] := by
    simp [hokay]
  have hbytes : okay.bytes.take count ++ [1] = okay.bytes :=
    (takeWhile_self hnoNul).symm.trans (congrArg CString.bytes hread)
  have hone : (1 : UInt8) ∈ okay.bytes := by
    rw [← hbytes]
    simp
  revert hone
  decide

theorem Linked.zero_notMem_of_completionArrives (h : Linked lib c controller address o σ)
    (harrives : CompletionArrives lib c controller address) :
    0 ∉ lib.des.encrypt σ (okay.bytes ++ [0]) := by
  intro hzero
  obtain ⟨first, second, hsplit, hfirst⟩ := List.eq_append_cons_of_mem hzero
  -- the byte behind the payload is chosen so that what is compared with "OKAY" has it
  obtain ⟨afterPayload, hcut⟩ :=
    exists_decryptedPayload_cut lib (okay.bytes ++ [0]) h.length first.length 1
  let env' := surroundings c afterPayload []
  let incoming := connectionRequestCreateInitiationMessage lib c
  obtain ⟨m, outcome, hsend, hok, hcalls⟩ := harrives (surroundings c [] []) env' incoming
  rw [connectionRequestCreateExchangeMessage_complete _ _ h.hasKey.1] at hsend
  obtain ⟨_, rfl⟩ := Prod.mk.inj (Except.ok.inj hsend)
  have hraw := rawdata_completionMessage_of_zero (c := c) (surroundings c [] []) h.length hsplit
    hfirst
  have hreceived := hcut _ env' rfl hraw
  obtain ⟨outcome', hok', hcalls'⟩ := h.calls_completed env' _ _
  obtain rfl := Except.ok.inj (hok.symm.trans hok')
  have hopens : CString.read (decryptedPayload lib env'
      (completionMessage lib (surroundings c [] []) c σ) σ ++ []) = okay := hcalls'.mp hcalls
  have hcount : first.length ≤ okay.bytes.length := by
    have hlength := congrArg List.length hsplit
    simp only [StreamCipher.length_encrypt, List.length_append, List.length_cons,
      List.length_nil] at hlength
    omega
  rw [hreceived, List.append_nil] at hopens
  exact read_okay_take_ne first.length hcount hopens

/-- **What arrives, exactly.** Over a connection whose two ends hold the same eight bytes, a text
arrives if and only if its ciphertext has no zero byte, and the completion message does if and only
if the ciphertext of "OKAY" and its terminator has none. -/
theorem arrives_iff (h : Linked lib c controller address o σ) (text : CString) :
    (TextArrives lib c controller address text ↔ 0 ∉ lib.des.encrypt σ text.bytes)
      ∧ (CompletionArrives lib c controller address
        ↔ 0 ∉ lib.des.encrypt σ (okay.bytes ++ [0])) :=
  ⟨⟨h.zero_notMem_of_textArrives, h.textArrives⟩,
    ⟨h.zero_notMem_of_completionArrives, h.completionArrives⟩⟩

section Run

open Concrete

theorem linked_secretA : Linked libraries (responderRequest secretA)
    ((agreedNet fun _ => 0).nodes (guid 1)).controller 0 (initiatorRequest secretA) secretA where
  length := rfl
  sending := rfl
  receiving := rfl
  known := ⟨{ peer 2 bob with lastSeen := 1 }, rfl, by decide +kernel⟩
  found := by decide +kernel
  nc := by decide +kernel
  cmr := by decide +kernel

theorem arrives_iff_secretA :
    (TextArrives libraries (responderRequest secretA)
        ((agreedNet fun _ => 0).nodes (guid 1)).controller 0 bob
      ↔ 0 ∉ libraries.des.encrypt secretA bob.bytes)
      ∧ (CompletionArrives libraries (responderRequest secretA)
          ((agreedNet fun _ => 0).nodes (guid 1)).controller 0
        ↔ 0 ∉ libraries.des.encrypt secretA (okay.bytes ++ [0])) :=
  arrives_iff linked_secretA bob

theorem linked_secretL : Linked libraries (responderRequest secretL)
    ((agreedNet drawsL).nodes (guid 1)).controller 0 (initiatorRequest secretL) secretL where
  length := rfl
  sending := rfl
  receiving := rfl
  known := ⟨{ peer 2 bob with lastSeen := 1 }, rfl, by decide +kernel⟩
  found := by decide +kernel
  nc := by decide +kernel
  cmr := by decide +kernel

/-- Under "LLLLLLLn" the first byte of the keystream is 'O'. The text "OK" arrives as two other
bytes, and "OKAY" does not complete the handshake. -/
theorem not_arrives_secretL :
    ∃ net : Net CString, net.Reachable libraries
      ∧ (net.nodes (guid 2)).controller.connections.get? 0 = some (responderRequest secretL)
      ∧ Linked libraries (responderRequest secretL) (net.nodes (guid 1)).controller 0
          (initiatorRequest secretL) secretL
      ∧ ((internalConnnectionMessageProcessor libraries (ambient al (guid 8) drawsL)
            (net.nodes (guid 1)).controller (communicationMessage libraries
              (ambient bob (guid 8) drawsL) (responderRequest secretL)
              ((okay.take 2).inMemory []) 2 secretL)).toOption.map Outcome.calls)
          = some [.messageReceived 0 [0x4F, 0x1D, 0] 3]
      ∧ ¬ TextArrives libraries (responderRequest secretL) (net.nodes (guid 1)).controller 0
          (okay.take 2)
      ∧ ¬ CompletionArrives libraries (responderRequest secretL)
          (net.nodes (guid 1)).controller 0 := by
  refine ⟨agreedNet drawsL, reachable_netAfter _ (by decide +kernel), by decide +kernel,
    linked_secretL, by decide +kernel, fun harrives => ?_, fun harrives => ?_⟩
  · exact linked_secretL.zero_notMem_of_textArrives harrives (by decide +kernel)
  · exact linked_secretL.zero_notMem_of_completionArrives harrives (by decide +kernel)

end Run

end WhisperCore
