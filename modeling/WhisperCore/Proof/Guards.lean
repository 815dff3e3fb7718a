import WhisperCore.Concrete
import WhisperCore.Process
import WhisperCore.Proof.ProcessorCases

/-!
# What is guarded

A message can make the processor follow a connection request that was not found, use a secret that
is missing or too short, or go on with a decryption that failed. Which of these a guard stops
depends on the action; the condition below is exact.
-/

namespace WhisperCore

variable {Key : Type} {lib : Libraries Key} {env : Ambient Key}
  {controller : ConnectionController Key} {message : Wpmessage}

def Fault.WorksOnAbsent : Fault → Prop
  | .absentConnection | .nullSecret | .shortSecret | .failedDecrypt => True
  | .emptyKey | .nullMessage | .nullPeer => False

/-- A call makes an undefined access. -/
def Faults {Written α : Type} (result : Except (Ending Written) α) (f : Fault) : Prop :=
  ∃ written, result = .error ⟨.fault f, written⟩

@[simp]
theorem faults_error_iff {Written α : Type} {stop : Stop} {written : Written} {f : Fault} :
    Faults (.error ⟨stop, written⟩ : Except (Ending Written) α) f ↔ stop = .fault f := by
  simp [Faults]

@[simp]
theorem not_faults_ok {Written α : Type} (a : α) (f : Fault) :
    ¬ Faults (.ok a : Except (Ending Written) α) f := by
  simp [Faults]

/-- The processor works on nothing that is absent. -/
def Guarded (lib : Libraries Key) (env : Ambient Key) (controller : ConnectionController Key)
    (message : Wpmessage) : Prop :=
  ∀ f : Fault, f.WorksOnAbsent →
    ¬ Faults (internalConnnectionMessageProcessor lib env controller message) f

/-- What the action of a message needs is there, wherever no guard asks for it. -/
def NothingAbsent (lib : Libraries Key) (controller : ConnectionController Key)
    (message : Wpmessage) : Prop :=
  match message.action with
  | .createSession | .respondingCreatedSession => True
  | .sharingSessionKey => ∀ address c, findConnection lib controller message = some (address, c) →
      ∃ decrypted, asymmetricalDecrypt lib.rsa c.keypair message.rawdata message.rawdata.length
          = some decrypted
        ∧ ∀ secret, lib.base64.decode decrypted = some secret → 8 ≤ secret.length
  | .completedSession => ∀ address c, findConnection lib controller message = some (address, c) →
      ∃ secret, c.HasKey secret
  | .communicatingSession => ∃ address c secret,
      findConnection lib controller message = some (address, c) ∧ c.HasKey secret

theorem exchangeSessionKeyShare_eq_error {c : ConnectionRequest Key}
    {ending : Ending (ConnectionRequest Key)}
    (h : exchangeSessionKeyShare lib env c message = .error ending) :
    ending.stop = .check ∨ ending.stop = .fault .emptyKey := by
  unfold exchangeSessionKeyShare at h
  cases hdecode : lib.base64.decode message.rawdata with
  | none =>
      simp only [hdecode] at h
      exact Or.inl (congrArg Ending.stop (Except.error.inj h)).symm
  | some decoded =>
      cases hkey : asymmetricalKeyFromString lib.rsa decoded with
      | none =>
          simp only [hdecode, hkey] at h
          exact Or.inr (congrArg Ending.stop (Except.error.inj h)).symm
      | some remoteKeypair =>
          cases hcipher : asymmetricalEncrypt lib.rsa env remoteKeypair
              (lib.base64.encode (generateSharedSecret env.draws)).bytes with
          | none =>
              simp only [hdecode, hkey, hcipher] at h
              exact Or.inl (congrArg Ending.stop (Except.error.inj h)).symm
          | some cipher =>
              simp only [hdecode, hkey, hcipher] at h
              cases h

theorem exchangeComplete_eq_fault_iff (lib : Libraries Key) (env : Ambient Key)
    (c : ConnectionRequest Key) {f : Fault} :
    exchangeComplete lib env c = .error (.fault f)
      ↔ f = .shortSecret ∧ ∃ secret, c.sharedSecret = some secret ∧ secret.length < 8 := by
  unfold exchangeComplete
  cases hsecret : c.sharedSecret with
  | none => simp
  | some secret =>
      by_cases hlong : 8 ≤ secret.length
      · simp only [symmetricalEncrypt_of_le _ _ _ hlong]
        constructor
        · intro h
          cases h
        · rintro ⟨_, other, hother, hshort⟩
          obtain rfl := Option.some.inj hother
          omega
      · have hshort : secret.length < 8 := by omega
        simp only [symmetricalEncrypt_of_lt _ _ _ hshort]
        constructor
        · intro h
          have hfault : Stop.fault .shortSecret = Stop.fault f := Except.error.inj h
          exact ⟨by simpa [eq_comm] using hfault, secret, rfl, hshort⟩
        · rintro ⟨rfl, _⟩
          rfl

theorem processSharingSessionKey_faults_iff {address : Nat} {c : ConnectionRequest Key}
    {decrypted : Bytes} {f : Fault}
    (hdecrypt : asymmetricalDecrypt lib.rsa c.keypair message.rawdata message.rawdata.length
      = some decrypted) :
    Faults (processSharingSessionKey lib env controller message (some (address, c))) f
      ↔ f = .shortSecret
        ∧ ∃ secret, lib.base64.decode decrypted = some secret ∧ secret.length < 8 := by
  simp only [processSharingSessionKey, hdecrypt, Option.bind_some,
    connectionRequestCreateExchangeMessage]
  refine Iff.trans ?_ (exchangeComplete_eq_fault_iff lib env
    { c with state := .complete, sharedSecret := lib.base64.decode decrypted })
  cases hresult : exchangeComplete lib env
      { c with state := .complete, sharedSecret := lib.base64.decode decrypted } with
  | error stop => simp
  | ok outMessage => simp

/-! ### The switch, action by action -/

section Actions

variable {remote : Peer}

theorem processCreateSession_not_faults (oconnection : Option (Nat × ConnectionRequest Key))
    (f : Fault) :
    ¬ Faults (processCreateSession lib env controller message remote oconnection) f := by
  cases oconnection with
  | none => exact not_faults_ok _ f
  | some found => simp [processCreateSession]

theorem processRespondingCreatedSession_not_faults
    (oconnection : Option (Nat × ConnectionRequest Key)) {f : Fault} (hf : f.WorksOnAbsent) :
    ¬ Faults (processRespondingCreatedSession lib env controller message oconnection) f := by
  cases oconnection with
  | none => simp [processRespondingCreatedSession]
  | some found =>
      simp only [processRespondingCreatedSession, connectionRequestCreateExchangeMessage]
      cases hexchange : exchangeSessionKeyShare lib env { found.2 with state := .sessionKeyShare }
          message with
      | ok result => exact not_faults_ok _ f
      | error ending =>
          rw [faults_error_iff]
          intro hstop
          rcases exchangeSessionKeyShare_eq_error hexchange with hcheck | hempty
          · cases hcheck.symm.trans hstop
          · obtain rfl := Stop.fault.inj (hempty.symm.trans hstop)
            exact hf

theorem processSharingSessionKey_guarded_iff {address : Nat} {c : ConnectionRequest Key} :
    (∀ f : Fault, f.WorksOnAbsent →
        ¬ Faults (processSharingSessionKey lib env controller message (some (address, c))) f)
      ↔ ∃ decrypted, asymmetricalDecrypt lib.rsa c.keypair message.rawdata message.rawdata.length
          = some decrypted
        ∧ ∀ secret, lib.base64.decode decrypted = some secret → 8 ≤ secret.length := by
  cases hdecrypt : asymmetricalDecrypt lib.rsa c.keypair message.rawdata
      message.rawdata.length with
  | none =>
      constructor
      · intro h
        refine absurd ?_ (h .failedDecrypt trivial)
        simp only [processSharingSessionKey, hdecrypt, faults_error_iff]
      · rintro ⟨_, hsome, _⟩
        cases hsome
  | some decrypted =>
      have hfault : ∀ f,
          Faults (processSharingSessionKey lib env controller message (some (address, c))) f
            ↔ f = .shortSecret
              ∧ ∃ secret, lib.base64.decode decrypted = some secret ∧ secret.length < 8 :=
        fun f => processSharingSessionKey_faults_iff hdecrypt
      constructor
      · intro h
        refine ⟨decrypted, rfl, fun secret hdecode => ?_⟩
        by_contra hshort
        exact h .shortSecret trivial ((hfault .shortSecret).mpr ⟨rfl, secret, hdecode, by omega⟩)
      · rintro ⟨opened, hopened, hlong⟩ f _ hf
        obtain rfl := Option.some.inj hopened
        obtain ⟨_, secret, hdecode, hshort⟩ := (hfault f).mp hf
        have := hlong secret hdecode
        omega

/-- A branch that decrypts and then cannot fail. -/
theorem guarded_iff_hasKey (lib : Libraries Key) (env : Ambient Key) (message : Wpmessage)
    {c : ConnectionRequest Key} {result : Except (Ending (Outcome Key)) (Outcome Key)}
    (hok : ∀ secret, c.HasKey secret → ∃ outcome, result = .ok outcome)
    (hfault : ∀ f, symmetricalDecrypt lib.des c.sharedSecret (message.rawdata ++ env.afterPayload)
      message.rawdata.length = .error (.fault f) → Faults result f) :
    (∀ f : Fault, f.WorksOnAbsent → ¬ Faults result f) ↔ ∃ secret, c.HasKey secret := by
  constructor
  · intro h
    rcases symmetricalDecrypt_cases lib c (message.rawdata ++ env.afterPayload)
      message.rawdata.length with hkey | ⟨f, hf, hdecrypt⟩
    · exact hkey
    · have habsent : f.WorksOnAbsent := by
        rcases hf with rfl | rfl <;> trivial
      exact absurd (hfault f hdecrypt) (h f habsent)
  · rintro ⟨secret, hkey⟩ f _
    obtain ⟨outcome, hresult⟩ := hok secret hkey
    rw [hresult]
    exact not_faults_ok outcome f

theorem processCompletedSession_guarded_iff {address : Nat} {c : ConnectionRequest Key} :
    (∀ f : Fault, f.WorksOnAbsent →
        ¬ Faults (processCompletedSession lib env controller message (some (address, c))) f)
      ↔ ∃ secret, c.HasKey secret := by
  refine guarded_iff_hasKey lib env message
    (fun _ hkey => ⟨_, processCompletedSession_eq_ok hkey⟩) fun f hfault => ?_
  simp only [processCompletedSession, hfault, faults_error_iff]

theorem processCommunicatingSession_guarded_iff {address : Nat} {c : ConnectionRequest Key} :
    (∀ f : Fault, f.WorksOnAbsent →
        ¬ Faults (processCommunicatingSession lib env controller message (some (address, c))) f)
      ↔ ∃ secret, c.HasKey secret := by
  refine guarded_iff_hasKey lib env message
    (fun _ hkey => ⟨_, processCommunicatingSession_eq_ok hkey⟩) fun f hfault => ?_
  simp only [processCommunicatingSession, hfault, faults_error_iff]

theorem processAction_guarded_iff :
    (∀ f : Fault, f.WorksOnAbsent →
        ¬ Faults (processAction lib env controller message remote) f)
      ↔ NothingAbsent lib controller message := by
  unfold processAction NothingAbsent
  cases haction : message.action with
  | createSession =>
      exact ⟨fun _ => trivial, fun _ f _ => processCreateSession_not_faults _ f⟩
  | respondingCreatedSession =>
      exact ⟨fun _ => trivial, fun _ f hf => processRespondingCreatedSession_not_faults _ hf⟩
  | sharingSessionKey =>
      cases hfind : findConnection lib controller message with
      | none => simp [processSharingSessionKey]
      | some found =>
          refine Iff.trans processSharingSessionKey_guarded_iff ⟨?_, fun h => h _ _ rfl⟩
          rintro h address c hfound
          obtain rfl := Option.some.inj hfound
          exact h
  | completedSession =>
      cases hfind : findConnection lib controller message with
      | none => simp [processCompletedSession]
      | some found =>
          refine Iff.trans processCompletedSession_guarded_iff ⟨?_, fun h => h _ _ rfl⟩
          rintro h address c hfound
          obtain rfl := Option.some.inj hfound
          exact h
  | communicatingSession =>
      cases hfind : findConnection lib controller message with
      | none =>
          constructor
          · intro h
            exact absurd (faults_error_iff.mpr rfl) (h .absentConnection trivial)
          · rintro ⟨_, _, _, hfound, _⟩
            cases hfound
      | some found =>
          refine Iff.trans processCommunicatingSession_guarded_iff ⟨?_, ?_⟩
          · rintro ⟨secret, hkey⟩
            exact ⟨_, _, secret, rfl, hkey⟩
          · rintro ⟨address, c, secret, hfound, hkey⟩
            obtain rfl := Option.some.inj hfound
            exact ⟨secret, hkey⟩

end Actions

/-- What the message needs is there, should a known remote peer have sent it. -/
def NothingAbsentFor (lib : Libraries Key) (_env : Ambient Key)
    (controller : ConnectionController Key) (message : Wpmessage) : Prop :=
  ∀ remote, KnownSender lib controller message remote → NothingAbsent lib controller message

theorem guarded_iff :
    Guarded lib env controller message ↔ NothingAbsentFor lib env controller message := by
  unfold Guarded
  constructor
  · intro h remote hknown
    rw [hknown.processor_eq] at h
    exact processAction_guarded_iff.mp h
  · intro h
    by_cases hknown : ∃ remote, KnownSender lib controller message remote
    · obtain ⟨remote, hknown⟩ := hknown
      rw [hknown.processor_eq]
      exact processAction_guarded_iff.mpr (h remote hknown)
    · obtain ⟨peers, hends⟩ :=
        processor_of_unknown env fun remote hremote => hknown ⟨remote, hremote⟩
      simp [hends]

/-- **Guards, exactly.** Along a run of a process no incoming message makes it work on something
absent if and only if every message of a known remote peer finds there what its action needs and no
guard asks for. -/
theorem along_guarded_iff (lib : Libraries Key) (port : CString) (localPeer : Peer)
    (isActivePeer : Option (Int → Peer → Bool)) (now : Int) (nc ic cmr : Bool)
    (events : List (ProcessEvent Key)) :
    Transition.Along (Process.step lib) (OnIncoming (Guarded lib))
        (Process.start port localPeer isActivePeer now nc ic cmr) events
      ↔ Transition.Along (Process.step lib) (OnIncoming (NothingAbsentFor lib))
        (Process.start port localPeer isActivePeer now nc ic cmr) events :=
  along_onIncoming_congr (fun _ _ _ => guarded_iff) _ events

section Run

open Concrete

/-- Data for a connection nobody opened, from a peer that was just discovered. -/
def strayMessage : Wpmessage where
  id := guidStrings.toString (guid 9)
  sender := guidStrings.toString (guid 1)
  recipient := guidStrings.toString (guid 0)
  action := .communicatingSession
  rawdata := [0x41]

theorem not_guarded_strayMessage :
    ∃ process : Process CString, process.Reachable libraries
      ∧ (∃ remote, KnownSender libraries process.controller strayMessage remote)
      ∧ Faults (internalConnnectionMessageProcessor libraries (ambient bob (guid 8) fun _ => 0)
          process.controller strayMessage) .absentConnection
      ∧ ¬ Guarded libraries (ambient bob (guid 8) fun _ => 0) process.controller
          strayMessage := by
  have hfault : Faults (internalConnnectionMessageProcessor libraries
      (ambient bob (guid 8) fun _ => 0)
      (processAfter [.discovery (.storePeer 1 (peer 1 al))]).controller strayMessage)
      .absentConnection := ⟨_, rfl⟩
  refine ⟨_, reachable_processAfter _ (by decide +kernel), ⟨{ peer 1 al with lastSeen := 1 }, ?_⟩,
    hfault, fun h => h .absentConnection trivial hfault⟩
  exact ⟨rfl, by decide +kernel⟩

end Run

end WhisperCore
