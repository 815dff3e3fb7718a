import WhisperCore.Concrete
import WhisperCore.Proof.ProcessorCases

/-!
# Dispatching a message to its session

A received message is handed to the user for the sessions that hold its connection. The flag that
the connection was found is not reset before the session's list ends, so every connection behind it
is handed to the user as well; the dispatch is right exactly when none stands behind it.
-/

namespace WhisperCore

variable {Key : Type} {sc : SessionController Key} {c : ConnectionRequest Key} {id : Guid}
  {message : Bytes} {messageLen : Nat}

/-- The connection request at an address bears an id. -/
def bears (sc : SessionController Key) (id : Guid) (address : Nat) : Bool :=
  (sc.connectionController.connections.get? address).any fun r => r.id = id

/-- For each session that contains a connection with the id of `c`, in the order of the session
list, one call: with that session and that connection. -/
def callsOnce (sc : SessionController Key) (c : ConnectionRequest Key) (message : Bytes)
    (messageLen : Nat) : List (Nat × Session) → List UserNotification
  | [] => []
  | (session, s) :: rest =>
      (s.connectionRequestList.find? (bears sc c.id)).toList.map
          (fun connection => UserNotification.mk session connection message messageLen)
        ++ callsOnce sc c message messageLen rest

/-- The user's handler, where it is set, is called once for each session of the connection. -/
def DispatchedOnce (sc : SessionController Key) (c : ConnectionRequest Key) (message : Bytes)
    (messageLen : Nat) : Prop :=
  sc.umn = true → internalMessageReceived sc c message messageLen
    = .ok (callsOnce sc c message messageLen sc.sessionList.entries)

/-- All connections of the sessions exist, and a connection that bears the id is the last one of its
session. -/
structure LastOfSession (sc : SessionController Key) (id : Guid) (addresses : List Nat) : Prop where
  listed : ∀ address ∈ addresses, (sc.connectionController.connections.get? address).isSome
  last : ∀ before address after, addresses = before ++ address :: after →
    bears sc id address = true → after = []

/-! ### One session -/

theorem dropWhile_eq_find?_iff {α : Type} (p : α → Bool) (l : List α) :
    l.dropWhile (fun a => !p a) = (l.find? p).toList
      ↔ ∀ before a after, l = before ++ a :: after → p a = true → after = [] := by
  induction l with
  | nil => simp
  | cons first l ih =>
      cases hfirst : p first with
      | true =>
          rw [List.dropWhile_cons_of_neg (by simp [hfirst]), List.find?_cons_of_pos hfirst]
          constructor
          · intro h before a after hsplit _
            obtain rfl : l = [] := (List.cons.inj h).2
            cases before with
            | nil => exact (List.cons.inj hsplit).2.symm
            | cons _ before => simp at hsplit
          · intro h
            rw [h [] first l rfl hfirst]
            rfl
      | false =>
          rw [List.dropWhile_cons_of_pos (by simp [hfirst]),
            List.find?_cons_of_neg (by simp [hfirst]), ih]
          constructor
          · intro h before a after hsplit ha
            cases before with
            | nil =>
                rw [← (List.cons.inj hsplit).1, hfirst] at ha
                cases ha
            | cons other before => exact h before a after (List.cons.inj hsplit).2 ha
          · intro h before a after hsplit ha
            exact h (first :: before) a after (by rw [hsplit, List.cons_append]) ha

theorem length_find?_le_dropWhile {α : Type} (p : α → Bool) (l : List α) :
    (l.find? p).toList.length ≤ (l.dropWhile fun a => !p a).length := by
  induction l with
  | nil => simp
  | cons first l ih =>
      cases hfirst : p first with
      | true =>
          rw [List.dropWhile_cons_of_neg (by simp [hfirst]), List.find?_cons_of_pos hfirst]
          simp
      | false =>
          rw [List.dropWhile_cons_of_pos (by simp [hfirst]),
            List.find?_cons_of_neg (by simp [hfirst])]
          exact ih

/-- The inner loop hands over the connections from the first that bears the id on, and all of them
once the flag is set. -/
theorem messageReceivedConnections_of_listed {found : Bool} {addresses : List Nat}
    (h : ∀ address ∈ addresses, (sc.connectionController.connections.get? address).isSome) :
    messageReceivedConnections sc id found addresses
      = .ok (if found then addresses
        else addresses.dropWhile fun address => !bears sc id address) := by
  induction addresses generalizing found with
  | nil => cases found <;> rfl
  | cons address rest ih =>
      obtain ⟨current, hget⟩ := Option.isSome_iff_exists.mp (h address List.mem_cons_self)
      have hrest := fun later hlater => h later (List.mem_cons_of_mem address hlater)
      have hbears : bears sc id address = decide (current.id = id) := by simp [bears, hget]
      unfold messageReceivedConnections
      rw [List.dropWhile_cons, hbears]
      simp only [hget, ih hrest]
      cases found <;> cases decide (current.id = id) <;> rfl

theorem listed_of_messageReceivedConnections {found : Bool} {addresses result : List Nat}
    (h : messageReceivedConnections sc id found addresses = .ok result) :
    ∀ address ∈ addresses, (sc.connectionController.connections.get? address).isSome := by
  induction addresses generalizing found result with
  | nil => simp
  | cons address rest ih =>
      unfold messageReceivedConnections at h
      cases hget : sc.connectionController.connections.get? address with
      | none => simp [hget] at h
      | some current =>
          simp only [hget] at h
          obtain ⟨later, hlater, _⟩ := bind_eq_ok_iff.mp h
          intro other hother
          rcases List.mem_cons.mp hother with rfl | hother
          · simp [hget]
          · exact ih hlater other hother

/-! ### All sessions -/

/-- The calls `internal_message_received` makes where all connections exist. -/
def callsMade (sc : SessionController Key) (c : ConnectionRequest Key) (message : Bytes)
    (messageLen : Nat) : List (Nat × Session) → List UserNotification
  | [] => []
  | (session, s) :: rest =>
      (s.connectionRequestList.dropWhile fun address => !bears sc c.id address).map
          (fun connection => UserNotification.mk session connection message messageLen)
        ++ callsMade sc c message messageLen rest

theorem messageReceivedSessions_eq_ok_iff (humn : sc.umn = true) {entries : List (Nat × Session)}
    {calls : List UserNotification} :
    messageReceivedSessions sc c message messageLen entries = .ok calls
      ↔ (∀ entry ∈ entries, ∀ address ∈ entry.2.connectionRequestList,
          (sc.connectionController.connections.get? address).isSome)
        ∧ calls = callsMade sc c message messageLen entries := by
  induction entries generalizing calls with
  | nil =>
      constructor
      · intro h
        exact ⟨by simp, (Except.ok.inj h).symm⟩
      · rintro ⟨_, rfl⟩
        rfl
  | cons entry rest ih =>
      obtain ⟨session, s⟩ := entry
      unfold messageReceivedSessions
      constructor
      · intro h
        obtain ⟨connections, hconnections, h⟩ := bind_eq_ok_iff.mp h
        obtain ⟨later, hlater, h⟩ := bind_eq_ok_iff.mp h
        have hlisted := listed_of_messageReceivedConnections hconnections
        obtain ⟨hrest, rfl⟩ := ih.mp hlater
        rw [messageReceivedConnections_of_listed hlisted] at hconnections
        obtain rfl := Except.ok.inj hconnections
        simp only [humn, if_true] at h
        exact ⟨List.forall_mem_cons.mpr ⟨hlisted, hrest⟩, (Except.ok.inj h).symm⟩
      · rintro ⟨hlisted, rfl⟩
        obtain ⟨hfirst, hrest⟩ := List.forall_mem_cons.mp hlisted
        rw [messageReceivedConnections_of_listed hfirst, ih.mpr ⟨hrest, rfl⟩]
        simp only [humn, if_true]
        rfl

/-- Each session gets at least the calls it should get, so the calls are right in all when they are
right for each. -/
theorem callsMade_eq_callsOnce_iff {entries : List (Nat × Session)} :
    callsMade sc c message messageLen entries = callsOnce sc c message messageLen entries
      ↔ ∀ entry ∈ entries, ∀ before address after,
        entry.2.connectionRequestList = before ++ address :: after →
        bears sc c.id address = true → after = [] := by
  have hlength : ∀ entries : List (Nat × Session),
      (callsOnce sc c message messageLen entries).length
        ≤ (callsMade sc c message messageLen entries).length := by
    intro entries
    induction entries with
    | nil => exact Nat.le_refl 0
    | cons entry rest ih =>
        have hone := length_find?_le_dropWhile (bears sc c.id) entry.2.connectionRequestList
        simp only [callsOnce, callsMade, List.length_append, List.length_map]
        omega
  induction entries with
  | nil => simp [callsMade, callsOnce]
  | cons entry rest ih =>
      obtain ⟨session, s⟩ := entry
      rw [List.forall_mem_cons]
      refine Iff.trans ?_ (and_congr (dropWhile_eq_find?_iff _ _) ih)
      have hinjective : Function.Injective fun connection =>
          UserNotification.mk session connection message messageLen :=
        fun first second h => (UserNotification.mk.inj h).2.1
      have hone := length_find?_le_dropWhile (bears sc c.id) s.connectionRequestList
      have hothers := hlength rest
      simp only [callsMade, callsOnce]
      constructor
      · intro h
        have htotal := congrArg List.length h
        simp only [List.length_append, List.length_map] at htotal
        obtain ⟨hfirst, hrest⟩ := List.append_inj h (by simp only [List.length_map]; omega)
        exact ⟨List.map_injective_iff.mpr hinjective hfirst, hrest⟩
      · rintro ⟨hfirst, hrest⟩
        rw [hfirst, hrest]

/-- **Dispatch, exactly.** A message for a connection is handed to the user once for each session of
the connection, and for no other, if and only if all connections of the sessions exist and in each
session the connection is the last of the list. -/
theorem dispatchedOnce_iff (sc : SessionController Key) (c : ConnectionRequest Key)
    (message : Bytes) (messageLen : Nat) :
    DispatchedOnce sc c message messageLen
      ↔ (sc.umn = true → ∀ entry ∈ sc.sessionList.entries,
        LastOfSession sc c.id entry.2.connectionRequestList) := by
  apply forall_congr'
  intro humn
  rw [internalMessageReceived, messageReceivedSessions_eq_ok_iff humn, eq_comm,
    callsMade_eq_callsOnce_iff]
  constructor
  · rintro ⟨hlisted, hlast⟩ entry hentry
    exact ⟨hlisted entry hentry, hlast entry hentry⟩
  · intro h
    exact ⟨fun entry hentry => (h entry hentry).listed, fun entry hentry => (h entry hentry).last⟩

section Run

open Concrete

/-- Bob's session with Al, and after that with another peer. -/
def threesome : SessionController CString :=
  let sc := sessionControllerCreate (processAfter (openEvents.take 2)).controller true
  let sc := (sessionControllerSessionCreate libraries (ambient bob (guid 7) fun _ => 0) sc (guid 20)
    (peer 1 al).ref).sc
  (sessionControllerSessionAddPeer libraries (ambient bob (guid 9) fun _ => 0) sc 0 ⟨guid 20, [0]⟩
    (peer 2 bob).ref).sc

/-- What Al sends is handed to the user as the other peer's, too. -/
theorem not_dispatchedOnce_threesome :
    threesome.connectionController.connections.get? 0 = some openRequest
      ∧ threesome.sessionList.entries = [(0, ⟨guid 20, [0, 1]⟩)]
      ∧ internalMessageReceived threesome openRequest okay.bytes 4
        = .ok [⟨0, 0, okay.bytes, 4⟩, ⟨0, 1, okay.bytes, 4⟩]
      ∧ ¬ DispatchedOnce threesome openRequest okay.bytes 4 := by
  have hcalls : internalMessageReceived threesome openRequest okay.bytes 4
      = .ok [⟨0, 0, okay.bytes, 4⟩, ⟨0, 1, okay.bytes, 4⟩] := by
    decide +kernel
  refine ⟨by decide +kernel, by decide +kernel, hcalls, fun honce => ?_⟩
  have hcontradiction := hcalls.symm.trans (honce rfl)
  revert hcontradiction
  decide +kernel

end Run

end WhisperCore
