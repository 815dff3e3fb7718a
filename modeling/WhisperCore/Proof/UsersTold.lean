import WhisperCore.Proof.SessionDelivery
import WhisperCore.Proof.SessionNetworkCases
import WhisperCore.Proof.SessionReadiness

/-!
# What users are told

A text a user sends over a session comes to the users at the other ends: each is called once for the
connection it was sent over and once for every connection behind it in the same session's list, with
the text as it was sent.
-/

namespace WhisperCore

variable {Key : Type} {lib : Libraries Key}

/-! ### One session -/

section Calls

variable {sc : SessionController Key} {c : ConnectionRequest Key} {address : Nat} {message : Bytes}
  {messageLen : Nat}

theorem callsMade_append (first second : List (Nat × Session)) :
    callsMade sc c message messageLen (first ++ second)
      = callsMade sc c message messageLen first ++ callsMade sc c message messageLen second := by
  induction first with
  | nil => rfl
  | cons entry first ih =>
      rw [List.cons_append, callsMade, callsMade, ih, List.append_assoc]

theorem callsMade_eq_nil {entries : List (Nat × Session)}
    (h : ∀ entry ∈ entries, ∀ other ∈ entry.2.connectionRequestList, bears sc c.id other = false) :
    callsMade sc c message messageLen entries = [] := by
  induction entries with
  | nil => rfl
  | cons entry rest ih =>
      obtain ⟨hfirst, hrest⟩ := List.forall_mem_cons.mp h
      have hdropped : entry.2.connectionRequestList.dropWhile
          (fun other => !bears sc c.id other) = [] := by
        rw [List.dropWhile_eq_nil_iff]
        intro other hother
        rw [hfirst other hother]
        rfl
      rw [callsMade, hdropped, ih hrest]
      rfl

/-- Where the lists are in step and only one connection bears the id, the calls come from the one
session that holds it. -/
theorem callsMade_of_consistent (h : sc.Consistent)
    (hget : sc.connectionController.connections.get? address = some c)
    (honly : ∀ other, bears sc c.id other = true → other = address) (message : Bytes)
    (messageLen : Nat) :
    ∃ session s before behind, sc.sessionList.get? session = some s
      ∧ s.connectionRequestList = before ++ address :: behind ∧ address ∉ before
      ∧ (∀ other, sc.References other address → other = session)
      ∧ callsMade sc c message messageLen sc.sessionList.entries
        = (address :: behind).map fun connection =>
          UserNotification.mk session connection message messageLen := by
  have hbears : bears sc c.id address = true := by simp [bears, hget]
  have hother : ∀ other, other ≠ address → bears sc c.id other = false := by
    intro other hne
    by_contra hyes
    exact hne (honly other (by simpa using hyes))
  obtain ⟨session, ⟨s, hs, hmem⟩, hunique⟩ :=
    h.referenced address (Option.isSome_iff_exists.mpr ⟨c, hget⟩)
  obtain ⟨before, behind, hlist, hbefore⟩ := List.eq_append_cons_of_mem hmem
  refine ⟨session, s, before, behind, hs, hlist, hbefore, fun other => hunique other, ?_⟩
  obtain ⟨first, last, hentries⟩ := List.append_of_mem (Arena.get?_eq_some_iff.mp hs)
  have hnodup := sc.sessionList.nodup
  rw [hentries, List.map_append, List.map_cons, List.nodup_middle, List.nodup_cons,
    List.mem_append, not_or] at hnodup
  obtain ⟨⟨hnotFirst, hnotLast⟩, _⟩ := hnodup
  -- No other session of the list holds the connection.
  have helsewhere : ∀ entry ∈ sc.sessionList.entries, entry.1 ≠ session →
      ∀ other ∈ entry.2.connectionRequestList, bears sc c.id other = false := by
    rintro ⟨holder, held⟩ hentry hne other hmemOther
    apply hother
    rintro rfl
    exact hne (hunique holder ⟨held, Arena.get?_eq_some_iff.mpr hentry, hmemOther⟩)
  have hnone : ∀ entries, (∀ entry ∈ entries, entry ∈ sc.sessionList.entries) →
      session ∉ entries.map Prod.fst → callsMade sc c message messageLen entries = [] := by
    intro entries hsub hnot
    apply callsMade_eq_nil
    intro entry hentry
    refine helsewhere entry (hsub entry hentry) ?_
    rintro rfl
    exact hnot (List.mem_map_of_mem hentry)
  have hfirst := hnone first (fun entry hentry => by simp [hentries, hentry]) hnotFirst
  have hlast := hnone last (fun entry hentry => by simp [hentries, hentry]) hnotLast
  have hdropped : s.connectionRequestList.dropWhile (fun other => !bears sc c.id other)
      = address :: behind := by
    rw [hlist, List.dropWhile_append_of_pos, List.dropWhile_cons_of_neg (by simp [hbears])]
    intro other hmemOther
    rw [hother other fun hsame => hbefore (hsame ▸ hmemOther)]
    rfl
  rw [hentries, callsMade_append, hfirst, callsMade, hlast, hdropped, List.nil_append,
    List.append_nil]

end Calls

namespace SessionNet

variable {sn next : SessionNet Key} {g : Guid} {text : CString}

/-! ### Runs -/

/-- What every network with sessions keeps. -/
structure Sound (lib : Libraries Key) (sn : SessionNet Key) : Prop where
  inStep : sn.AllInStep
  orderly : Orderly lib sn.net
  handler : ∀ g, (sn.nodes g).sc.connectionController.cmr = true

theorem Sound.step (hsound : Sound lib sn) {event : SessionNetEvent Key}
    (hstep : sn.step lib event = some next) : Sound lib next := by
  obtain ⟨below, hbelow⟩ := hsound.inStep.simulates hstep
  have hmove := net_step_cases hbelow
  refine ⟨hsound.inStep.step hstep, hsound.orderly.step hmove, fun g => ?_⟩
  exact (hmove.cmr_eq g).trans (hsound.handler g)

theorem Initial.sound (hstart : sn.Initial) : Sound lib sn where
  inStep g := by
    obtain ⟨port, localPeer, iap, now, nc, ic, cmr, umn, _, hsc⟩ := hstart.fresh g
    rw [hsc]
    exact SessionController.inStep_start port localPeer iap now nc ic cmr umn
  orderly := by
    refine Net.Initial.orderly ⟨fun g => ?_, hstart.inFlight, hstart.created⟩
    obtain ⟨port, localPeer, iap, now, nc, ic, cmr, umn, hguid, hsc⟩ := hstart.fresh g
    exact ⟨port, localPeer, iap, now, true, true, true, hguid,
      congrArg SessionController.connectionController hsc⟩
  handler g := by
    obtain ⟨port, localPeer, iap, now, nc, ic, cmr, umn, _, hsc⟩ := hstart.fresh g
    rw [hsc]
    rfl

theorem Reachable.sound (hreach : sn.Reachable lib) : Sound lib sn := by
  obtain ⟨start, events, hstart, hrun⟩ := hreach
  exact Transition.run_invariant (fun _ _ _ hsound hstep => hsound.step hstep) hrun hstart.sound

/-! ### Texts -/

/-- What the user of a letter's recipient is told of it, where there is a handler: the text, as that
of the connection it was sent over, and as that of every connection behind it in the list of the one
session that holds it. -/
inductive Hears (sn : SessionNet Key) (letter : Letter) : List (Guid × UserNotification) → Prop
  where
  | told (address : Nat) (c : ConnectionRequest Key) (session : Nat) (s : Session)
      (before behind : List Nat)
      (held : (sn.nodes letter.recipient).sc.connectionController.connections.get? address = some c)
      (id : c.id = letter.id) (sender : c.remote.guid = letter.sender)
      (listed : (sn.nodes letter.recipient).sc.sessionList.get? session = some s)
      (order : s.connectionRequestList = before ++ address :: behind) (first : address ∉ before)
      (only : ∀ other, (sn.nodes letter.recipient).sc.References other address → other = session) :
      Hears sn letter (if (sn.nodes letter.recipient).sc.umn then
        (address :: behind).map fun connection => (letter.recipient, UserNotification.mk session
          connection (letter.text.bytes ++ [0]) (letter.text.bytes.length + 1))
        else [])

theorem Hears.of_nodes {letter : Letter} {calls : List (Guid × UserNotification)}
    (h : Hears next letter calls) (hnodes : next.nodes = sn.nodes) : Hears sn letter calls := by
  obtain ⟨nodes, inFlight, created, told⟩ := next
  obtain rfl : nodes = sn.nodes := hnodes
  cases h with
  | told address c session s before behind held id sender listed order first only =>
      exact .told address c session s before behind held id sender listed order first only

/-- A connection of a node is the only one there with its id. -/
theorem Sound.eq_of_bears (hsound : Sound lib sn) {address other : Nat}
    {c : ConnectionRequest Key}
    (hget : (sn.nodes g).sc.connectionController.connections.get? address = some c)
    (hbears : bears (sn.nodes g).sc c.id other = true) : other = address := by
  unfold bears at hbears
  cases hother : (sn.nodes g).sc.connectionController.connections.get? other with
  | none => simp [hother] at hbears
  | some o =>
      have hid : o.id = c.id := by simpa [hother] using hbears
      obtain ⟨phase, hstands⟩ := hsound.orderly.stands c.id
      have hmem : (address, c) ∈ sn.net.connectionsOf c.id g :=
        Arena.mem_select.mpr ⟨hget, decide_eq_true rfl⟩
      have hmemOther : (other, o) ∈ sn.net.connectionsOf c.id g :=
        Arena.mem_select.mpr ⟨hother, decide_eq_true hid⟩
      have hselect := (hstands.shows.select_eq_singleton hmem).1
      exact (Prod.mk.inj (List.mem_singleton.mp (hselect ▸ hmemOther))).1

/-- One delivery of a letter to a node that reads it. -/
theorem Sound.tells_letter (hsound : Sound lib sn) {index : Nat} {f : InFlight} {letter : Letter}
    (hindex : sn.inFlight[index]? = some f) (hnoted : Noted lib f (some letter))
    (hreads : Reads lib sn.net letter.recipient letter.sender) (env : Ambient Key) (id : Guid) :
    ∃ calls, Hears sn letter calls ∧ sn.step lib (.delivers index env id) = some { sn with
      inFlight := sn.inFlight.eraseIdx index
      told := sn.told ++ calls } := by
  have hf : f ∈ sn.net.inFlight := List.mem_of_getElem? hindex
  have hinv := hsound.orderly.honest
  have hrecipient := hnoted.recipient_eq
  have hsender : lib.guid.fromString f.message.sender = letter.sender := by
    obtain ⟨env', c, rest, secret, rfl, _, hletter⟩ := hnoted
    rw [hletter]
    exact lib.guid.fromString_toString _
  obtain ⟨remote, hknown⟩ := hreads.knows.knownSender hinv hreads.other hsender
  obtain ⟨outcome, hok, _⟩ := hinv.takes hf hnoted hknown env
  obtain ⟨address, c, hget, hid, hremote, rfl⟩ := hinv.hands_over hf hnoted hok
  have hcmr : (sn.net.nodes letter.recipient).controller.cmr = true :=
    hsound.handler letter.recipient
  rw [if_pos hcmr] at hok
  have hconsistent := (hsound.inStep letter.recipient).consistent
  obtain ⟨session, s, before, behind, hs, horder, hfirst, honly, hcalls⟩ :=
    callsMade_of_consistent hconsistent hget (fun other => hsound.eq_of_bears hget)
      (letter.text.bytes ++ [0]) (letter.text.bytes.length + 1)
  refine ⟨_, .told address c session s before behind hget hid hremote hs horder hfirst honly, ?_⟩
  have hprocess : sessionControllerProcess lib env (sn.nodes letter.recipient).sc id f.message
      = .ok ⟨(sn.nodes letter.recipient).sc, [], userCalls (sn.nodes letter.recipient).sc c
        (letter.text.bytes ++ [0]) (letter.text.bytes.length + 1)⟩ := by
    have hok' : internalConnnectionMessageProcessor lib env
        (sn.nodes letter.recipient).sc.connectionController f.message = _ := hok
    have hnotified := notified_messageReceived hconsistent.allListed hget id
      (letter.text.bytes ++ [0]) (letter.text.bytes.length + 1)
    unfold sessionControllerProcess
    rw [hok']
    show (notifiedAll id (sn.nodes letter.recipient).sc [_] >>= _) = _
    unfold notifiedAll
    rw [hnotified]
    show Except.ok (SessionOutcome.mk _ _ (_ ++ [])) = _
    rw [List.append_nil]
  have hrunning : (sn.nodes letter.recipient).running = true := hreads.knows.running
  have hsame : Function.update sn.nodes letter.recipient
      { sn.nodes letter.recipient with sc := (sn.nodes letter.recipient).sc } = sn.nodes :=
    Function.update_eq_self _ _
  simp only [SessionNet.step, hindex]
  rw [hrecipient, if_pos hrunning, hprocess]
  simp only [SessionNet.proceed, SessionNet.resume, hsame, List.map_nil, List.append_nil]
  rw [userCalls, hcalls]
  split_ifs
  · rw [List.map_map]
    rfl
  · rfl

/-- Deliveries by their indices, each with the surroundings of its call and the guid a session it
opens gets. -/
def deliveries : List Nat → (Nat → Ambient Key) → (Nat → Guid) → List (SessionNetEvent Key)
  | [], _, _ => []
  | index :: indices, envs, ids => .delivers index (envs 0) (ids 0)
      :: deliveries indices (fun k => envs (k + 1)) fun k => ids (k + 1)

/-- The letters at the end of what is in flight, delivered one after another. -/
theorem Sound.run_letters (hsound : Sound lib sn) {old fs : List InFlight} {letters : List Letter}
    (hinFlight : sn.inFlight = old ++ fs) (hnoted : List.Forall₂ (Noted lib) fs (letters.map some))
    (hreads : ∀ letter ∈ letters, Reads lib sn.net letter.recipient letter.sender)
    (envs : Nat → Ambient Key) (ids : Nat → Guid) :
    ∃ calls, List.Forall₂ (Hears sn) letters calls
      ∧ Transition.run (SessionNet.step lib) sn
        (deliveries (List.replicate letters.length old.length) envs ids)
      = some { sn with inFlight := old, told := sn.told ++ calls.flatten } := by
  induction letters generalizing sn fs envs ids with
  | nil =>
      obtain rfl : fs = [] := List.forall₂_nil_right_iff.mp hnoted
      rw [List.append_nil] at hinFlight
      refine ⟨[], .nil, ?_⟩
      rw [← hinFlight, List.flatten_nil, List.append_nil]
      rfl
  | cons letter letters ih =>
      obtain ⟨f, fs, hletter, hletters, rfl⟩ := List.forall₂_cons_right_iff.mp hnoted
      have hindex : sn.inFlight[old.length]? = some f := by
        rw [hinFlight, List.getElem?_append_right le_rfl, Nat.sub_self]
        rfl
      obtain ⟨first, hfirst, hstep⟩ := hsound.tells_letter hindex hletter
        (hreads letter List.mem_cons_self) (envs 0) (ids 0)
      let middle : SessionNet Key := { sn with
        inFlight := sn.inFlight.eraseIdx old.length
        told := sn.told ++ first }
      have hmiddleInFlight : middle.inFlight = old ++ fs := by
        simp only [middle, hinFlight]
        simp [List.eraseIdx_append_of_length_le]
      obtain ⟨calls, hcalls, hrun⟩ := ih (hsound.step hstep) hmiddleInFlight hletters
        (fun other hother => (hreads other (List.mem_cons_of_mem _ hother)).of_nodes rfl)
        (fun k => envs (k + 1)) fun k => ids (k + 1)
      refine ⟨first :: calls, .cons hfirst (hcalls.imp fun _ _ h => h.of_nodes rfl), ?_⟩
      rw [List.flatten_cons, ← List.append_assoc]
      exact Transition.run_cons_eq_some.mpr ⟨middle, hstep, hrun⟩

/-- A text that is sent over a session that is ready, and legible on it, comes to all its users;
nothing else changes. -/
theorem Sound.text_arrives (hsound : Sound lib sn) {session : Nat} {s : Session}
    (hsession : (sn.nodes g).sc.sessionList.get? session = some s)
    (hrunning : (sn.nodes g).running = true)
    (hready : isReadyList (sn.nodes g).sc.connectionController s.connectionRequestList = .ok true)
    (htext : ∀ secret ∈ sendSecrets (sn.nodes g).sc.connectionController s.connectionRequestList,
      LegibleUnder lib text secret)
    (hpeers : ∀ c ∈ sessionConnections (sn.nodes g).sc.connectionController
      s.connectionRequestList, Knows lib sn.net c.remote.guid g)
    (rest : Bytes) (envs envs' : Nat → Ambient Key) (ids : Nat → Guid) :
    ∃ calls, List.Forall₂ (Hears sn) (lettersOver text
        (sessionConnections (sn.nodes g).sc.connectionController s.connectionRequestList)) calls
      ∧ Transition.run (SessionNet.step lib) sn
        (.sends g envs session (text.inMemory rest) text.bytes.length :: deliveries
          (List.replicate s.connectionRequestList.length sn.inFlight.length) envs' ids)
      = some { sn with told := sn.told ++ calls.flatten } := by
  have hinv := hsound.orderly.honest
  obtain ⟨messages, hsend, hletters, hcomplete, hlength⟩ :=
    sendList_letters (hinv.keyed g) hready envs rest
  have hsent : sessionControllerSessionSendMessage lib envs (sn.nodes g).sc.connectionController s
      (text.inMemory rest) text.bytes.length = .ok messages := hsend
  let sent := sendings envs (sn.nodes g).sc.connectionController (text.inMemory rest)
    text.bytes.length s.connectionRequestList
  let sentNet : SessionNet Key := { sn with inFlight := sn.inFlight ++ stamped messages sent }
  have hstep : sn.step lib (.sends g envs session (text.inMemory rest) text.bytes.length)
      = some sentNet := by
    simp only [SessionNet.step, hsession, hrunning, if_true, hsent]
    rfl
  have hnoted : List.Forall₂ (Noted lib) (stamped messages sent)
      ((messages.map (letterOf lib text)).map some) := by
    rw [List.map_map]
    exact sendList_noted hsend htext
  have hreads : ∀ letter ∈ messages.map (letterOf lib text),
      Reads lib sentNet.net letter.recipient letter.sender := by
    rw [hletters]
    intro letter hletter
    obtain ⟨c, hc, rfl⟩ := List.mem_map.mp hletter
    obtain ⟨address, _, hget⟩ := List.mem_filterMap.mp hc
    obtain ⟨hlocal, hremote, _⟩ := hinv.complete_connection hget (hcomplete c hc)
    have hread : Reads lib sn.net c.remote.guid c.localPeer.guid :=
      ⟨hlocal ▸ hremote, hlocal ▸ hpeers c hc, hsound.handler c.remote.guid⟩
    exact hread.of_nodes rfl
  obtain ⟨calls, hcalls, hrun⟩ := (hsound.step hstep).run_letters rfl hnoted hreads envs' ids
  rw [List.length_map, hlength] at hrun
  rw [hletters] at hcalls
  exact ⟨calls, hcalls.imp fun _ _ h => h.of_nodes rfl,
    Transition.run_cons_eq_some.mpr ⟨sentNet, hstep, hrun⟩⟩

/-! ### From a session to its users -/

theorem Sound.run_deliveries (hsound : Sound lib sn) {indices : List Nat}
    {envs : Nat → Ambient Key} {below : Net Key}
    (hrun : Transition.run (Net.step lib) sn.net (WhisperCore.deliveries indices envs)
      = some below) (ids : Nat → Guid) :
    ∃ next, Transition.run (SessionNet.step lib) sn (deliveries indices envs ids) = some next
      ∧ next.net = below ∧ Sound lib next
      ∧ ∀ g session s, (sn.nodes g).sc.sessionList.get? session = some s →
        (next.nodes g).sc.sessionList.get? session = some s := by
  induction indices generalizing sn envs ids with
  | nil => exact ⟨sn, rfl, Option.some.inj hrun, hsound, fun _ _ _ => id⟩
  | cons index indices ih =>
      obtain ⟨middle, hstep, hrest⟩ := Transition.run_cons_eq_some.mp hrun
      obtain ⟨here, hhere, rfl⟩ := hsound.inStep.delivers hstep (ids 0)
      obtain ⟨next, hnext, hbelow, hsoundNext, hsessions⟩ :=
        ih (hsound.step hhere) hrest fun k => ids (k + 1)
      refine ⟨next, Transition.run_cons_eq_some.mpr ⟨here, hhere, hnext⟩, hbelow, hsoundNext,
        fun g session s hsession => ?_⟩
      exact hsessions g session s (hsound.inStep.session_delivers hhere hsession)

section Run

open Concrete

/-- Processes whose users have handlers, and which know nobody. -/
def freshSessionNet : SessionNet CString where
  nodes g := {
    sc := .start (host 0) { peer 0 bob with guid := g } none 0 true true true true
    running := true }
  inFlight := []
  created := []
  told := []

/-- Al gets to know two others and they him; he opens a session with the first and adds the second.
-/
def openingEvents : List (SessionNetEvent CString) :=
  [.discovers (guid 1) (.storePeer 1 (peer 2 bob)),
    .discovers (guid 2) (.storePeer 1 (peer 1 al)),
    .discovers (guid 1) (.storePeer 1 (peer 3 bob)),
    .discovers (guid 3) (.storePeer 1 (peer 1 al)),
    .creates (guid 1) (ambient al (guid 7) fun _ => 0) (guid 20) (peer 2 bob).ref,
    .addsPeer (guid 1) (ambient al (guid 10) fun _ => 0) 0 (peer 3 bob).ref]

def openedSessionNet : SessionNet CString :=
  (Transition.run (SessionNet.step libraries) freshSessionNet openingEvents).getD freshSessionNet

theorem reachable_openedSessionNet : openedSessionNet.Reachable libraries := by
  have hinitial : freshSessionNet.Initial :=
    ⟨fun g => ⟨host 0, { peer 0 bob with guid := g }, none, 0, true, true, true, true, rfl, rfl⟩,
      rfl, rfl⟩
  have hdefined : (Transition.run (SessionNet.step libraries) freshSessionNet
      openingEvents).isSome = true := by decide +kernel
  obtain ⟨final, hfinal⟩ := Option.isSome_iff_exists.mp hdefined
  refine ⟨freshSessionNet, openingEvents, hinitial, ?_⟩
  rw [openedSessionNet, hfinal]
  rfl

end Run

end SessionNet

end WhisperCore
