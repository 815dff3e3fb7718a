import WhisperCore.Concrete
import WhisperCore.Proof.ProcessCases
import WhisperCore.RandomSource

/-!
# One secret for one connection

Each secret is drawn from a generator that has just been seeded with the clock, so nothing but the
clock tells two secrets apart. Runs in which no two connections get their secrets from the same
place of the same stream are characterised by the clock readings.
-/

namespace WhisperCore

variable {Key : Type} {lib : Libraries Key} {stream : Nat → Nat → Nat}

/-- The message is answered with a secret for the connection request at an address. -/
structure AnswersWithSecret (lib : Libraries Key) (env : Ambient Key)
    (controller : ConnectionController Key) (message : Wpmessage) (address : Nat) : Prop where
  action : message.action = .respondingCreatedSession
  known : ∃ remote, KnownSender lib controller message remote
  found : ∃ c, findConnection lib controller message = some (address, c)
  sealed : ∃ cipher, sealedSecret lib env message = some cipher

theorem AnswersWithSecret.exists_step {env : Ambient Key} {process : Process Key}
    {message : Wpmessage} {address : Nat}
    (h : AnswersWithSecret lib env process.controller message address) :
    ∃ after, process.step lib (.incoming env message) = some after := by
  obtain ⟨remote, hknown⟩ := h.known
  obtain ⟨c, hfind⟩ := h.found
  obtain ⟨cipher, hcipher⟩ := h.sealed
  have hexchange : exchangeSessionKeyShare lib env { c with state := .sessionKeyShare } message
      = .ok ({ c with
          state := .sessionKeyShare
          sharedSecret := some (generateSharedSecret env.draws) }, keyShareMessage lib c cipher) :=
    exchangeSessionKeyShare_eq_ok_iff.mpr ⟨cipher, hcipher, rfl, rfl⟩
  have hprocessed : internalConnnectionMessageProcessor lib env process.controller message = .ok {
      controller := process.controller.setConnection address { c with
        state := .sessionKeyShare
        sharedSecret := some (generateSharedSecret env.draws) }
      pushed := [keyShareMessage lib c cipher]
      calls := [] } := by
    rw [hknown.processor_eq]
    simp only [processAction, h.action, hfind, processRespondingCreatedSession,
      connectionRequestCreateExchangeMessage, hexchange]
  exact ⟨_, by simp only [Process.step, hprocessed]; rfl⟩

namespace SeededProcess

variable {s next : SeededProcess Key} {e : ClockedEvent Key}

/-- The secrets of two connections are not drawn from the same positions after the same seed. What
the streams give is not compared: two seeds may have one stream, as 0 and 1 have in glibc. -/
def OneTime (s : SeededProcess Key) : Prop :=
  ∀ first ∈ s.drawn, ∀ second ∈ s.drawn, first.connection ≠ second.connection →
    first.source ≠ second.source

/-- A message answered with a secret comes when the clock shows another second than it did for any
secret of another connection. -/
def AnotherSecond (stream : Nat → Nat → Nat) (lib : Libraries Key) (s : SeededProcess Key)
    (e : ClockedEvent Key) : Prop :=
  match e.event with
  | .incoming env message => ∀ address,
      AnswersWithSecret lib (env.withRand stream e.clock) s.process.controller message address →
        ∀ earlier ∈ s.drawn, earlier.connection ≠ address →
          earlier.clock % 2 ^ 32 ≠ e.clock % 2 ^ 32
  | _ => True

theorem srandTime_eq_iff {clock other : Int} :
    srandTime clock = srandTime other ↔ clock % 2 ^ 32 = other % 2 ^ 32 := by
  have hnonneg : ∀ reading : Int, 0 ≤ reading % 2 ^ 32 := fun reading =>
    Int.emod_nonneg reading (by decide)
  rw [srandTime, srandTime, Generator.seeded, Generator.seeded, Generator.mk.injEq]
  have hfirst := hnonneg clock
  have hsecond := hnonneg other
  omega

theorem step_eq_some_iff :
    s.step stream lib e = some next
      ↔ s.process.step lib (e.withRand stream) = some next.process
        ∧ next.generator = s.generatorAfter stream e
        ∧ next.drawn = s.drawn ++ s.drawnBy lib e := by
  rw [step, Option.map_eq_some_iff]
  constructor
  · rintro ⟨process, hprocess, rfl⟩
    exact ⟨hprocess, rfl, rfl⟩
  · rintro ⟨hprocess, hgenerator, hdrawn⟩
    exact ⟨next.process, hprocess, by rw [← hgenerator, ← hdrawn]⟩

theorem drawnBy_incoming {env : Ambient Key} {message : Wpmessage} {clock : Int} {address : Nat}
    {c : ConnectionRequest Key} (haction : message.action = .respondingCreatedSession)
    (hfind : findConnection lib s.process.controller message = some (address, c)) :
    s.drawnBy lib ⟨clock, .incoming env message⟩ = [⟨address, clock, srandTime clock⟩] := by
  simp [drawnBy, haction, hfind]

/-- A message processed to the end as an answer is answered with a secret. -/
theorem answersWithSecret_of_step {env : Ambient Key} {process after : Process Key}
    {message : Wpmessage} {address : Nat} {c : ConnectionRequest Key}
    (hstep : process.step lib (.incoming env message) = some after)
    (haction : message.action = .respondingCreatedSession)
    (hfind : findConnection lib process.controller message = some (address, c)) :
    AnswersWithSecret lib env process.controller message address
      ∧ after.controller = process.controller.setConnection address { c with
        state := .sessionKeyShare
        sharedSecret := some (generateSharedSecret env.draws) } := by
  cases process_step_cases hstep with
  | processed _ _ remote outcome hknown hprocessed =>
      cases hprocessed with
      | respondingCreatedSession found c' cipher _ hfound hcipher =>
          cases hfind.symm.trans hfound
          exact ⟨⟨haction, ⟨remote, hknown⟩, ⟨c, hfind⟩, ⟨cipher, hcipher⟩⟩, rfl⟩
      | createSession hother _ => cases haction.symm.trans hother
      | sharingSessionKey _ _ _ _ hother _ _ _ _ => cases haction.symm.trans hother
      | completedSession _ _ _ hother _ _ => cases haction.symm.trans hother
      | communicatingSession _ _ _ hother _ _ => cases haction.symm.trans hother

/-- A step draws the secrets it answers messages with. -/
theorem mem_drawnBy_iff (hstep : s.step stream lib e = some next) {draw : SecretDraw} :
    draw ∈ s.drawnBy lib e
      ↔ ∃ env message, e.event = .incoming env message
        ∧ AnswersWithSecret lib (env.withRand stream e.clock) s.process.controller message
          draw.connection
        ∧ draw = ⟨draw.connection, e.clock, srandTime e.clock⟩ := by
  obtain ⟨clock, event⟩ := e
  constructor
  · intro hdraw
    cases event with
    | incoming env message =>
        by_cases haction : message.action = .respondingCreatedSession
        · cases hfind : findConnection lib s.process.controller message with
          | none => simp [drawnBy, haction, hfind] at hdraw
          | some found =>
              obtain ⟨address, c⟩ := found
              rw [drawnBy_incoming haction hfind, List.mem_singleton] at hdraw
              subst hdraw
              have hprocess := (step_eq_some_iff.mp hstep).1
              exact ⟨env, message, rfl, (answersWithSecret_of_step hprocess haction hfind).1, rfl⟩
        · simp [drawnBy, haction] at hdraw
    | discovery call => simp [drawnBy] at hdraw
    | initiation env remote => simp [drawnBy] at hdraw
    | sends envs session text len => simp [drawnBy] at hdraw
    | emits => simp [drawnBy] at hdraw
  · rintro ⟨env, message, rfl, hanswers, hdraw⟩
    obtain ⟨c, hfind⟩ := hanswers.found
    rw [drawnBy_incoming hanswers.action hfind, List.mem_singleton]
    exact hdraw

/-- Every secret was drawn from a generator seeded with the clock of the time. -/
def SeededByClock (s : SeededProcess Key) : Prop :=
  ∀ draw ∈ s.drawn, draw.source = srandTime draw.clock

theorem SeededByClock.step (h : s.SeededByClock) (hstep : s.step stream lib e = some next) :
    next.SeededByClock := by
  obtain ⟨_, _, hdrawn⟩ := step_eq_some_iff.mp hstep
  intro draw hdraw
  rw [hdrawn, List.mem_append] at hdraw
  rcases hdraw with hdraw | hdraw
  · exact h draw hdraw
  · obtain ⟨env, message, _, _, heq⟩ := (mem_drawnBy_iff hstep).mp hdraw
    rw [heq]

/-- A connection answered now is one answered never before, or one whose secret is replaced. -/
theorem OneTime.append_iff {added : List SecretDraw} (hone : OneTime s)
    (hadded : ∀ first ∈ added, ∀ second ∈ added, first = second)
    (hdrawn : next.drawn = s.drawn ++ added) :
    OneTime next ↔ ∀ draw ∈ added, ∀ earlier ∈ s.drawn, earlier.connection ≠ draw.connection →
      earlier.source ≠ draw.source := by
  constructor
  · intro hnext draw hdraw earlier hearlier
    apply hnext
    · rw [hdrawn]
      exact List.mem_append_left _ hearlier
    · rw [hdrawn]
      exact List.mem_append_right _ hdraw
  · intro hfresh first hfirst second hsecond hne
    rw [hdrawn, List.mem_append] at hfirst hsecond
    rcases hfirst with hfirst | hfirst <;> rcases hsecond with hsecond | hsecond
    · exact hone first hfirst second hsecond hne
    · exact hfresh second hsecond first hfirst hne
    · exact (hfresh first hfirst second hsecond hne.symm).symm
    · exact absurd (congrArg SecretDraw.connection (hadded first hfirst second hsecond)) hne

/-- **One event.** Where no two connections share a place of a stream, an event keeps it so exactly
when a message answered with a secret comes in another second. -/
theorem OneTime.step_iff (hone : OneTime s) (hclock : s.SeededByClock) :
    (∀ next, s.step stream lib e = some next → OneTime next)
      ↔ AnotherSecond stream lib s e := by
  have hsource : ∀ earlier ∈ s.drawn,
      earlier.source ≠ srandTime e.clock ↔ earlier.clock % 2 ^ 32 ≠ e.clock % 2 ^ 32 := by
    intro earlier hearlier
    rw [hclock earlier hearlier]
    exact srandTime_eq_iff.not
  constructor
  · intro hnext
    obtain ⟨clock, event⟩ := e
    cases event with
    | incoming env message =>
        intro address hanswers earlier hearlier hne
        obtain ⟨after, hafter⟩ := hanswers.exists_step
        let next : SeededProcess Key := ⟨after,
          s.generatorAfter stream ⟨clock, .incoming env message⟩,
          s.drawn ++ s.drawnBy lib ⟨clock, .incoming env message⟩⟩
        have hstep : s.step stream lib ⟨clock, .incoming env message⟩ = some next :=
          step_eq_some_iff.mpr ⟨hafter, rfl, rfl⟩
        have hnew : (⟨address, clock, srandTime clock⟩ : SecretDraw)
            ∈ s.drawnBy lib ⟨clock, .incoming env message⟩ :=
          (mem_drawnBy_iff hstep).mpr ⟨env, message, rfl, hanswers, rfl⟩
        apply (hsource earlier hearlier).mp
        exact hnext next hstep earlier (List.mem_append_left _ hearlier) _
          (List.mem_append_right _ hnew) hne
    | discovery call => trivial
    | initiation env remote => trivial
    | sends envs session text len => trivial
    | emits => trivial
  · intro hsecond next hstep
    obtain ⟨_, _, hdrawn⟩ := step_eq_some_iff.mp hstep
    have hadded : ∀ first ∈ s.drawnBy lib e, ∀ second ∈ s.drawnBy lib e, first = second := by
      intro first hfirst second hsecond
      obtain ⟨env, message, hevent, hanswers, hfirstEq⟩ := (mem_drawnBy_iff hstep).mp hfirst
      obtain ⟨env', message', hevent', hanswers', hsecondEq⟩ := (mem_drawnBy_iff hstep).mp hsecond
      cases hevent.symm.trans hevent'
      obtain ⟨c, hc⟩ := hanswers.found
      obtain ⟨c', hc'⟩ := hanswers'.found
      have haddress : first.connection = second.connection :=
        (Prod.mk.inj (Option.some.inj (hc.symm.trans hc'))).1
      rw [hfirstEq, hsecondEq, haddress]
    refine (hone.append_iff hadded hdrawn).mpr fun draw hdraw earlier hearlier hne => ?_
    obtain ⟨env, message, hevent, hanswers, heq⟩ := (mem_drawnBy_iff hstep).mp hdraw
    rw [heq]
    apply (hsource earlier hearlier).mpr
    rw [AnotherSecond, hevent] at hsecond
    exact hsecond draw.connection hanswers earlier hearlier hne

/-- **One-time secrets, exactly.** In every state a run reaches no two connections have their
secrets from the same positions of the same stream, if and only if every message answered with a
secret comes when the clock, modulo 2³², shows another second than it did for the secrets of other
connections. -/
theorem along_oneTime_iff (stream : Nat → Nat → Nat) (lib : Libraries Key)
    (process : Process Key) (generator : Generator Nat) (events : List (ClockedEvent Key)) :
    Transition.Along (step stream lib)
        (fun s e => ∀ next, s.step stream lib e = some next → OneTime next)
        (start process generator) events
      ↔ Transition.Along (step stream lib) (AnotherSecond stream lib)
        (start process generator) events := by
  have hexact : ∀ (s : SeededProcess Key) e, OneTime s ∧ s.SeededByClock →
      ((∀ next, s.step stream lib e = some next → OneTime next)
        ↔ AnotherSecond stream lib s e) := fun s e h => h.1.step_iff h.2
  have hone : OneTime (start process generator) := by simp [OneTime, start]
  have hclock : (start process generator).SeededByClock := by simp [SeededByClock, start]
  refine Transition.along_iff_of_invariant hexact ?_ ⟨hone, hclock⟩ events
  intro s e next h hkept hstep
  exact ⟨hkept next hstep, h.2.step hstep⟩

/-- The secret a connection gets is a function of the clock. -/
theorem answered_secret {clock : Int} {env : Ambient Key} {message : Wpmessage} {address : Nat}
    {c : ConnectionRequest Key}
    (hstep : s.step stream lib ⟨clock, .incoming env message⟩ = some next)
    (haction : message.action = .respondingCreatedSession)
    (hfind : findConnection lib s.process.controller message = some (address, c)) :
    ∃ r, next.process.controller.connections.get? address = some r
      ∧ r.sharedSecret = some (generateSharedSecretAt stream clock).1 := by
  have hprocess := (step_eq_some_iff.mp hstep).1
  obtain ⟨_, hcontroller⟩ := answersWithSecret_of_step hprocess haction hfind
  have hget := (Arena.get?_of_find? hfind).1
  rw [hcontroller, generateSharedSecretAt_fst]
  exact ⟨_, Arena.get?_set_self _ hget, rfl⟩

section Run

open Concrete

/-- The generator C89 gives as an example. -/
def exampleRand (seed : Nat) (position : Nat) : Nat :=
  let state := Nat.repeat (fun state => (state * 1103515245 + 12345) % 2 ^ 32) (position + 1) seed
  state / 65536 % 32768

/-- Bob opens connections to Al and to a second peer, and both answer in one second; between the
answers he opens a third connection. -/
def sameSecond : List (ClockedEvent CString) :=
  [⟨1, .discovery (.storePeer 1 (peer 1 al))⟩, ⟨1, .discovery (.storePeer 1 (peer 2 bob))⟩,
    ⟨3, .initiation (ambient bob (guid 7) fun _ => 0) (peer 1 al).ref⟩,
    ⟨4, .initiation (ambient bob (guid 9) fun _ => 0) (peer 2 bob).ref⟩,
    ⟨5, .incoming (ambient bob (guid 8) fun _ => 0) answer⟩,
    ⟨5, .initiation (ambient bob (guid 11) fun _ => 0) (peer 1 al).ref⟩,
    ⟨5, .incoming (ambient bob (guid 8) fun _ => 0) { answer with
      id := guidStrings.toString (guid 9)
      sender := guidStrings.toString (guid 2) }⟩]

def bobSeeded : SeededProcess CString :=
  start (Process.start (host 0) (peer 0 bob) none 0 true true true) (Generator.seeded 1)

theorem not_oneTime_sameSecond :
    (sameSecond.map ClockedEvent.clock).Pairwise (· ≤ ·)
      ∧ ∃ s, Transition.run (step exampleRand libraries) bobSeeded sameSecond = some s
        ∧ s.drawn = [⟨0, 5, srandTime 5⟩, ⟨1, 5, srandTime 5⟩]
        ∧ (s.process.controller.connections.entries.map fun entry =>
            (entry.2.id, entry.2.sharedSecret))
          = [(guid 7, some (generateSharedSecretAt exampleRand 5).1),
            (guid 9, some (generateSharedSecretAt exampleRand 5).1), (guid 11, none)]
        ∧ ¬ OneTime s := by
  obtain ⟨s, hrun⟩ : ∃ s, Transition.run (step exampleRand libraries) bobSeeded sameSecond
      = some s := ⟨_, rfl⟩
  have hdrawn : s.drawn = [⟨0, 5, srandTime 5⟩, ⟨1, 5, srandTime 5⟩] := by
    obtain rfl := Option.some.inj hrun
    decide +kernel
  have hsecrets : (s.process.controller.connections.entries.map fun entry =>
      (entry.2.id, entry.2.sharedSecret))
      = [(guid 7, some (generateSharedSecretAt exampleRand 5).1),
        (guid 9, some (generateSharedSecretAt exampleRand 5).1), (guid 11, none)] := by
    obtain rfl := Option.some.inj hrun
    decide +kernel
  refine ⟨by decide, s, hrun, hdrawn, hsecrets, fun hone => ?_⟩
  refine hone ⟨0, 5, srandTime 5⟩ ?_ ⟨1, 5, srandTime 5⟩ ?_ (by decide) rfl
  · simp [hdrawn]
  · simp [hdrawn]

end Run

end SeededProcess

end WhisperCore
