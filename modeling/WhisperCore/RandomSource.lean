import WhisperCore.Lib.SeededGenerator
import WhisperCore.Process

/-!
# Where secrets come from

`rand` as the source uses it. Its state is hidden and belongs to the process: key generation and
secret generation each seed it with the clock before anything is drawn, and only the latter draws.
A process is run here with the clock beside each event, and what `rand` returns is no longer free.
-/

namespace WhisperCore

/-- `srand(time(0))`: the `time_t` becomes an unsigned int. -/
def srandTime (clock : Int) : Generator Nat := Generator.seeded (clock % 2 ^ 32).toNat

variable {Key : Type}

/-- The key `RSA_generate_key` returns does not come from `rand`. -/
def asymmetricalGenerateKey (env : Ambient Key) (clock : Int) : Key × Generator Nat :=
  (env.keypair, srandTime clock)

section Stream

-- `stream seed position` is what `rand` returns after `position` calls since `srand(seed)`.
variable (stream : Nat → Nat → Nat)

/-- `generate_shared_secret`, with the generator it leaves. -/
def generateSharedSecretAt (clock : Int) : Bytes × Generator Nat :=
  let (draws, generator) := Generator.draw stream 8 (srandTime clock)
  (draws.map fun draw => alphabet.getD (draw % 62) 0, generator)

theorem generateSharedSecretAt_fst (clock : Int) :
    (generateSharedSecretAt stream clock).1
      = generateSharedSecret ((srandTime clock).ahead stream) := by
  simp only [generateSharedSecretAt, Generator.draw_eq, generateSharedSecret, List.map_map]
  rfl

/-- A secret generated: the connection request it is for, the clock, and the generator its first
character was drawn from. -/
structure SecretDraw where
  connection : Nat
  clock : Int
  source : Generator Nat
deriving DecidableEq

/-- A process with its generator, and the secrets it generated, in order. -/
structure SeededProcess (Key : Type) where
  process : Process Key
  generator : Generator Nat
  drawn : List SecretDraw

/-- An event, with what `time` returns to the calls it makes. -/
structure ClockedEvent (Key : Type) where
  clock : Int
  event : ProcessEvent Key

/-- The surroundings of a call, with what `rand` returns to it. -/
def Ambient.withRand (env : Ambient Key) (clock : Int) : Ambient Key :=
  { env with draws := (srandTime clock).ahead stream }

def ClockedEvent.withRand (e : ClockedEvent Key) : ProcessEvent Key :=
  match e.event with
  | .incoming env message => .incoming (env.withRand stream e.clock) message
  | event => event

namespace SeededProcess

def start (process : Process Key) (generator : Generator Nat) : SeededProcess Key where
  process := process
  generator := generator
  drawn := []

/-- A connection request is created, with its key, for an initiation and a CREATE_SESSION; a secret
is generated for a RESPONDING_CREATED_SESSION. -/
def generatorAfter (s : SeededProcess Key) (e : ClockedEvent Key) : Generator Nat :=
  match e.event with
  | .initiation env _ => (asymmetricalGenerateKey env e.clock).2
  | .incoming env message =>
      match message.action with
      | .createSession => (asymmetricalGenerateKey env e.clock).2
      | .respondingCreatedSession => (generateSharedSecretAt stream e.clock).2
      | _ => s.generator
  | _ => s.generator

def drawnBy (lib : Libraries Key) (s : SeededProcess Key) (e : ClockedEvent Key) :
    List SecretDraw :=
  match e.event with
  | .incoming _ message =>
      if message.action = .respondingCreatedSession then
        match findConnection lib s.process.controller message with
        | some (address, _) => [⟨address, e.clock, srandTime e.clock⟩]
        | none => []
      else []
  | _ => []

def step (lib : Libraries Key) (s : SeededProcess Key) (e : ClockedEvent Key) :
    Option (SeededProcess Key) :=
  (s.process.step lib (e.withRand stream)).map fun process =>
    ⟨process, s.generatorAfter stream e, s.drawn ++ s.drawnBy lib e⟩

end SeededProcess

end Stream

end WhisperCore
