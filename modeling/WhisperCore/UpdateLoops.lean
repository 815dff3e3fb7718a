import WhisperCore.Discovery

/-!
# Update loops

`polling_update_loop` and `broadcast_update_loop` of `src/net/discovery.c`, with what happens
between two clock readings as one event: a pass from the top of the loop to the call of `sleep`, and
that call. The clock is read once in either. Other threads may stop the service or change its store
at any time. `time_t` is exact; the conversion of the argument of `sleep` is not.
-/

namespace WhisperCore

/-- Where a loop stands. -/
inductive LoopPoint where
  | top
  | sleep
deriving DecidableEq

/-- A loop, the service it belongs to, and what it has done so far: the packets it sent and the
seconds it asked to sleep. -/
structure UpdateLoop where
  point : LoopPoint
  isrunning : Bool
  svc : DiscoveryService
  nextUpdate : Int
  sent : List Bytes
  slept : List UInt32

inductive LoopEvent where
  | pass (now : Int)
  | sleep (now : Int)
  | others (isrunning : Bool) (svc : DiscoveryService)

/-- `peer_update_interval` seconds from a clock reading: the last update time in the polling loop,
the present in the broadcast loop. -/
def UpdateLoop.start (peerUpdateInterval reading : Int) (svc : DiscoveryService) : UpdateLoop where
  point := .top
  isrunning := true
  svc := svc
  nextUpdate := reading + peerUpdateInterval
  sent := []
  slept := []

/-- `next_update - time(0)` as the `unsigned int` that `sleep` takes. -/
def sleepSeconds (nextUpdate now : Int) : UInt32 := UInt32.ofInt (nextUpdate - now)

/-- All that a call which decodes no peer finds is the clock. -/
def clockOnly (now : Int) : PacketSurroundings := ⟨⟨0, []⟩, now⟩

/-- The five bytes `send_discovery_request` sends. -/
def discoveryRequest : Bytes := listCommand.bytes ++ [0]

/-- `polling_update_loop`; it takes no step once it has returned. -/
def pollingUpdateLoop (peerUpdateInterval : Int) (loop : UpdateLoop) : LoopEvent → Option UpdateLoop
  | .pass now =>
      if loop.point = .top ∧ loop.isrunning then
        some { loop with
          point := .sleep
          sent := if loop.nextUpdate ≤ now then loop.sent ++ [discoveryRequest] else loop.sent }
      else none
  | .sleep now =>
      if loop.point = .sleep then
        let nextUpdate := loop.nextUpdate + peerUpdateInterval
        some { loop with
          point := .top
          nextUpdate := nextUpdate
          slept := loop.slept ++ [sleepSeconds nextUpdate now] }
      else none
  | .others isrunning svc => some { loop with isrunning := isrunning, svc := svc }

/-- `broadcast_update_loop`. The clock is read in `send_peer_packet`, after the packet was sent. -/
def broadcastUpdateLoop (protobuf : PeerProtobuf) (peerUpdateInterval : Int) (loop : UpdateLoop) :
    LoopEvent → Option UpdateLoop
  | .pass now =>
      if loop.point = .top ∧ loop.isrunning then
        let outcome := sendPeerPacket protobuf (clockOnly now) loop.svc
        some { loop with
          point := .sleep
          svc := outcome.svc
          sent := loop.sent ++ outcome.sent }
      else none
  | .sleep now =>
      if loop.point = .sleep then
        some { loop with
          point := .top
          nextUpdate := loop.nextUpdate + peerUpdateInterval
          slept := loop.slept ++ [sleepSeconds loop.nextUpdate now] }
      else none
  | .others isrunning svc => some { loop with isrunning := isrunning, svc := svc }

inductive UpdateStrategy where
  | polling
  | broadcast
deriving DecidableEq

def UpdateStrategy.step (strategy : UpdateStrategy) (protobuf : PeerProtobuf)
    (peerUpdateInterval : Int) : UpdateLoop → LoopEvent → Option UpdateLoop :=
  match strategy with
  | .polling => pollingUpdateLoop peerUpdateInterval
  | .broadcast => broadcastUpdateLoop protobuf peerUpdateInterval

/-! ### Clock readings -/

def LoopEvent.reading : LoopEvent → Option Int
  | .pass now => some now
  | .sleep now => some now
  | .others _ _ => none

/-- The reading a `sleep` is asked at. -/
def LoopEvent.sleepReading : LoopEvent → Option Int
  | .sleep now => some now
  | _ => none

theorem LoopEvent.sleepReading_eq_some_iff {event : LoopEvent} {now : Int} :
    event.sleepReading = some now ↔ event = .sleep now := by
  cases event <;> simp [sleepReading]

end WhisperCore
