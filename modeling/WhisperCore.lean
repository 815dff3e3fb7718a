import WhisperCore.Concrete
import WhisperCore.ConnectionController
import WhisperCore.ConnectionRequest
import WhisperCore.Cryptography
import WhisperCore.Discovery
import WhisperCore.DiscoveryNetwork
import WhisperCore.Handshake
import WhisperCore.InMemory
import WhisperCore.Letters
import WhisperCore.Lib.Arena
import WhisperCore.Lib.Courses
import WhisperCore.Lib.DolevYao
import WhisperCore.Lib.Encodings
import WhisperCore.Lib.Heap
import WhisperCore.Lib.Monitor
import WhisperCore.Lib.Phases
import WhisperCore.Lib.Schedule
import WhisperCore.Lib.SeededGenerator
import WhisperCore.Lib.StreamCipher
import WhisperCore.Lib.Transition
import WhisperCore.Lib.Wire
import WhisperCore.Libraries
import WhisperCore.LockedCalls
import WhisperCore.Memory
import WhisperCore.Network
import WhisperCore.PeerCodec
import WhisperCore.Peerstore
import WhisperCore.Process
import WhisperCore.Proof.Activity
import WhisperCore.Proof.Agreement
import WhisperCore.Proof.Announcements
import WhisperCore.Proof.Completion
import WhisperCore.Proof.Departures
import WhisperCore.Proof.DiscoveryNetworkCases
import WhisperCore.Proof.DiscoveryPackets
import WhisperCore.Proof.DiscoveryToText
import WhisperCore.Proof.Dispatch
import WhisperCore.Proof.Fidelity
import WhisperCore.Proof.Guards
import WhisperCore.Proof.HandshakeLiveness
import WhisperCore.Proof.HandshakeOrder
import WhisperCore.Proof.HandshakeProgress
import WhisperCore.Proof.HandshakeRefinement
import WhisperCore.Proof.InMemoryRefinement
import WhisperCore.Proof.Interleavings
import WhisperCore.Proof.Isolation
import WhisperCore.Proof.LayeredEncryption
import WhisperCore.Proof.LetterDelivery
import WhisperCore.Proof.NameResolution
import WhisperCore.Proof.NetworkCases
import WhisperCore.Proof.OneTimeSecrets
import WhisperCore.Proof.PeerComparison
import WhisperCore.Proof.PeerEncoding
import WhisperCore.Proof.PeerNames
import WhisperCore.Proof.PeerRecords
import WhisperCore.Proof.PeersFound
import WhisperCore.Proof.PeerstoreCases
import WhisperCore.Proof.ProcessCases
import WhisperCore.Proof.ProcessorCases
import WhisperCore.Proof.QueryPaths
import WhisperCore.Proof.Reannouncements
import WhisperCore.Proof.Removal
import WhisperCore.Proof.Representation
import WhisperCore.Proof.Returns
import WhisperCore.Proof.Secrecy
import WhisperCore.Proof.Sender
import WhisperCore.Proof.SessionDelivery
import WhisperCore.Proof.SessionLists
import WhisperCore.Proof.SessionNetworkCases
import WhisperCore.Proof.SessionReadiness
import WhisperCore.Proof.SessionSend
import WhisperCore.Proof.SymbolicRefinement
import WhisperCore.Proof.Timing
import WhisperCore.Proof.TruePeers
import WhisperCore.Proof.UsersTold
import WhisperCore.Proof.Worlds
import WhisperCore.RandomSource
import WhisperCore.SessionController
import WhisperCore.SessionNetwork
import WhisperCore.Sessions
import WhisperCore.Symbolic
import WhisperCore.UpdateLoops
import WhisperCore.World
