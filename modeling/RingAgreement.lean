import RingAgreement.Base64
import RingAgreement.Bytes.Basic
import RingAgreement.Bytes.Hex
import RingAgreement.Bytes.Order
import RingAgreement.Cipher.Aead
import RingAgreement.Cipher.ChaCha20
import RingAgreement.Cipher.Poly1305
import RingAgreement.Cluster.SealedMessage
import RingAgreement.Cluster.WrappedKey
import RingAgreement.CommandLine.Arguments
import RingAgreement.CommandLine.Outcome
import RingAgreement.CommandLine.Task
import RingAgreement.Hash.Hmac
import RingAgreement.Hash.Keccak
import RingAgreement.Hash.Sha256
import RingAgreement.Hash.Sha512
import RingAgreement.Json.Basic
import RingAgreement.Json.Print
import RingAgreement.Json.Token
import RingAgreement.Keys.Basic
import RingAgreement.Keys.Error
import RingAgreement.Keys.Kem
import RingAgreement.Keys.MlKem768
import RingAgreement.Main
import RingAgreement.MlKem.Coding
import RingAgreement.MlKem.Ring
import RingAgreement.MlKem.Scheme
import RingAgreement.Node.Basic
import RingAgreement.Node.Distributor
import RingAgreement.Proofs.Board.Answer
import RingAgreement.Proofs.Board.Basic
import RingAgreement.Proofs.Board.Invariant
import RingAgreement.Proofs.Board.Key
import RingAgreement.Proofs.Board.Leading
import RingAgreement.Proofs.Board.Messages
import RingAgreement.Proofs.Board.Progress
import RingAgreement.Proofs.Board.Run
import RingAgreement.Proofs.Board.Step
import RingAgreement.Proofs.Bytes.Xor
import RingAgreement.Proofs.Checks
import RingAgreement.Proofs.Cluster.Messages
import RingAgreement.Proofs.Cluster.SealedMessage
import RingAgreement.Proofs.Cluster.WrappedKey
import RingAgreement.Proofs.Hierarchy.Basic
import RingAgreement.Proofs.Hierarchy.Build
import RingAgreement.Proofs.Hierarchy.Carrier
import RingAgreement.Proofs.Hierarchy.Convergence
import RingAgreement.Proofs.Hierarchy.Delivery
import RingAgreement.Proofs.Hierarchy.Draining
import RingAgreement.Proofs.Hierarchy.Invariant
import RingAgreement.Proofs.Hierarchy.Run
import RingAgreement.Proofs.Hierarchy.Seating
import RingAgreement.Proofs.Hierarchy.Step
import RingAgreement.Proofs.Json.Pretty
import RingAgreement.Proofs.Json.RoundTrip
import RingAgreement.Proofs.Json.Scan
import RingAgreement.Proofs.Medium.Agreement
import RingAgreement.Proofs.Medium.Alteration
import RingAgreement.Proofs.Medium.Basic
import RingAgreement.Proofs.Medium.Delivery
import RingAgreement.Proofs.Medium.Determinism
import RingAgreement.Proofs.Medium.Exchange
import RingAgreement.Proofs.Medium.Links
import RingAgreement.Proofs.Medium.Quiescence
import RingAgreement.Proofs.Medium.Run
import RingAgreement.Proofs.Medium.Schedule
import RingAgreement.Proofs.Medium.Sound
import RingAgreement.Proofs.Medium.Steady
import RingAgreement.Proofs.Medium.Step
import RingAgreement.Proofs.Medium.Tampering
import RingAgreement.Proofs.Medium.Writes
import RingAgreement.Proofs.Node.Budget
import RingAgreement.Proofs.Node.Coherence
import RingAgreement.Proofs.Node.Decision
import RingAgreement.Proofs.Node.Distributor
import RingAgreement.Proofs.Node.Failure
import RingAgreement.Proofs.Node.Keys
import RingAgreement.Proofs.Node.Mail
import RingAgreement.Proofs.Node.Parts
import RingAgreement.Proofs.Node.Relay
import RingAgreement.Proofs.Node.Replay
import RingAgreement.Proofs.Node.Run
import RingAgreement.Proofs.Node.Seat
import RingAgreement.Proofs.Node.Sends
import RingAgreement.Proofs.Node.Start
import RingAgreement.Proofs.Node.Step
import RingAgreement.Proofs.Node.Supply
import RingAgreement.Proofs.Relay.Delivery
import RingAgreement.Proofs.Relay.Hub
import RingAgreement.Proofs.Relay.Receive
import RingAgreement.Proofs.Relay.Run
import RingAgreement.Proofs.Ring.Binding
import RingAgreement.Proofs.Ring.Circle
import RingAgreement.Proofs.Ring.Closure
import RingAgreement.Proofs.Ring.Exchange
import RingAgreement.Proofs.Ring.Neighbors
import RingAgreement.Proofs.Ring.PartyId
import RingAgreement.Proofs.Ring.Roster
import RingAgreement.Proofs.Ring.Transcript
import RingAgreement.Proofs.Ring.Walk
import RingAgreement.Proofs.Service.Accepted
import RingAgreement.Proofs.Service.Ledger
import RingAgreement.Proofs.Service.Operation
import RingAgreement.Proofs.Service.Passage
import RingAgreement.Proofs.Service.Standstill
import RingAgreement.Proofs.Service.Status
import RingAgreement.Proofs.Service.Turn
import RingAgreement.Proofs.Service.Writing
import RingAgreement.Proofs.Session.Blame
import RingAgreement.Proofs.Session.Coherence
import RingAgreement.Proofs.Session.Completion
import RingAgreement.Proofs.Session.Dropped
import RingAgreement.Proofs.Session.Enabled
import RingAgreement.Proofs.Session.Failure
import RingAgreement.Proofs.Session.Growth
import RingAgreement.Proofs.Session.History
import RingAgreement.Proofs.Session.Label
import RingAgreement.Proofs.Session.Provenance
import RingAgreement.Proofs.Session.Replay
import RingAgreement.Proofs.Session.Sends
import RingAgreement.Proofs.Session.Start
import RingAgreement.Proofs.Session.Step
import RingAgreement.Proofs.Session.Verification
import RingAgreement.Proofs.Session.Writes
import RingAgreement.Proofs.Simulation.Laws
import RingAgreement.Proofs.Simulation.Network
import RingAgreement.Proofs.Storage.Directory
import RingAgreement.Proofs.Storage.Files
import RingAgreement.Proofs.Storage.Keys
import RingAgreement.Proofs.Storage.Names
import RingAgreement.Proofs.Storage.Rings
import RingAgreement.Proofs.Text.Utf8
import RingAgreement.Proofs.Transport.Call
import RingAgreement.Proofs.Transport.Look
import RingAgreement.Proofs.Transport.Reception
import RingAgreement.Proofs.Transport.Splitter
import RingAgreement.Proofs.Wire.Base64
import RingAgreement.Proofs.Wire.Codec
import RingAgreement.Proofs.Wire.Layout
import RingAgreement.Proofs.Wire.Line
import RingAgreement.Proofs.Wire.RoundTrip
import RingAgreement.Random.Rate
import RingAgreement.Random.Source
import RingAgreement.Random.Stream
import RingAgreement.Ring.Commitment
import RingAgreement.Ring.GroupKey
import RingAgreement.Ring.Handshake
import RingAgreement.Ring.PartyId
import RingAgreement.Ring.Share
import RingAgreement.Service.Deployment
import RingAgreement.Service.Error
import RingAgreement.Service.Limits
import RingAgreement.Service.Station
import RingAgreement.Session.Basic
import RingAgreement.Session.Error
import RingAgreement.Session.Level
import RingAgreement.Session.Roster
import RingAgreement.Simulation.Bench
import RingAgreement.Simulation.Invariant
import RingAgreement.Simulation.Network
import RingAgreement.Simulation.Packet
import RingAgreement.Simulation.Snapshot
import RingAgreement.Simulation.World
import RingAgreement.Storage.Directory
import RingAgreement.Storage.KeyFile
import RingAgreement.Storage.RosterFile
import RingAgreement.Text.Blank
import RingAgreement.Text.Quoted
import RingAgreement.Text.Unprintable
import RingAgreement.Transport.Channel
import RingAgreement.Transport.Hub
import RingAgreement.Transport.LineReader
import RingAgreement.Transport.Relay
import RingAgreement.Wire.Envelope
import RingAgreement.Wire.Error
import RingAgreement.Wire.Kind
import RingAgreement.Wire.Payload
import RingAgreement.Wire.Schema
