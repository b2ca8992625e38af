import DistributedNotary.Api.Framing
import DistributedNotary.Api.NotaryApi
import DistributedNotary.Api.Request
import DistributedNotary.Api.Responses
import DistributedNotary.Btc.Confirmations
import DistributedNotary.Btc.LockScripts
import DistributedNotary.Btc.Outpoint
import DistributedNotary.Btc.Reservation
import DistributedNotary.Btc.Spends
import DistributedNotary.Chain.Delivery
import DistributedNotary.Chain.Listener
import DistributedNotary.Chain.Restarts
import DistributedNotary.Contracts.AtmosphereToken
import DistributedNotary.Contracts.Bridge
import DistributedNotary.Contracts.EtherLocks
import DistributedNotary.Contracts.LockedEthereum
import DistributedNotary.Contracts.Solidity
import DistributedNotary.Contracts.TokenSupply
import DistributedNotary.Library.Checks
import DistributedNotary.Library.Deadlines
import DistributedNotary.Library.Gates
import DistributedNotary.Library.Interpolation
import DistributedNotary.Library.Legs
import DistributedNotary.Library.Lifecycle
import DistributedNotary.Library.Orders
import DistributedNotary.Library.Quorum
import DistributedNotary.Library.RangeMap
import DistributedNotary.Library.Script
import DistributedNotary.Library.Sha256
import DistributedNotary.Library.Sigma
import DistributedNotary.Library.Slice
import DistributedNotary.Library.Slots
import DistributedNotary.Library.Sorted
import DistributedNotary.Library.Succession
import DistributedNotary.Library.Totals
import DistributedNotary.Library.Transition
import DistributedNotary.Library.Words
import DistributedNotary.Mecdsa.BitCurve
import DistributedNotary.Mecdsa.Completion
import DistributedNotary.Mecdsa.Containment
import DistributedNotary.Mecdsa.Contributions
import DistributedNotary.Mecdsa.CorrectKey
import DistributedNotary.Mecdsa.Dealing
import DistributedNotary.Mecdsa.EndToEnd
import DistributedNotary.Mecdsa.Establishment
import DistributedNotary.Mecdsa.Exchange
import DistributedNotary.Mecdsa.Feldman
import DistributedNotary.Mecdsa.Gate
import DistributedNotary.Mecdsa.HandlerMap
import DistributedNotary.Mecdsa.HonestNegotiation
import DistributedNotary.Mecdsa.Invitations
import DistributedNotary.Mecdsa.KeyChecks
import DistributedNotary.Mecdsa.KeyEstablishment
import DistributedNotary.Mecdsa.KeyGeneration
import DistributedNotary.Mecdsa.KeyMail
import DistributedNotary.Mecdsa.KeyRuns
import DistributedNotary.Mecdsa.KeySessions
import DistributedNotary.Mecdsa.KeyShares
import DistributedNotary.Mecdsa.Leakage
import DistributedNotary.Mecdsa.MainLoop
import DistributedNotary.Mecdsa.Membership
import DistributedNotary.Mecdsa.Messages
import DistributedNotary.Mecdsa.Negotiation
import DistributedNotary.Mecdsa.Normalization
import DistributedNotary.Mecdsa.Opening
import DistributedNotary.Mecdsa.Paillier
import DistributedNotary.Mecdsa.PhaseGates
import DistributedNotary.Mecdsa.Progress
import DistributedNotary.Mecdsa.Proofs
import DistributedNotary.Mecdsa.Quorum
import DistributedNotary.Mecdsa.Reporting
import DistributedNotary.Mecdsa.Session
import DistributedNotary.Mecdsa.Share
import DistributedNotary.Mecdsa.Signing
import DistributedNotary.Mecdsa.Soundness
import DistributedNotary.Mecdsa.Totality
import DistributedNotary.Mecdsa.Transcripts
import DistributedNotary.Mecdsa.Verifiability
import DistributedNotary.Mecdsa.Wire
import DistributedNotary.Models.SignMessage
import DistributedNotary.NonceServer.NonceManager
import DistributedNotary.Pbft.Agreement
import DistributedNotary.Pbft.Announcements
import DistributedNotary.Pbft.Answers
import DistributedNotary.Pbft.Backing
import DistributedNotary.Pbft.Bookkeeping
import DistributedNotary.Pbft.Carries
import DistributedNotary.Pbft.Checkpoints
import DistributedNotary.Pbft.Client
import DistributedNotary.Pbft.Delivery
import DistributedNotary.Pbft.Digests
import DistributedNotary.Pbft.FirstView
import DistributedNotary.Pbft.Handlers
import DistributedNotary.Pbft.Message
import DistributedNotary.Pbft.Moves
import DistributedNotary.Pbft.Network
import DistributedNotary.Pbft.NewViews
import DistributedNotary.Pbft.Numbering
import DistributedNotary.Pbft.Openings
import DistributedNotary.Pbft.Orderings
import DistributedNotary.Pbft.Panics
import DistributedNotary.Pbft.QueueRuns
import DistributedNotary.Pbft.Queues
import DistributedNotary.Pbft.Quorums
import DistributedNotary.Pbft.Reports
import DistributedNotary.Pbft.Results
import DistributedNotary.Pbft.Safety
import DistributedNotary.Pbft.Senders
import DistributedNotary.Pbft.Server
import DistributedNotary.Pbft.Settled
import DistributedNotary.Pbft.Turns
import DistributedNotary.Pbft.ViewEntry
import DistributedNotary.Pbft.Worlds
import DistributedNotary.Service.Allocations
import DistributedNotary.Service.Auxiliary
import DistributedNotary.Service.BtcSpending
import DistributedNotary.Service.Cancellations
import DistributedNotary.Service.CoSign
import DistributedNotary.Service.Config
import DistributedNotary.Service.Confluence
import DistributedNotary.Service.CrossChain
import DistributedNotary.Service.Deposits
import DistributedNotary.Service.Dispatch
import DistributedNotary.Service.Expirations
import DistributedNotary.Service.Fidelity
import DistributedNotary.Service.Gaps
import DistributedNotary.Service.LockinEvents
import DistributedNotary.Service.LockoutEvents
import DistributedNotary.Service.LockoutValue
import DistributedNotary.Service.Message
import DistributedNotary.Service.Notary
import DistributedNotary.Service.OpCalls
import DistributedNotary.Service.OpNonces
import DistributedNotary.Service.PrepareLockout
import DistributedNotary.Service.Proposals
import DistributedNotary.Service.Records
import DistributedNotary.Service.Registration
import DistributedNotary.Service.Retransmission
import DistributedNotary.Service.Retries
import DistributedNotary.Service.Scans
import DistributedNotary.Service.SignRequests
import DistributedNotary.Service.Store
import DistributedNotary.Service.StoreEvents
import DistributedNotary.Service.Swap
import DistributedNotary.Service.Timelock
import DistributedNotary.Service.Upkeep
