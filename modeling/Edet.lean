import Edet.Kernel.Blocking
import Edet.Kernel.Cascade
import Edet.Kernel.Circular
import Edet.Kernel.Constants
import Edet.Kernel.Cut
import Edet.Kernel.Decay
import Edet.Kernel.Decompose
import Edet.Kernel.Dinic
import Edet.Kernel.Float64
import Edet.Kernel.Flow
import Edet.Kernel.Growth
import Edet.Kernel.Holds
import Edet.Kernel.Levels
import Edet.Kernel.MaxFlow
import Edet.Kernel.Outstanding
import Edet.Kernel.Reserve
import Edet.Kernel.Waterfill
import Edet.Ledger.Audit
import Edet.Ledger.Awards
import Edet.Ledger.Backing
import Edet.Ledger.Block
import Edet.Ledger.BondBook
import Edet.Ledger.Bonds
import Edet.Ledger.Cascade
import Edet.Ledger.Charges
import Edet.Ledger.CleanRefusal
import Edet.Ledger.Coalition
import Edet.Ledger.Conservative
import Edet.Ledger.Cover
import Edet.Ledger.CutWitness
import Edet.Ledger.Draining
import Edet.Ledger.Encoding
import Edet.Ledger.EncodingLength
import Edet.Ledger.Encumbrance
import Edet.Ledger.Envelope
import Edet.Ledger.Filed
import Edet.Ledger.Frames
import Edet.Ledger.GateCache
import Edet.Ledger.Genesis
import Edet.Ledger.Governance
import Edet.Ledger.Guardians
import Edet.Ledger.Installments
import Edet.Ledger.Journal
import Edet.Ledger.KeyBook
import Edet.Ledger.KeyIndex
import Edet.Ledger.KeySeparation
import Edet.Ledger.Keys
import Edet.Ledger.Listings
import Edet.Ledger.Loss
import Edet.Ledger.Obligation
import Edet.Ledger.Origin
import Edet.Ledger.Panels
import Edet.Ledger.Parties
import Edet.Ledger.Refusals
import Edet.Ledger.Replay
import Edet.Ledger.Rings
import Edet.Ledger.Rows
import Edet.Ledger.SaleBalance
import Edet.Ledger.Screens
import Edet.Ledger.SeatBound
import Edet.Ledger.SeatFrames
import Edet.Ledger.SeatGate
import Edet.Ledger.Seating
import Edet.Ledger.Splitting
import Edet.Ledger.Stakes
import Edet.Ledger.State
import Edet.Ledger.Substitution
import Edet.Ledger.Transitions
import Edet.Ledger.Types
import Edet.Ledger.Validators
import Edet.Ledger.Winding
import Edet.Ledger.Window
import Edet.Library.Answers
import Edet.Library.Bytes
import Edet.Library.Chunks
import Edet.Library.Codec
import Edet.Library.Frames
import Edet.Library.MapPart
import Edet.Library.MinCut
import Edet.Library.NetworkFlow
import Edet.Library.OrdMap
import Edet.Library.PromotionLevels
import Edet.Library.PromotionTree
import Edet.Library.Refusable
import Edet.Library.Rings
import Edet.Library.Runs
import Edet.Library.Serde
import Edet.Node.AddressIndex
import Edet.Node.Block
import Edet.Node.BlockJson
import Edet.Node.Bounds
import Edet.Node.CapacityCache
import Edet.Node.Commit
import Edet.Node.Core
import Edet.Node.Decision
import Edet.Node.Durability
import Edet.Node.Engine
import Edet.Node.EngineCodec
import Edet.Node.EngineMessages
import Edet.Node.FailedCommit
import Edet.Node.Ingress
import Edet.Node.Isolation
import Edet.Node.Outcomes
import Edet.Node.Parts
import Edet.Node.Proposer
import Edet.Node.Proposing
import Edet.Node.Recovery
import Edet.Node.Reopening
import Edet.Node.Replica
import Edet.Node.SeenSignatures
import Edet.Node.Serving
import Edet.Node.Sessions
import Edet.Node.Store
import Edet.Node.Streaming
import Edet.Node.Undecided
import Edet.StateRoot.Cache
import Edet.StateRoot.Definition
import Edet.StateRoot.Inclusion
import Edet.StateRoot.Incremental
import Edet.StateRoot.Patching
import Edet.StateRoot.Records
import Edet.StateRoot.Refreshing
import Edet.StateRoot.Tail
import Edet.View.Consent
import Edet.View.Counterparties
import Edet.View.Disclose
import Edet.View.Occupancy
import Edet.View.Pending
import Edet.View.Proposal
import Edet.View.Reclaim
import Edet.Wallet.Number
import Edet.Wallet.Proof
import Edet.Wallet.TxDigest
