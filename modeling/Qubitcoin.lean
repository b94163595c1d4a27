import Qubitcoin.Substrate.Dilithium
import Qubitcoin.Library.Machine
import Qubitcoin.Library.WriteLog
import Qubitcoin.Substrate.Utxo
import Qubitcoin.Substrate.Consensus
import Qubitcoin.Substrate.Reversibility
import Qubitcoin.Substrate.LedgerLaws
import Qubitcoin.Substrate.Runtime
import Qubitcoin.Substrate.ConsensusLaws
import Qubitcoin.Substrate.ReversibilityLaws
import Qubitcoin.Substrate.Encoding
import Qubitcoin.Substrate.History
import Qubitcoin.Substrate.Governance
import Qubitcoin.Substrate.Conservation
import Qubitcoin.Substrate.SupplyCap
import Qubitcoin.Substrate.SigningMessage
import Qubitcoin.Substrate.RateLimit
import Qubitcoin.Substrate.Quorum
import Qubitcoin.Substrate.ReversalWindow
import Qubitcoin.Library.Commands
import Qubitcoin.Evm.Context
import Qubitcoin.Evm.Interpreter
import Qubitcoin.Evm.InterpreterLaws
import Qubitcoin.Evm.Reachability
import Qubitcoin.Evm.StaticContext
import Qubitcoin.Library.UndoLog
import Qubitcoin.Evm.Snapshots
import Qubitcoin.Library.Decimal
import Qubitcoin.Exchange.Book
import Qubitcoin.Exchange.Engine
import Qubitcoin.Exchange.Solvency
import Qubitcoin.QbcExchange.OrderBook
import Qubitcoin.QbcExchange.Matching
import Qubitcoin.QbcExchange.BookInvariant
import Qubitcoin.Node.Transaction
import Qubitcoin.Privacy.RangeProof
import Qubitcoin.Node.Validation
import Qubitcoin.Node.Ownership
import Qubitcoin.Node.BlockValidation
import Qubitcoin.Node.BlockConservation
import Qubitcoin.Node.Confidential
import Qubitcoin.Library.Tables
import Qubitcoin.Node.Database
import Qubitcoin.Node.Rollback
import Qubitcoin.Substrate.CoinbaseMaturity
import Qubitcoin.Substrate.KeyRegistry
import Qubitcoin.Finality.Core
import Qubitcoin.Finality.Agreement
import Qubitcoin.Library.Aead
import Qubitcoin.Transport.Session
import Qubitcoin.Transport.Channel
import Qubitcoin.Library.Merkle
import Qubitcoin.Privacy.Poseidon2
import Qubitcoin.Privacy.MerkleBinding
import Qubitcoin.Evm.Termination
import Qubitcoin.Evm.Metering
import Qubitcoin.Evm.FreeOpcodes
import Qubitcoin.Evm.Balances
import Qubitcoin.Evm.BalanceConservation
import Qubitcoin.Library.Solidity
import Qubitcoin.Library.Ledger
import Qubitcoin.Contracts.ValidatorRegistry
import Qubitcoin.Contracts.QBC20
import Qubitcoin.Contracts.RevenueDistributor
import Qubitcoin.Contracts.QUSD
import Qubitcoin.Contracts.WrappedQUSD
import Qubitcoin.Contracts.MultiSigAdmin
import Qubitcoin.Contracts.QUSDStabilizer
import Qubitcoin.Contracts.QUSDDebtLedger
import Qubitcoin.Contracts.QUSDReserve
import Qubitcoin.Contracts.QUSDBacking
import Qubitcoin.Contracts.Voting
import Qubitcoin.Contracts.TreasuryDAO
import Qubitcoin.Contracts.QUSDGovernance
import Qubitcoin.Contracts.QuantumBridgeVault
import Qubitcoin.Contracts.ZKBridgeVerifier
import Qubitcoin.Contracts.LockRedemption
import Qubitcoin.Contracts.QuantumBridge
import Qubitcoin.Library.Rows
import Qubitcoin.Contracts.SynapticStaking
import Qubitcoin.Contracts.StakingSolvency
import Qubitcoin.Library.Reentrancy
import Qubitcoin.Contracts.BridgeVault
import Qubitcoin.Contracts.VaultSolvency
import Qubitcoin.Library.Confirmations
import Qubitcoin.Contracts.ReleaseQuorum
import Qubitcoin.Contracts.HashAgreement
import Qubitcoin.Library.ColumnFamily
import Qubitcoin.Library.Keys
import Qubitcoin.Aether.Shard
import Qubitcoin.Aether.ShardIntegrity
import Qubitcoin.Library.Substitution
import Qubitcoin.Aether.Logic.Term
import Qubitcoin.Library.Fuel
import Qubitcoin.Aether.Logic.Bindings
import Qubitcoin.Aether.Logic.Formula
import Qubitcoin.Aether.Logic.Unify
import Qubitcoin.Aether.Logic.Compose
import Qubitcoin.Aether.Logic.Semantics
import Qubitcoin.Aether.Logic.Inference
import Qubitcoin.Aether.Logic.Soundness
import Qubitcoin.Aether.Logic.Acyclic
import Qubitcoin.Aether.Logic.KnowledgeBase
import Qubitcoin.Aether.Logic.Chaining
import Qubitcoin.Privacy.VectorCommitment
import Qubitcoin.Qvm.Trie
import Qubitcoin.Qvm.TrieMap
import Qubitcoin.Substrate.FeeBurn
import Qubitcoin.Substrate.RewardSchedule
import Qubitcoin.Substrate.Retargeting
import Qubitcoin.Substrate.ProofHashes
import Qubitcoin.Substrate.LiveReversals
import Qubitcoin.Node.L2Bridge
import Qubitcoin.Node.L2BridgeLaws
import Qubitcoin.Library.PaddedMerkle
import Qubitcoin.Aether.KnowledgeGraph
import Qubitcoin.Aether.KnowledgeRoot
import Qubitcoin.Substrate.Filings
import Qubitcoin.Substrate.GovernorSet
import Qubitcoin.Substrate.ExpiryPaths
import Qubitcoin.Substrate.Pruning
import Qubitcoin.Evm.PushData
import Qubitcoin.Evm.Refunds
import Qubitcoin.Evm.Operands
import Qubitcoin.Evm.Panics
import Qubitcoin.Evm.Failures
import Qubitcoin.Evm.Narrowing
import Qubitcoin.Library.CallTree
import Qubitcoin.Evm.Effects
import Qubitcoin.Evm.YellowPaper
import Qubitcoin.Evm.ModExp
import Qubitcoin.Node.CommitReveal
import Qubitcoin.Library.ParentTree
import Qubitcoin.Substrate.WeightedChain
import Qubitcoin.Substrate.ForkChoice
import Qubitcoin.Substrate.FinalityTarget
import Qubitcoin.QbcExchange.PriceTime
import Qubitcoin.QbcExchange.PythonBook
import Qubitcoin.QbcExchange.EnginesAgree
import Qubitcoin.QbcExchange.OwnCancel
import Qubitcoin.Exchange.Parties
import Qubitcoin.Exchange.Settlement
import Qubitcoin.Exchange.Filing
import Qubitcoin.Library.PrefixCode
import Qubitcoin.Qvm.TrieEncoding
import Qubitcoin.Qvm.TrieContents
import Qubitcoin.Qvm.TrieRoot
import Qubitcoin.Library.Clocked
import Qubitcoin.Contracts.VestingSchedule
import Qubitcoin.Contracts.InvestorVesting
import Qubitcoin.Library.CompletedMerkle
import Qubitcoin.Library.OrderedMap
import Qubitcoin.Aether.IncrementalMerkle
import Qubitcoin.Aether.ShardRouter
import Qubitcoin.Library.ScatteredMap
import Qubitcoin.Transport.Handshake
import Qubitcoin.Transport.Lifecycle
import Qubitcoin.Qvm.ChannelRuns
import Qubitcoin.Qvm.StateChannels
import Qubitcoin.Library.BestFirst
import Qubitcoin.Aether.VectorIndex
import Qubitcoin.Aether.VectorSearch
import Qubitcoin.Contracts.Delegation
import Qubitcoin.Contracts.QUSDSupply
import Qubitcoin.Contracts.SeedRound
import Qubitcoin.Aether.Logic.ForwardChaining
import Qubitcoin.Library.Noting
import Qubitcoin.Privacy.RangeProver
import Qubitcoin.Privacy.SusySwap
import Qubitcoin.Aether.ThoughtProof
import Qubitcoin.Aether.Logic.AntiUnify
import Qubitcoin.Aether.Logic.Induction
import Qubitcoin.Aether.TaskProtocol
import Qubitcoin.Aether.TaskStanding
import Qubitcoin.PythonVm.Precompiles
import Qubitcoin.PythonVm.Context
import Qubitcoin.PythonVm.Interpreter
import Qubitcoin.PythonVm.InterpreterLaws
import Qubitcoin.PythonVm.GasLimit
import Qubitcoin.PythonVm.CallEffects
import Qubitcoin.PythonVm.StateManager
import Qubitcoin.PythonVm.StateManagerLaws
import Qubitcoin.Library.TextTree
import Qubitcoin.PythonVm.StateRoot
