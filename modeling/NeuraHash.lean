import NeuraHash.Python.Float
import NeuraHash.Python.Lists
import NeuraHash.Python.Dict
import NeuraHash.Python.Json
import NeuraHash.Python.JsonText
import NeuraHash.Python.MemberOrder
import NeuraHash.Python.Bytes
import NeuraHash.Python.Tensor
import NeuraHash.Python.Digits
import NeuraHash.Python.Mutation
import NeuraHash.Systems.FileTree
import NeuraHash.Systems.History
import NeuraHash.Systems.Journal
import NeuraHash.Systems.Overlay
import NeuraHash.Systems.Tiling
import NeuraHash.Merkle.Tree
import NeuraHash.Merkle.Sound
import NeuraHash.Quorums.Majority
import NeuraHash.Quorums.StakeMap
import NeuraHash.Quorums.FirstVotes
import NeuraHash.Platform
import NeuraHash.Signing
import NeuraHash.Sequencer
import NeuraHash.Ledger.Block
import NeuraHash.Ledger.State
import NeuraHash.Ledger.Transition
import NeuraHash.Ledger.Conservation
import NeuraHash.Ledger.Minting
import NeuraHash.Ledger.Shares
import NeuraHash.Settlement.Quorum
import NeuraHash.Settlement.Chain
import NeuraHash.Settlement.Replay
import NeuraHash.Settlement.Settle
import NeuraHash.Settlement.Restart
import NeuraHash.Settlement.SignedContent
import NeuraHash.Settlement.Authorisation
import NeuraHash.Settlement.Decisions
import NeuraHash.Settlement.Intersection
import NeuraHash.Settlement.BlockProof
import NeuraHash.Settlement.Backing
import NeuraHash.Rounds.Authority
import NeuraHash.Rounds.ReplicaHead
import NeuraHash.Rounds.ViewChange
import NeuraHash.Rounds.Elections
import NeuraHash.Clock.Round
import NeuraHash.Clock.Scan
import NeuraHash.Clock.Beacon
import NeuraHash.Clock.Disputes
import NeuraHash.Clock.Audit
import NeuraHash.Merge.Gate
import NeuraHash.Merge.Batch
import NeuraHash.Merge.Contributions
import NeuraHash.Merge.Downhill
import NeuraHash.Merge.Gains
import NeuraHash.Merge.BatchOrder
import NeuraHash.Merge.BatchRun
import NeuraHash.Merge.OuterStep
import NeuraHash.Merge.Fragments
import NeuraHash.Merge.ShardRound
import NeuraHash.Merge.Streaming
import NeuraHash.Merge.Landing
import NeuraHash.Committee.Attestation
import NeuraHash.Committee.Aggregate
import NeuraHash.Committee.Verdict
import NeuraHash.Committee.Soundness
import NeuraHash.Committee.Minority
import NeuraHash.Committee.VoteOrder
import NeuraHash.Commitments.Hashing
import NeuraHash.Commitments.StepCheck
import NeuraHash.Commitments.Checkpoint
import NeuraHash.Commitments.Transition
import NeuraHash.Commitments.Growth
import NeuraHash.Commitments.Migration
import NeuraHash.Governance.Halt
import NeuraHash.Governance.HaltRuns
import NeuraHash.Miner.Keystore
import NeuraHash.Miner.Liveness
import NeuraHash.Miner.Names
import NeuraHash.Miner.Publish
import NeuraHash.Miner.Vram
import NeuraHash.Miner.Affinity
import NeuraHash.Miner.ClaimFile
import NeuraHash.Miner.Cooldown
import NeuraHash.Miner.Domains
import NeuraHash.Miner.DoseLadder
import NeuraHash.Replica.Host
import NeuraHash.Replica.Lane
import NeuraHash.Replica.AcceptedNames
import NeuraHash.Replica.Fold
import NeuraHash.Replica.Checked
import NeuraHash.Replica.Replay
import NeuraHash.Replica.CatchUp
import NeuraHash.Replica.Resume
import NeuraHash.Replica.Reached
import NeuraHash.Corpus.Buckets
import NeuraHash.Experts.Registry
import NeuraHash.Judge.Gate
import NeuraHash.Judge.Rows
import NeuraHash.Judge.Verdicts
import NeuraHash.Updates.Config
import NeuraHash.Updates.Reclaim
import NeuraHash.Updates.Release
import NeuraHash.Updates.Sync
import NeuraHash.Transport.Coordinator
import NeuraHash.Transport.Answers
import NeuraHash.Systems.Preferred
import NeuraHash.Merge.Pay
import NeuraHash.Merge.Pointer
import NeuraHash.Merge.Registry
import NeuraHash.Systems.RankSelect
import NeuraHash.Python.Float32
import NeuraHash.Codec.TopK
import NeuraHash.Python.Rounding
import NeuraHash.Codec.Grid
import NeuraHash.Codec.Delta
import NeuraHash.Codec.RoundTrip
import NeuraHash.Codec.SafeCodec
import NeuraHash.Codec.SafeRoundTrip
import NeuraHash.Codec.HostileFrames
import NeuraHash.Systems.Ewma
import NeuraHash.Ledger.Outcomes
import NeuraHash.Ledger.Retarget
import NeuraHash.Python.Keys
import NeuraHash.Python.JsonRead
import NeuraHash.Ledger.Digest
import NeuraHash.Ledger.Serial
import NeuraHash.Ledger.SetOrder
import NeuraHash.Ledger.Restore
import NeuraHash.Ledger.Runs
import NeuraHash.Ledger.Once
import NeuraHash.Ledger.Atomic
import NeuraHash.Rounds.Acceptance
import NeuraHash.Governance.Orders
import NeuraHash.Governance.Recovery
import NeuraHash.Miner.Walk
import NeuraHash.Updates.Mirrors
import NeuraHash.Updates.Defaults
import NeuraHash.Miner.DoseSearch
import NeuraHash.Python.Matmul
import NeuraHash.Experts.Lora
import NeuraHash.Systems.Grouping
import NeuraHash.Systems.Chunks
import NeuraHash.Experts.LayerStep
import NeuraHash.Systems.Trials
import NeuraHash.Updates.Bundle
import NeuraHash.Systems.HashChain
import NeuraHash.Updates.SignedLog
import NeuraHash.Miner.Wallet
import NeuraHash.Miner.Rotation
import NeuraHash.Systems.Framing
import NeuraHash.Commitments.DeltaAddress
import NeuraHash.Systems.Routing
import NeuraHash.Corpus.Split
import NeuraHash.Systems.Windows
import NeuraHash.Corpus.LeakScan
import NeuraHash.Corpus.Prep
import NeuraHash.Experts.GradCache
