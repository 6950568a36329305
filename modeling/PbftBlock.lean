import PbftBlock.Library.FiniteMaps
import PbftBlock.Library.DistinctVotes
import PbftBlock.Library.GuardedRuns
import PbftBlock.ConsensusMessages
import PbftBlock.ConsensusWorker
import PbftBlock.ConsensusBasics
import PbftBlock.ConsensusHandlers
import PbftBlock.HandlerActions
import PbftBlock.ActionChanges
import PbftBlock.NodeMachine
import PbftBlock.CommitOncePerHeight
import PbftBlock.NodeContents
import PbftBlock.PrepareDigests
import PbftBlock.CertificateVotes
import PbftBlock.ConsensusNetwork
import PbftBlock.NetworkContents
import PbftBlock.Agreement
import PbftBlock.IssuedRequests
import PbftBlock.RequestNumbers
import PbftBlock.CorrectCluster
import PbftBlock.ChainHead
import PbftBlock.ByzantinePeers
import PbftBlock.ByzantineAgreement
import PbftBlock.ProposalValidity
import PbftBlock.VoteAuthenticity
import PbftBlock.RoundSimulation
import PbftBlock.FaultFreeRound
import PbftBlock.StoreKeys
import PbftBlock.RejectedMessages
import PbftBlock.PostedNumbers
import PbftBlock.VerdictFinality
import PbftBlock.BlockPool
import PbftBlock.StartConsensus
import PbftBlock.CertInterleavings
import PbftBlock.Library.BigEndian
import PbftBlock.Library.BlockAbsorption
import PbftBlock.Sm3
import PbftBlock.RlpEncoding
import PbftBlock.RlpStream
import PbftBlock.Library.Ciphers
import PbftBlock.RlpxFrames
import PbftBlock.Sm2
import PbftBlock.Library.Der
import PbftBlock.NodeKeys
import PbftBlock.RlpxHandshake
import PbftBlock.ExecutionSequences
import PbftBlock.HandlerPanics
import PbftBlock.RelayOnce
import PbftBlock.KeyFiles
import PbftBlock.Library.Rlp
import PbftBlock.RlpAcceptance
import PbftBlock.RlpCanonicity
import PbftBlock.DiscoveryPackets
import PbftBlock.DiscoveryTable
import PbftBlock.FindnodeReplies
import PbftBlock.CurveAddition
import PbftBlock.HostileHandshakes
import PbftBlock.HostilePackets
import PbftBlock.Library.FallibleMethods
import PbftBlock.Library.SecretSharing
import PbftBlock.RlpRawValues
import PbftBlock.RlpSplit
import PbftBlock.SecretBackup
import PbftBlock.ShareSecrecy
import PbftBlock.CompressedPoints
import PbftBlock.DegreeReduction
import PbftBlock.ExtendedKeys
import PbftBlock.ExtendedSignatures
import PbftBlock.FieldProducts
import PbftBlock.Library.Words
import PbftBlock.PayloadEncryption
import PbftBlock.Sm3Standard
import PbftBlock.CurveOperations
import PbftBlock.Library.BinaryHeap
import PbftBlock.SubProtocols
import PbftBlock.DialScheduler
import PbftBlock.Library.SmallestFirst
import PbftBlock.NodeLookup
import PbftBlock.PeerAdmission
import PbftBlock.HandlerLoop
import PbftBlock.PeerRun
