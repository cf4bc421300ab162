import Dittor.Lib.Exponent
import Dittor.Lib.Interpolation
import Dittor.Lib.Run
import Dittor.Lib.Expression
import Dittor.Lib.JavaText
import Dittor.Lib.Smartlist
import Dittor.Lib.FirstGreatest
import Dittor.Lib.Edits
import Dittor.Lib.Decimal
import Dittor.Crypto.Group
import Dittor.Crypto.CA
import Dittor.Crypto.Vrf
import Dittor.Crypto.User
import Dittor.Crypto.DA
import Dittor.Dkg.Protocol
import Dittor.Dkg.Actions
import Dittor.Dkg.Network
import Dittor.Dkg.Invariant
import Dittor.Dkg.Link
import Dittor.Dkg.Reachable
import Dittor.Dkg.Honest
import Dittor.Dkg.Progress
import Dittor.Dkg.Disqualify
import Dittor.Dkg.Binding
import Dittor.Dkg.Turn
import Dittor.Dkg.Agreement
import Dittor.Dkg.Dealing
import Dittor.Dkg.Exceptions
import Dittor.Dkg.Entries
import Dittor.Registration.Protocol
import Dittor.Dkg.Finality
import Dittor.Registration.Issuance
import Dittor.Registration.Forgery
import Dittor.Registration.DAServer
import Dittor.Registration.Family
import Dittor.Registration.Registry
import Dittor.Registration.EntryPoints
import Dittor.Registration.Faulty
import Dittor.Tor.Descriptor
import Dittor.Tor.Tokenizer
import Dittor.Tor.Enforcement
import Dittor.Tor.Rejection
import Dittor.Tor.Pipeline
import Dittor.Tor.Signatures
import Dittor.Tor.Votes
import Dittor.Tor.SignedRange
import Dittor.Tor.Base64
import Dittor.Tor.ConsDiff
import Dittor.Tor.DiffApply
import Dittor.Tor.DiffDocument
import Dittor.Tor.SignatureText
import Dittor.Tor.DetachedParse
import Dittor.Tor.PendingConsensus
import Dittor.Tor.PublishedBody
import Dittor.Tor.RouterEntry
import Dittor.Tor.SignedItems
import Dittor.Lib.Qsort
import Dittor.Lib.Checks
import Dittor.Tor.DetachedDigests
import Dittor.Tor.ConsensusQuorum
import Dittor.Tor.SharedRandom
import Dittor.Tor.SrBinding
import Dittor.Tor.SrRuns
import Dittor.Tor.SrValue
import Dittor.Tor.Protover
import Dittor.Tor.TorVersion
import Dittor.Tor.VoteParse
import Dittor.Registration.Resubmission
import Dittor.Tor.Keypin
import Dittor.Tor.KeypinJournal
import Dittor.Tor.Collation
import Dittor.Tor.CollationMajority
import Dittor.Lib.Pqueue
import Dittor.Tor.Conflux
import Dittor.Tor.ConfluxOrder
import Dittor.Crypto.Blindness
import Dittor.Tor.Injection
import Dittor.Lib.Wire
import Dittor.Registration.Messages
import Dittor.Tor.FamilyCerts
import Dittor.Tor.TokenTable
import Dittor.Lib.Tiling
import Dittor.Tor.Address
import Dittor.Tor.ExitPolicy
import Dittor.Tor.PolicySummary
import Dittor.Lib.TruncDiv
import Dittor.Lib.Signed
import Dittor.Lib.FirstMatch
import Dittor.Tor.BwWeights
import Dittor.Tor.PolicyMatch
import Dittor.Tor.PolicyRedundancies
import Dittor.Lib.NetMask
import Dittor.Tor.GeneralExit
import Dittor.Lib.Compare
import Dittor.Lib.Classes
import Dittor.Tor.Params
import Dittor.Lib.Arrangements
import Dittor.Tor.ConsensusMethod
import Dittor.Tor.RouterstatusVote
import Dittor.Tor.SummaryMeaning
import Dittor.Tor.ShortPolicy
import Dittor.Tor.SummarySound
import Dittor.Lib.BitPrefix
import Dittor.Tor.MaskBits
import Dittor.Tor.AddressText
import Dittor.Tor.PolicyText
import Dittor.Tor.PolicyReread
import Dittor.Tor.PolicyRoundTrip
import Dittor.Tor.BwTotals
import Dittor.Lib.LowestBit
import Dittor.Tor.ProtoverRoundTrip
import Dittor.Tor.LetterCase
import Dittor.Tor.ProtoverVote
import Dittor.Tor.ProtoverQuery
import Dittor.Lib.LineEditor
import Dittor.Tor.EdScript
import Dittor.Lib.CommonSubsequence
import Dittor.Tor.ChangesOptimal
import Dittor.Lib.Words
import Dittor.Tor.NodeFamily
import Dittor.Tor.FamilyText
import Dittor.Lib.FirstOfClass
import Dittor.Tor.SrvElection
import Dittor.Tor.VoteText
import Dittor.Tor.VoteSequence
import Dittor.Tor.AddVote
import Dittor.Lib.CheckedInt
import Dittor.Tor.BwInt64
import Dittor.Tor.BwOverflow
import Dittor.Lib.PrefixCode
import Dittor.Lib.Buffer
import Dittor.Crypto.RevealText
import Dittor.Tor.CellFormat
import Dittor.Lib.PqueueRemove
import Dittor.Tor.SmartlistPqueue
import Dittor.Tor.PqueueRuns
import Dittor.Lib.FixedWidth
import Dittor.Tor.TokenBucket
import Dittor.Tor.Binascii
import Dittor.Tor.BinasciiBase64
import Dittor.Tor.EscapedString
import Dittor.Tor.Kvline
import Dittor.Lib.AckWindow
import Dittor.Tor.CongestionControl
import Dittor.Tor.Sendme
import Dittor.Tor.SendmeWindow
import Dittor.Tor.SendmeStream
import Dittor.Tor.SendmeNetwork
import Dittor.Tor.SendmePeer
import Dittor.Tor.VegasBounds
import Dittor.Tor.SendmeLiveness
import Dittor.Tor.VotingSchedule
import Dittor.Lib.Buckets
import Dittor.Tor.HashTable
import Dittor.Tor.HashIterators
import Dittor.Tor.Map
import Dittor.Registration.Admission
import Dittor.Tor.Buffers
import Dittor.Tor.BufferOps
import Dittor.Tor.BufferRuns
import Dittor.Lib.Occurrence
import Dittor.Tor.BufferSearch
