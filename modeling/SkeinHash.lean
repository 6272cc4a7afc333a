import SkeinHash.AttributeFile.Requests
import SkeinHash.AttributeFile.Run
import SkeinHash.AttributeFile.Written
import SkeinHash.Composition
import SkeinHash.Context.History
import SkeinHash.Context.Lifecycle
import SkeinHash.Context.Secrecy
import SkeinHash.KnownAnswer.Run
import SkeinHash.KnownAnswer.Written
import SkeinHash.Mac
import SkeinHash.RangeChecked.Calls
import SkeinHash.Threefish.Permuted
import SkeinHash.Ubi.Blockwise
import SkeinHash.Ubi.Transcript
import SkeinHash.Proofs.PassProgress
import SkeinHash.Proofs.StreamedPass
import SkeinHash.Proofs.HashPasses
import SkeinHash.Proofs.ContextOperations
import SkeinHash.Proofs.PassComposition
import SkeinHash.Proofs.JobReplay
import SkeinHash.Proofs.LifecycleSimulation
import SkeinHash.Proofs.LittleEndianCodec
import SkeinHash.Proofs.WordPairs
import SkeinHash.Proofs.CipherInverse
import SkeinHash.Proofs.FrontEnds
import SkeinHash.Proofs.PermutedRounds
import SkeinHash.Proofs.PassCalls
import SkeinHash.Proofs.TranscriptInjective
import SkeinHash.Proofs.CipherRange
import SkeinHash.Proofs.PassRange
import SkeinHash.Proofs.CallRange
import SkeinHash.Proofs.DigitReading
import SkeinHash.Proofs.DataLineReading
import SkeinHash.Proofs.HeaderLine
import SkeinHash.Proofs.WrittenLines
import SkeinHash.Proofs.ReaderMoves
import SkeinHash.Proofs.WrittenVectors
import SkeinHash.Proofs.ReadingSound
import SkeinHash.Proofs.CaseLayout
import SkeinHash.Proofs.FailedCalls
import SkeinHash.Proofs.LeadingBits
import SkeinHash.Proofs.SecretIndependence
import SkeinHash.Proofs.ConsumedOnce
import SkeinHash.Proofs.TagVerification
import SkeinHash.Proofs.CheckedVectors
import SkeinHash.Proofs.JoinedFiles
import SkeinHash.Proofs.DataLineFaults
import SkeinHash.Proofs.HeldBackBlock
import SkeinHash.Proofs.HexDecoding
