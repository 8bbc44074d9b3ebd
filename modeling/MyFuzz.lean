import MyFuzz.Scenario.RouterLiveness
import MyFuzz.Scenario.MemoryHistory
import MyFuzz.Scenario.CommitStream
import MyFuzz.Scenario.StateAgreement
import MyFuzz.Scenario.JournalPrefix
import MyFuzz.Scenario.ArtifactRoundTrip
import MyFuzz.Scenario.ReplayIdentity
import MyFuzz.Scenario.SchedulerTiming
import MyFuzz.Riscv.MemoryPromise
import MyFuzz.Scenario.InputOwnership
import MyFuzz.Scenario.RegisterAccess
import MyFuzz.Scenario.RetirementOnce
import MyFuzz.Scenario.RetirementUncertainty
import MyFuzz.Scenario.SnapshotWitness
import MyFuzz.Composition.AddressExchange
import MyFuzz.Composition.ConstraintDocument
import MyFuzz.Composition.MemoryLaw
import MyFuzz.Composition.RequestResponses
import MyFuzz.Composition.EntropyLatch
import MyFuzz.Fuzz.WordSpacesLaw
import MyFuzz.Scenario.IrqMasking
import MyFuzz.Scenario.ChunkAssembler
import MyFuzz.Scenario.DelayBounds
import MyFuzz.Scenario.RouterCancellation
import MyFuzz.Scenario.CompiledMutation
import MyFuzz.Composition.TopkLaw
import MyFuzz.Composition.RuntimeLaw
import MyFuzz.Scenario.StrictDecoding
import MyFuzz.Scenario.UartLoopback
import MyFuzz.Scenario.StreamedJson
import MyFuzz.Scenario.ReceiptRetirement
import MyFuzz.Scenario.ResetAtomicity
import MyFuzz.Scenario.QuiesceProgress
import MyFuzz.Scenario.InstructionMutation
import MyFuzz.Scenario.SpiTransfer
import MyFuzz.Scenario.I2cSession
import MyFuzz.Riscv.OperandRecovery
import MyFuzz.Integration.RfuzzFraming
import MyFuzz.Composition.ClosureLaw
import MyFuzz.Fuzz.CorpusLaw
import MyFuzz.Fuzz.FeedbackLaw
import MyFuzz.Fuzz.F1Rv64Admissible
import MyFuzz.Composition.BalancedSelection
import MyFuzz.Composition.RuntimeReach
import MyFuzz.Fuzz.MustKnown
