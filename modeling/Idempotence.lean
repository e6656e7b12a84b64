import Idempotence.Proofs.AttemptReplay
import Idempotence.Proofs.Attempts
import Idempotence.Proofs.BodyHosts
import Idempotence.Proofs.Chronology
import Idempotence.Proofs.ConfigRoundTrip
import Idempotence.Proofs.ContextPhases
import Idempotence.Proofs.ContextTraces
import Idempotence.Proofs.CounterAudit
import Idempotence.Proofs.CreationIndex
import Idempotence.Proofs.DocumentRoundTrip
import Idempotence.Proofs.DurableDeletion
import Idempotence.Proofs.DurableMirror
import Idempotence.Proofs.DurableRefinement
import Idempotence.Proofs.Execution
import Idempotence.Proofs.ExecutionTraces
import Idempotence.Proofs.Extensions
import Idempotence.Proofs.FinalDelivery
import Idempotence.Proofs.FinalPhaseRaces
import Idempotence.Proofs.InstanceLocks
import Idempotence.Proofs.InstanceSeparation
import Idempotence.Proofs.Interleaving
import Idempotence.Proofs.KeyCodes
import Idempotence.Proofs.Lifecycle
import Idempotence.Proofs.LockPromises
import Idempotence.Proofs.Lockstep
import Idempotence.Proofs.MessageRoundTrip
import Idempotence.Proofs.ModeSwitching
import Idempotence.Proofs.NestedTransactions
import Idempotence.Proofs.Observers
import Idempotence.Proofs.OverlappingAttempts
import Idempotence.Proofs.PhaseMessages
import Idempotence.Proofs.PhaseOutcomes
import Idempotence.Proofs.PhaseRaces
import Idempotence.Proofs.ProgramTraces
import Idempotence.Proofs.Programs
import Idempotence.Proofs.PropertyInitialisers
import Idempotence.Proofs.PropertyNames
import Idempotence.Proofs.RepeatedInputs
import Idempotence.Proofs.RequestGate
import Idempotence.Proofs.RetentionInMemory
import Idempotence.Proofs.RetentionProgress
import Idempotence.Proofs.RetentionReach
import Idempotence.Proofs.RetryAfterRetention
import Idempotence.Proofs.RunEquivalence
import Idempotence.Proofs.ShortReals
import Idempotence.Proofs.StepInvariants
import Idempotence.Proofs.StoreCalls
import Idempotence.Proofs.SuccessRecords
import Idempotence.Proofs.TimeArithmetic
import Idempotence.Proofs.TombstoneTopics
import Idempotence.Proofs.TraceBrackets
import Idempotence.Scenario.Play
import Idempotence.Testing.ScriptedRetention
