import JsonScript.CommandLine.Invocation
import JsonScript.Main
import JsonScript.Proofs.Acceptance
import JsonScript.Proofs.Assignments
import JsonScript.Proofs.Batch
import JsonScript.Proofs.CallRanks
import JsonScript.Proofs.Complaints
import JsonScript.Proofs.Counts
import JsonScript.Proofs.DepthLimit
import JsonScript.Proofs.DialogueLines
import JsonScript.Proofs.DocumentReadings
import JsonScript.Proofs.Draining
import JsonScript.Proofs.EvaluationOrder
import JsonScript.Proofs.Exhaustion
import JsonScript.Proofs.Failures
import JsonScript.Proofs.Fallbacks
import JsonScript.Proofs.Independence
import JsonScript.Proofs.Invocations
import JsonScript.Proofs.Isolation
import JsonScript.Proofs.ListedValues
import JsonScript.Proofs.LogSizes
import JsonScript.Proofs.MemberOrder
import JsonScript.Proofs.Mentions
import JsonScript.Proofs.NormalForm
import JsonScript.Proofs.NumberTexts
import JsonScript.Proofs.OptionPairs
import JsonScript.Proofs.Origins
import JsonScript.Proofs.PlaceTexts
import JsonScript.Proofs.Redefinitions
import JsonScript.Proofs.Relocation
import JsonScript.Proofs.Repetition
import JsonScript.Proofs.RoutinePlaces
import JsonScript.Proofs.Scopes
import JsonScript.Proofs.Sequences
import JsonScript.Proofs.Session
import JsonScript.Proofs.Spelling
import JsonScript.Proofs.StepBudget
import JsonScript.Proofs.StepLimit
import JsonScript.Proofs.Types
import JsonScript.Proofs.Unfolding
import JsonScript.Proofs.UnknownActions
import JsonScript.Proofs.WhilstFree
