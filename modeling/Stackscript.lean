import Stackscript.Main
import Stackscript.Proofs.Runs
import Stackscript.Proofs.LabelMachine
import Stackscript.Proofs.Codec
import Stackscript.Proofs.Lists
import Stackscript.Proofs.Slots
import Stackscript.Proofs.Layout
import Stackscript.Proofs.AssemblyRefinement
import Stackscript.Proofs.Assemblable
import Stackscript.Proofs.Renaming
import Stackscript.Proofs.RenamedEffects
import Stackscript.Proofs.FoldPending
import Stackscript.Proofs.FoldPlaces
import Stackscript.Proofs.FoldSimulation
import Stackscript.Proofs.FoldSound
import Stackscript.Proofs.Evaluator
import Stackscript.Proofs.Emission
import Stackscript.Proofs.LoweringErrors
import Stackscript.Proofs.LoweringPoints
import Stackscript.Proofs.LoweringSpec
import Stackscript.Proofs.BlockGrowth
import Stackscript.Proofs.Mentions
import Stackscript.Proofs.LoweringVariables
import Stackscript.Proofs.Sites
import Stackscript.Proofs.LoweringSimulation
import Stackscript.Proofs.CallSimulation
import Stackscript.Proofs.Construction
import Stackscript.Proofs.ControlFlow
import Stackscript.Proofs.CodeBounds
import Stackscript.Proofs.ShortChunks
import Stackscript.Proofs.LoweringCorrect
import Stackscript.Proofs.MachineSteps
import Stackscript.Proofs.Levels
import Stackscript.Proofs.ChunkLevels
import Stackscript.Proofs.StackDiscipline
import Stackscript.Proofs.CallIsolation
import Stackscript.Proofs.KnownFunctions
import Stackscript.Proofs.OperandRanges
import Stackscript.Proofs.MachineSafety
import Stackscript.Proofs.CallCharges
import Stackscript.Proofs.BudgetRuns
import Stackscript.Proofs.ArrayGraph
import Stackscript.Proofs.Rendering
import Stackscript.Proofs.ArrayWrites
import Stackscript.Proofs.Safety
import Stackscript.Proofs.StaticRules
import Stackscript.Proofs.StaticScopes
import Stackscript.Proofs.StaticCheck
import Stackscript.Proofs.CodecInverse
import Stackscript.Proofs.JumpAddresses
import Stackscript.Proofs.Patching
import Stackscript.Proofs.ExpressionGrammar
import Stackscript.Proofs.ExpressionReaders
import Stackscript.Proofs.ExpressionSound
import Stackscript.Proofs.ExpressionComplete
import Stackscript.Proofs.StatementGrammar
import Stackscript.Proofs.ErrorRecovery
import Stackscript.Proofs.StatementReaders
import Stackscript.Proofs.StatementSound
import Stackscript.Proofs.ScanLossless
import Stackscript.Proofs.StatementComplete
import Stackscript.Proofs.Ownership
import Stackscript.Proofs.OwnershipLowering
import Stackscript.Proofs.FoldFixpoint
import Stackscript.Proofs.AssemblyFaults
import Stackscript.Proofs.SlotAssignment
import Stackscript.Proofs.Unwinding
import Stackscript.Proofs.ScopeBrackets
import Stackscript.Proofs.FunctionTable
import Stackscript.Proofs.ScanBoundaries
import Stackscript.Proofs.ScanNewline
import Stackscript.Proofs.ExactSpans
import Stackscript.Proofs.ExpressionParts
import Stackscript.Proofs.ParserProgress
import Stackscript.Proofs.OnDemand
import Stackscript.Proofs.LexicalErrors
import Stackscript.Proofs.NumberLiterals
import Stackscript.Proofs.QuotedStrings
import Stackscript.Proofs.BlockBuilding
import Stackscript.Proofs.DiagnosticPositions
