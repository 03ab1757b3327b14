import MiniScheme.Session
import MiniScheme.Console.Directory
import MiniScheme.Main
import MiniScheme.Proofs.Bracketing
import MiniScheme.Proofs.Occurrence
import MiniScheme.Proofs.BuiltinFaults
import MiniScheme.Proofs.FormParts
import MiniScheme.Proofs.FormShapes
import MiniScheme.Proofs.Raising
import MiniScheme.Proofs.Nodes
import MiniScheme.Proofs.HeapGrowth
import MiniScheme.Proofs.Regime
import MiniScheme.Proofs.Adequacy
import MiniScheme.Proofs.Regime.Rules
import MiniScheme.Proofs.Termination
import MiniScheme.Proofs.DepthLimit
import MiniScheme.Proofs.Store
import MiniScheme.Proofs.SoundSessions
import MiniScheme.Proofs.Histories
import MiniScheme.Proofs.Segments
import MiniScheme.Proofs.Correspondence
import MiniScheme.Proofs.Correspondence.Heaps
import MiniScheme.Proofs.Correspondence.Rules
import MiniScheme.Proofs.Families
import MiniScheme.Proofs.Correspondence.Evaluate
import MiniScheme.Proofs.Correspondence.States
import MiniScheme.Proofs.Correspondence.Sessions
import MiniScheme.Proofs.Layout
import MiniScheme.Proofs.Inputs
import MiniScheme.Proofs.TypedPrograms
import MiniScheme.Proofs.TokenLayout
import MiniScheme.Proofs.Binary64
import MiniScheme.Proofs.Decimal
import MiniScheme.Proofs.NumberText
import MiniScheme.Proofs.PrintedExpr
import MiniScheme.Proofs.ProgramRuns
import MiniScheme.Proofs.DepthCounter
import MiniScheme.Proofs.Confinement
import MiniScheme.Proofs.BindingHygiene
import MiniScheme.Proofs.Ledger
import MiniScheme.Proofs.Acts
import MiniScheme.Proofs.LetAsCall
import MiniScheme.Proofs.Visibility
import MiniScheme.Proofs.MalformedForms
import MiniScheme.Proofs.Blame
import MiniScheme.Proofs.Purity
import MiniScheme.Proofs.ExactArithmetic
import MiniScheme.Proofs.RealOrder
import MiniScheme.Proofs.IntegerRounding
import MiniScheme.Proofs.NumberOrder
import MiniScheme.Proofs.StructuralEquality
import MiniScheme.Proofs.UnmentionedNames
import MiniScheme.Proofs.ExactQuotients
import MiniScheme.Proofs.ListOperations
import MiniScheme.Proofs.ArgumentBinding
import MiniScheme.Proofs.PrintedData
import MiniScheme.Proofs.AppendedLists
import MiniScheme.Proofs.NumberGrammar
import MiniScheme.Proofs.OptionPositions
import MiniScheme.Proofs.PrintedFormals
import MiniScheme.Proofs.DeclaredArity
