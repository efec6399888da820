import GrammarTypes.Command.Run
import GrammarTypes.Main
import GrammarTypes.Proofs.CharClass.Expansion
import GrammarTypes.Proofs.Command.Atomicity
import GrammarTypes.Proofs.Command.Inputs
import GrammarTypes.Proofs.Command.Session
import GrammarTypes.Proofs.Command.StandardInput
import GrammarTypes.Proofs.Decode.Agreement.Basic
import GrammarTypes.Proofs.Decode.Agreement.Expression
import GrammarTypes.Proofs.Decode.Agreement.Failure
import GrammarTypes.Proofs.Decode.Agreement.Grammar
import GrammarTypes.Proofs.Decode.Agreement.Record
import GrammarTypes.Proofs.Decode.Encoding
import GrammarTypes.Proofs.Decode.Members
import GrammarTypes.Proofs.Decode.Parts
import GrammarTypes.Proofs.Decode.UnknownKind
import GrammarTypes.Proofs.Derivation.Decider
import GrammarTypes.Proofs.Derivation.Entries
import GrammarTypes.Proofs.Derivation.Failure
import GrammarTypes.Proofs.Derivation.FirstFailure
import GrammarTypes.Proofs.Derivation.Induction
import GrammarTypes.Proofs.Derivation.Labels
import GrammarTypes.Proofs.Derivation.Log
import GrammarTypes.Proofs.Derivation.NormalForm
import GrammarTypes.Proofs.Derivation.Operators
import GrammarTypes.Proofs.Derivation.Outline
import GrammarTypes.Proofs.Derivation.Rescoping
import GrammarTypes.Proofs.Derivation.RuleReferences
import GrammarTypes.Proofs.Derivation.Wrappers
import GrammarTypes.Proofs.Emission
import GrammarTypes.Proofs.Emission.Composition
import GrammarTypes.Proofs.Emission.Independence
import GrammarTypes.Proofs.Emission.Listing
import GrammarTypes.Proofs.Expr.Code
import GrammarTypes.Proofs.FileTree.Changes
import GrammarTypes.Proofs.Glob.Matching
import GrammarTypes.Proofs.Helper.Allocation
import GrammarTypes.Proofs.Helper.Collisions
import GrammarTypes.Proofs.Helper.Names
import GrammarTypes.Proofs.Helper.References
import GrammarTypes.Proofs.Json.Document
import GrammarTypes.Proofs.Json.Literals
import GrammarTypes.Proofs.Json.Numbers
import GrammarTypes.Proofs.Json.Reading
import GrammarTypes.Proofs.Json.Skipping
import GrammarTypes.Proofs.Json.Strings
import GrammarTypes.Proofs.Outcome
import GrammarTypes.Proofs.Repeats
import GrammarTypes.Proofs.Scope.Band
import GrammarTypes.Proofs.Scope.Bindings
import GrammarTypes.Proofs.Scope.Growth
import GrammarTypes.Proofs.Scope.Merge
import GrammarTypes.Proofs.Text.Literal
import GrammarTypes.Proofs.Ty.Algebra
import GrammarTypes.Proofs.Ty.Atoms
import GrammarTypes.Proofs.Ty.Normal
import GrammarTypes.Proofs.Ty.Rendering
