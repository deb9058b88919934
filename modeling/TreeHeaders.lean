import TreeHeaders.Main
import TreeHeaders.Proofs.DeclaredNames
import TreeHeaders.Proofs.Guard
import TreeHeaders.Proofs.VisitorNamespace
import TreeHeaders.Proofs.Overriding
import TreeHeaders.Proofs.Selection
import TreeHeaders.Proofs.Execution
import TreeHeaders.Proofs.Truthfulness
import TreeHeaders.Proofs.VariantOrder
import TreeHeaders.Proofs.DocumentEncoding
import TreeHeaders.Proofs.DocumentShape
import TreeHeaders.Proofs.Layout
import TreeHeaders.Proofs.Preview
import TreeHeaders.Proofs.HeaderLayout
import TreeHeaders.Proofs.GuardForm
import TreeHeaders.Proofs.Construction
import TreeHeaders.Proofs.DependencyOrder
import TreeHeaders.Proofs.VisitorScope
import TreeHeaders.Proofs.NodeScope
import TreeHeaders.Proofs.Aliases
import TreeHeaders.Proofs.LineEnds
import TreeHeaders.Proofs.Interruption
import TreeHeaders.Proofs.Retyping
import TreeHeaders.Proofs.Namespaces
import TreeHeaders.Proofs.TypeTexts
