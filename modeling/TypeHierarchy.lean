import TypeHierarchy.Bounds.Family
import TypeHierarchy.Census
import TypeHierarchy.Interchange.Report
import TypeHierarchy.Logging.Settings
import TypeHierarchy.Qualifier
import TypeHierarchy.Rendering
import TypeHierarchy.Workspace
import TypeHierarchy.Proofs.Outcome
import TypeHierarchy.Proofs.Reachable
import TypeHierarchy.Proofs.Traversal
import TypeHierarchy.Proofs.Reduction
import TypeHierarchy.Proofs.Recursion
import TypeHierarchy.Proofs.Subtyping
import TypeHierarchy.Proofs.Transitivity
import TypeHierarchy.Proofs.Flattening
import TypeHierarchy.Proofs.Bases
import TypeHierarchy.Proofs.Antichain
import TypeHierarchy.Proofs.Collection
import TypeHierarchy.Proofs.Bounds
import TypeHierarchy.Proofs.CommonSubtypes
import TypeHierarchy.Proofs.LowerBounds
import TypeHierarchy.Proofs.CommonSupertypes
import TypeHierarchy.Proofs.Pairwise
import TypeHierarchy.Proofs.Interpretation
import TypeHierarchy.Proofs.Nesting
import TypeHierarchy.Proofs.Growth
import TypeHierarchy.Proofs.Arrangement
import TypeHierarchy.Proofs.Classification
import TypeHierarchy.Proofs.Isolation
import TypeHierarchy.Proofs.Fields
import TypeHierarchy.Proofs.Membership
import TypeHierarchy.Proofs.Acyclic
import TypeHierarchy.Proofs.Kinds
import TypeHierarchy.Proofs.Expansion
import TypeHierarchy.Proofs.Spelling
import TypeHierarchy.Proofs.Totality
import TypeHierarchy.Proofs.ForeignTypes
import TypeHierarchy.Proofs.BoundForms
import TypeHierarchy.Proofs.Mirror
import TypeHierarchy.Proofs.Transfer
import TypeHierarchy.Proofs.Copy
import TypeHierarchy.Proofs.Extension
import TypeHierarchy.Proofs.Reordering
import TypeHierarchy.Proofs.Report
import TypeHierarchy.Proofs.Duplicate
import TypeHierarchy.Proofs.Clone
import TypeHierarchy.Proofs.Sketch
import TypeHierarchy.Proofs.Registration
import TypeHierarchy.Proofs.Legibility
import TypeHierarchy.Proofs.Structure
import TypeHierarchy.Proofs.Atomicity
import TypeHierarchy.Proofs.Warnings
import TypeHierarchy.Proofs.Outline
import TypeHierarchy.Proofs.Tracing
import TypeHierarchy.Proofs.DepthFirst
import TypeHierarchy.Proofs.Census
import TypeHierarchy.Proofs.TextOrder
import TypeHierarchy.Proofs.DiagnosticOrder
import TypeHierarchy.Proofs.Additions
