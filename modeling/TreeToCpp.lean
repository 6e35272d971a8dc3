import TreeToCpp.CommandLine.FileSystem
import TreeToCpp.Main
import TreeToCpp.Proofs.WireReading
import TreeToCpp.Proofs.LexicalScope
import TreeToCpp.Proofs.Acceptance
import TreeToCpp.Proofs.ReadingBack
import TreeToCpp.Proofs.Unwinding
import TreeToCpp.Proofs.Nesting
import TreeToCpp.Proofs.Spelling
import TreeToCpp.Proofs.Configuration
import TreeToCpp.Proofs.Reordering
import TreeToCpp.Proofs.Respelling
import TreeToCpp.Proofs.Addresses
import TreeToCpp.Proofs.Annotations
import TreeToCpp.Proofs.Grouping
import TreeToCpp.Proofs.Delivery
import TreeToCpp.Proofs.FieldByField
import TreeToCpp.Proofs.Complaints
import TreeToCpp.Proofs.UnknownTags
import TreeToCpp.Proofs.Parameters
import TreeToCpp.Proofs.Transcript
import TreeToCpp.Proofs.Evaluation
import TreeToCpp.Proofs.TopLevelNames
import TreeToCpp.Proofs.StringLiterals
import TreeToCpp.Proofs.ScopeHistory
import TreeToCpp.Proofs.SignsApart
