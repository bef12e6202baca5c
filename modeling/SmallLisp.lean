import SmallLisp.Description
import SmallLisp.Machine
import SmallLisp.Proofs.Frames
import SmallLisp.Proofs.RoundTrip
import SmallLisp.Proofs.TemplateFilling
import SmallLisp.Proofs.Chains
import SmallLisp.Proofs.Keywords
import SmallLisp.Proofs.Exports
import SmallLisp.Proofs.Callers
import SmallLisp.Proofs.Reserved
import SmallLisp.Proofs.DepthLimit
import SmallLisp.Proofs.Context
import SmallLisp.Proofs.Sequencing
import SmallLisp.Proofs.Privacy
import SmallLisp.Proofs.TableOperations
import SmallLisp.Proofs.Arguments
import SmallLisp.Proofs.Calls
import SmallLisp.Proofs.ScopeChain
import SmallLisp.Proofs.Guarding
import SmallLisp.Proofs.Allocation
import SmallLisp.Proofs.Clauses
import SmallLisp.Proofs.Shadowing
import SmallLisp.Proofs.HostNames
import SmallLisp.Proofs.Capitals
import SmallLisp.Proofs.ContextMark
import SmallLisp.Proofs.Relaying
import SmallLisp.Proofs.RawFaults
import SmallLisp.Proofs.RelayedForms
import SmallLisp.Proofs.Wrapping
import SmallLisp.Proofs.Unfolding
import SmallLisp.Proofs.Equivalence
import SmallLisp.Proofs.DictionaryMap
import SmallLisp.Proofs.HashTableMap
import SmallLisp.Proofs.ExactArithmetic
import SmallLisp.Proofs.Indexing
import SmallLisp.Proofs.Mapping
import SmallLisp.Proofs.CallPaths
import SmallLisp.Proofs.NumericOrder
import SmallLisp.Proofs.Narrowing
import SmallLisp.Proofs.NestingLimit
import SmallLisp.Proofs.Unquotes
import SmallLisp.Proofs.Regions
import SmallLisp.Proofs.Spacing
import SmallLisp.Proofs.Completion
import SmallLisp.Proofs.Printing
import SmallLisp.Proofs.Elision
import SmallLisp.Proofs.Progress
import SmallLisp.Proofs.Alternatives
import SmallLisp.Proofs.Parsing
import SmallLisp.Proofs.Walks
import SmallLisp.Proofs.Linking
import SmallLisp.Proofs.DiscreetSessions
import SmallLisp.Proofs.LinkedRuns
import SmallLisp.Proofs.Mirrors
import SmallLisp.Proofs.Mirroring
import SmallLisp.Proofs.MirroredLists
import SmallLisp.Proofs.MirroredForms
import SmallLisp.Proofs.MirroredRuns
import SmallLisp.Proofs.MirroredSessions
