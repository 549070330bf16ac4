import Quire.Stage
import Quire.Shelf
import Quire.Json.Codec
import Quire.Proofs.CellHeap
import Quire.Proofs.Ownership
import Quire.Proofs.Blocks
import Quire.Proofs.Deferral
import Quire.Proofs.Inclusion
import Quire.Proofs.Inheritance
import Quire.Proofs.Building
import Quire.Proofs.ReferenceGraph
import Quire.Proofs.Depth
import Quire.Proofs.BlockNames
import Quire.Proofs.Termination
import Quire.Proofs.Nesting
import Quire.Proofs.Sharing
import Quire.Proofs.Settings
import Quire.Proofs.Markup
import Quire.Proofs.Bracketing
import Quire.Proofs.Variables
import Quire.Proofs.Dependence
import Quire.Proofs.QueueOrder
import Quire.Proofs.LoadErrors
import Quire.Proofs.LoopRounds
import Quire.Proofs.Conditions
import Quire.Proofs.Branches
import Quire.Proofs.LoopNames
import Quire.Proofs.Unfolding
import Quire.Proofs.Renderer
import Quire.Proofs.ErrorKinds
import Quire.Proofs.ChunkedRendering
import Quire.Proofs.Comparisons
import Quire.Proofs.Equality
import Quire.Proofs.LoadChains
import Quire.Proofs.Membership
import Quire.Proofs.Interchange
import Quire.Proofs.Digits
import Quire.Proofs.LoopGrammar
import Quire.Proofs.JsonText
import Quire.Proofs.ShortestDecimals
import Quire.Proofs.Numerals
import Quire.Proofs.ValueDocuments
import Quire.Proofs.Storage
