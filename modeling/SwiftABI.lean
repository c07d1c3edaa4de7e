import SwiftABI.Description.Basic
import SwiftABI.Node.Draft
import SwiftABI.Proofs.Symbol.Grammar
import SwiftABI.Proofs.Symbol.Merging
import SwiftABI.Proofs.Witness.Buffer
import SwiftABI.Symbol.Mangle
import SwiftABI.Witness.Call
import SwiftABI.Proofs.Symbol.ArgumentChain
import SwiftABI.Proofs.Symbol.Identifier
import SwiftABI.Proofs.Symbol.Operators.Applied
import SwiftABI.Proofs.Symbol.Operators.Builtin
import SwiftABI.Proofs.Symbol.Operators.Entity
import SwiftABI.Proofs.Symbol.Operators.Type
import SwiftABI.Proofs.Symbol.Readable
import SwiftABI.Proofs.Symbol.Specialized
import SwiftABI.Proofs.Description.LabelCount
import SwiftABI.Proofs.Memory.Allocator
import SwiftABI.Proofs.Memory.Refinement
import SwiftABI.Proofs.Symbol.Placement
import SwiftABI.Proofs.Witness.Atomicity
import SwiftABI.Proofs.Record.Packing
import SwiftABI.Proofs.Witness.Layout
import SwiftABI.Proofs.Witness.Functions
import SwiftABI.Proofs.Symbol.MergedItems
import SwiftABI.Proofs.Symbol.Suffix
import SwiftABI.Proofs.Memory.Written
import SwiftABI.Proofs.Witness.SinglePayload
import SwiftABI.Proofs.Witness.Struct
import SwiftABI.Proofs.Witness.InlineBuffer
import SwiftABI.Proofs.Description.Sugar
import SwiftABI.Proofs.Symbol.SubstitutionCalls
import SwiftABI.Proofs.Symbol.BuiltinTypes
import SwiftABI.Proofs.Text.Surrogate
import SwiftABI.Proofs.Symbol.Minimal
import SwiftABI.Proofs.Witness.TagRange
import SwiftABI.Proofs.Record.Bijection
import SwiftABI.Proofs.Description.Hidden
import SwiftABI.Proofs.Witness.Interrupted
import SwiftABI.Proofs.Description.ParameterNames
import SwiftABI.Proofs.Node.Rendering
import SwiftABI.Proofs.Symbol.Symbolic
import SwiftABI.Proofs.Witness.Lifetime
