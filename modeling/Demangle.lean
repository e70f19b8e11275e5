import Demangle.CommandLine
import Demangle.Cursor
import Demangle.Decode
import Demangle.Fault
import Demangle.Fixture
import Demangle.GenericParameter
import Demangle.Kind.Basic
import Demangle.Kind.Name
import Demangle.Kind.Role
import Demangle.Log
import Demangle.Main
import Demangle.Operand.Basic
import Demangle.Operator.Entity
import Demangle.Operator.FunctionType
import Demangle.Operator.Generic
import Demangle.Operator.Identifier
import Demangle.Operator.Metadata
import Demangle.Operator.Nominal
import Demangle.Operator.Reference
import Demangle.Operator.SpecialType
import Demangle.Operator.Specialization
import Demangle.Operator.Table
import Demangle.Operator.Thunk
import Demangle.Operator.Witness
import Demangle.ParamChange
import Demangle.Punycode
import Demangle.Render
import Demangle.Render.Entity
import Demangle.Render.Layout
import Demangle.Render.Options
import Demangle.Render.Printer
import Demangle.Render.Specialization
import Demangle.Render.Thunk
import Demangle.Render.Type
import Demangle.Symbol.Basic
import Demangle.Symbol.Dump
import Demangle.Text.Blank
import Demangle.Text.Escape
import Demangle.Text.Line
import Demangle.ValueWitness
import Demangle.WordTable
import Demangle.Proofs.Symbol.Arity
import Demangle.Proofs.Cursor.Forward
import Demangle.Proofs.Cursor.Ahead
import Demangle.Proofs.Cursor.Actions
import Demangle.Proofs.Loop
import Demangle.Proofs.Operand.Builds
import Demangle.Proofs.Operator.Nominal
import Demangle.Proofs.Operator.FunctionType
import Demangle.Proofs.Operator.Generic
import Demangle.Proofs.Operator.Bound
import Demangle.Proofs.Operator.Labels
import Demangle.Proofs.Operator.Entity
import Demangle.Proofs.Operator.Thunk
import Demangle.Proofs.Operator.Identifier
import Demangle.Proofs.Operator.Table
import Demangle.Proofs.Decode
import Demangle.Proofs.Embedding
import Demangle.Proofs.Cursor.Integer
import Demangle.Proofs.Cursor.Stop
import Demangle.Proofs.Operand.Eval
import Demangle.Proofs.Run
import Demangle.Proofs.Operand.Pops
import Demangle.Proofs.Operand.Stop
import Demangle.Proofs.Operator.Pops
import Demangle.Proofs.Operator.Local
import Demangle.Proofs.Starts
import Demangle.Proofs.Faults
import Demangle.Proofs.Operator.Loops
import Demangle.Proofs.Operator.Stop
import Demangle.Proofs.Progress
import Demangle.Proofs.Suffix
import Demangle.Proofs.Render.Alike
import Demangle.Proofs.Render.Switch
import Demangle.Proofs.Render.Rules
import Demangle.Proofs.Render.Guard
import Demangle.Proofs.Render.Independence
import Demangle.Proofs.Render.Nesting
import Demangle.Proofs.Render.Deferred
import Demangle.Proofs.Render.Own
import Demangle.Proofs.Render.Calls
import Demangle.Proofs.Render.Kept
import Demangle.Proofs.Mangling.Type
import Demangle.Proofs.Mangling.RoundTrip
import Demangle.Proofs.Fold
import Demangle.Proofs.Mangling.Record
import Demangle.Proofs.Mangling.Identifier
import Demangle.Proofs.Mangling.Reference
import Demangle.Proofs.Mangling.SymbolicReference
import Demangle.Proofs.Mangling.Signature
import Demangle.Proofs.Operator.Specialization
import Demangle.Proofs.Operator.Lowered
import Demangle.Proofs.Operator.Segments
import Demangle.Proofs.Made.Basic
import Demangle.Proofs.Made.Entity
import Demangle.Proofs.Made.Operators
import Demangle.Proofs.Made.Decode
import Demangle.Proofs.Made.Everywhere
import Demangle.Proofs.ArgumentCount
import Demangle.Proofs.Numbering
import Demangle.Proofs.Punycode.Insertion
import Demangle.Proofs.Punycode.Encode
import Demangle.Proofs.Punycode.RoundTrip
import Demangle.Proofs.Punycode.Machine
import Demangle.Proofs.Text
import Demangle.Proofs.Log
import Demangle.Proofs.CommandLine
import Demangle.Proofs.Fixture
import Demangle.Proofs.Cursor.Decimal
import Demangle.Proofs.GenericParameter
import Demangle.Proofs.Kind
import Demangle.Proofs.Symbol.Dump
import Demangle.Proofs.Text.Unescape
import Demangle.Proofs.WordPieces
