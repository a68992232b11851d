import ByteBricks.Main
import ByteBricks.Proofs.Execution.Ledger
import ByteBricks.Proofs.Execution.Reuse
import ByteBricks.Proofs.Execution.Footprint
import ByteBricks.Proofs.Execution.Repeat
import ByteBricks.Proofs.Syntax.Reading
import ByteBricks.Proofs.Template.Behind
import ByteBricks.Proofs.Syntax.Names
import ByteBricks.Proofs.Template.Room
import ByteBricks.Proofs.Template.Sequence
import ByteBricks.Proofs.Execution.Sequence
import ByteBricks.Proofs.Syntax.Proper
import ByteBricks.Proofs.Syntax.Words
import ByteBricks.Proofs.Template.Rereading
import ByteBricks.Proofs.Template.Apart
import ByteBricks.Proofs.Template.RoundTrip
import ByteBricks.Proofs.Syntax.Derivation
import ByteBricks.Proofs.Execution.Independence
import ByteBricks.Proofs.Execution.Advance
import ByteBricks.Proofs.Wall.Alignment
import ByteBricks.Proofs.Wall.Overlap
import ByteBricks.Proofs.Syntax.Places
import ByteBricks.Proofs.Execution.Lines
import ByteBricks.Proofs.Template.Places
import ByteBricks.Proofs.Execution.Places
import ByteBricks.Proofs.Syntax.Senses
import ByteBricks.Proofs.Template.Senses
import ByteBricks.Proofs.Token.Pieces
import ByteBricks.Proofs.Template.Acceptance
import ByteBricks.Proofs.Template.WellFormed
import ByteBricks.Proofs.Execution.Members
import ByteBricks.Proofs.BlockStore
import ByteBricks.Proofs.Token.Lines
import ByteBricks.Proofs.Execution.Views
import ByteBricks.Proofs.Template.Compiler
import ByteBricks.Proofs.Wall.Lookup
import ByteBricks.Proofs.Wall.Order
import ByteBricks.Proofs.Execution.Exact
import ByteBricks.Proofs.Execution.Structs
import ByteBricks.Proofs.Wall.Naming
import ByteBricks.Proofs.Syntax.Delimiters
import ByteBricks.Proofs.Builtin.Wave
import ByteBricks.Proofs.Builtin.Bitmap
import ByteBricks.Proofs.Wall.Contact
import ByteBricks.Proofs.Primitive
import ByteBricks.Proofs.NameTable.Foreign
import ByteBricks.Proofs.Label
import ByteBricks.Proofs.Syntax.Orderly
