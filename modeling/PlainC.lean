import PlainC.Main
import PlainC.Proofs.Grammar.Exact
import PlainC.Proofs.Program.Bodies
import PlainC.Proofs.Program.Extending
import PlainC.Proofs.Program.Inserting
import PlainC.Proofs.Program.Table
import PlainC.Proofs.Program.Renaming
import PlainC.Proofs.Anchoring.Source
import PlainC.Proofs.Structs.Analysis
import PlainC.Proofs.Typing.Analysis
import PlainC.Proofs.Program.Kinds
import PlainC.Proofs.Machine.Collisions
import PlainC.Proofs.Scanning.Layout
import PlainC.Proofs.Cursor.Program
import PlainC.Proofs.Structs.Nesting
import PlainC.Proofs.Interned.Externals
import PlainC.Proofs.Guarded.Program
import PlainC.Proofs.Grammar.Viable
import PlainC.Proofs.Sizes.Declarators
import PlainC.Proofs.Void.Uses
import PlainC.Proofs.Loops.Exact
import PlainC.Proofs.Literals.Exact
import PlainC.Proofs.Literals.Strings
import PlainC.Proofs.Initializing.Analysis
import PlainC.Proofs.Regrouping.Program
import PlainC.Proofs.Blocks.Program
import PlainC.Proofs.Scanning.Adjacent
import PlainC.Proofs.Typing.Arithmetic
import PlainC.Proofs.Listings.Tokens
import PlainC.Proofs.Typing.Casts
import PlainC.Proofs.Declaring.Records
import PlainC.Proofs.Listings.Symbols
