import PlainC.Proofs.Scanning.Layout
import PlainC.Proofs.Scanning.Longest

set_option autoImplicit false

/-!
Comments between their marks. The regular language of these comments is that of the texts that end at
their first closing mark, so the longest match of it is the only one, and nothing in a comment or
behind it makes a difference to its end.
-/

open Computability

namespace PlainC

open Pattern

/-! ### The language of comments -/

namespace LexemeRule

end LexemeRule

end PlainC
