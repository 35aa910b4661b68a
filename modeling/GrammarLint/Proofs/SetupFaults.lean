import GrammarLint.Proofs.Halves
import GrammarLint.Proofs.Setup

/-!
# What setting up can fail with

A configuration file that is read, and the checks that it asks for, fail with faults of
the settings, but for a few causes: the file is no UTF-8 or has an integer that is too long,
its path cannot be used, or a license notice is named that is no path or in the home of nobody
known.  A document in which half of a pair stands alone in a text is set apart.
-/

namespace GrammarLint

open Document Files Text

section Reading

variable {fs : FileSystem} {base : Option Path} {fault : Fault}

end Reading

/-! ## Starting the checks -/

namespace Walker

end Walker

end GrammarLint
