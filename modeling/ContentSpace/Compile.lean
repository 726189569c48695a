import ContentSpace.Desugar.Basic
import ContentSpace.Grammar.Program

/-!
# Compiling source text

Source text is parsed to a program, and the program is desugared with temporary names of its own.
The first failure of the parser is the failure of the whole; desugaring cannot fail.
-/

namespace ContentSpace

/-- The program that source text consists of, without sugar. -/
def compile (settings : Settings) (source : String) : Except Failure Program :=
  (parseProgram settings source).map fun program => (program.desugar.run {}).1

end ContentSpace
