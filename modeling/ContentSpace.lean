import ContentSpace.CanonicalText.Stream
import ContentSpace.Compile
import ContentSpace.Proofs.CanonicalText.Canonicity
import ContentSpace.Proofs.CanonicalText.Cursor.Safety
import ContentSpace.Proofs.CanonicalText.Key
import ContentSpace.Proofs.Desugar.Freshness
import ContentSpace.Proofs.Desugar.Hygiene
import ContentSpace.Proofs.Desugar.Idempotence
import ContentSpace.Proofs.Desugar.Material
import ContentSpace.Proofs.Grammar.Descent.Budget
import ContentSpace.Proofs.Grammar.Height.Program
import ContentSpace.Proofs.Grammar.Limit.Program
import ContentSpace.Proofs.Grammar.Name
import ContentSpace.Proofs.Grammar.Placement.Program
import ContentSpace.Proofs.Grammar.Stage.Nested
import ContentSpace.Proofs.Space.Bracket
import ContentSpace.Proofs.Space.Part
import ContentSpace.Proofs.Space.Log
import ContentSpace.Proofs.Table.Order
import ContentSpace.Proofs.Table.Return
import ContentSpace.Table.Operation
import ContentSpace.Tree.Equality
import ContentSpace.Tree.Printer
import ContentSpace.Tree.Walk
import ContentSpace.Value.Display
import ContentSpace.Proofs.Grammar.Spelling.Literal
import ContentSpace.Proofs.Grammar.Trace.Basic
import ContentSpace.Proofs.Grammar.Trace.Expression
import ContentSpace.Proofs.Grammar.Trace.Statement
import ContentSpace.Proofs.Grammar.Trace.Program
import ContentSpace.Proofs.Grammar.Declaration
import ContentSpace.Proofs.Grammar.Spelling.Signed
import ContentSpace.Proofs.Space.Stored
import ContentSpace.Proofs.Space.Unknown
import ContentSpace.Proofs.Value.Hash
