import L32.CommandLine.Directory
import L32.CommandLine.Report
import L32.Eval.Run
import L32.Main
import L32.Proofs.Concatenation
import L32.Proofs.Effects
import L32.Proofs.JavaScript.NormalForm
import L32.Proofs.Output
import L32.Proofs.Preservation
import L32.Proofs.Scope
import L32.Proofs.FirstError
import L32.Proofs.Atoms
import L32.Proofs.JavaScript.Offences
import L32.Proofs.Unquoting
import L32.Proofs.Scheme.Lines
import L32.Proofs.Renderings
import L32.Proofs.Scheme.Quoted
import L32.Proofs.Search
import L32.Proofs.Scheme.Unambiguous
import L32.Proofs.DictFree
import L32.Proofs.JavaScript.Numbers
import L32.Proofs.JavaScript.Brackets
import L32.Proofs.Entries
import L32.Proofs.JavaScript.Statements
import L32.Proofs.Let
