import Preload.Compile
import Preload.HostTree.Json
import Preload.Json.Printer
import Preload.Options.OfText
import Preload.Program.Json
import Preload.Proofs.Group.Splitting
import Preload.Proofs.Token.Relexing
import Preload.SupportModule
import Preload.Proofs.Nesting
import Preload.Proofs.Group.Lines
import Preload.Proofs.Program.Reading
import Preload.Proofs.Program.RoundTrip
import Preload.Proofs.Program.Prologue
import Preload.Proofs.Text.Quoted
import Preload.Proofs.Injector.Support
import Preload.Proofs.Injector.Transform
import Preload.Proofs.Program.Hoisting
import Preload.Proofs.Compile.Insertion
import Preload.Proofs.Injector.Persistence
import Preload.Proofs.Path.Resolve
import Preload.Proofs.Path.Relative
import Preload.Proofs.Injector.Reference
import Preload.Proofs.Path.Parent
import Preload.Proofs.FileStore.Writing
import Preload.Proofs.Run.Ledger
import Preload.Proofs.Injector.Backing
import Preload.Proofs.Compile.Independence
import Preload.Proofs.Group.Spreading
import Preload.Proofs.Program.Coverage
import Preload.Proofs.Injector.Outcome
import Preload.Proofs.HostTree.Injection
import Preload.Proofs.Path.Location
import Preload.Proofs.Injector.Matching
import Preload.Proofs.Token.Literals
import Preload.Proofs.Token.Grammar
import Preload.Proofs.Balance
import Preload.Proofs.Program.Verdict
import Preload.Proofs.Group.Rule
import Preload.Proofs.Group.Statements
import Preload.Proofs.Token.Joining
import Preload.Proofs.Program.Joining
import Preload.Proofs.Path.Specifier
import Preload.Proofs.Program.Ranking
import Preload.Proofs.Program.Outline
import Preload.Proofs.Token.Renaming
import Preload.Proofs.Program.Renaming
import Preload.Proofs.Group.Returns
import Preload.Proofs.Program.Returns
import Preload.Proofs.Program.Directives
import Preload.Proofs.Token.Longest
import Preload.Proofs.FileStore.Changes
import Preload.Proofs.FileStore.History
import Preload.Proofs.FileStore.Tables
import Preload.Proofs.FileStore.Parents
import Preload.Proofs.Options.Texts
import Preload.Proofs.Program.Forms
import Preload.Proofs.Path.Joining
import Preload.Proofs.Token.Regex
import Preload.Proofs.Program.Shebang
