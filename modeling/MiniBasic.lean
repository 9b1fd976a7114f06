import MiniBasic.Main
import MiniBasic.Proofs.Control.Matched
import MiniBasic.Proofs.Grammar.Modules
import MiniBasic.Proofs.Machine.Isolation
import MiniBasic.Proofs.Print.RoundTrip
import MiniBasic.Proofs.Spelling.Source
import MiniBasic.Proofs.Control.Change
import MiniBasic.Proofs.Control.Hoisting
import MiniBasic.Proofs.Control.Bindings
import MiniBasic.Proofs.Dictionary.History
import MiniBasic.Proofs.Inert.Effective
import MiniBasic.Proofs.Inert.Session
import MiniBasic.Proofs.Print.Precedence
import MiniBasic.Proofs.Print.Yield
import MiniBasic.Proofs.Control.CopyBack
import MiniBasic.Proofs.Control.Growth
import MiniBasic.Proofs.Heap.Displaced
import MiniBasic.Proofs.Machine.Dimensions
import MiniBasic.Proofs.Grammar.Closing
import MiniBasic.Proofs.Grammar.Calls
import MiniBasic.Proofs.Grammar.Located
import MiniBasic.Proofs.Control.Fallbacks
import MiniBasic.Proofs.Control.Counting
import MiniBasic.Proofs.Heap.Text
import MiniBasic.Proofs.Machine.CallFree
import MiniBasic.Proofs.Number.Reading
import MiniBasic.Proofs.Number.Printed
import MiniBasic.Proofs.Collection.History
import MiniBasic.Proofs.Token.Spaced
import MiniBasic.Proofs.Number.Longest
import MiniBasic.Proofs.Grammar.Progress
import MiniBasic.Proofs.Environment.History
