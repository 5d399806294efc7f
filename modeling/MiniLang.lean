import MiniLang.Main
import MiniLang.Proofs.Grammar.Lookahead
import MiniLang.Proofs.Grammar.Range
import MiniLang.Proofs.Print.Injectivity
import MiniLang.Proofs.Print.RoundTrip
import MiniLang.Proofs.Report.Carets
import MiniLang.Proofs.Report.Pointing
import MiniLang.Proofs.Resolution.Bodies
import MiniLang.Proofs.Resolution.Diagnostics
import MiniLang.Proofs.Resolution.Entered
import MiniLang.Proofs.Resolution.Exchange
import MiniLang.Proofs.Resolution.Faithful
import MiniLang.Proofs.Resolution.Halting
import MiniLang.Proofs.Resolution.Idempotence
import MiniLang.Proofs.Resolution.Invariance
import MiniLang.Proofs.Resolution.Namespace
import MiniLang.Proofs.Resolution.Ordering
import MiniLang.Proofs.Resolution.Shape
import MiniLang.Proofs.Scope.Registry
import MiniLang.Proofs.Token.Listing
import MiniLang.Proofs.Token.Respacing
import MiniLang.Tree.Equality
