import SExpr.Native
import SExpr.Reprint
import SExpr.Value.Distinct
import SExpr.Value.Order
import SExpr.Proofs.Bracket.Admission
import SExpr.Proofs.Bracket.Maps
import SExpr.Proofs.Concat
import SExpr.Proofs.Extension
import SExpr.Proofs.Native
import SExpr.Proofs.Number.Classification
import SExpr.Proofs.Parse.Machine
import SExpr.Proofs.Parse.Nesting
import SExpr.Proofs.Parse.Place
import SExpr.Proofs.Parse.Pull
import SExpr.Proofs.Parse.Steps
import SExpr.Proofs.Print.Equal
import SExpr.Proofs.Print.Pretty
import SExpr.Proofs.Print.Refusal
import SExpr.Proofs.Print.Settings
import SExpr.Proofs.Print.Width
import SExpr.Proofs.RoundTrip.Comment
import SExpr.Proofs.RoundTrip.Names
import SExpr.Proofs.RoundTrip.Reprint
import SExpr.Proofs.Spacing
import SExpr.Proofs.Token.AtomSpelling
import SExpr.Proofs.Token.Longer
import SExpr.Proofs.Token.Slice
import SExpr.Proofs.Token.StringSpelling
import SExpr.Proofs.Token.Tiling
import SExpr.Proofs.Unclosed
import SExpr.Proofs.Value.Equality
