import Template.Document.Trace
import Template.Main
import Template.Proofs.BlamedTokens
import Template.Proofs.Commands
import Template.Proofs.Concatenation
import Template.Proofs.Distinguishing
import Template.Proofs.ExactNumbers
import Template.Proofs.Exhaustion
import Template.Proofs.Fragments
import Template.Proofs.LexicalFailures
import Template.Proofs.Meaning
import Template.Proofs.MissingEnds
import Template.Proofs.NamesInTags
import Template.Proofs.OutlineDepth
import Template.Proofs.OutlineLines
import Template.Proofs.Parseable
import Template.Proofs.PrintedNumbers
import Template.Proofs.Respacing
import Template.Proofs.RoundTrip
import Template.Proofs.SessionStates
import Template.Proofs.Sessions
import Template.Proofs.ShortestStrings
import Template.Proofs.Stability
import Template.Proofs.TokenListing
import Template.Proofs.Traversal
