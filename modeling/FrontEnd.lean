import FrontEnd.Catalogue
import FrontEnd.Command.Run
import FrontEnd.Grammar.Session
import FrontEnd.Main
import FrontEnd.Node.Describe
import FrontEnd.Node.Outline
import FrontEnd.Node.Source
import FrontEnd.Node.Visit
import FrontEnd.Proofs.Command.Driver
import FrontEnd.Proofs.Command.Ending
import FrontEnd.Proofs.Command.Printout
import FrontEnd.Proofs.Grammar.Dispatch
import FrontEnd.Proofs.Grammar.Spending
import FrontEnd.Proofs.Reading.Concatenation
import FrontEnd.Proofs.Reading.Files
import FrontEnd.Proofs.Reading.FirstFault
import FrontEnd.Proofs.Reading.Formatting
import FrontEnd.Proofs.Reading.Nesting
import FrontEnd.Proofs.Reading.Outcome
import FrontEnd.Proofs.Reading.Relayout
import FrontEnd.Proofs.Reading.Reserving
import FrontEnd.Proofs.Reading.RoundTrip
import FrontEnd.Proofs.Reading.Spans
import FrontEnd.Proofs.Reading.Truncation
import FrontEnd.Proofs.Reading.Valuation
import FrontEnd.Proofs.Session.Buffer
import FrontEnd.Proofs.Session.Lookahead
import FrontEnd.Proofs.Session.Progress
import FrontEnd.Proofs.Session.Restart
import FrontEnd.Proofs.Session.Sharing
import FrontEnd.Proofs.Token.Survey
import FrontEnd.Storage
import FrontEnd.Token.Session
