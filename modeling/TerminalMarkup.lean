import TerminalMarkup.Authoring
import TerminalMarkup.Markup.Location
import TerminalMarkup.Proofs.Rendering.BracketMatching
import TerminalMarkup.Proofs.Rendering.Innermost
import TerminalMarkup.Proofs.Rendering.Nesting
import TerminalMarkup.Proofs.Scanning.LeftmostLongest
import TerminalMarkup.Proofs.Scanning.Reachability
import TerminalMarkup.Proofs.Scanning.Tokenization
import TerminalMarkup.Proofs.Sheet.QuotedValue
import TerminalMarkup.Proofs.Sheet.RoundTrip
import TerminalMarkup.Proofs.Style.AuthoredAfter
import TerminalMarkup.Proofs.RuleSet.LastDefinition
import TerminalMarkup.Proofs.Rendering.Residue
import TerminalMarkup.Proofs.Sheet.KeptLines
import TerminalMarkup.Proofs.Sheet.SyntaxErrors
import TerminalMarkup.Proofs.Sheet.DefinitionLines
import TerminalMarkup.Proofs.Sheet.References
import TerminalMarkup.Proofs.Sheet.Segmentation
import TerminalMarkup.Proofs.Sheet.Erasure
import TerminalMarkup.Proofs.Style.ClosingCodes
import TerminalMarkup.Proofs.Style.CodeOrder
import TerminalMarkup.Proofs.Style.Repetition
import TerminalMarkup.Proofs.Style.WrittenCodes
import TerminalMarkup.Proofs.Output.Delivery
import TerminalMarkup.Proofs.Output.Linewise
import TerminalMarkup.Proofs.Sheet.DeclaredSheet
