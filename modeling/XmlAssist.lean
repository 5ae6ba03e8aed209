import XmlAssist.Extension.FixedGrammar
import XmlAssist.Extension.Probe
import XmlAssist.Main
import XmlAssist.Proofs.Completion.Counterpart
import XmlAssist.Proofs.Completion.Edits
import XmlAssist.Proofs.Contribution.Failure
import XmlAssist.Proofs.Dtd.Literals
import XmlAssist.Proofs.Dtd.Names
import XmlAssist.Proofs.Grammar.Precedence
import XmlAssist.Proofs.Lexer.Restart
import XmlAssist.Proofs.Registry.Balance
import XmlAssist.Proofs.Registry.Delivery
import XmlAssist.Proofs.Settings.Fields
import XmlAssist.Proofs.Store.Versions
import XmlAssist.Proofs.Text.Lines
import XmlAssist.Proofs.Tree.Brackets
import XmlAssist.Proofs.Tree.Leaves
import XmlAssist.Proofs.Written.Content
import XmlAssist.Proofs.Written.RoundTrip
import XmlAssist.Proofs.Diagnostics.Count
import XmlAssist.Proofs.Diagnostics.Sections
import XmlAssist.Proofs.Edits.Closing
import XmlAssist.Proofs.Edits.Reading
import XmlAssist.Proofs.Edits.Rename
import XmlAssist.Proofs.Edits.Repair
import XmlAssist.Proofs.Tree.Change
import XmlAssist.Proofs.Completion.Sections
import XmlAssist.Proofs.Tree.Tags
import XmlAssist.Proofs.Hover.TagNames
import XmlAssist.Proofs.Tree.Namespaces
import XmlAssist.Proofs.Navigation.Pairs
import XmlAssist.Proofs.Outline.Ranges
import XmlAssist.Proofs.Participant.DocumentType
import XmlAssist.Proofs.Folding.Elements
import XmlAssist.Proofs.Grammar.Walk
import XmlAssist.Proofs.Tree.InOrder
import XmlAssist.Proofs.Tree.Touching
