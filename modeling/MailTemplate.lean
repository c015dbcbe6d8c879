import MailTemplate.Cache
import MailTemplate.Command.Run
import MailTemplate.Files.Tree
import MailTemplate.Main
import MailTemplate.Proofs.Markup.Balanced
import MailTemplate.Proofs.Markup.Finding
import MailTemplate.Proofs.Markup.Lexed
import MailTemplate.Proofs.Markup.Match
import MailTemplate.Proofs.Template.Closing
import MailTemplate.Proofs.Template.Grammar
import MailTemplate.Proofs.Template.Rescan
import MailTemplate.Proofs.Markup.Placed
import MailTemplate.Proofs.Markup.Enclosing
import MailTemplate.Proofs.Markup.Opening
import MailTemplate.Proofs.Markup.Delimiting
import MailTemplate.Proofs.Substitution
import MailTemplate.Proofs.Template.Variables
import MailTemplate.Proofs.Markup.Joining
import MailTemplate.Proofs.Template.Seams
import MailTemplate.Proofs.Substitution.Sites
import MailTemplate.Proofs.Template.Strictness
import MailTemplate.Proofs.Template.Pruning
import MailTemplate.Proofs.Template.Accounting
import MailTemplate.Proofs.Cache
import MailTemplate.Proofs.Condition.Writing
import MailTemplate.Proofs.Template.Fragments
import MailTemplate.Proofs.Template.Logging
import MailTemplate.Proofs.Number.Line
import MailTemplate.Proofs.Value.Equality
import MailTemplate.Proofs.Template.Unbound
import MailTemplate.Proofs.Number.Numeral
import MailTemplate.Proofs.Number.Written
import MailTemplate.Proofs.Number.Whole
import MailTemplate.Proofs.Value.Numbers
import MailTemplate.Proofs.Context.Bindings
import MailTemplate.Proofs.Context.Layering
import MailTemplate.Proofs.Text.ByteOrder
import MailTemplate.Proofs.Context.Members
import MailTemplate.Proofs.Context.Refusing
import MailTemplate.Proofs.Context.Decoders
import MailTemplate.Proofs.Command.Rendering
import MailTemplate.Proofs.Markup.Parts
import MailTemplate.Proofs.Position
import MailTemplate.Proofs.Template.Places
import MailTemplate.Proofs.Json.Readable
import MailTemplate.Proofs.Command.Reporting
import MailTemplate.Proofs.Command.Checking
