import WikiHtml.Main
import WikiHtml.Substitution.Choice
import WikiHtml.Tree.Edit
import WikiHtml.Proofs.Substitution.Recursion
import WikiHtml.Proofs.Substitution.Pipeline
import WikiHtml.Proofs.Highlight.Runs
import WikiHtml.Proofs.Text.Escape
import WikiHtml.Proofs.Highlight.Presentation
import WikiHtml.Proofs.Html.Tags
import WikiHtml.Proofs.Html.Written
import WikiHtml.Proofs.Html.Reworded
import WikiHtml.Proofs.Html.Nesting
import WikiHtml.Proofs.Substitution.Rewritten
import WikiHtml.Proofs.Html.Address
import WikiHtml.Proofs.Html.Fragment
import WikiHtml.Proofs.Html.Acts
import WikiHtml.Proofs.Html.Scan
import WikiHtml.Proofs.Html.Drawn
import WikiHtml.Proofs.Html.Enclosed
import WikiHtml.Proofs.Html.InnerLists
import WikiHtml.Proofs.Html.Messages
import WikiHtml.Proofs.Contact.Expired
import WikiHtml.Proofs.Substitution.Included
import WikiHtml.Proofs.Substitution.Origins
import WikiHtml.Proofs.Tree.Built
import WikiHtml.Proofs.Calendar.Days
import WikiHtml.Proofs.Event.Window
import WikiHtml.Proofs.Html.HeadingTags
import WikiHtml.Proofs.Substitution.ContentsLinks
import WikiHtml.Proofs.Substitution.EventTags
import WikiHtml.Proofs.Event.Birthday
import WikiHtml.Proofs.PagePath
import WikiHtml.Proofs.Placeholder.PageLists
import WikiHtml.Proofs.Substitution.PageListings
import WikiHtml.Proofs.PagePath.Segments
import WikiHtml.Proofs.Tree.Decoding
import WikiHtml.Proofs.Document.Rearranged
import WikiHtml.Proofs.Tree.Misdirected
import WikiHtml.Proofs.Html.ItemNesting
import WikiHtml.Proofs.Html.Histories
import WikiHtml.Proofs.Html.Sections
import WikiHtml.Proofs.Highlight.BlockScalars
import WikiHtml.Proofs.Highlight.Cdata
import WikiHtml.Proofs.Highlight.Markup
import WikiHtml.Proofs.Placeholder.Numbering
import WikiHtml.Proofs.Highlight.Literals
import WikiHtml.Proofs.Highlight.Entries
import WikiHtml.Proofs.Highlight.LineByLine
import WikiHtml.Proofs.Event.Chronology
import WikiHtml.Proofs.Calendar.Ages
import WikiHtml.Proofs.Calendar.PartialDates
import WikiHtml.Proofs.Tree.Storage
import WikiHtml.Proofs.Substitution.Surroundings
import WikiHtml.Proofs.Tree.Traversal
import WikiHtml.Proofs.Placeholder.Steps
import WikiHtml.Proofs.Text.References
