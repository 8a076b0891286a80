import Typings.Main
import Typings.Proofs.Text.Line
import Typings.Proofs.Shift
import Typings.Proofs.Listing.Segmentation
import Typings.Proofs.Listing.Writing
import Typings.Proofs.Page.Written
import Typings.Proofs.Identifier
import Typings.Proofs.Page.Grammar
import Typings.Proofs.Block
import Typings.Proofs.Files.Directory
import Typings.Proofs.Files.Saving
import Typings.Proofs.Job.Docs
import Typings.Proofs.Job.Enums
import Typings.Proofs.Job.Run
import Typings.Proofs.Job.Streaming
import Typings.Proofs.Job.Json
import Typings.Proofs.Document
import Typings.Proofs.Listing.Comments
import Typings.Proofs.Page.Append
import Typings.Proofs.Page.Accounts
import Typings.Proofs.Declaration.WellFormed
import Typings.Proofs.Markup.Raw
import Typings.Proofs.Toml.Written
import Typings.Proofs.JobFile
import Typings.Proofs.Configuration
import Typings.Proofs.Listing.Gap
import Typings.Proofs.Job.Delivery
import Typings.Proofs.Job.Again
import Typings.Proofs.Page.Returns
import Typings.Proofs.Spacing
import Typings.Proofs.Page.Pieces
import Typings.Proofs.Text.Word
import Typings.Proofs.Page.Initializer
import Typings.Proofs.Comparison
import Typings.Proofs.Markup.Quotes
import Typings.Proofs.Banner
import Typings.Proofs.Page.Header
import Typings.Proofs.Literals
import Typings.Proofs.Listing.Layout
import Typings.Proofs.Listing.Append
import Typings.Proofs.Page.Seen
import Typings.Proofs.Sink
import Typings.Proofs.Page.Stretches
import Typings.Proofs.Markup.CodePoint
import Typings.Proofs.Markup.Decoding
import Typings.Proofs.Markup.Stray
import Typings.Proofs.Text.Offset
import Typings.Proofs.Markup.Slices
import Typings.Proofs.Slices
import Typings.Proofs.Page.Segments
import Typings.Proofs.Text.Pattern
import Typings.Proofs.Page.Assignment
import Typings.Proofs.Markup.Cursor
