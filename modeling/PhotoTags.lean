import PhotoTags.Calendar.Timestamp
import PhotoTags.Cli.Arguments
import PhotoTags.Cli.Run
import PhotoTags.Codec.Basic
import PhotoTags.Codec.ImageFile
import PhotoTags.Codec.Jpeg
import PhotoTags.Codec.Memory
import PhotoTags.Decimal.Text
import PhotoTags.Files.Collect
import PhotoTags.Image.Plan
import PhotoTags.Image.Read
import PhotoTags.Jpeg.Scan
import PhotoTags.Json.Document
import PhotoTags.Json.Token
import PhotoTags.Json.Value
import PhotoTags.Main
import PhotoTags.Proofs.Attributes.Lossless
import PhotoTags.Proofs.Attributes.Order
import PhotoTags.Proofs.Codec.CommitFetch
import PhotoTags.Proofs.Codec.Containment
import PhotoTags.Proofs.Codec.Editing
import PhotoTags.Proofs.Codec.Recorded
import PhotoTags.Proofs.Codec.Staging
import PhotoTags.Proofs.Exchange.RoundTrip
import PhotoTags.Proofs.Files.Writing
import PhotoTags.Proofs.Image.Abort
import PhotoTags.Proofs.Image.Outcome
import PhotoTags.Proofs.Image.Thumbnail
import PhotoTags.Proofs.Jpeg.Placing
import PhotoTags.Proofs.Jpeg.Rereading
import PhotoTags.Proofs.Tiff.Thumbnail
import PhotoTags.Report
import PhotoTags.Session
import PhotoTags.Settings
import PhotoTags.Tag.Plain
import PhotoTags.Tag.Value
import PhotoTags.Text.Wrap
import PhotoTags.Tiff.Layout
import PhotoTags.Tiff.Location
import PhotoTags.Typed
import PhotoTags.Proofs.Codec.Updating
import PhotoTags.Proofs.Codec.Failing
import PhotoTags.Proofs.Files.Paths
import PhotoTags.Proofs.Codec.Backups
import PhotoTags.Proofs.Codec.Reporting
import PhotoTags.Proofs.Decimal.Length
import PhotoTags.Proofs.Tiff.Shown
import PhotoTags.Proofs.Image.Fitting
import PhotoTags.Proofs.Codec.Opening
import PhotoTags.Proofs.Attributes.Canonical
import PhotoTags.Proofs.Codec.Previewing
import PhotoTags.Proofs.Files.Reaching
import PhotoTags.Proofs.Codec.Locality
import PhotoTags.Proofs.Codec.Batch
import PhotoTags.Proofs.Cli.Writing
import PhotoTags.Proofs.Codec.Changing
import PhotoTags.Proofs.Exchange.Positions
import PhotoTags.Proofs.Exchange.Consumed
import PhotoTags.Proofs.Exchange.Counting
import PhotoTags.Proofs.Exchange.Advancing
import PhotoTags.Proofs.Tag.Printing
import PhotoTags.Proofs.Image.Overriding
import PhotoTags.Proofs.Image.Repeating
import PhotoTags.Proofs.Calendar.Reading
import PhotoTags.Proofs.Files.BackupNames
import PhotoTags.Proofs.Text.Wrap
import PhotoTags.Proofs.Tag.Rereading
import PhotoTags.Proofs.Codec.Settled
import PhotoTags.Proofs.Files.Joining
import PhotoTags.Proofs.Files.Collecting
import PhotoTags.Proofs.Json.Documents
import PhotoTags.Proofs.Settings.Saving
