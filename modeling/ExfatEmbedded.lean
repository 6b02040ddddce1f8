import ExfatEmbedded.History
import ExfatEmbedded.Reading
import ExfatEmbedded.MountSafety
import ExfatEmbedded.Scan
import ExfatEmbedded.Listing
import ExfatEmbedded.ReadSafety
import ExfatEmbedded.FatSafety
import ExfatEmbedded.Removal
import ExfatEmbedded.Format
import ExfatEmbedded.FormatMedia
import ExfatEmbedded.FreshVolume
import ExfatEmbedded.Decoding
import ExfatEmbedded.Grammar
import ExfatEmbedded.Codec
import ExfatEmbedded.Renaming
import ExfatEmbedded.Library.Never
import ExfatEmbedded.Search
import ExfatEmbedded.Damaged
import ExfatEmbedded.Ownership
import ExfatEmbedded.Replacing
import ExfatEmbedded.Readback
import ExfatEmbedded.Truncating
import ExfatEmbedded.Allocator
import ExfatEmbedded.Growth
import ExfatEmbedded.Appending
import ExfatEmbedded.AddressMap
import ExfatEmbedded.UpcaseTable
import ExfatEmbedded.Gpt
import ExfatEmbedded.Emptiness
import ExfatEmbedded.Retrying
import ExfatEmbedded.Overwriting
import ExfatEmbedded.Sessions
import ExfatEmbedded.Editing
import ExfatEmbedded.Creating
