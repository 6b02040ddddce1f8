import ExfatEmbedded.Sessions

/-!
What one request on a file leaves of the volume: the tree with one entry changed, and every other
stream as it was.
-/

namespace ExfatEmbedded.Editing

open ExfatEmbedded.Library Exec ExfatEmbedded.Core ExfatEmbedded.Entry ExfatEmbedded.Allocation
open ExfatEmbedded.Lookup ExfatEmbedded.FileIo ExfatEmbedded.Mutation ExfatEmbedded.Mount
open ExfatEmbedded.Reading ExfatEmbedded.StreamSafety ExfatEmbedded.Media ExfatEmbedded.Writing
open ExfatEmbedded.Tree ExfatEmbedded.Release ExfatEmbedded.Layout ExfatEmbedded.Listing
open ExfatEmbedded.Codec ExfatEmbedded.Removal ExfatEmbedded.Ownership ExfatEmbedded.Replacing
open ExfatEmbedded.Readback ExfatEmbedded.Truncating ExfatEmbedded.Allocator ExfatEmbedded.Appending
open ExfatEmbedded.Restreaming ExfatEmbedded.Extending ExfatEmbedded.Sessions ExfatEmbedded.Growth

variable {vol : Volume} {s t : Machine} {path : List Char} {file : File} {P : Dir}
  {e e' : DirectoryEntry} {input : List UInt8}

/-! ### The tree -/

end ExfatEmbedded.Editing
