import Js5.Bytes.Lemmas
import Js5.Handle.Request
import Js5.Proofs.Archive.FileOfGroup
import Js5.Proofs.Archive.Verification
import Js5.Proofs.Cache.Memory
import Js5.Proofs.Cache.ReadBack
import Js5.Proofs.Cache.Snapshot
import Js5.Proofs.Checked.InBounds
import Js5.Proofs.Envelope
import Js5.Proofs.Handle
import Js5.Proofs.ReferenceIndex.Lookup
import Js5.Proofs.SectorChain
import Js5.Proofs.Store.Freezing
import Js5.Proofs.Store.Steady
import Js5.Store.Memory
import Js5.Proofs.Envelope.Extent
import Js5.Proofs.SectorChain.Faults
import Js5.Proofs.Store.DataFiles
import Js5.Proofs.Stripes.Trailer
import Js5.Proofs.Stripes.Accounts
import Js5.Proofs.Cursor.Yields
import Js5.Proofs.SectorChain.Visits
import Js5.Proofs.ReferenceIndex.Extent
import Js5.Proofs.ReferenceIndex.Spelling
import Js5.Proofs.ReferenceIndex.Represented
import Js5.Proofs.ReferenceIndex.Names
import Js5.Proofs.Cache.Names
import Js5.Proofs.Xtea.Blockwise
import Js5.Proofs.Store.Listing
import Js5.Proofs.ReferenceIndex.Overflow
import Js5.Proofs.Codec.Delivery
import Js5.Proofs.Envelope.Declared
import Js5.Proofs.NameHash
import Js5.Proofs.Checked.Cursor
