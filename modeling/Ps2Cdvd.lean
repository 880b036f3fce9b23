import Ps2Cdvd.Lib.Access
import Ps2Cdvd.Lib.Extents
import Ps2Cdvd.Lib.Memory
import Ps2Cdvd.Lib.Layout
import Ps2Cdvd.Lib.Run
import Ps2Cdvd.Lib.Locked
import Ps2Cdvd.Lib.Loop
import Ps2Cdvd.Lib.Pieces
import Ps2Cdvd.Lib.Resolve
import Ps2Cdvd.Lib.Ring
import Ps2Cdvd.Lib.Semaphore
import Ps2Cdvd.Lib.Slots
import Ps2Cdvd.Lib.Tiling
import Ps2Cdvd.Settings
import Ps2Cdvd.Read.Callback
import Ps2Cdvd.Read.Requests
import Ps2Cdvd.Read.Completion
import Ps2Cdvd.Read.Location
import Ps2Cdvd.Read.Sectors
import Ps2Cdvd.Read.Whole
import Ps2Cdvd.Read.Logo
import Ps2Cdvd.Read.SearchLock
import Ps2Cdvd.Device.Ata
import Ps2Cdvd.Device.Bdm
import Ps2Cdvd.Device.HddParts
import Ps2Cdvd.Device.HotPlug
import Ps2Cdvd.Device.Parts
import Ps2Cdvd.Device.Release
import Ps2Cdvd.Usb.ReadAhead
import Ps2Cdvd.Usb.Command
import Ps2Cdvd.Usb.Coherence
import Ps2Cdvd.Usb.Plug
import Ps2Cdvd.Usb.ReadCd
import Ps2Cdvd.Usb.Window
import Ps2Cdvd.Smb.Framing
import Ps2Cdvd.Smb.Setup
import Ps2Cdvd.Smb.Requests
import Ps2Cdvd.Smb.Login
import Ps2Cdvd.Smb.ReadFile
import Ps2Cdvd.Iso.Records
import Ps2Cdvd.Iso.Lookup
import Ps2Cdvd.Iso.Clients
import Ps2Cdvd.Iso.Endless
import Ps2Cdvd.Iso.Undisturbed
import Ps2Cdvd.Iso.FirstInit
import Ps2Cdvd.Iso.Interference
import Ps2Cdvd.Iso.LastName
import Ps2Cdvd.Iso.PathBuffers
import Ps2Cdvd.Iso.Malformed
import Ps2Cdvd.Iso.Search
import Ps2Cdvd.Files.ReadSlice
import Ps2Cdvd.Files.Table
import Ps2Cdvd.Files.Bounds
import Ps2Cdvd.Files.IoSema
import Ps2Cdvd.Files.Listing
import Ps2Cdvd.Stream.State
import Ps2Cdvd.Stream.System
import Ps2Cdvd.Stream.Blocking
import Ps2Cdvd.Stream.Accounting
import Ps2Cdvd.Stream.Delivery
import Ps2Cdvd.Stream.Errors
import Ps2Cdvd.Stream.Progress
import Ps2Cdvd.Fsv.ReadEE
import Ps2Cdvd.Fsv.ReadTruth
import Ps2Cdvd.Fsv.ReadChain
import Ps2Cdvd.Fsv.ChainData
import Ps2Cdvd.Fsv.ReadBounds
import Ps2Cdvd.Modload.FakeModules
import Ps2Cdvd.Bench.ReadTest
