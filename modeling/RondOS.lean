import RondOS.Kernel.AvailableMem
import RondOS.Kernel.MemLayout
import RondOS.Kernel.PageAlloc
import RondOS.Kernel.BitArray
import RondOS.Kernel.PageBitmap
import RondOS.Kernel.PageFootprint
import RondOS.Kernel.PageFree
import RondOS.Kernel.PageSafety
import RondOS.Kernel.PageContract
import RondOS.Lib.ByteMemory
import RondOS.Lib.Footprint
import RondOS.Lib.I386
import RondOS.Lib.Paging
import RondOS.Lib.Ownership
import RondOS.Lib.RustWord
import RondOS.Loader.DetectMem
import RondOS.Loader.DiskRead
import RondOS.Loader.Handover
import RondOS.Loader.Image
import RondOS.Loader.KernelImage
import RondOS.Loader.PageTables
import RondOS.Kernel.Vga
import RondOS.Kernel.VgaText
import RondOS.Kernel.VgaInterrupt
import RondOS.Kernel.BitAccess
import RondOS.Kernel.Idt
import RondOS.Kernel.Pic
import RondOS.Kernel.Singleton
import RondOS.Kernel.Pit
import RondOS.Kernel.Serial
import RondOS.Kernel.Heap
import RondOS.Kernel.PageSet
import RondOS.Kernel.SingletonNesting
import RondOS.Kernel.Ticks
import RondOS.Kernel.LineEditor
import RondOS.Kernel.Delivery
import RondOS.Kernel.Boot
import RondOS.Loader.Console
import RondOS.Kernel.VgaControl
import RondOS.Kernel.Descriptors
import RondOS.Kernel.Startup
