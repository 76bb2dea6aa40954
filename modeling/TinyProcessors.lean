import TinyProcessors.Fs.Hostile
import TinyProcessors.Fs.MkfsKernel
import TinyProcessors.Os.Isolation
import TinyProcessors.Os.Families
import TinyProcessors.Os.Fpu
import TinyProcessors.Os.Durable
import TinyProcessors.Os.Session
import TinyProcessors.Rtl.VirtioServes
import TinyProcessors.Dt.FdtSafe
import TinyProcessors.G3d.Lanes
import TinyProcessors.Os.Opening
import TinyProcessors.Rtl.MulDiv
import TinyProcessors.Rtl.Plic
import TinyProcessors.Emu.Reserved
import TinyProcessors.Emu.Touches
import TinyProcessors.Emu.Watched
import TinyProcessors.G3d.Coverage
import TinyProcessors.Gpu.Triangles
import TinyProcessors.Rtl.Decode
import TinyProcessors.Rtl.Fp32Divide
import TinyProcessors.Rtl.GpuAgrees
import TinyProcessors.Os.Line
import TinyProcessors.Rtl.G3dDivide
import TinyProcessors.Rtl.RamPort
import TinyProcessors.Rtl.Simd4
