import VertexOS.Mem.BringUp
import VertexOS.Video.BootVideo

namespace VertexOS
open Library.Bitmap

/-! The pages of the framebuffer, as the kernel maps them before it draws. -/

/-- The bytes of the picture. -/
def VideoFbInfo.bytes (fb : VideoFbInfo) : Nat := fb.geo.height.toNat * fb.geo.pitch.toNat

section Sizes

variable (p : PciBridge) (state : UInt32)

end Sizes

section Mapping

variable {p : PciBridge} {state : UInt32} {m : Pmm} {ram : Ram} {s0 s1 : Paging}

/-- The page at which the loop stops. -/
def VideoFbInfo.stop (fb : VideoFbInfo) : UInt32 :=
  (fb.fbPhys + fb.geo.pitch * fb.geo.height + 0xFFF) &&& 0xFFFFF000

end Mapping

end VertexOS
