import Borgos.Kcore.AddressSpaces

/-! # The first user program

After `proc_create_userproc` and `archproc_prepare_startinit` the lower half of the new address space holds the image
and the user stack, and nothing else. The order of the block, the number of pages mapped and the number of bytes copied
all come from the length of the image.
-/
namespace Borgos.Kcore
open Borgos.Foundations Borgos.Foundations.WordBytes Borgos.Mem Borgos.Mmu
set_option autoImplicit false

/-! ## `size_to_pageorder` -/

variable {ρ : Type} {alloc : ℕ → Prog ρ ℕ} {kmalloc : Prog ρ ℕ} {Good : ρ → Set ℕ → Prop} {s s' : Kernel ρ}

end Borgos.Kcore
