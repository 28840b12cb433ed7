import Borgos.Foundations.Outcome
import Borgos.Foundations.IntrusiveRing
import Borgos.Foundations.RingSystem
import Borgos.Foundations.Dyadic
import Borgos.Foundations.Chain
import Borgos.Foundations.Forest
import Borgos.Foundations.LapRing
import Borgos.Kcore.List
import Borgos.Mem.Layout
import Borgos.Mem.Page
import Borgos.Mem.Phys
import Borgos.Mem.FreeLists
import Borgos.Mem.BuddySpec
import Borgos.Mem.PagemapSpec
import Borgos.Mem.BootSpec
import Borgos.Mem.Arena
import Borgos.Mem.ArenaLaws
import Borgos.Mem.FrameSafety
import Borgos.Mem.Kmalloc
import Borgos.Mem.SlabInv
import Borgos.Mem.SlabSpec
import Borgos.Mem.SlabSteps
import Borgos.Mem.SlabLaws
import Borgos.Mmu.Pagetable
import Borgos.Mmu.TableSpec
import Borgos.Mmu.TableLaws
import Borgos.Mmu.UserWalk
import Borgos.Mmu.RangeLaws
import Borgos.Mmu.Blocks
import Borgos.Mmu.KernelTable
import Borgos.Mmu.BuddyFrames
import Borgos.Mmu.DirectMap
import Borgos.Kcore.Scheduler
import Borgos.Kcore.SchedulerSpec
import Borgos.Kcore.SchedulerLaws
import Borgos.Kcore.Nesting
import Borgos.Kcore.NestingLaws
import Borgos.Usb.Trb
import Borgos.Usb.ProducerRing
import Borgos.Usb.ProducerRingLaws
import Borgos.Usb.EventRing
import Borgos.Usb.EventRingLaws
import Borgos.Usb.Xhci
import Borgos.Usb.EndpointSpec
import Borgos.Usb.EndpointLaws
import Borgos.Usb.CompletionLaws
import Borgos.Foundations.FlatMemory
import Borgos.Foundations.SpillRing
import Borgos.Foundations.WordStack
import Borgos.Libc.Mem
import Borgos.Net.Rtl8139
import Borgos.Net.RxRingLaws
import Borgos.Net.TxLaws
import Borgos.Usb.ConfigDescriptor
import Borgos.Usb.ConfigDescriptorLaws
import Borgos.Usb.ConfigSafety
import Borgos.Libcpp.Vector
import Borgos.Libcpp.VectorLaws
import Borgos.Boot.Multiboot2
import Borgos.Boot.Bootmem
import Borgos.Boot.RelocationLaws
import Borgos.Boot.TagWalk
import Borgos.Boot.MemoryMap
import Borgos.Boot.Placement
import Borgos.Arch.Amd64
import Borgos.Arch.Context
import Borgos.Arch.ContextLaws
import Borgos.Arch.Isr
import Borgos.Kcore.Syscall
import Borgos.Kcore.Irq
import Borgos.Kcore.Msi
import Borgos.Libc.Str
import Borgos.Kcore.Module
import Borgos.Mmu.DeviceRegion
import Borgos.Acpi.Map
import Borgos.Acpi.Tables
import Borgos.Acpi.RootLaws
import Borgos.Apic.Ioapic
import Borgos.Apic.RouteLaws
import Borgos.Foundations.Positional
import Borgos.Fs.Cpio
import Borgos.Fs.CpioLaws
import Borgos.Fs.CpioTermination
import Borgos.Fs.CpioReads
import Borgos.Foundations.Lockstep
import Borgos.Foundations.Monotone
import Borgos.Foundations.LittleEndian
import Borgos.Mem.Adequacy
import Borgos.Mem.AlignedAlloc
import Borgos.Mem.ZoneChoice
import Borgos.Mem.Indexing
import Borgos.Foundations.Registers
import Borgos.Usb.XhciReset
import Borgos.Usb.ControlMsg
import Borgos.Usb.ControlMsgLaws
import Borgos.Foundations.Hoare
import Borgos.Usb.StringDescriptor
import Borgos.Usb.Attach
import Borgos.Usb.AttachLaws
import Borgos.Pci.ConfigLaws
import Borgos.Foundations.MaskedRegister
import Borgos.Pci.Bars
import Borgos.Pci.BarLaws
import Borgos.Pci.BarRight
import Borgos.Foundations.Orbit
import Borgos.Pci.Capability
import Borgos.Pci.Enumerate
import Borgos.Pci.EnumerateLaws
import Borgos.Pci.EnumerateRight
import Borgos.Usb.UhciRuns
import Borgos.Usb.UhciTransfer
import Borgos.Usb.UhciMemory
import Borgos.Usb.UhciMemoryLaws
import Borgos.Usb.UhciChainLaws
import Borgos.Usb.UhciResultLaws
import Borgos.Usb.ControlLength
import Borgos.Usb.RootHubLaws
import Borgos.Usb.SlotAttachLaws
import Borgos.Kcore.AddressSpaces
import Borgos.Kcore.StartinitLaws
import Borgos.Acpi.Madt
import Borgos.Acpi.MadtLaws
import Borgos.Acpi.MadtRun
import Borgos.Libc.MemPtr
import Borgos.Libc.Memcmp
import Borgos.Libc.StrReads
import Borgos.Kcore.Bits
import Borgos.Libc.Itoa
import Borgos.Libc.Doprnt
import Borgos.Libc.DoprntLaws
import Borgos.Libc.DoprntRun
import Borgos.Libc.DoprntScan
import Borgos.Libc.Fields
import Borgos.Libc.FieldRight
import Borgos.Foundations.Reversal
import Borgos.Boot.Bootdebug
import Borgos.Boot.BootdebugLaws
import Borgos.Foundations.CountedLoop
import Borgos.Foundations.Terminal
import Borgos.Video.Font
import Borgos.Video.Fb
import Borgos.Video.TextConsole
import Borgos.Video.RgbConsole
import Borgos.Video.RgbRight
import Borgos.Foundations.StoreRow
import Borgos.Foundations.BitField
import Borgos.Arch.Gdt
import Borgos.Arch.GdtLaws
import Borgos.Foundations.Interleaving
import Borgos.Foundations.History
import Borgos.Kcore.Spinlock
import Borgos.Kcore.Newpid
import Borgos.Kcore.Smp
import Borgos.Kcore.SmpInv
import Borgos.Kcore.SmpSteps
import Borgos.Kcore.SmpLaws
import Borgos.Arch.Idt
import Borgos.Kcore.IsrChain
import Borgos.Boot.ApStart
