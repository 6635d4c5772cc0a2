import MiniVirt.Kvm.Spec.SetupRefine
import MiniVirt.Kvm.Spec.Preemption
import MiniVirt.Kvm.Spec.EptRun
import MiniVirt.Kvm.Spec.Mappable
import MiniVirt.Kvm.Spec.MemregionThread
import MiniVirt.Kvm.Spec.Publication
import MiniVirt.Kvm.Spec.Currency
import MiniVirt.Kvm.Spec.Activity
import MiniVirt.Kvm.Spec.LaunchState
import MiniVirt.Kvm.Spec.NmiDelivery
import MiniVirt.Kvm.Spec.RunDiscipline
import MiniVirt.Kvm.Spec.LostEvent
import MiniVirt.Kvm.Spec.Injection
import MiniVirt.Kvm.Spec.PortIo
import MiniVirt.Kvm.Spec.SerialCapture
import MiniVirt.Kvm.Spec.EptCache
import MiniVirt.Kvm.Spec.WorldSwitch
import MiniVirt.Kvm.Spec.VmxonAll
import MiniVirt.Vmm.Spec.Bounds
import MiniVirt.Vmm.Spec.SerialIrq
import MiniVirt.Vmm.Spec.SerialFifo
import MiniVirt.Vmm.Spec.SerialThri
import MiniVirt.Vmm.Spec.ReadyMarker
import MiniVirt.Vmm.Spec.Irqfd
import MiniVirt.Vmm.Spec.Reset
import MiniVirt.Vmm.Spec.MsixArm
import MiniVirt.Vmm.Spec.MsixMasks
import MiniVirt.Vmm.Spec.CapWalk
import MiniVirt.Vmm.Spec.ChainWalk
import MiniVirt.Vmm.Spec.IrqLine
import MiniVirt.Vmm.Spec.QueueConfig
import MiniVirt.Vmm.Spec.Negotiation
import MiniVirt.Vmm.Spec.Echo
import MiniVirt.Vmm.Spec.LongChains
import MiniVirt.Vmm.Spec.WritableBuffers
import MiniVirt.Vmm.Spec.Framing
import MiniVirt.Vmm.Spec.BlockDisk
import MiniVirt.Vmm.Spec.Completion
import MiniVirt.Vmm.Spec.LostNotify
import MiniVirt.Vmm.Spec.Coalesce
import MiniVirt.Vmm.Spec.ResetComplete
import MiniVirt.Vmm.Spec.ConfigWidth
import MiniVirt.Vmm.Spec.Placement
import MiniVirt.Vmm.Spec.AddressLayout
import MiniVirt.Vmm.Spec.WholeRun
import MiniVirt.Vmm.Spec.DiskRun
import MiniVirt.CheckRefs.Spec.Territory
