import KernelAx.Eevdf.Teardown
import KernelAx.Eevdf.Accounting
import KernelAx.Cbpf.Acceptance
import KernelAx.Task.HandoffExact
import KernelAx.Tlb.Offline
import KernelAx.Tlb.Pending
import KernelAx.Tlb.Targets
import KernelAx.Fault.Brokers
import KernelAx.Fault.Credits
import KernelAx.Fault.Delivery
import KernelAx.Fault.Exactness
import KernelAx.Cbpf.Scratch
import KernelAx.Cfs.Monotone
import KernelAx.Exits.Reclaim
import KernelAx.Exits.Wake
import KernelAx.Timers.Silence
import KernelAx.Cbpf.Reference
import KernelAx.Eevdf.Eligibility
import KernelAx.Eevdf.Exhaustion
import KernelAx.Eevdf.Decay
import KernelAx.Eevdf.Reconfigure
import KernelAx.Eevdf.Slices
import KernelAx.Eevdf.TreeBalance
import KernelAx.Task.RuntimeBoundary
import KernelAx.Task.EventSlot
import KernelAx.RoundRobin
import KernelAx.Timers.Refusals
import KernelAx.Pmu
