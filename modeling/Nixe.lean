import Nixe.Scheduler.Selection
import Nixe.Scheduler.SingleUse
import Nixe.Scheduler.WellFormed
import Nixe.Runtime.Exchange
import Nixe.Runtime.Teardown
import Nixe.Horizon.Exclusion
import Nixe.Horizon.HandleTransfer
import Nixe.Horizon.CmifCodec
import Nixe.Horizon.Retry
import Nixe.Memory.Authority
import Nixe.Memory.Serializable
import Nixe.Memory.WriteObserver
import Nixe.Maxwell.Gpfifo
import Nixe.Maxwell.PushbufferGrammar
import Nixe.Memory.InvalidationRing
import Nixe.Jit.Waiters
import Nixe.Jit.Speculation
import Nixe.Memory.ExecutionGate
import Nixe.Nvdrv.Wakeups
import Nixe.Nvdrv.NvMapReferences
import Nixe.Runtime.Inheritance
import Nixe.Runtime.WakeDelivery
import Nixe.Loader.Integrity
import Nixe.Video.DisplayClock
