import Smash.BumpRace
import Smash.SweepSafety
import Smash.SpanCache
import Smash.SlabScavenge
import Smash.CommittedPages
import Smash.SpanWords
import Smash.ExternalSafety
import Smash.NearCapRange
import Smash.ShadowRange
import Smash.DeferredSweep
import Smash.MonitorRuns
import Smash.ZeroSlots
import Smash.SlabBatch
import Smash.ShutdownDrain
import Smash.ForkSpill
import Smash.ForkLockSafety
import Smash.CommitWatermark
import Smash.WarmPages
import Smash.LargeCacheSafety
import Smash.VmaScan
import Smash.ProfileLoad
import Smash.ProfileMerge
import Smash.RecompressBias
import Smash.ThrashRate
import Smash.RatioWindow
import Smash.WkdmBounds
import Smash.BootstrapAlloc
import Smash.DictSamples
import Smash.ImageLookup
import Smash.PendingPages
import Smash.PressureStats
import Smash.SizeClasses
import Smash.DecommitQueue
