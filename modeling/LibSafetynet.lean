import LibSafetynet.Accounting
import LibSafetynet.BlockHistory
import LibSafetynet.CacheCalls
import LibSafetynet.CacheLock
import LibSafetynet.CacheReplacement
import LibSafetynet.CacheSettled
import LibSafetynet.CacheSlots
import LibSafetynet.Checksum
import LibSafetynet.ConcurrentFree
import LibSafetynet.ConcurrentMalloc
import LibSafetynet.ConcurrentPuts
import LibSafetynet.CrashReport
import LibSafetynet.FailureAtomicity
import LibSafetynet.FastPath
import LibSafetynet.FileHistory
import LibSafetynet.FileRoundTrip
import LibSafetynet.HardLimit
import LibSafetynet.LastAccess
import LibSafetynet.LastError
import LibSafetynet.LimitCheck
import LibSafetynet.ListDestroy
import LibSafetynet.ListRefinement
import LibSafetynet.LockBalance
import LibSafetynet.MetadataForEach
import LibSafetynet.MetadataSnapshot
import LibSafetynet.MutexExclusion
import LibSafetynet.ProcessExit
import LibSafetynet.RecordedSize
import LibSafetynet.Sanitised
import LibSafetynet.SlotAccounting
