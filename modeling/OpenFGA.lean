import OpenFGA.Authz
import OpenFGA.Storage.Peeking
import OpenFGA.Storage.IsOrdered
import OpenFGA.Storage.Combined
import OpenFGA.Storage.LockKeys
import OpenFGA.Check.SetReducers
import OpenFGA.Check.RecursiveProgress
import OpenFGA.Check.ExclusionStreams
import OpenFGA.Check.SetOperations
import OpenFGA.Check.VisitedFilter
import OpenFGA.Check.ContextualIndex
import OpenFGA.Check.EdgeCache
import OpenFGA.LocalChecker.Reducers
import OpenFGA.Cache.Freshness
import OpenFGA.Cache.Coverage
import OpenFGA.Cache.Snapshots
import OpenFGA.Cache.CachedIterator
import OpenFGA.SharedIterator.Registry
import OpenFGA.SharedIterator.Clones
import OpenFGA.Pipeline.Teardown
import OpenFGA.Pipeline.Scratch
import OpenFGA.TypeSystem.EntrypointsExact
import OpenFGA.TypeSystem.ComputedChains
import OpenFGA.ReverseExpand.Exact
import OpenFGA.ListUsers.Completeness
import OpenFGA.ListUsers.Truncation
import OpenFGA.Mpmc.Wakeup
import OpenFGA.Mpsc.Accumulator
