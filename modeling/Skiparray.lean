import Skiparray.Lib.Fallible
import Skiparray.Lib.SkipLinks
import Skiparray.Lib.Window
import Skiparray.Lib.OrderedMap
import Skiparray.Model.Read
import Skiparray.Model.Update
import Skiparray.Model.Pop
import Skiparray.Model.Builder
import Skiparray.Model.Filter
import Skiparray.Layout.Search
import Skiparray.Layout.NodeOps
import Skiparray.Layout.Link
import Skiparray.Layout.Insert
import Skiparray.Layout.Unlink
import Skiparray.Layout.Reads
import Skiparray.Layout.Balance
import Skiparray.Layout.Mutations
import Skiparray.Layout.Create
import Skiparray.Layout.Build
import Skiparray.Layout.Cursor
import Skiparray.Runs.Calls
import Skiparray.Runs.Refinement
import Skiparray.Runs.Reachable
import Skiparray.Runs.Invariants
import Skiparray.Runs.Contents
import Skiparray.Runs.Ownership
import Skiparray.Runs.Cursors
import Skiparray.Runs.Locking
import Skiparray.Runs.Pops
import Skiparray.Runs.Levels
import Skiparray.Layout.Held
import Skiparray.Layout.FoldInit
import Skiparray.Runs.Failures
import Skiparray.Layout.FoldQueue
import Skiparray.Layout.FoldStep
import Skiparray.Runs.Folds
import Skiparray.Runs.Pending
import Skiparray.Runs.Searching
import Skiparray.Runs.Windows
import Skiparray.Runs.Chains
import Skiparray.Runs.Walks
import Skiparray.Runs.Lists
import Skiparray.Runs.Filters
import Skiparray.Lib.Lockstep
import Skiparray.Lib.Merging
import Skiparray.Lib.Arrivals
import Skiparray.Runs.Exactness
import Skiparray.Runs.MergeOrder
import Skiparray.Runs.Twins
import Skiparray.Runs.FoldTwins
import Skiparray.Runs.Clients
import Skiparray.Runs.Building
import Skiparray.Lib.Interaction
import Skiparray.Runs.FoldMoves
import Skiparray.Runs.Beside
import Skiparray.Runs.Sessions
import Skiparray.Runs.Interleavings
import Skiparray.Runs.FoldLocks
import Skiparray.Runs.Observations
import Skiparray.Runs.Memory
import Skiparray.Runs.Lives
