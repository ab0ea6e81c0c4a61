import BlobsDb.ClientLib.Accessing
import BlobsDb.ClientLib.Caching
import BlobsDb.ClientLib.Calls
import BlobsDb.ClientLib.CommitMessages
import BlobsDb.ClientLib.Committing
import BlobsDb.ClientLib.Creating
import BlobsDb.ClientLib.IdLists
import BlobsDb.ClientLib.Merging
import BlobsDb.ClientLib.Opening
import BlobsDb.ClientLib.Operations
import BlobsDb.ClientLib.Overlay
import BlobsDb.ClientLib.Reading
import BlobsDb.ClientLib.Releasing
import BlobsDb.ClientLib.StickyLocks
import BlobsDb.ClientLib.Tracking
import BlobsDb.ClientLib.Transaction
import BlobsDb.ClientLib.View
import BlobsDb.Config
import BlobsDb.ForMathlib.Attempt
import BlobsDb.ForMathlib.Extent
import BlobsDb.ForMathlib.FlatMap
import BlobsDb.ForMathlib.FromChars
import BlobsDb.ForMathlib.GuardedRun
import BlobsDb.ForMathlib.LevelTree
import BlobsDb.ForMathlib.LittleEndian
import BlobsDb.ForMathlib.LockBook
import BlobsDb.ForMathlib.RecordBuffer
import BlobsDb.ForMathlib.SharedLock
import BlobsDb.ForMathlib.WaitGraph
import BlobsDb.Logical.Update
import BlobsDb.Network.Messages
import BlobsDb.Network.Receiving
import BlobsDb.Network.Sending
import BlobsDb.Server.Accepted
import BlobsDb.Server.Accepting
import BlobsDb.Server.Answering
import BlobsDb.Server.Answers
import BlobsDb.Server.Beginning
import BlobsDb.Server.Blocking
import BlobsDb.Server.Closing
import BlobsDb.Server.Committing
import BlobsDb.Server.Contents
import BlobsDb.Server.Counting
import BlobsDb.Server.Cycles
import BlobsDb.Server.Deadlocks
import BlobsDb.Server.DelayedClose
import BlobsDb.Server.Effects
import BlobsDb.Server.Events
import BlobsDb.Server.Failing
import BlobsDb.Server.Fitting
import BlobsDb.Server.Granting
import BlobsDb.Server.Handling
import BlobsDb.Server.Holding
import BlobsDb.Server.Isolating
import BlobsDb.Server.Ledger
import BlobsDb.Server.Located
import BlobsDb.Server.Locations
import BlobsDb.Server.Lookup
import BlobsDb.Server.Messages
import BlobsDb.Server.Moves
import BlobsDb.Server.NextFreeIds
import BlobsDb.Server.Orderly
import BlobsDb.Server.Pending
import BlobsDb.Server.Persisting
import BlobsDb.Server.Progress
import BlobsDb.Server.Ranges
import BlobsDb.Server.Reading
import BlobsDb.Server.Registry
import BlobsDb.Server.Reopening
import BlobsDb.Server.Scheduler
import BlobsDb.Server.Server
import BlobsDb.Server.Snapshots
import BlobsDb.Server.Timeouts
import BlobsDb.Server.Untouched
import BlobsDb.Server.Upholding
import BlobsDb.Server.Users
import BlobsDb.Server.Validating
import BlobsDb.Server.Versions
import BlobsDb.Server.Waiting
import BlobsDb.Server.Waking
import BlobsDb.Storage.Applying
import BlobsDb.Storage.Backend
import BlobsDb.Storage.Building
import BlobsDb.Storage.Commit
import BlobsDb.Storage.Committing
import BlobsDb.Storage.Copying
import BlobsDb.Storage.Database
import BlobsDb.Storage.Entries
import BlobsDb.Storage.File
import BlobsDb.Storage.Format
import BlobsDb.Storage.FreeList
import BlobsDb.Storage.Heap
import BlobsDb.Storage.Invariant
import BlobsDb.Storage.Keeping
import BlobsDb.Storage.Layout
import BlobsDb.Storage.Loaded
import BlobsDb.Storage.Loading
import BlobsDb.Storage.Opening
import BlobsDb.Storage.Placing
import BlobsDb.Storage.Reloading
import BlobsDb.Storage.Reorganizing
import BlobsDb.Storage.Running
import BlobsDb.Storage.Site
import BlobsDb.Storage.Tree
import BlobsDb.Storage.Writing
import BlobsDb.ClientLib.Transmitting
