import WebTester.BoundedTasks
import WebTester.Bounds
import WebTester.ChainTesting
import WebTester.StickyVerdict
import WebTester.StreamAuthorization
import WebTester.StreamIsolation
import WebTester.Chroot
import WebTester.Interruption
import WebTester.Scoring
import WebTester.TestingMainLoop
import WebTester.CallStack
import WebTester.Nesting
import WebTester.Unpacking
import WebTester.StatClients
import WebTester.PipePlugin
import WebTester.IpcFraming
import WebTester.Lrvm
import WebTester.LoginThrottle
import WebTester.BeltsLoop
import WebTester.QueueOrder
import WebTester.HvPool
import WebTester.Unique
import WebTester.RunBelts
import WebTester.TestDirs
import WebTester.FileTree
import WebTester.UnlinkDir
import WebTester.HiveScan
import WebTester.Hive
import WebTester.HiveTree
import WebTester.Descent
import WebTester.HiveInclude
import WebTester.Compilation
import WebTester.ExitStatus
import WebTester.Locking
import WebTester.Accumulator
import WebTester.Linked
import WebTester.Dynastruc
import WebTester.AssArrChains
import WebTester.TestLib
import WebTester.Checking
import WebTester.Scanf
import WebTester.Blacklist
import WebTester.Serialization
import WebTester.HiveSiblings
import WebTester.Corrections
import WebTester.Slots
import WebTester.Registration
import WebTester.IpcClients
import WebTester.Attributes
import WebTester.Netlink
import WebTester.Paths
import WebTester.ConfigPath
import WebTester.Shell
import WebTester.CommandLine
import WebTester.Regexp
import WebTester.RegexpMatch
import WebTester.RegexpReplace
import WebTester.Substitution
import WebTester.ReplaceVar
import WebTester.CmdParser
import WebTester.TestFiles
import WebTester.TestsTable
import WebTester.TaskBuffers
import WebTester.TaskChain
import WebTester.HiveValues
import WebTester.Reception
import WebTester.HiveBytes
import WebTester.HiveLexemes
import WebTester.HiveBounds
import WebTester.CmdBytes
import WebTester.Setters
import WebTester.Quoting
import WebTester.FlexHeap
import WebTester.FlexRuns
import WebTester.ListCursor
import WebTester.Bubble
import WebTester.DynaSort
import WebTester.Listing
import WebTester.Explode
import WebTester.Literals
import WebTester.Numbers
import WebTester.PackBuffer
import WebTester.HashRange
import WebTester.Supervisor
import WebTester.Range
import WebTester.OutputRing
import WebTester.Plugins
import WebTester.CheckerNumbers
import WebTester.CheckerLines
import WebTester.LongLines
import WebTester.SendCmd
import WebTester.PipeOutput
import WebTester.TimeDelta
import WebTester.Subscript
import WebTester.FlexCopy
import WebTester.Md5Crypt
import WebTester.Handshake
import WebTester.Hooks
import WebTester.ProblemUploading
import WebTester.CopyDir
import WebTester.IpcSession
import WebTester.LogRotation
import WebTester.PidFile
import WebTester.ChrootData
