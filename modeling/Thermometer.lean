import Thermometer.SppLookahead
import Thermometer.SppPrefetcher
import Thermometer.IpStride
import Thermometer.Lib.RecentSlots
import Thermometer.ShipReplacement
import Thermometer.RripReplacement
import Thermometer.Lib.Rereference
import Thermometer.FrontFetch
import Thermometer.FrontOrder
import Thermometer.FrontEnd
import Thermometer.Lib.Saturation
import Thermometer.CounterPredictors
import Thermometer.HashedPerceptron
import Thermometer.PerceptronPredictor
import Thermometer.LoopPredictor
import Thermometer.TageBanks
import Thermometer.TageTables
import Thermometer.TageSafety
import Thermometer.TageHistory
import Thermometer.Lib.Folding
import Thermometer.Lib.Tables
import Thermometer.Lib.Runs
import Thermometer.Lib.Scan
import Thermometer.Lib.Recency
import Thermometer.Lib.Paging
import Thermometer.Trace
import Thermometer.StreamBuffer
import Thermometer.SideTables
import Thermometer.BasicBtb
import Thermometer.BasicBtbLru
import Thermometer.BasicBtbFirst
import Thermometer.AccessRecord
import Thermometer.OptBtb
import Thermometer.OptFuture
import Thermometer.OptStep
import Thermometer.OptBelady
import Thermometer.OptBtbGenerate
import Thermometer.OptReplay
import Thermometer.HotWarmColdBtb
import Thermometer.HotWarmColdVictim
import Thermometer.HotWarmColdCategory
import Thermometer.Lib.HexText
import Thermometer.ProfileFile
import Thermometer.OptProfile
import Thermometer.MultiLevelBtb
import Thermometer.MultiLevelCascade
import Thermometer.MultiLevelReach
import Thermometer.MultiLevelDriver
import Thermometer.MultiLevelBasicBtb
import Thermometer.LruLevel
import Thermometer.LruHierarchy
import Thermometer.LruBottom
import Thermometer.MultiLevelOptBtb
import Thermometer.MultiLevelHwcBtb
import Thermometer.MultiLevelHit
import Thermometer.AlwaysTaken
import Thermometer.MultiLevelTaken
import Thermometer.Lib.Slots
import Thermometer.VictimBufferBtb
import Thermometer.AlwaysTakenSound
import Thermometer.SetMapping
import Thermometer.TwigSetUp
import Thermometer.OptRecord
import Thermometer.Lib.Intervals
import Thermometer.Lib.Reuse
import Thermometer.PtReader
import Thermometer.HawkeyeOptgen
import Thermometer.HawkeyeReplacement
import Thermometer.HawkeyeTraining
import Thermometer.GhrpBtb
import Thermometer.GhrpLearning
import Thermometer.Lib.Rings
import Thermometer.ReorderBuffer
import Thermometer.RobEdges
import Thermometer.RobCounts
import Thermometer.RobScan
import Thermometer.RobQueue
import Thermometer.RobWakeup
import Thermometer.RobExact
import Thermometer.RobDependency
import Thermometer.Lib.Windows
import Thermometer.LoadStoreQueue
import Thermometer.LsqInvariant
import Thermometer.LsqFrame
import Thermometer.LsqRelease
import Thermometer.LsqLoads
import Thermometer.Lib.Traversal
import Thermometer.LsqStores
import Thermometer.LsqExecute
import Thermometer.LsqRetire
import Thermometer.LsqExact
import Thermometer.FetchResume
import Thermometer.Lib.Partition
import Thermometer.QueueBuffer
import Thermometer.QueueDelay
import Thermometer.Lib.ListSort
import Thermometer.Lib.SortedMerge
import Thermometer.QueueList
import Thermometer.CacheModel
import Thermometer.CacheMshr
import Thermometer.CacheMerge
import Thermometer.CacheSystem
import Thermometer.CacheRoom
import Thermometer.CacheBlocks
import Thermometer.CacheTokens
import Thermometer.CacheReplies
import Thermometer.CacheMatched
import Thermometer.CacheExpected
import Thermometer.DramBooks
import Thermometer.DramOperate
import Thermometer.DramReset
import Thermometer.DramConsistent
import Thermometer.Lib.Pool
import Thermometer.VmemModel
import Thermometer.VmemPages
import Thermometer.Lib.Cells
import Thermometer.ShotgunFootprint
import Thermometer.ShotgunBasic
import Thermometer.ShotgunOpt
import Thermometer.ShotgunHwc
import Thermometer.ShotgunFront
import Thermometer.ShotgunReturns
import Thermometer.FdipShotgun
import Thermometer.ShotgunVisit
import Thermometer.ShotgunOwned
import Thermometer.ShotgunHandover
import Thermometer.ShotgunCurrent
import Thermometer.RobProgress
import Thermometer.TwigPipeline
import Thermometer.TwigPaired
import Thermometer.Lib.Stacks
import Thermometer.RasStack
import Thermometer.ShotgunPublish
import Thermometer.Lib.StackDistance
import Thermometer.ReuseRecord
import Thermometer.ReuseTracking
import Thermometer.Lib.NewestFirst
import Thermometer.LruStack
import Thermometer.ReuseHits
import Thermometer.SrripBtb
import Thermometer.SrripVictim
import Thermometer.HawkeyeSampler
import Thermometer.HawkeyeBtb
import Thermometer.HawkeyeVisible
import Thermometer.GhrpLatest
import Thermometer.StreamFresh
import Thermometer.Lib.Fifo
import Thermometer.VictimBufferKept
import Thermometer.FdipQueue
import Thermometer.FdipAligned
import Thermometer.CacheFront
import Thermometer.CacheLru
import Thermometer.ProbOptCompare
import Thermometer.ReusePredict
import Thermometer.ReusePredictHistory
import Thermometer.Lib.Doubles
import Thermometer.ProbBtb
import Thermometer.ProbBtbCounters
import Thermometer.ProbBtbSpared
import Thermometer.CacheFill
import Thermometer.CacheWriteback
import Thermometer.Lib.Contents
import Thermometer.StoreOrder
import Thermometer.StorePath
import Thermometer.StoreFrame
import Thermometer.Lib.SlotRings
import Thermometer.StorePipeline
import Thermometer.StorePassage
import Thermometer.Lib.Cursors
import Thermometer.PacketMerge
import Thermometer.Lib.Strtoul
import Thermometer.PtLine
import Thermometer.Lib.Fields
import Thermometer.Lib.SortedArrays
import Thermometer.FastSetModel
import Thermometer.FastSetRefines
import Thermometer.AddressSpaces
import Thermometer.AddressFrame
import Thermometer.AddressCarried
import Thermometer.AddressOffered
import Thermometer.AddressApart
