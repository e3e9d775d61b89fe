import DpdkTools.Device.Mcast
import DpdkTools.Device.RxDispatch
import DpdkTools.Device.Sinks
import DpdkTools.Device.TxJob
import DpdkTools.Device.RxExact
import DpdkTools.Flow.RxQueue
import DpdkTools.Device.RxOwnership
import DpdkTools.Device.Attach
import DpdkTools.Device.AttachErrors
import DpdkTools.Device.AttachModes
import DpdkTools.Device.SinkCache
import DpdkTools.Device.SinkCas
import DpdkTools.Device.SinkUpdates
import DpdkTools.Device.SinkProgress
import DpdkTools.Device.SinkReferences
import DpdkTools.Lib.BigEndian
import DpdkTools.Sockperf.Elapsed
import DpdkTools.Sockperf.Header
import DpdkTools.Sockperf.Channel
import DpdkTools.Sockperf.TxJob
import DpdkTools.Sockperf.Timestamps
import DpdkTools.Device.RxWellFormed
import DpdkTools.Net.MakeUdp
import DpdkTools.Sockperf.Packets
import DpdkTools.Sockperf.RoundTrip
import DpdkTools.Sockperf.Latency
import DpdkTools.Device.RxStale
import DpdkTools.Device.StaleKinds
import DpdkTools.Lib.OnesComplement
import DpdkTools.Net.Cksum
import DpdkTools.Net.TagStacks
import DpdkTools.Device.EchoReply
import DpdkTools.Device.McastReport
import DpdkTools.Device.ArpResolver
import DpdkTools.Sockperf.SlotBounds
import DpdkTools.Lib.GapCount
import DpdkTools.Sockperf.Process
import DpdkTools.Sockperf.Losses
import DpdkTools.Config.Device
import DpdkTools.Config.Offloads
import DpdkTools.Lib.Integral
import DpdkTools.Numerics.MulDiv
import DpdkTools.Sockperf.Ticks
import DpdkTools.Device.UdpTx
import DpdkTools.Device.UdpSegments
import DpdkTools.Device.UdpLengths
import DpdkTools.Device.ServiceMbufs
import DpdkTools.Sockperf.PoolRoom
import DpdkTools.Device.SrcPorts
import DpdkTools.Config.Construct
import DpdkTools.Lib.Grants
import DpdkTools.Config.TxQueues
import DpdkTools.Config.TxRings
import DpdkTools.Sockperf.DeviceClock
import DpdkTools.Sockperf.HeaderCalls
import DpdkTools.Device.RxKept
import DpdkTools.RunJobs
import DpdkTools.Lib.Grouping
import DpdkTools.Config.Sockets
import DpdkTools.Device.ClockFreq
import DpdkTools.Device.Staleness
import DpdkTools.Lib.Numerals
import DpdkTools.Config.Layers
import DpdkTools.Config.NicInfo
import DpdkTools.Config.Dump
import DpdkTools.Device.RxDeferred
import DpdkTools.Device.ArpFrames
import DpdkTools.Device.ArpLink
import DpdkTools.Device.ArpExchange
import DpdkTools.Device.MbufPlaces
import DpdkTools.Device.Datagrams
import DpdkTools.Sockperf.Throughput
import DpdkTools.Sockperf.LatencyRun
import DpdkTools.JobLoops
import DpdkTools.Flow.Rules
import DpdkTools.Flow.Refinement
import DpdkTools.Sockperf.LaunchPlan
import DpdkTools.Device.AttachEffect
import DpdkTools.Device.EtherWait
