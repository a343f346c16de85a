import ApTelemetry.Lib.Machine
import ApTelemetry.Receiver.Pool
import ApTelemetry.Tree.BstSearch
import ApTelemetry.DropLog.Codel
import ApTelemetry.DropLog.Mac80211
import ApTelemetry.Sendudp.RecvCb
import ApTelemetry.Flow.PublicBuffer
import ApTelemetry.Controller.Features
import ApTelemetry.Wire.Process
import ApTelemetry.Controller.Exchange
import ApTelemetry.HashLin.FlowMap
import ApTelemetry.NewReceiver.Closing
import ApTelemetry.NewReceiver.Scaling
import ApTelemetry.Receiver.Samples
import ApTelemetry.Wire.Bounds
import ApTelemetry.Ofproto.HandleMsg
import ApTelemetry.Ofproto.FlowSelection
import ApTelemetry.Newanalysis.Rebuild
import ApTelemetry.Receiver.OneSlot
import ApTelemetry.Receiver.DropWindow
import ApTelemetry.Sendudp.Peaks
import ApTelemetry.Sendudp.Queues
import ApTelemetry.Sendudp.IwTable
import ApTelemetry.Sendudp.Neighbours
import ApTelemetry.Flow.FlowTable
import ApTelemetry.Receiver.Iteration
import ApTelemetry.Receiver.Computed
import ApTelemetry.Receiver.Neibours
import ApTelemetry.Receiver.RecentNeibours
import ApTelemetry.Receiver.Stations
import ApTelemetry.Receiver.EventTimes
import ApTelemetry.NewReceiver.Delivery
import ApTelemetry.Training.Alignment
import ApTelemetry.ServerLog.Statistics
import ApTelemetry.TcpInfo.Answer
import ApTelemetry.Receiver.Join
import ApTelemetry.Receiver.Acknowledged
import ApTelemetry.Receiver.NewSlot
import ApTelemetry.Flow.WindowScale
import ApTelemetry.Flow.KeyExtract
import ApTelemetry.Sendudp.Simultaneous
import ApTelemetry.Sendudp.Tracking
import ApTelemetry.Sendudp.NeibourCount
import ApTelemetry.Sendudp.Rates
import ApTelemetry.Sendudp.Netlink
import ApTelemetry.Status.Survey
import ApTelemetry.Createtree.BstSearch
import ApTelemetry.Createtree.Parameters
import ApTelemetry.Ofproto.CreateItems
import ApTelemetry.NewReceiver.FlowQuery
import ApTelemetry.NewReceiver.DropQuery
import ApTelemetry.HashLin.Update
import ApTelemetry.Compute.BinSearch
import ApTelemetry.Compute.RetransByNumber
import ApTelemetry.Compute.RetransNew
import ApTelemetry.Compute.Rtt
import ApTelemetry.TcpInfo.Strlinger
import ApTelemetry.Tree.Depth
import ApTelemetry.Lib.Table
import ApTelemetry.FqCodel.Parent
import ApTelemetry.FqCodel.Fairness
import ApTelemetry.FqCodel.Waiting
import ApTelemetry.FqCodel.Batch
import ApTelemetry.FqCodel.Hang
import ApTelemetry.FqCodel.DropReport
import ApTelemetry.EndToEnd.Drops
import ApTelemetry.EndToEnd.Trees
import ApTelemetry.Newanalysis.Decides
import ApTelemetry.SimpleSwitch.Learning
import ApTelemetry.SchGeneric.Runs
