import Hft.Logical.Arithmetic
import Hft.Logical.Wrapping
import Hft.Logical.CString
import Hft.Logical.MachineCost
import Hft.Logical.Memory
import Hft.Logical.Numbering
import Hft.Logical.SlotTable
import Hft.Logical.SlotIndex
import Hft.Logical.TableScan
import Hft.Logical.RereadScan
import Hft.Logical.Projection
import Hft.Logical.Retelling
import Hft.Logical.Stutter
import Hft.Logical.Prefixes
import Hft.Logical.FirstComers
import Hft.Logical.RunningAverage
import Hft.OrderEvent
import Hft.EventLog
import Hft.EventLog.Stores
import Hft.EventLog.Writers
import Hft.EventLog.Creation
import Hft.EventLog.Readers
import Hft.EventLog.Untrusted
import Hft.EventLog.Bytes
import Hft.OrderManager
import Hft.OrderManager.Lifecycle
import Hft.PositionTracker
import Hft.PositionTracker.Direction
import Hft.PositionTracker.Reconciliation
import Hft.Projections
import Hft.SlotOrder
import Hft.OrderManager.Coherence
import Hft.OrderManager.AverageFill
import Hft.OrderManager.MachineWidth
import Hft.PositionTracker.Calls
import Hft.PositionTracker.LastPrice
import Hft.PositionTracker.EntryPrice
import Hft.PositionTracker.Totals
import Hft.PositionTracker.Volumes
import Hft.PositionTracker.MachineWidth
import Hft.RiskChecker
import Hft.Views
import Hft.Risk.Ledger
import Hft.Gateway.MessageTranslator
import Hft.Gateway.Killswitch
import Hft.Gateway.CancelAll
import Hft.Gateway.FIXGateway
import Hft.Gateway.Session
import Hft.Gateway.FailedSend
import Hft.Gateway.Identity
import Hft.Gateway.RequestIds
import Hft.Gateway.Tracking
import Hft.Gateway.Symbols
import Hft.Gateway.RoundTrip
import Hft.Gateway.Flatten
import Hft.Gateway.Delivery
import Hft.Gateway.CancelConfirmation
import Hft.Gateway.ConcurrentKillswitch
import Hft.Gateway.Interleaving
import Hft.PositionTracker.TotalPnl
import Hft.Gateway.CrashRecovery
import Hft.Gateway.Redelivery
import Hft.Gateway.MainProgram
import Hft.Gateway.LogOrder
import Hft.Gateway.Indistinguishable
import Hft.Gateway.Stamps
import Hft.Gateway.WriteAhead
import Hft.Gateway.Exchange
import Hft.Risk.ConformingRun
import Hft.Risk.PositionLimit
import Hft.Risk.LossLock
import Hft.Risk.RacingCheck
import Hft.Risk.Lifetimes
import Hft.Gateway.LimitPrices
import Hft.Risk.TrueExposure
import Hft.Risk.PositionCross
import Hft.Risk.Shutdown
import Hft.Risk.Overloads
import Hft.Risk.Soundness
import Hft.Risk.Reducing
import Hft.Gateway.Executions
