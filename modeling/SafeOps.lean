import SafeOps.Guarantees.AuditTruth
import SafeOps.Guarantees.LeaseSafety
import SafeOps.Guarantees.OneApproval
import SafeOps.Guarantees.PolicyChoice
import SafeOps.Guarantees.RefundLedger
import SafeOps.Guarantees.ToolsOnLive
import SafeOps.Guarantees.Unattended
import SafeOps.Guarantees.ConfusedDeputy
import SafeOps.Guarantees.PlannedOnce
import SafeOps.Guarantees.FailClosed
import SafeOps.Guarantees.Comparisons
import SafeOps.Guarantees.Backing
import SafeOps.Guarantees.OneExecution
import SafeOps.Guarantees.Stranded
import SafeOps.Guarantees.GatewayRecord
import SafeOps.Observers.Recorder
import SafeOps.Guarantees.StepRecords
import SafeOps.Inventory.Sections
import SafeOps.Observers.Holder
import SafeOps.Guarantees.LeaseHolders
import SafeOps.Guarantees.CanonicalPayload
import SafeOps.Guarantees.RateWindow
import SafeOps.Guarantees.LogPrivacy
import SafeOps.Guarantees.DuplicateRefunds
import SafeOps.Serial.Between
import SafeOps.Core.Seed
import SafeOps.Guarantees.AmountText
import SafeOps.Guarantees.RefundBands
import SafeOps.Guarantees.Bootstrap
import SafeOps.Guarantees.TicketTaint
import SafeOps.Guarantees.Permanence
import SafeOps.Guarantees.SerialSections
import SafeOps.Guarantees.WriteAhead
import SafeOps.Guarantees.LeastPrivilege
import SafeOps.Guarantees.NeverStuck
import SafeOps.Guarantees.ClauseOrder
import SafeOps.Guarantees.Adapters
import SafeOps.Guarantees.Separation
