import Wyrebox.JournalCrash
import Wyrebox.JournalAgreement
import Wyrebox.JournalResume
import Wyrebox.BoundedReader
import Wyrebox.JournalCorruption
import Wyrebox.ObjectIntegrity
import Wyrebox.FactReplay
import Wyrebox.DeliveryRetry
import Wyrebox.MigrationRestart
import Wyrebox.RefreshQueue
import Wyrebox.Convergence
import Wyrebox.FlagReplay
import Wyrebox.FactSnapshot
import Wyrebox.MembershipConservation
import Wyrebox.DovecotSync
import Wyrebox.ExtractionRuns
import Wyrebox.DerivedViewAgreement
import Wyrebox.DerivedViewUids
import Wyrebox.DerivedViewVisibility
import Wyrebox.RecordWrites
import Wyrebox.ComponentEvaluation
import Wyrebox.KeysetPaging
import Wyrebox.LmtpAgreement
import Wyrebox.ReceiptSummary
import Wyrebox.ListSelect
import Wyrebox.MailboxLoad
import Wyrebox.ObjectReachability
import Wyrebox.PartialHeader
import Wyrebox.FactReconciliation
import Wyrebox.MutationCodecs
import Wyrebox.MessageDeliveredCodec
import Wyrebox.EmlValues
import Wyrebox.WirelogBatches
import Wyrebox.RunBatching
import Wyrebox.FlagPushAgreement
import Wyrebox.AddressList
import Wyrebox.IdentityPreimages
import Wyrebox.MembershipCsv
import Wyrebox.FactArguments
import Wyrebox.LmtpData
import Wyrebox.ReplayValidation
import Wyrebox.HeaderDecoding
import Wyrebox.DateAgreement
import Wyrebox.SearchStatement
import Wyrebox.AddressFacts
import Wyrebox.SenderDomain
import Wyrebox.ConnectionSession
import Wyrebox.ConnectionServer
import Wyrebox.DeliveryProjection
import Wyrebox.FactMutationService
import Wyrebox.MailEventStream
import Wyrebox.MaildirImport
import Wyrebox.MaildirScan
import Wyrebox.Recovery
