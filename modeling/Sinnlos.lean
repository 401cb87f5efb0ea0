import Sinnlos.Live.BusDelivery
import Sinnlos.Live.Reconnection
import Sinnlos.Live.DispatchRuns
import Sinnlos.Live.Convergence
import Sinnlos.Cms.DocumentLockRuns
import Sinnlos.Web.LoginWindows
import Sinnlos.Web.UploadRevocation
import Sinnlos.Cms.WikiAcyclic
import Sinnlos.Cms.UserContactViews
import Sinnlos.Cms.SecondFactorRuns
import Sinnlos.Cms.SecretShareQuotas
import Sinnlos.Cms.AfterCommit
import Sinnlos.Cms.RsvpCounts
import Sinnlos.Cms.RsvpGate
import Sinnlos.Cms.EntraOwnership
import Sinnlos.Cms.WriteStatements
import Sinnlos.Cms.DepartmentAuthorRuns
import Sinnlos.Cms.PublishedLinks
import Sinnlos.Cms.DigestHistory
import Sinnlos.Cms.PollRetention
import Sinnlos.Cms.SearchHistories
import Sinnlos.Cms.PasswordLinkRuns
import Sinnlos.Cms.LastAdmin
import Sinnlos.Cms.QuizChecks
import Sinnlos.Cms.AuthoringPages
import Sinnlos.Cms.AnnouncementReaders
import Sinnlos.Cms.CronRuns
import Sinnlos.Cms.NotificationTitles
import Sinnlos.Cms.ErasureHistories
import Sinnlos.Web.SearchRanks
import Sinnlos.Cms.BallotRaces
import Sinnlos.Domain.InstantAgreement
import Sinnlos.Cms.WithdrawalTurns
import Sinnlos.Cms.ZipScan
import Sinnlos.Cms.AttributeValues
import Sinnlos.Cms.IcsFields
import Sinnlos.Cms.PagedReads
import Sinnlos.Web.TrainingCsv
import Sinnlos.Web.OrgTreeForest
import Sinnlos.Cms.DraftTwinPlan
import Sinnlos.Web.MonthGridShown
import Sinnlos.Web.SnapshotLoads
import Sinnlos.Cms.Base32
import Sinnlos.Cms.SecretShareLimiter
import Sinnlos.Cms.PollOptionCodes
import Sinnlos.Web.LoginRateKeys
import Sinnlos.Web.LoginEviction
import Sinnlos.Live.Emitter
import Sinnlos.Live.Pursuit
import Sinnlos.Cms.SecretCrypto
import Sinnlos.Cms.DutyShifts
