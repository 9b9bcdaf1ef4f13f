import BookingSystem.Concurrency.Slots
import BookingSystem.Concurrency.LostUpdate
import BookingSystem.Concurrency.Tokens
import BookingSystem.Concurrency.Delegation
import BookingSystem.Concurrency.Ghosts
import BookingSystem.Concurrency.IdempotencyKeys
import BookingSystem.Concurrency.AuditForks
import BookingSystem.Runs.Released
import BookingSystem.Runs.OwnerBypass
import BookingSystem.Runs.Inbox
import BookingSystem.Runs.RoomRule
import BookingSystem.Runs.Unanimous
import BookingSystem.Runs.Answers
import BookingSystem.Runs.StoredMode
import BookingSystem.Runs.Tenants
import BookingSystem.Runs.Withdrawals
import BookingSystem.Runs.Audit
import BookingSystem.Runs.SecondFactor
import BookingSystem.Runs.Federated
import BookingSystem.Contracts.Erasure
import BookingSystem.Contracts.Sync
import BookingSystem.Contracts.LocalSeries
import BookingSystem.Contracts.Committed
import BookingSystem.Contracts.OutboxRows
import BookingSystem.Contracts.TruthfulStatus
import BookingSystem.Contracts.AuditAgreement
import BookingSystem.Contracts.AuditTampering
import BookingSystem.Contracts.SamlBinding
import BookingSystem.Runs.FrozenInvoices
import BookingSystem.Runs.MirroredEvents
import BookingSystem.Runs.CancelledStays
import BookingSystem.Concurrency.StaleSaves
import BookingSystem.Concurrency.ParallelApprovers
import BookingSystem.Contracts.SeriesRules
import BookingSystem.Concurrency.CompositeRooms
import BookingSystem.Contracts.CanonicalForm
import BookingSystem.Contracts.BusyRooms
import BookingSystem.Contracts.Projections
import BookingSystem.Concurrency.WebhookRetries
import BookingSystem.Concurrency.Passkeys
import BookingSystem.Contracts.StackSwap
import BookingSystem.Concurrency.Reconnects
import BookingSystem.Runs.BroadcastWindows
import BookingSystem.Contracts.AuditSecrets
import BookingSystem.Contracts.Deciders
import BookingSystem.Contracts.OpenInstants
import BookingSystem.Contracts.SeriesMoves
import BookingSystem.Contracts.RuleSeries
import BookingSystem.Concurrency.SettingsVersions
import BookingSystem.Contracts.FoldedLines
import BookingSystem.Contracts.SubRooms
import BookingSystem.Contracts.RuleChoice
import BookingSystem.Runs.Completion
import BookingSystem.Contracts.RollupOrder
import BookingSystem.Contracts.RRuleMonths
import BookingSystem.Contracts.RRuleWeeks
import BookingSystem.Contracts.RoomVisibility
import BookingSystem.Contracts.RRuleText
import BookingSystem.Contracts.AuthenticatorData
import BookingSystem.Contracts.PasskeyRegistration
import BookingSystem.Runs.LoginLimits
import BookingSystem.Runs.RateWindows
import BookingSystem.Contracts.ScimPatch
import BookingSystem.Contracts.AddressFilters
import BookingSystem.Contracts.LdapFilters
import BookingSystem.Contracts.PushMessages
import BookingSystem.Contracts.Reports
import BookingSystem.Contracts.HolidaySync
import BookingSystem.Contracts.HolidayFeed
import BookingSystem.Concurrency.Realtime
import BookingSystem.Concurrency.RealtimeStore
import BookingSystem.Contracts.Lanes
