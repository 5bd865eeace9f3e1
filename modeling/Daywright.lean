import Daywright.Interleave
import Daywright.Fence
import Daywright.Table
import Daywright.Php
import Daywright.Zoom
import Daywright.Meeting
import Daywright.Webhooks.Changes
import Daywright.Meetings.Create
import Daywright.Meetings.Update
import Daywright.Meetings.Delete
import Daywright.Meetings.Recovery
import Daywright.Meetings.Ambiguous
import Daywright.Webhooks.Meeting
import Daywright.Webhooks.MeetingUpdated
import Daywright.Meetings.Program
import Daywright.Meetings.Protocol
import Daywright.Meetings.Outline
import Daywright.Meetings.Coupling
import Daywright.Meetings.Eligibility
import Daywright.Meetings.Fencing
import Daywright.Meetings.LateCreate
import Daywright.Meetings.Completion
import Daywright.Inbox.Service
import Daywright.Inbox.Outline
import Daywright.Inbox.Ownership
import Daywright.Inbox.Recoverable
import Daywright.Billing.Operation
import Daywright.Billing.Service
import Daywright.Billing.Recovery
import Daywright.Billing.Program
import Daywright.Billing.Effects
import Daywright.Billing.Outline
import Daywright.Billing.OneMutation
import Daywright.Billing.LifeCycle
import Daywright.Webhooks.Columns
import Daywright.Webhooks.Ordering
import Daywright.Meetings.Provider
import Daywright.Meetings.StaleView
import Daywright.Billing.Proof
import Daywright.Meetings.PlanLimit
import Daywright.Meetings.Establish
import Daywright.Meetings.RuntimeStatus
import Daywright.Webhooks.Runtime
import Daywright.Messages.Effects
import Daywright.Messages.Outline
import Daywright.Messages.Delivery
import Daywright.Messages.Claim
import Daywright.Transaction
import Daywright.Versions.StateMachine
import Daywright.Versions.Task
import Daywright.Versions.Project
import Daywright.Versions.LostUpdate
import Daywright.Guard
import Daywright.Plans.Service
import Daywright.Plans.Usage
import Daywright.Plans.Limit
import Daywright.Accounts.Verified
import Daywright.Admin.Access
import Daywright.Tokens.Connector
import Daywright.Tokens.Outline
import Daywright.Tokens.Rollback
import Daywright.TwoFactor.Login
import Daywright.TwoFactor.Challenge
import Daywright.Chunk
import Daywright.Removal.Database
import Daywright.Removal.Purge
import Daywright.Removal.Cancellation
import Daywright.Meetings.Match
import Daywright.Meetings.Attempts
import Daywright.Meetings.Patches
import Daywright.Meetings.Claims
import Daywright.Meetings.RateLimit
import Daywright.Webhooks.Detection
import Daywright.FormRequest
import Daywright.Webhooks.UpdatedRequest
import Daywright.Inbox.Fingerprint
import Daywright.Metrics.TaskHealth
import Daywright.JsonText
import Daywright.Frontend.IdempotencyRequest
import Daywright.Like
import Daywright.QueryBuilder.EscapesLikeWildcards
import Daywright.Calendar
import Daywright.Rules.Iso8601Timestamp
import Daywright.Meetings.UpdateRequest
import Daywright.Meetings.Response
import Daywright.Meetings.Recognised
import Daywright.Tasks.UpdateRequest
import Daywright.Tasks.Reset
import Daywright.Tasks.DueNotification
import Daywright.Notifications.Job
import Daywright.Notifications.Outline
import Daywright.Notifications.Delivery
import Daywright.Notifications.Exclusive
import Daywright.Tokens.Authorization
import Daywright.Logging.AuditLog
import Daywright.Plans.Membership
import Daywright.Plans.Standing
import Daywright.Conversations.Mentions
import Daywright.States
import Daywright.Versions.LifeCycle
import Daywright.Conversations.Chat
import Daywright.Conversations.Outline
import Daywright.Conversations.Reader
import Daywright.Conversations.Realtime
import Daywright.Conversations.Attachments
