/-!
# The columns of the entities

What TypeORM knows of each class with `@Entity`: its table, and the properties with the columns that they are mapped to.
A column without a `name` is called like its property.
-/

namespace BookingSystem.Model.EntityColumns

structure ColumnMetadata where
  propertyName : String
  databaseName : String
  isPrimary : Bool := false
  deriving DecidableEq, Repr

structure EntityMetadata where
  name : String
  tableName : String
  columns : List ColumnMetadata
  deriving DecidableEq, Repr

def EntityMetadata.primaryColumns (m : EntityMetadata) : List ColumnMetadata := m.columns.filter fun c => c.isPrimary

def column (propertyName databaseName : String) : ColumnMetadata := ⟨propertyName, databaseName, false⟩

/-- A column without a name of its own. -/
def plain (propertyName : String) : ColumnMetadata := column propertyName propertyName

/-- `@PrimaryGeneratedColumn('uuid') id`. -/
def id : ColumnMetadata := { plain "id" with isPrimary := true }

def tenantId : ColumnMetadata := column "tenantId" "tenant_id"

def createdAt : ColumnMetadata := column "createdAt" "created_at"

def updatedAt : ColumnMetadata := column "updatedAt" "updated_at"

def approvalRule : EntityMetadata where
  name := "ApprovalRule"
  tableName := "approval_rules"
  columns := [id, tenantId, plain "name", column "scopeType" "scope_type", column "scopeValue" "scope_value",
    plain "priority", plain "levels", column "isActive" "is_active", createdAt, updatedAt]

def approvalStep : EntityMetadata where
  name := "ApprovalStep"
  tableName := "approval_steps"
  columns := [id, tenantId, column "bookingId" "booking_id", column "ruleId" "rule_id",
    column "stepIndex" "step_index", column "levelName" "level_name", column "approverIds" "approver_ids",
    column "approverRole" "approver_role", column "minGrade" "min_grade", plain "status",
    column "decidedBy" "decided_by", column "decisionAt" "decision_at", plain "reason", column "dueAt" "due_at",
    column "requireAll" "require_all", column "approvedBy" "approved_by", column "delegatedTo" "delegated_to",
    column "delegatedBy" "delegated_by", column "delegatedAt" "delegated_at", createdAt]

def approval : EntityMetadata where
  name := "Approval"
  tableName := "approvals"
  columns := [id, tenantId, column "bookingId" "booking_id", column "approverId" "approver_id", plain "decision",
    plain "reason", column "decidedAt" "decided_at"]

def auditEntry : EntityMetadata where
  name := "AuditEntry"
  tableName := "audit_log"
  columns := [id, tenantId, column "userId" "user_id", plain "username", plain "action", plain "severity",
    plain "outcome", column "targetEntity" "target_entity", column "targetId" "target_id", plain "method",
    plain "path", column "statusCode" "status_code", plain "ip", column "userAgent" "user_agent", plain "previous",
    plain "next", createdAt]

def booking : EntityMetadata where
  name := "Booking"
  tableName := "bookings"
  columns := [id, tenantId, column "resourceId" "resource_id", column "userId" "user_id",
    column "startTime" "start_time", column "endTime" "end_time", plain "status", plain "title",
    column "meetingUrl" "meeting_url", column "redirectUrl" "redirect_url", column "exceptionNotes" "exception_notes",
    column "bookingMode" "booking_mode", column "customFieldValues" "custom_field_values", plain "services",
    plain "attendees", column "costCenterCode" "cost_center_code", column "delegatedTo" "delegated_to",
    column "syncStatus" "sync_status", column "isPrivate" "is_private", column "isRecurring" "is_recurring",
    column "recurrenceId" "recurrence_id", column "checkedInAt" "checked_in_at",
    column "checkinToken" "checkin_token", column "checkinTokenExpiresAt" "checkin_token_expires_at", plain "version",
    createdAt, updatedAt]

def recurrence : EntityMetadata where
  name := "Recurrence"
  tableName := "recurrences"
  columns := [id, tenantId, column "createdBy" "created_by", column "resourceId" "resource_id", plain "pattern",
    plain "interval", plain "count", plain "until", plain "byday", plain "bymonth", plain "rrule", plain "status",
    createdAt]

def broadcast : EntityMetadata where
  name := "Broadcast"
  tableName := "broadcasts"
  columns := [id, tenantId, plain "title", plain "content", plain "severity", plain "color",
    column "imageUrl" "image_url", column "startsAt" "starts_at", column "endsAt" "ends_at", plain "filters",
    column "createdBy" "created_by", createdAt, updatedAt]

def customization : EntityMetadata where
  name := "Customization"
  tableName := "tenant_customizations"
  columns := [{ tenantId with isPrimary := true }, plain "data", plain "version", updatedAt]

def department : EntityMetadata where
  name := "Department"
  tableName := "departments"
  columns := [id, tenantId, plain "name", plain "code", column "parentId" "parent_id",
    column "headUserId" "head_user_id", createdAt, updatedAt]

def floorPlan : EntityMetadata where
  name := "FloorPlan"
  tableName := "floor_plans"
  columns := [id, tenantId, plain "name", column "imageUrl" "image_url", plain "shapes", plain "pins",
    column "isDefault" "is_default", createdAt, updatedAt]

def googleSyncRecord : EntityMetadata where
  name := "GoogleSyncRecord"
  tableName := "google_sync_records"
  columns := [id, column "bookingId" "booking_id", tenantId, column "calendarId" "calendar_id",
    column "eventId" "event_id", createdAt, updatedAt]

def graphSubscription : EntityMetadata where
  name := "GraphSubscription"
  tableName := "graph_subscriptions"
  columns := [id, tenantId, column "mailboxUPN" "mailbox_upn", column "graphSubscriptionID" "graph_subscription_id",
    column "clientState" "client_state", column "expiresAt" "expires_at", createdAt, updatedAt]

def holiday : EntityMetadata where
  name := "Holiday"
  tableName := "holidays"
  columns := [id, tenantId, column "holidayDate" "holiday_date", plain "name", plain "scope", plain "region",
    column "isBlocker" "is_blocker", column "createdBy" "created_by", createdAt]

def integrationCredential : EntityMetadata where
  name := "IntegrationCredential"
  tableName := "integration_credentials"
  columns := [id, tenantId, plain "provider", column "azureTenantID" "azure_tenant_id", column "clientID" "client_id",
    column "clientSecret" "client_secret", column "isActive" "is_active", column "lastTestOk" "last_test_ok",
    column "lastTestError" "last_test_error", column "lastTestedAt" "last_tested_at", createdAt, updatedAt]

def roomMailbox : EntityMetadata where
  name := "RoomMailbox"
  tableName := "integration_room_mailboxes"
  columns := [id, tenantId, column "resourceId" "resource_id", column "mailboxUPN" "mailbox_upn",
    column "displayName" "display_name", column "isActive" "is_active", createdAt, updatedAt]

def invoice : EntityMetadata where
  name := "Invoice"
  tableName := "invoices"
  columns := [id, tenantId, column "departmentId" "department_id", plain "period", plain "lines",
    column "subtotalCents" "subtotal_cents", column "taxCents" "tax_cents", column "totalCents" "total_cents",
    plain "status", column "issuedAt" "issued_at", column "paidAt" "paid_at", createdAt, updatedAt]

def locationGroup : EntityMetadata where
  name := "LocationGroup"
  tableName := "location_groups"
  columns := [id, tenantId, plain "name", column "filterBy" "filter_by", plain "approvers", plain "locations",
    column "memberIds" "member_ids", plain "status", createdAt, updatedAt]

def location : EntityMetadata where
  name := "Location"
  tableName := "locations"
  columns := [id, tenantId, plain "name", plain "region", plain "address", createdAt, updatedAt]

def notificationOutbox : EntityMetadata where
  name := "NotificationOutbox"
  tableName := "notification_outbox"
  columns := [id, tenantId, column "bookingId" "booking_id", plain "event", column "recipientEmail" "recipient_email",
    plain "vars", plain "status", column "attemptCount" "attempt_count", column "nextAttemptAt" "next_attempt_at",
    column "sentAt" "sent_at", column "lastError" "last_error", createdAt, updatedAt]

def notificationTemplate : EntityMetadata where
  name := "NotificationTemplate"
  tableName := "notification_templates"
  columns := [id, tenantId, column "templateType" "template_type", plain "subject",
    column "bodyTemplate" "body_template", createdAt, updatedAt]

def outlookSyncRecord : EntityMetadata where
  name := "OutlookSyncRecord"
  tableName := "outlook_sync_records"
  columns := [id, column "bookingId" "booking_id", tenantId, column "mailboxUPN" "mailbox_upn",
    column "graphId" "graph_id", column "iCalUID" "ical_uid", createdAt, updatedAt]

def rolePermission : EntityMetadata where
  name := "RolePermission"
  tableName := "role_permissions"
  columns := [id, tenantId, plain "role", plain "permissions", updatedAt]

def pushSubscription : EntityMetadata where
  name := "PushSubscription"
  tableName := "push_subscriptions"
  columns := [id, tenantId, column "userId" "user_id", plain "endpoint", plain "p256dh", plain "auth",
    column "userAgent" "user_agent", createdAt, column "lastUsedAt" "last_used_at"]

def resourceType : EntityMetadata where
  name := "ResourceType"
  tableName := "resource_types"
  columns := [id, tenantId, plain "key", plain "label", plain "icon", plain "color",
    column "defaultCapacity" "default_capacity", column "defaultBookingMode" "default_booking_mode",
    column "defaultRequiresApproval" "default_requires_approval", column "displayOrder" "display_order",
    column "isBuiltin" "is_builtin", column "isActive" "is_active", createdAt, updatedAt]

def resource : EntityMetadata where
  name := "Resource"
  tableName := "resources"
  columns := [id, tenantId, plain "name", plain "location", plain "region", column "assetType" "asset_type",
    plain "capacity", column "isActive" "is_active", column "isRestricted" "is_restricted",
    column "requiresApproval" "requires_approval", column "parentResourceId" "parent_resource_id",
    column "compositeMode" "composite_mode", column "departmentId" "department_id",
    column "bookingMode" "booking_mode", column "sharedCapacity" "shared_capacity",
    column "operatingHours" "operating_hours", plain "equipment", column "customFields" "custom_fields",
    column "ruleOverrides" "rule_overrides", column "costCenterCode" "cost_center_code",
    column "exchangeMailbox" "exchange_mailbox", createdAt, updatedAt]

def scimToken : EntityMetadata where
  name := "ScimToken"
  tableName := "scim_tokens"
  columns := [id, tenantId, plain "name", plain "prefix", column "tokenHash" "token_hash", createdAt,
    column "lastUsedAt" "last_used_at", column "expiresAt" "expires_at", plain "active"]

def sensor : EntityMetadata where
  name := "Sensor"
  tableName := "sensors"
  columns := [id, tenantId, column "deviceId" "device_id", column "resourceId" "resource_id", plain "label",
    column "secretHash" "secret_hash", column "lastSeenAt" "last_seen_at", column "isActive" "is_active", createdAt,
    updatedAt]

def sensorReading : EntityMetadata where
  name := "SensorReading"
  tableName := "sensor_readings"
  columns := [id, tenantId, column "sensorId" "sensor_id", column "deviceId" "device_id",
    column "resourceId" "resource_id", plain "occupancy", plain "extra", column "observedAt" "observed_at", createdAt]

def service : EntityMetadata where
  name := "Service"
  tableName := "services"
  columns := [id, tenantId, column "categoryId" "category_id", plain "name", plain "description",
    column "priceCents" "price_cents", column "isActive" "is_active", createdAt, updatedAt]

def bookingService : EntityMetadata where
  name := "BookingService"
  tableName := "booking_services"
  columns := [id, tenantId, column "bookingId" "booking_id", column "serviceId" "service_id", plain "quantity",
    column "unitPriceCents" "unit_price_cents", plain "note", createdAt]

def identityProvider : EntityMetadata where
  name := "IdentityProvider"
  tableName := "identity_providers"
  columns := [id, tenantId, plain "slug", plain "name", plain "kind", plain "enabled", plain "config", createdAt,
    updatedAt]

def ssoState : EntityMetadata where
  name := "SsoState"
  tableName := "sso_state"
  columns := [id, plain "state", tenantId, column "providerId" "provider_id", plain "kind", plain "nonce",
    plain "verifier", column "redirectAfter" "redirect_after", createdAt]

def syncOutbox : EntityMetadata where
  name := "SyncOutbox"
  tableName := "calendar_sync_outbox"
  columns := [id, tenantId, column "bookingId" "booking_id", plain "event", plain "status",
    column "attemptCount" "attempt_count", column "nextAttemptAt" "next_attempt_at", column "sentAt" "sent_at",
    column "lastError" "last_error", createdAt, updatedAt]

def botConversationRef : EntityMetadata where
  name := "BotConversationRef"
  tableName := "teams_conversation_refs"
  columns := [id, tenantId, column "userId" "user_id", column "aadObjectId" "aad_object_id",
    column "serviceURL" "service_url", column "conversationID" "conversation_id", column "channelID" "channel_id",
    createdAt, updatedAt]

def tenant : EntityMetadata where
  name := "Tenant"
  tableName := "tenants"
  columns := [id, plain "slug", plain "name", plain "isActive", createdAt, updatedAt]

def user : EntityMetadata where
  name := "User"
  tableName := "users"
  columns := [id, tenantId, plain "username", plain "email", column "passwordHash" "password_hash",
    column "mustChangePassword" "must_change_password", plain "dn", plain "role", plain "grade", plain "locale",
    column "isActive" "is_active", column "managerId" "manager_id", column "regionAccess" "region_access",
    column "mfaEnabled" "mfa_enabled", column "mfaSecret" "mfa_secret", column "mfaEnrolledAt" "mfa_enrolled_at",
    column "ssoProvider" "sso_provider", column "ssoSubject" "sso_subject", column "icsFeedToken" "ics_feed_token",
    createdAt, updatedAt]

def visit : EntityMetadata where
  name := "Visit"
  tableName := "visits"
  columns := [id, tenantId, column "bookingId" "booking_id", column "hostUserId" "host_user_id",
    column "visitorName" "visitor_name", column "visitorEmail" "visitor_email", column "visitorPhone" "visitor_phone",
    column "visitorCompany" "visitor_company", plain "purpose", column "expectedAt" "expected_at",
    column "expectedUntil" "expected_until", plain "status", column "checkedInAt" "checked_in_at",
    column "checkedOutAt" "checked_out_at", column "ndaAccepted" "nda_accepted", plain "notes",
    column "createdBy" "created_by", createdAt, updatedAt]

def webauthnCredential : EntityMetadata where
  name := "WebauthnCredential"
  tableName := "webauthn_credentials"
  columns := [id, tenantId, column "userId" "user_id", column "credentialId" "credential_id",
    column "publicKey" "public_key", plain "counter", plain "aaguid", plain "nickname", plain "transports", createdAt,
    updatedAt, column "lastUsedAt" "last_used_at"]

def webauthnChallenge : EntityMetadata where
  name := "WebauthnChallenge"
  tableName := "webauthn_challenges"
  columns := [id, tenantId, column "userId" "user_id", plain "challenge", plain "purpose", createdAt]

def webhook : EntityMetadata where
  name := "Webhook"
  tableName := "webhook_subscriptions"
  columns := [id, tenantId, column "targetURL" "target_url", plain "secret", plain "events",
    column "isActive" "is_active", createdAt, updatedAt]

def webhookDelivery : EntityMetadata where
  name := "WebhookDelivery"
  tableName := "webhook_deliveries"
  columns := [id, tenantId, column "subscriptionId" "subscription_id", plain "event", plain "payload", plain "status",
    column "attemptCount" "attempt_count", column "lastStatus" "last_status", column "lastError" "last_error",
    column "nextAttemptAt" "next_attempt_at", column "deliveredAt" "delivered_at", createdAt, updatedAt]

/-- Every entity of the data source. -/
def entities : List EntityMetadata :=
  [approvalRule, approvalStep, approval, auditEntry, booking, recurrence, broadcast, customization, department,
   floorPlan, googleSyncRecord, graphSubscription, holiday, integrationCredential, roomMailbox, invoice,
   locationGroup, location, notificationOutbox, notificationTemplate, outlookSyncRecord, rolePermission,
   pushSubscription, resourceType, resource, scimToken, sensor, sensorReading, service, bookingService,
   identityProvider, ssoState, syncOutbox, botConversationRef, tenant, user, visit, webauthnCredential,
   webauthnChallenge, webhook, webhookDelivery]

end BookingSystem.Model.EntityColumns
