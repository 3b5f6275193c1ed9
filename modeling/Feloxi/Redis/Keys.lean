import Feloxi.Lib.Uuid

/-!
# Feloxi.Redis.Keys

The Redis keys (`crates/db/src/redis/keys.rs`, and the lock of the Slack channel list in
`cache.rs`).
-/

namespace Feloxi.Redis

def workerState (tenant : Uuid) (worker : String) : String :=
  "fp:" ++ tenant.display ++ ":worker:" ++ worker ++ ":state"

def workerHeartbeat (tenant : Uuid) (worker : String) : String :=
  "fp:" ++ tenant.display ++ ":worker:" ++ worker ++ ":heartbeat"

def workerHbSampled (tenant : Uuid) (worker : String) : String :=
  "fp:" ++ tenant.display ++ ":worker:" ++ worker ++ ":hb_sampled"

def workersOnline (tenant : Uuid) : String := "fp:" ++ tenant.display ++ ":workers:online"

def workersLastSeen (tenant : Uuid) : String := "fp:" ++ tenant.display ++ ":workers:last_seen"

def taskState (tenant : Uuid) (task : String) : String :=
  "fp:" ++ tenant.display ++ ":task:" ++ task ++ ":state"

def taskNameCache (tenant : Uuid) (task : String) : String :=
  "fp:" ++ tenant.display ++ ":task:" ++ task ++ ":name"

def tasksRecent (tenant : Uuid) : String := "fp:" ++ tenant.display ++ ":tasks:recent"

def queueDepth (tenant : Uuid) (queue : String) : String :=
  "fp:" ++ tenant.display ++ ":queue:" ++ queue ++ ":depth"

def queuesActive (tenant : Uuid) : String := "fp:" ++ tenant.display ++ ":queues:active"

def beatSchedule (tenant : Uuid) : String := "fp:" ++ tenant.display ++ ":beat:schedule"

def beatLastRun (tenant : Uuid) (schedule : String) : String :=
  "fp:" ++ tenant.display ++ ":beat:last_run:" ++ schedule

def rateLimitApi (tenant : Uuid) : String := "fp:ratelimit:" ++ tenant.display ++ ":api"

def rateLimitEvents (tenant : Uuid) : String := "fp:ratelimit:" ++ tenant.display ++ ":events"

def pubsubEvents (tenant : Uuid) : String := "fp:pubsub:" ++ tenant.display ++ ":events"

def pubsubAlerts (tenant : Uuid) : String := "fp:pubsub:" ++ tenant.display ++ ":alerts"

def agentConnected (tenant agent : Uuid) : String :=
  "fp:" ++ tenant.display ++ ":agent:" ++ agent.display ++ ":connected"

def alertCooldown (tenant rule : Uuid) : String :=
  "fp:" ++ tenant.display ++ ":alert:" ++ rule.display ++ ":cooldown"

def alertState (tenant rule : Uuid) : String :=
  "fp:" ++ tenant.display ++ ":alert:" ++ rule.display ++ ":state"

def session (id : String) : String := "fp:session:" ++ id

def refreshToken (user : Uuid) (hash : String) : String :=
  "fp:refresh:" ++ user.display ++ ":" ++ hash

def pipelineCounter (name : String) : String := "fp:pipeline:" ++ name

def retryQueue (kind : String) : String := "fp:retry:" ++ kind

/-- The sorted set of the pending retries of alert deliveries. -/
def alertDeliveryRetry : String := "fp:alerts:delivery_retry"

/-- A nonce of OAuth, which is used once. -/
def oauthNonce (nonce : String) : String := "fp:oauth:nonce:" ++ nonce

/-- The cached channel list of an integration. -/
def slackChannels (integration : Uuid) : String :=
  "fp:slack:channels:" ++ integration.display

def slackChannelsLockKey (integration : Uuid) : String := slackChannels integration ++ ":lock"

end Feloxi.Redis
