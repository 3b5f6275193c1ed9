import Feloxi.Common
import Feloxi.Lib.Uuid

/-!
# Feloxi.Auth.Rbac

Permissions (`crates/auth/src/rbac.rs`) and the caller that a request is authenticated as
(`CurrentUser` in `crates/auth/src/middleware.rs`).
-/

namespace Feloxi.Auth

/-- Who a request is made by. -/
structure CurrentUser where
  userId : Uuid
  tenantId : Uuid
  email : String
  roles : List String
  permissions : List String
  deriving Repr, DecidableEq

namespace CurrentUser

def hasPermission (user : CurrentUser) (perm : String) : Bool := user.permissions.any (· == perm)

def isAdmin (user : CurrentUser) : Bool := user.roles.any (· == "admin")

end CurrentUser

/-- Every permission the API checks. -/
def PERMISSIONS : List String :=
  ["tasks_read", "tasks_retry", "tasks_revoke", "workers_read", "workers_shutdown", "alerts_read",
   "alerts_write", "beat_read", "metrics_read", "settings_read", "settings_write", "team_manage",
   "api_keys_manage", "brokers_manage"]

/-- Wildcard scope for an API key: whatever its creator can do. -/
def ALL : String := "*"

/-- `g.replace(':', "_")`: keys made before the names were fixed stored `tasks:read`. -/
def currentName (scope : String) : String := scope.map fun c => if c = ':' then '_' else c

/-- What an API key may do: its granted scopes, capped by what its creator can do right
now. -/
def apiKeyPermissions (granted creatorPermissions : List String) (creatorIsAdmin : Bool) :
    List String :=
  PERMISSIONS.filter fun p =>
    (granted.any (· == ALL) || granted.any fun g => currentName g == p) &&
      (creatorIsAdmin || creatorPermissions.any (· == p))

/-- `check_permission`. -/
def checkPermission (user : CurrentUser) (required : String) : Except AppError Unit :=
  if user.hasPermission required || user.isAdmin then .ok ()
  else .error (.forbidden s!"Missing permission: {required}")

end Feloxi.Auth
