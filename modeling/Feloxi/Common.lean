/-!
# Feloxi.Common

The error type shared by the crates (`crates/common/src/errors.rs`).
-/

namespace Feloxi

/-- Unified application error type. -/
inductive AppError where
  | notFound (message : String)
  | badRequest (message : String)
  | unauthorized (message : String)
  | forbidden (message : String)
  | conflict (message : String)
  | rateLimited
  | tenantNotFound
  | internal (message : String)
  | database (message : String)
  | validation (message : String)
  deriving Repr, DecidableEq

end Feloxi
