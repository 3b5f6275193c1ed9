import Feloxi.Redis.Keys
import Mathlib.Data.Finset.Card
import Mathlib.Logic.Function.Basic

/-!
# Feloxi.Redis.Workers

The workers of a tenant in Redis (`crates/db/src/redis/cache.rs`): the commands of
`set_worker_state` and `set_worker_offline`, and the count of the live ones.
-/

namespace Feloxi.Redis

/-- Strings, each with the second at which it expires, and sets. -/
structure Db where
  now : Int
  strings : String → Option (String × Option Int)
  sets : String → Finset String

inductive Command where
  /-- With the `EX` of the command, in seconds. -/
  | set (key value : String) (ex : Option Int)
  | del (key : String)
  | sadd (key member : String)
  | srem (key member : String)
  deriving DecidableEq

namespace Db

def exec (db : Db) : Command → Db
  | .set key value ex =>
    { db with strings := Function.update db.strings key (some (value, ex.map (db.now + ·))) }
  | .del key =>
    { db with
      strings := Function.update db.strings key none
      sets := Function.update db.sets key ∅ }
  | .sadd key member => { db with sets := Function.update db.sets key (insert member (db.sets key)) }
  | .srem key member =>
    { db with sets := Function.update db.sets key ((db.sets key).erase member) }

/-- The string exists and has not expired. -/
def live (db : Db) (key : String) : Bool :=
  match db.strings key with
  | some (_, some expiry) => db.now < expiry
  | some (_, none) => true
  | none => false

def tick (db : Db) (secs : Nat) : Db := { db with now := db.now + secs }

end Db

/-! ### Workers -/

inductive WorkerCall where
  /-- With the JSON of the state, and the time of the last command. -/
  | setWorkerState (tenant : Uuid) (worker json lastSeen : String)
  | setWorkerOffline (tenant : Uuid) (worker : String)

/-- The commands of a call, in their order. -/
def WorkerCall.commands : WorkerCall → List Command
  | setWorkerState tenant worker json lastSeen =>
    [.set (workerState tenant worker) json (some 120),
      .set (workerHeartbeat tenant worker) "1" (some 90),
      .sadd (workersOnline tenant) worker,
      .set (workersLastSeen tenant) lastSeen none]
  | setWorkerOffline tenant worker =>
    [.del (workerState tenant worker), .del (workerHeartbeat tenant worker),
      .srem (workersOnline tenant) worker]

namespace Db

variable (db : Db)

/-- `get_online_workers`. -/
def onlineWorkers (tenant : Uuid) : Finset String := db.sets (workersOnline tenant)

/-- Its heartbeat key exists. -/
def alive (tenant : Uuid) (worker : String) : Bool := db.live (workerHeartbeat tenant worker)

/-- `count_live_workers`: the workers of the online set, and those of them that are alive. -/
def countLiveWorkers (tenant : Uuid) : Nat × Nat :=
  let ids := db.onlineWorkers tenant
  (ids.card, (ids.filter fun worker => db.alive tenant worker = true).card)

/-- Every live worker is in the online set, and is counted. -/
structure Counted (tenant : Uuid) : Prop where
  online : ∀ worker, db.alive tenant worker = true → worker ∈ db.onlineWorkers tenant
  count : ∀ workers : Finset String, (∀ worker, worker ∈ workers ↔ db.alive tenant worker = true) →
    (db.countLiveWorkers tenant).2 = workers.card

variable {db}

theorem counted_iff {tenant : Uuid} : db.Counted tenant ↔
    ∀ worker, db.alive tenant worker = true → worker ∈ db.onlineWorkers tenant := by
  refine ⟨Counted.online, fun honline => ⟨honline, fun workers hworkers => ?_⟩⟩
  refine congrArg Finset.card ?_
  ext worker
  rw [Finset.mem_filter, hworkers, and_iff_right_of_imp (honline worker)]

end Db

end Feloxi.Redis
