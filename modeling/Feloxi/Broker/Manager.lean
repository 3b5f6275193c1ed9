import Feloxi.Auth.Rbac
import Feloxi.Lib.Handlers
import Feloxi.Lib.Tables
import Mathlib.Logic.Function.Basic

/-!
# Feloxi.Broker.Manager

Broker connections: the manager of the consumer tasks
(`crates/api/src/broker_conn/manager.rs`), the requests that start and stop them
(`crates/api/src/routes/brokers.rs`) and the rows of `broker_configs`.

A handler is broken into its operations: those on the map of connections and on the tasks,
which are in memory, and those on the table, which can fail. The consumers progress on
their own (`Event`), one step or one status write at a time.
-/

namespace Feloxi.Broker

open Auth (CurrentUser checkPermission)
open Handlers (Handler Machine)
open Tables (Table storeText storeVarchar)

/-! ### Rows -/

/-- A row of `broker_configs`. -/
structure BrokerConfig where
  id : Uuid
  tenantId : Uuid
  name : String
  brokerType : String
  connectionEnc : String
  isActive : Bool
  status : String
  deriving Repr, DecidableEq

structure CreateBrokerConfig where
  tenantId : Uuid
  name : String
  brokerType : String
  connectionEnc : String
  deriving Repr, DecidableEq

/-- The primary key. -/
def sameConfig (a b : BrokerConfig) : Bool := a.id == b.id

/-- The row as `INSERT` stores it, with the defaults of the other columns. -/
def CreateBrokerConfig.row (input : CreateBrokerConfig) (id : Uuid) : Option BrokerConfig :=
  match storeVarchar 255 input.name, storeVarchar 50 input.brokerType,
    storeText input.connectionEnc with
  | some name, some brokerType, some connectionEnc =>
    some { id, tenantId := input.tenantId, name, brokerType, connectionEnc,
           isActive := true, status := "disconnected" }
  | _, _, _ => none

/-! ### Consumer tasks -/

/-- Where a supervised consumer is. -/
inductive Phase where
  | connecting
  /-- Connecting failed; about to write `error`. -/
  | failing
  /-- No such broker type; about to write `error` and to end for good. -/
  | unsupported
  /-- Connected; about to write `connected`. -/
  | announcing
  /-- In its loop. -/
  | running
  /-- Out of its loop: flushes, closes its sockets, and is about to write `disconnected`. -/
  | closing
  /-- The consumer returned to its supervisor. -/
  | exited
  | backingOff
  | finished
  deriving Repr, DecidableEq

/-- A task that `start` spawned; its token is its place in the list of tasks. -/
structure ConsumerTask where
  configId : Uuid
  tenantId : Uuid
  brokerType : String
  cancelled : Bool
  phase : Phase
  deriving Repr, DecidableEq

/-- The status that a consumer is about to write. -/
def Phase.pendingStatus : Phase → Option String
  | .failing => some "error"
  | .unsupported => some "error"
  | .announcing => some "connected"
  | .closing => some "disconnected"
  | _ => none

/-- Where it is once that write is over; whether it landed is ignored. -/
def Phase.afterWrite : Phase → Phase
  | .failing => .exited
  | .unsupported => .finished
  | .announcing => .running
  | .closing => .exited
  | phase => phase

/-- What a consumer does by itself, its status writes apart. -/
inductive Progress where
  | connected
  | refused
  /-- It leaves its loop: it saw the cancel, or its stream ended. -/
  | leftLoop
  /-- The supervisor looks at the token. -/
  | supervised
  | slept
  deriving Repr, DecidableEq

def supported (brokerType : String) : Bool :=
  brokerType == "redis" || brokerType == "rabbitmq" || brokerType == "amqp"

def ConsumerTask.nextPhase (task : ConsumerTask) : Progress → Phase
  | .connected =>
    if task.phase = .connecting then if supported task.brokerType then .announcing else .unsupported
    else task.phase
  | .refused =>
    if task.phase = .connecting then if supported task.brokerType then .failing else .unsupported
    else task.phase
  | .leftLoop => if task.phase = .running then .closing else task.phase
  | .supervised =>
    if task.phase = .exited then if task.cancelled then .finished else .backingOff else task.phase
  | .slept =>
    if task.phase = .backingOff then if task.cancelled then .finished else .connecting
    else task.phase

/-! ### State and operations -/

structure State where
  /-- `connections`: the task of each config. -/
  connections : Uuid → Option Nat
  tasks : List ConsumerTask
  configs : Table BrokerConfig sameConfig
  /-- The ids that `gen_random_uuid` gave out, each with the tenant of its row. -/
  issued : List (Uuid × Uuid)
  /-- The status writes that `start` spawned and that did not run yet. -/
  spawnedWrites : List (Uuid × String)

inductive Op where
  | remove (configId : Uuid)
  | cancel (task : Nat)
  | spawn (config : BrokerConfig)
  | insert (configId : Uuid) (task : Nat)
  | spawnStatus (configId : Uuid) (status : String)
  | createBrokerConfig (input : CreateBrokerConfig)
  | getBrokerConfig (id tenantId : Uuid)
  | listActiveBrokerConfigs
  | setBrokerActive (id tenantId : Uuid) (isActive : Bool)
  | updateBrokerConfigStatus (id : Uuid) (status : String)
  | deleteBrokerConfig (id tenantId : Uuid)

/-- What an operation replies. -/
abbrev Op.Reply : Op → Type
  | .remove _ => Option Nat
  | .spawn _ => Nat
  | .createBrokerConfig _ => Option BrokerConfig
  | .getBrokerConfig _ _ => Option BrokerConfig
  | .listActiveBrokerConfigs => List BrokerConfig
  | _ => Unit

/-- The task of a consumer just spawned. -/
def BrokerConfig.consumer (config : BrokerConfig) : ConsumerTask :=
  { configId := config.id, tenantId := config.tenantId, brokerType := config.brokerType,
    cancelled := false, phase := .connecting }

def ConsumerTask.cancel (task : ConsumerTask) : ConsumerTask := { task with cancelled := true }

/-- `update_broker_config_status`, on a row. -/
def BrokerConfig.setStatus (id : Uuid) (status : String) (config : BrokerConfig) : BrokerConfig :=
  if config.id = id then { config with status } else config

/-- `set_broker_active`, on a row. -/
def BrokerConfig.setActive (id tenantId : Uuid) (isActive : Bool) (config : BrokerConfig) :
    BrokerConfig :=
  if config.id = id ∧ config.tenantId = tenantId then { config with isActive } else config

@[simp] theorem BrokerConfig.setStatus_id (id : Uuid) (status : String) (config : BrokerConfig) :
    (config.setStatus id status).id = config.id := by
  unfold setStatus
  split <;> rfl

@[simp] theorem BrokerConfig.setActive_id (id tenantId : Uuid) (isActive : Bool)
    (config : BrokerConfig) : (config.setActive id tenantId isActive).id = config.id := by
  unfold setActive
  split <;> rfl

namespace State

def writeStatus (id : Uuid) (status : String) (s : State) : State :=
  let configs := s.configs.update (·.setStatus id status) fun a b => by simp [sameConfig]
  { s with configs }

def writeActive (id tenantId : Uuid) (isActive : Bool) (s : State) : State :=
  let configs := s.configs.update (·.setActive id tenantId isActive) fun a b => by simp [sameConfig]
  { s with configs }

/-- `INSERT`: no id is given out twice. -/
def create (input : CreateBrokerConfig) (id : Uuid) (s : State) : State × Option BrokerConfig :=
  match input.row id with
  | none => (s, none)
  | some row =>
    match if id ∈ s.issued.map Prod.fst then none else s.configs.insert row with
    | none => (s, none)
    | some configs => ({ s with configs, issued := (id, row.tenantId) :: s.issued }, some row)

end State

/-- What an operation does; the nonce is the id that a new row gets. -/
def exec : (op : Op) → Uuid → State → State × op.Reply
  | .remove id, _, s =>
    ({ s with connections := Function.update s.connections id none }, s.connections id)
  | .cancel task, _, s => ({ s with tasks := s.tasks.modify task ConsumerTask.cancel }, ())
  | .spawn config, _, s => ({ s with tasks := s.tasks ++ [config.consumer] }, s.tasks.length)
  | .insert id task, _, s =>
    ({ s with connections := Function.update s.connections id (some task) }, ())
  | .spawnStatus id status, _, s =>
    ({ s with spawnedWrites := s.spawnedWrites ++ [(id, status)] }, ())
  | .createBrokerConfig input, nonce, s => s.create input nonce
  | .getBrokerConfig id tenantId, _, s =>
    (s, s.configs.rows.find? fun c => c.id == id && c.tenantId == tenantId)
  | .listActiveBrokerConfigs, _, s => (s, s.configs.rows.filter (·.isActive))
  | .setBrokerActive id tenantId isActive, _, s =>
    (s.writeActive id tenantId isActive, ())
  | .updateBrokerConfigStatus id status, _, s => (s.writeStatus id status, ())
  | .deleteBrokerConfig id tenantId, _, s =>
    ({ s with configs := s.configs.delete fun c => c.id == id && c.tenantId == tenantId }, ())

/-! ### Events -/

inductive Event where
  | progress (task : Nat) (progress : Progress)
  /-- The status write of a consumer is over; it may have failed. -/
  | wrote (task : Nat) (landed : Bool)
  /-- So is one that `start` spawned. -/
  | spawnedWrote (i : Nat) (landed : Bool)
  deriving Repr, DecidableEq

namespace State

def setPhase (k : Nat) (phase : Phase) (s : State) : State :=
  { s with tasks := s.tasks.modify k (fun task => { task with phase }) }

def event : Event → State → State
  | .progress k progress, s =>
    match s.tasks[k]? with
    | none => s
    | some task => s.setPhase k (task.nextPhase progress)
  | .wrote k landed, s =>
    match s.tasks[k]? with
    | none => s
    | some task =>
      match task.phase.pendingStatus with
      | none => s
      | some status =>
        (if landed then s.writeStatus task.configId status else s).setPhase k task.phase.afterWrite
  | .spawnedWrote i landed, s =>
    match s.spawnedWrites[i]? with
    | none => s
    | some (id, status) =>
      let s := if landed then s.writeStatus id status else s
      { s with spawnedWrites := s.spawnedWrites.eraseIdx i }

/-- The server just started. -/
def boot (configs : Table BrokerConfig sameConfig) : State :=
  { connections := fun _ => none, tasks := [], configs, issued := configs.rows.map fun c => (c.id, c.tenantId),
    spawnedWrites := [] }

end State

/-! ### The manager -/

/-- What the handlers take from outside. -/
structure Env where
  /-- `secret::seal`. -/
  sealUrl : String → Except AppError String
  /-- `secret::connection_url`. -/
  connectionUrl : String → Except AppError String
  /-- What a failed call of the database says. -/
  databaseError : String

abbrev Program := Handler Op Op.Reply

/-- `BrokerConnectionManager::stop`. -/
def stop (configId : Uuid) : Program Unit :=
  .act (.remove configId) fun
    | some task => .act (.cancel task) fun _ => .answer ()
    | none => .answer ()

/-- `BrokerConnectionManager::start`. -/
def start (env : Env) (config : BrokerConfig) : Program Unit :=
  (stop config.id).bind fun _ =>
    match env.connectionUrl config.connectionEnc with
    | .error _ => .act (.spawnStatus config.id "error") fun _ => .answer ()
    | .ok _ =>
      .act (.spawn config) fun task => .act (.insert config.id task) fun _ => .answer ()

/-- `auto_start_active`, for the configs that the database lists. -/
def startAll (env : Env) : List BrokerConfig → Program Unit
  | [] => .answer ()
  | config :: configs => (start env config).bind fun _ => startAll env configs

def autoStartActive (env : Env) : Program Unit :=
  .call .listActiveBrokerConfigs (startAll env) (.answer ())

/-- A call of the manager. -/
inductive Call where
  | start (config : BrokerConfig)
  | stop (configId : Uuid)
  deriving Repr, DecidableEq

def Call.program (env : Env) : Call → Program Unit
  | .start config => Broker.start env config
  | .stop configId => Broker.stop configId

/-! ### Requests -/

structure CreateBrokerRequest where
  name : String
  brokerType : String
  connectionUrl : String
  deriving Repr, DecidableEq

inductive Answer where
  | config (config : BrokerConfig)
  | deleted
  | started
  | stopped
  deriving Repr, DecidableEq

abbrev Endpoint := Program (Except AppError Answer)

def refuse (e : AppError) : Endpoint := .answer (.error e)

/-- A query, with `?` on its result. -/
def query (env : Env) (op : Op) (next : op.Reply → Endpoint) : Endpoint :=
  .call op next (refuse (.database env.databaseError))

/-- A handler behind `check_permission`. -/
def permitted (user : CurrentUser) (handler : Endpoint) : Endpoint :=
  match checkPermission user "brokers_manage" with
  | .error e => refuse e
  | .ok () => handler

/-- `get_broker_config`: the row of the tenant. -/
def getBrokerConfig (env : Env) (id tenantId : Uuid) (next : BrokerConfig → Endpoint) : Endpoint :=
  query env (.getBrokerConfig id tenantId) fun
    | none => refuse (.notFound "Resource not found")
    | some config => next config

/-- `create_broker`. -/
def createBroker (env : Env) (user : CurrentUser) (req : CreateBrokerRequest) : Endpoint :=
  permitted user <|
    match env.sealUrl req.connectionUrl with
    | .error e => refuse e
    | .ok connectionEnc =>
      let input : CreateBrokerConfig :=
        { tenantId := user.tenantId, name := req.name, brokerType := req.brokerType,
          connectionEnc }
      query env (.createBrokerConfig input) fun
        | none => refuse (.database env.databaseError)
        | some config => (start env config).bind fun _ => .answer (.ok (.config config))

/-- `get_broker`. -/
def getBroker (env : Env) (user : CurrentUser) (id : Uuid) : Endpoint :=
  permitted user <| getBrokerConfig env id user.tenantId fun config => .answer (.ok (.config config))

/-- `delete_broker`. -/
def deleteBroker (env : Env) (user : CurrentUser) (id : Uuid) : Endpoint :=
  permitted user <|
    -- stops the connection first, whoever owns it
    (stop id).bind fun _ =>
      query env (.deleteBrokerConfig id user.tenantId) fun _ => .answer (.ok .deleted)

/-- `start_broker`. -/
def startBroker (env : Env) (user : CurrentUser) (id : Uuid) : Endpoint :=
  permitted user <| getBrokerConfig env id user.tenantId fun config =>
    query env (.setBrokerActive id user.tenantId true) fun _ =>
      (start env config).bind fun _ => .answer (.ok .started)

/-- `stop_broker`. -/
def stopBroker (env : Env) (user : CurrentUser) (id : Uuid) : Endpoint :=
  permitted user <| getBrokerConfig env id user.tenantId fun _ =>
    query env (.setBrokerActive id user.tenantId false) fun _ =>
      (stop id).bind fun _ =>
        query env (.updateBrokerConfigStatus id "disconnected") fun _ => .answer (.ok .stopped)

inductive Request where
  | create (user : CurrentUser) (req : CreateBrokerRequest)
  | get (user : CurrentUser) (id : Uuid)
  | delete (user : CurrentUser) (id : Uuid)
  | start (user : CurrentUser) (id : Uuid)
  | stop (user : CurrentUser) (id : Uuid)
  deriving Repr, DecidableEq

def Request.program (env : Env) : Request → Endpoint
  | .create user req => createBroker env user req
  | .get user id => getBroker env user id
  | .delete user id => deleteBroker env user id
  | .start user id => startBroker env user id
  | .stop user id => stopBroker env user id

/-- A request, or the start of the server. -/
inductive Job where
  | api (request : Request)
  | autoStart
  deriving Repr, DecidableEq

def Job.program (env : Env) : Job → Endpoint
  | .api request => request.program env
  | .autoStart => (autoStartActive env).bind fun _ => .answer (.ok .started)

/-! ### Samples -/

/-- Every URL is stored as it is. -/
def plainEnv : Env := { sealUrl := .ok, connectionUrl := .ok, databaseError := "pool timed out" }

def sampleConfig : BrokerConfig :=
  { id := 1, tenantId := 7, name := "main", brokerType := "redis",
    connectionEnc := "redis://localhost", isActive := true, status := "disconnected" }

end Feloxi.Broker
