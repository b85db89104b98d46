import Nesso.Queue.EngineRefinement
import Nesso.Server.Queues

/-
  The request handlers of the HTTP server (`server.rs`).

  Requests are taken as axum hands them to the handlers; the
  answers of the file system come with every request.  The
  handlers are written over what they use of a queue, so that
  the same handlers serve real engines and abstract queues.

  Key definitions include:
    * `Response`
    * `QueueAccess`
    * `QueueAccess.serve`
    * `Server`
    * `Server.step`
    * `QueueAccess.Simulation`
    * `Response.hideFlag`

  The main theorems are:
    * `QueueAccess.Preserves.serve`
    * `QueueAccess.Simulation.serve`
-/

------------------------------------------------------------
-- Responses
------------------------------------------------------------

namespace Nesso

/- `BASE64_STANDARD`; a decoding error is its message. -/
class Base64 where
  encode : Bytes → String
  decode : String → Except String Bytes

inductive ResponseBody where
| empty
| push (id : UInt64)
| pop (id : UInt64) (payload : String)
    (priority retries : UInt8)
| status (readyTasks activeLeases : Nat)
| compact (compacted : Bool)
| error (error message : String)
| serverShuttingDown
deriving DecidableEq, Repr

structure Response where
  status : Nat
  body : ResponseBody
deriving DecidableEq, Repr

namespace Response

def ofApiError : ApiError → Response
| .notFound message => ⟨404, .error "not_found" message⟩
| .conflict message => ⟨409, .error "conflict" message⟩
| .internal message => ⟨500, .error "internal_error" message⟩

def ofIoError (error : IoError) : Response :=
  ofApiError (.ofIoError error)

def badRequest (message : String) : Response :=
  ⟨400, .error "bad_request" message⟩

def noContent : Response :=
  ⟨204, .empty⟩

def shuttingDown : Response :=
  ⟨503, .serverShuttingDown⟩

/- `if sync { engine.sync()?; }` before the response. -/
def confirmed
    (syncError : Option IoError)
    (response : Response) : Response :=
  match syncError with
  | some error => ofIoError error
  | none => response

variable [Base64]

/- A pop that found nothing may wait for a notification. -/
def ofReply
    (waits : Bool)
    (syncError : Option IoError) :
    EngineReply → Option Response
| .pushed (.ok id) =>
    some (confirmed syncError ⟨201, .push id⟩)
| .popped (.ok (some (record, retries))) =>
    some
      (confirmed syncError
        ⟨200,
          .pop record.id (Base64.encode record.payload)
            record.priority retries⟩)
| .popped (.ok none) => if waits then none else some noContent
| .settled (.ok ()) =>
    some (confirmed syncError ⟨200, .empty⟩)
| .counts ready leased => some ⟨200, .status ready leased⟩
| .pushed (.error error) | .popped (.error error)
| .settled (.error error) => some (ofIoError error)

end Response

/-
  What the system answers while a request is served: the time,
  and how the creation of a directory and a sync fail.
-/
structure RequestContext where
  now : UInt64
  createDirAll : Option IoError
  sync : Option IoError

def RequestContext.syncError
    (context : RequestContext)
    (sync : Bool) : Option IoError :=
  if sync then context.sync else none

end Nesso

------------------------------------------------------------
-- Handlers
------------------------------------------------------------

namespace Nesso

/- What the handlers use of the queue they are called for. -/
structure QueueAccess (S Q : Type) where
  cancelled : S → Bool
  current : S → Option Q
  getOrCreate : S → RequestContext → Except IoError Q × S
  getExisting : S → RequestContext → Except ApiError Q × S
  answer : S → Q → EngineAction → Option EngineReply × S
  compact : S → Q → Except IoError Bool × S

/-
  The requests that name a queue.  `popAgain` is a later turn
  of the loop of a pop that waits, `popDeadline` its end, and
  `expire` a pass of the queue's expiration worker.
-/
inductive Request where
| push (payload : String) (priority : UInt8) (sync : Bool)
| pop (consumerId : UInt32) (leaseSecs waitSecs : UInt64)
    (sync : Bool)
| popAgain (consumerId : UInt32) (leaseSecs : UInt64)
    (sync : Bool)
| popDeadline
| ack (id : UInt64) (consumerId : UInt32) (sync : Bool)
| nack (id : UInt64) (consumerId : UInt32) (sync : Bool)
| status
| compact
| expire (tasks : List ExpiredTask)

namespace QueueAccess

variable {S Q : Type}
variable [Base64]

/- Call the engine and answer the request. -/
def call
    (access : QueueAccess S Q)
    (state : S)
    (queue : Q)
    (action : EngineAction)
    (waits : Bool)
    (syncError : Option IoError) : Option Response × S :=
  let out := access.answer state queue action
  (out.1.bind (Response.ofReply waits syncError), out.2)

def pushHandler
    (access : QueueAccess S Q)
    (state : S)
    (context : RequestContext)
    (payload : String)
    (priority : UInt8)
    (sync : Bool) : Option Response × S :=
  match access.getOrCreate state context with
  | (.error error, next) =>
      (some (.ofIoError error), next)
  | (.ok queue, next) =>
      match Base64.decode payload with
      | .error message =>
          (some
            (.badRequest
              ("Invalid base64 payload: " ++ message)),
            next)
      | .ok bytes =>
          access.call next queue (.push bytes priority) false
            (context.syncError sync)

/- One turn of the loop of `pop_handler`. -/
def popTurn
    (access : QueueAccess S Q)
    (state : S)
    (context : RequestContext)
    (queue : Q)
    (consumerId : UInt32)
    (leaseSecs : UInt64)
    (waits sync : Bool) : Option Response × S :=
  if access.cancelled state then
    (some .shuttingDown, state)
  else
    access.call state queue
      (.popAndLease consumerId context.now leaseSecs) waits
      (context.syncError sync)

def popHandler
    (access : QueueAccess S Q)
    (state : S)
    (context : RequestContext)
    (consumerId : UInt32)
    (leaseSecs waitSecs : UInt64)
    (sync : Bool) : Option Response × S :=
  if access.cancelled state then
    (some .shuttingDown, state)
  else
    match access.getExisting state context with
    | (.ok queue, next) =>
        access.popTurn next context queue consumerId
          leaseSecs (waitSecs ≠ 0) sync
    | (.error (.notFound _), next) =>
        if waitSecs = 0 then
          (some .noContent, next)
        else
          match access.getOrCreate next context with
          | (.ok queue, after) =>
              access.popTurn after context queue consumerId
                leaseSecs true sync
          | (.error error, after) =>
              (some (.ofIoError error), after)
    | (.error error, next) =>
        (some (.ofApiError error), next)

/- `status_handler`, `ack_handler` and `nack_handler`. -/
def existingHandler
    (access : QueueAccess S Q)
    (state : S)
    (context : RequestContext)
    (action : EngineAction)
    (sync : Bool) : Option Response × S :=
  match access.getExisting state context with
  | (.error error, next) =>
      (some (.ofApiError error), next)
  | (.ok queue, next) =>
      access.call next queue action false
        (context.syncError sync)

omit [Base64] in
def compactHandler
    (access : QueueAccess S Q)
    (state : S)
    (context : RequestContext) : Response × S :=
  match access.getExisting state context with
  | (.error error, next) => (.ofApiError error, next)
  | (.ok queue, next) =>
      match access.compact next queue with
      | (.error error, after) => (.ofIoError error, after)
      | (.ok compacted, after) =>
          (⟨200, .compact compacted⟩, after)

def serve
    (access : QueueAccess S Q)
    (state : S)
    (context : RequestContext) :
    Request → Option Response × S
| .push payload priority sync =>
    access.pushHandler state context payload priority sync
| .pop consumerId leaseSecs waitSecs sync =>
    access.popHandler state context consumerId leaseSecs
      waitSecs sync
| .popAgain consumerId leaseSecs sync =>
    match access.current state with
    | none => (none, state)
    | some queue =>
        access.popTurn state context queue consumerId
          leaseSecs true sync
| .popDeadline => (some .noContent, state)
| .ack id consumerId sync =>
    access.existingHandler state context
      (.ack id consumerId) sync
| .nack id consumerId sync =>
    access.existingHandler state context
      (.nack id consumerId) sync
| .status =>
    access.existingHandler state context .status false
| .compact =>
    let out := access.compactHandler state context
    (some out.1, out.2)
| .expire tasks =>
    match access.current state with
    | none => (none, state)
    | some queue =>
        (none,
          (access.answer state queue
            (.expire context.now tasks)).2)

end QueueAccess

end Nesso

------------------------------------------------------------
-- The Server
------------------------------------------------------------

namespace Nesso

/-
  The directories of the file system with their log files,
  and the open queues.  An engine works on the files of its
  directory, whoever wrote them.
-/
structure Server where
  dataDir : Paths.Directory
  directories : Paths.Directory → Option Disk
  queues : String → Option Engine
  cancelled : Bool

namespace Server

/- A server on a data directory that has no queues. -/
def new (dataDir : Paths.Directory) : Server where
  dataDir := dataDir
  directories := fun _ => none
  queues := fun _ => none
  cancelled := false

def queueDir
    (server : Server)
    (name : String) : Paths.Directory :=
  Paths.join server.dataDir name

/- `create_dir_all`: the missing directories on the way. -/
def createDirAll
    (server : Server)
    (directory : Paths.Directory) : Server :=
  { server with
    directories := fun other =>
      if other <+: directory then
        some ((server.directories other).getD
          FileSystem.empty)
      else
        server.directories other }

/- The engine of an open queue, with the files it sees. -/
def current
    (server : Server)
    (name : String) : Option Engine :=
  (server.queues name).map (fun engine =>
    { engine with
      disk :=
        (server.directories (server.queueDir name)).getD
          engine.disk })

/- What an engine did to its files and to itself. -/
def store
    (server : Server)
    (name : String)
    (engine : Engine) : Server :=
  { server with
    directories :=
      Function.update server.directories
        (server.queueDir name) (some engine.disk)
    queues :=
      Function.update server.queues name (some engine) }

variable [Hasher]

/- `Engine::open` on the queue's directory. -/
def openEngine
    (server : Server)
    (name : String)
    (now : UInt64) : Except IoError Engine × Server :=
  match Engine.reopen
      ((server.directories (server.queueDir name)).getD
        FileSystem.empty)
      none defaultPayloadCacheCapacity now with
  | (.ok (), engine) =>
      (.ok engine, server.store name engine)
  | (.error error, engine) =>
      (.error error,
        { server with
          directories :=
            Function.update server.directories
              (server.queueDir name) (some engine.disk) })

def getOrCreateQueue
    (server : Server)
    (name : String)
    (context : RequestContext) :
    Except IoError Engine × Server :=
  match server.current name with
  | some engine => (.ok engine, server)
  | none =>
      if (server.directories
          (server.queueDir name)).isSome then
        server.openEngine name context.now
      else
        match context.createDirAll with
        | some error => (.error error, server)
        | none =>
            (server.createDirAll
              (server.queueDir name)).openEngine name
                context.now

def getExistingQueue
    (server : Server)
    (name : String)
    (context : RequestContext) :
    Except ApiError Engine × Server :=
  match server.current name with
  | some engine => (.ok engine, server)
  | none =>
      if (server.directories
          (server.queueDir name)).isSome then
        match server.getOrCreateQueue name context with
        | (.ok engine, next) => (.ok engine, next)
        | (.error error, next) =>
            (.error (.ofIoError error), next)
      else
        (.error
          (.notFound ("Queue '" ++ name ++ "' not found")),
          server)

/- The server as the handlers see it for one queue. -/
def access (name : String) : QueueAccess Server Engine where
  cancelled := Server.cancelled
  current := fun server => server.current name
  getOrCreate := fun server => server.getOrCreateQueue name
  getExisting := fun server => server.getExistingQueue name
  answer := fun server engine action =>
    let out := engine.answer action
    (out.1, server.store name out.2)
  compact := fun server engine =>
    let out := engine.compact
    (out.1, server.store name out.2)

end Server

/-
  `restart` is the end of the process and a new one on the
  same data directory.
-/
inductive ServerAction where
| serve (name : String) (context : RequestContext)
    (request : Request)
| cancel
| restart

namespace Server

variable [Hasher] [Base64]

def step
    (server : Server) :
    ServerAction → Option Response × Server
| .serve name context request =>
    (access name).serve server context request
| .cancel => (none, { server with cancelled := true })
| .restart =>
    (none,
      { server with
        queues := fun _ => none
        cancelled := false })

end Server

end Nesso

------------------------------------------------------------
-- What All Handlers Keep
------------------------------------------------------------

namespace Nesso

namespace QueueAccess

/- Nothing that the handlers use ends a property. -/
structure Preserves {S Q : Type}
    (access : QueueAccess S Q)
    (P : S → Prop) : Prop where
  getOrCreate :
    ∀ {state}, P state →
      ∀ context, P (access.getOrCreate state context).2
  getExisting :
    ∀ {state}, P state →
      ∀ context, P (access.getExisting state context).2
  answer :
    ∀ {state}, P state →
      ∀ queue action, P (access.answer state queue action).2
  compact :
    ∀ {state}, P state →
      ∀ queue, P (access.compact state queue).2

namespace Preserves

variable {S Q : Type} {access : QueueAccess S Q}
variable {P : S → Prop}
variable [Base64]

theorem popTurn
    (hPreserves : access.Preserves P)
    {state : S}
    (hState : P state)
    (context : RequestContext)
    (queue : Q)
    (consumerId : UInt32)
    (leaseSecs : UInt64)
    (waits sync : Bool) :
    P (access.popTurn state context queue consumerId
      leaseSecs waits sync).2 := by
  unfold QueueAccess.popTurn
  split
  · exact hState
  · exact hPreserves.answer hState _ _

theorem popHandler
    (hPreserves : access.Preserves P)
    {state : S}
    (hState : P state)
    (context : RequestContext)
    (consumerId : UInt32)
    (leaseSecs waitSecs : UInt64)
    (sync : Bool) :
    P (access.popHandler state context consumerId leaseSecs
      waitSecs sync).2 := by
  have hExisting := hPreserves.getExisting hState context
  unfold QueueAccess.popHandler
  split
  · exact hState
  · split
    · next hGet =>
        rw [hGet] at hExisting
        exact hPreserves.popTurn hExisting _ _ _ _ _ _
    · next hGet =>
        rw [hGet] at hExisting
        have hCreate :=
          hPreserves.getOrCreate hExisting context
        split
        · exact hExisting
        · split
          · next hAgain =>
              rw [hAgain] at hCreate
              exact hPreserves.popTurn hCreate _ _ _ _ _ _
          · next hAgain =>
              rw [hAgain] at hCreate
              exact hCreate
    · next hGet =>
        rw [hGet] at hExisting
        exact hExisting

theorem existingHandler
    (hPreserves : access.Preserves P)
    {state : S}
    (hState : P state)
    (context : RequestContext)
    (action : EngineAction)
    (sync : Bool) :
    P (access.existingHandler state context action
      sync).2 := by
  have hExisting := hPreserves.getExisting hState context
  unfold QueueAccess.existingHandler
  split
  · next hGet =>
      rw [hGet] at hExisting
      exact hExisting
  · next hGet =>
      rw [hGet] at hExisting
      exact hPreserves.answer hExisting _ _

/- Neither does a whole request. -/
theorem serve
    (hPreserves : access.Preserves P)
    {state : S}
    (hState : P state)
    (context : RequestContext)
    (request : Request) :
    P (access.serve state context request).2 := by
  cases request with
  | push payload priority sync =>
      have hCreate := hPreserves.getOrCreate hState context
      simp only [QueueAccess.serve, QueueAccess.pushHandler]
      split
      · next hGet =>
          rw [hGet] at hCreate
          exact hCreate
      · next hGet =>
          rw [hGet] at hCreate
          split
          · exact hCreate
          · exact hPreserves.answer hCreate _ _
  | pop consumerId leaseSecs waitSecs sync =>
      exact hPreserves.popHandler hState _ _ _ _ _
  | popAgain consumerId leaseSecs sync =>
      simp only [QueueAccess.serve]
      split
      · exact hState
      · exact hPreserves.popTurn hState _ _ _ _ _ _
  | popDeadline => exact hState
  | ack id consumerId sync =>
      exact hPreserves.existingHandler hState _ _ _
  | nack id consumerId sync =>
      exact hPreserves.existingHandler hState _ _ _
  | status => exact hPreserves.existingHandler hState _ _ _
  | compact =>
      have hExisting := hPreserves.getExisting hState context
      simp only [QueueAccess.serve,
        QueueAccess.compactHandler]
      split
      · next hGet =>
          rw [hGet] at hExisting
          exact hExisting
      · next queue next hGet =>
          rw [hGet] at hExisting
          have hCompact := hPreserves.compact hExisting queue
          split
          · next hDone =>
              rw [hDone] at hCompact
              exact hCompact
          · next hDone =>
              rw [hDone] at hCompact
              exact hCompact
  | expire tasks =>
      simp only [QueueAccess.serve]
      split
      · exact hState
      · exact hPreserves.answer hState _ _

end Preserves

end QueueAccess

end Nesso

------------------------------------------------------------
-- Handlers over Related Queues
------------------------------------------------------------

namespace Nesso

namespace QueueAccess

/-
  Two ways to access a queue that cannot be told apart, as
  long as the calls are allowed.  Of the flag of a compaction
  only a view is compared.
-/
structure Simulation {S Q T P : Type}
    (left : QueueAccess S Q)
    (right : QueueAccess T P)
    (view : Bool → Bool)
    (Related : S → T → Prop)
    (Allowed : Q → EngineAction → Prop) : Prop where
  cancelled :
    ∀ {state other}, Related state other →
      left.cancelled state = right.cancelled other
  current :
    ∀ {state other}, Related state other →
      (left.current state = none ∧
        right.current other = none) ∨
        ∃ queue twin,
          left.current state = some queue ∧
            right.current other = some twin
  getOrCreate :
    ∀ {state other}, Related state other →
      ∀ context,
        (∃ error next after,
          left.getOrCreate state context =
              (.error error, next) ∧
            right.getOrCreate other context =
              (.error error, after) ∧
            Related next after) ∨
          ∃ queue twin next after,
            left.getOrCreate state context =
                (.ok queue, next) ∧
              right.getOrCreate other context =
                (.ok twin, after) ∧
              left.current next = some queue ∧
              right.current after = some twin ∧
              Related next after
  getExisting :
    ∀ {state other}, Related state other →
      ∀ context,
        (∃ error next after,
          left.getExisting state context =
              (.error error, next) ∧
            right.getExisting other context =
              (.error error, after) ∧
            Related next after) ∨
          ∃ queue twin next after,
            left.getExisting state context =
                (.ok queue, next) ∧
              right.getExisting other context =
                (.ok twin, after) ∧
              left.current next = some queue ∧
              right.current after = some twin ∧
              Related next after
  answer :
    ∀ {state other queue twin action},
      Related state other →
        left.current state = some queue →
          right.current other = some twin →
            Allowed queue action →
              (left.answer state queue action).1 =
                  (right.answer other twin action).1 ∧
                Related (left.answer state queue action).2
                  (right.answer other twin action).2
  compact :
    ∀ {state other queue twin},
      Related state other →
        left.current state = some queue →
          right.current other = some twin →
            Allowed queue .compact →
              (left.compact state queue).1.map view =
                  (right.compact other twin).1.map view ∧
                Related (left.compact state queue).2
                  (right.compact other twin).2

/- The queues that a request can get hold of. -/
def Reaches {S Q : Type}
    (access : QueueAccess S Q)
    (state : S)
    (context : RequestContext)
    (queue : Q) : Prop :=
  access.current state = some queue ∨
    (access.getOrCreate state context).1 = .ok queue ∨
    (access.getExisting state context).1 = .ok queue ∨
    (access.getOrCreate
      (access.getExisting state context).2 context).1 =
        .ok queue

end QueueAccess

/- The call of the engine that a request leads to. -/
def Request.action [Base64]
    (context : RequestContext) :
    Request → Option EngineAction
| .push payload priority _ =>
    match Base64.decode payload with
    | .ok bytes => some (.push bytes priority)
    | .error _ => none
| .pop consumerId leaseSecs _ _
| .popAgain consumerId leaseSecs _ =>
    some (.popAndLease consumerId context.now leaseSecs)
| .popDeadline => none
| .ack id consumerId _ => some (.ack id consumerId)
| .nack id consumerId _ => some (.nack id consumerId)
| .status => some .status
| .compact => some .compact
| .expire tasks => some (.expire context.now tasks)

namespace Response

/- The response with a view of the flag of a compaction. -/
def mapFlag
    (view : Bool → Bool)
    (response : Response) : Response :=
  match response.body with
  | .compact compacted =>
      { response with body := .compact (view compacted) }
  | _ => response

/- The response, silent about what a compaction did. -/
def hideFlag : Response → Response :=
  mapFlag (fun _ => false)

@[simp] theorem mapFlag_id : mapFlag id = id := by
  funext response
  rcases response with ⟨status, body⟩
  cases body <;> rfl

end Response

namespace QueueAccess.Simulation

variable {S Q T P : Type}
variable {left : QueueAccess S Q} {right : QueueAccess T P}
variable {view : Bool → Bool}
variable {Related : S → T → Prop}
variable {Allowed : Q → EngineAction → Prop}
variable [Base64]

/- The responses are alike and the states stay related. -/
def Alike
    (view : Bool → Bool)
    (Related : S → T → Prop)
    (out : Option Response × S)
    (other : Option Response × T) : Prop :=
  out.1.map (Response.mapFlag view) =
      other.1.map (Response.mapFlag view) ∧
    Related out.2 other.2

theorem call
    (hSimulation :
      left.Simulation right view Related Allowed)
    {state : S}
    {other : T}
    {queue : Q}
    {twin : P}
    (hRelated : Related state other)
    (hQueue : left.current state = some queue)
    (hTwin : right.current other = some twin)
    {action : EngineAction}
    (hAllowed : Allowed queue action)
    (waits : Bool)
    (syncError : Option IoError) :
    Alike view Related
      (left.call state queue action waits syncError)
      (right.call other twin action waits syncError) := by
  rcases hSimulation.answer hRelated hQueue hTwin hAllowed
    with ⟨hReply, hNext⟩
  refine ⟨?_, hNext⟩
  simp only [QueueAccess.call, hReply]

theorem popTurn
    (hSimulation :
      left.Simulation right view Related Allowed)
    {state : S}
    {other : T}
    {queue : Q}
    {twin : P}
    (hRelated : Related state other)
    (hQueue : left.current state = some queue)
    (hTwin : right.current other = some twin)
    {context : RequestContext}
    {consumerId : UInt32}
    {leaseSecs : UInt64}
    (hAllowed :
      Allowed queue
        (.popAndLease consumerId context.now leaseSecs))
    (waits sync : Bool) :
    Alike view Related
      (left.popTurn state context queue consumerId leaseSecs
        waits sync)
      (right.popTurn other context twin consumerId leaseSecs
        waits sync) := by
  unfold QueueAccess.popTurn
  rw [hSimulation.cancelled hRelated]
  split
  · exact ⟨rfl, hRelated⟩
  · exact hSimulation.call hRelated hQueue hTwin hAllowed _ _

theorem popHandler
    (hSimulation :
      left.Simulation right view Related Allowed)
    {state : S}
    {other : T}
    (hRelated : Related state other)
    {context : RequestContext}
    {consumerId : UInt32}
    {leaseSecs : UInt64}
    (hAllowed :
      ∀ queue, left.Reaches state context queue →
        Allowed queue
          (.popAndLease consumerId context.now leaseSecs))
    (waitSecs : UInt64)
    (sync : Bool) :
    Alike view Related
      (left.popHandler state context consumerId leaseSecs
        waitSecs sync)
      (right.popHandler other context consumerId leaseSecs
        waitSecs sync) := by
  unfold QueueAccess.popHandler
  rw [hSimulation.cancelled hRelated]
  split
  · exact ⟨rfl, hRelated⟩
  · rcases hSimulation.getExisting hRelated context with
      ⟨error, next, after, hLeft, hRight, hNext⟩ |
        ⟨queue, twin, next, after, hLeft, hRight, hQueue,
          hTwin, hNext⟩
    · rw [hLeft, hRight]
      cases error with
      | notFound message =>
          simp only
          split
          · exact ⟨rfl, hNext⟩
          · rcases hSimulation.getOrCreate hNext context with
              ⟨error, last, final, hCreate, hTwinCreate,
                hLast⟩ |
                ⟨queue, twin, last, final, hCreate,
                  hTwinCreate, hQueue, hTwin, hLast⟩
            · rw [hCreate, hTwinCreate]
              exact ⟨rfl, hLast⟩
            · rw [hCreate, hTwinCreate]
              apply hSimulation.popTurn hLast hQueue hTwin
              apply hAllowed
              right; right; right
              rw [hLeft, hCreate]
      | conflict message => exact ⟨rfl, hNext⟩
      | internal message => exact ⟨rfl, hNext⟩
    · rw [hLeft, hRight]
      apply hSimulation.popTurn hNext hQueue hTwin
      apply hAllowed
      right; right; left
      rw [hLeft]

theorem existingHandler
    (hSimulation :
      left.Simulation right view Related Allowed)
    {state : S}
    {other : T}
    (hRelated : Related state other)
    {context : RequestContext}
    {action : EngineAction}
    (hAllowed :
      ∀ queue, left.Reaches state context queue →
        Allowed queue action)
    (sync : Bool) :
    Alike view Related
      (left.existingHandler state context action sync)
      (right.existingHandler other context action
        sync) := by
  unfold QueueAccess.existingHandler
  rcases hSimulation.getExisting hRelated context with
    ⟨error, next, after, hLeft, hRight, hNext⟩ |
      ⟨queue, twin, next, after, hLeft, hRight, hQueue,
        hTwin, hNext⟩
  · rw [hLeft, hRight]
    exact ⟨rfl, hNext⟩
  · rw [hLeft, hRight]
    apply hSimulation.call hNext hQueue hTwin
    apply hAllowed
    right; right; left
    rw [hLeft]

omit [Base64] in
theorem compactHandler
    (hSimulation :
      left.Simulation right view Related Allowed)
    {state : S}
    {other : T}
    (hRelated : Related state other)
    {context : RequestContext}
    (hAllowed :
      ∀ queue, left.Reaches state context queue →
        Allowed queue .compact) :
    (left.compactHandler state context).1.mapFlag view =
        (right.compactHandler other context).1.mapFlag
          view ∧
      Related (left.compactHandler state context).2
        (right.compactHandler other context).2 := by
  unfold QueueAccess.compactHandler
  rcases hSimulation.getExisting hRelated context with
    ⟨error, next, after, hLeft, hRight, hNext⟩ |
      ⟨queue, twin, next, after, hLeft, hRight, hQueue,
        hTwin, hNext⟩
  · rw [hLeft, hRight]
    exact ⟨rfl, hNext⟩
  · rw [hLeft, hRight]
    have hCompact : Allowed queue .compact := by
      apply hAllowed
      right; right; left
      rw [hLeft]
    rcases hSimulation.compact hNext hQueue hTwin hCompact
      with ⟨hResult, hLast⟩
    dsimp only
    generalize left.compact next queue = out
      at hResult hLast ⊢
    generalize right.compact after twin = twinOut
      at hResult hLast ⊢
    rcases out with ⟨error | flag, last⟩
    · rcases twinOut with ⟨twinError | twinFlag, twinLast⟩
      · simp only [Except.map, Except.error.injEq]
          at hResult
        rw [hResult]
        exact ⟨rfl, hLast⟩
      · simp [Except.map] at hResult
    · rcases twinOut with ⟨twinError | twinFlag, twinLast⟩
      · simp [Except.map] at hResult
      · simp only [Except.map, Except.ok.injEq] at hResult
        refine ⟨?_, hLast⟩
        simp only [Response.mapFlag, hResult]

/- Related servers answer every request alike. -/
theorem serve
    (hSimulation :
      left.Simulation right view Related Allowed)
    {state : S}
    {other : T}
    (hRelated : Related state other)
    {context : RequestContext}
    {request : Request}
    (hAllowed :
      ∀ queue, left.Reaches state context queue →
        ∀ action, request.action context = some action →
          Allowed queue action) :
    Alike view Related (left.serve state context request)
      (right.serve other context request) := by
  cases request with
  | push payload priority sync =>
      simp only [QueueAccess.serve, QueueAccess.pushHandler]
      rcases hSimulation.getOrCreate hRelated context with
        ⟨error, next, after, hLeft, hRight, hNext⟩ |
          ⟨queue, twin, next, after, hLeft, hRight, hQueue,
            hTwin, hNext⟩
      · rw [hLeft, hRight]
        exact ⟨rfl, hNext⟩
      · rw [hLeft, hRight]
        cases hDecode : Base64.decode payload with
        | error message => exact ⟨rfl, hNext⟩
        | ok bytes =>
            apply hSimulation.call hNext hQueue hTwin
            apply hAllowed queue
            · right; left
              rw [hLeft]
            · simp only [Request.action, hDecode]
  | pop consumerId leaseSecs waitSecs sync =>
      exact hSimulation.popHandler hRelated
        (fun queue hReaches => hAllowed queue hReaches _ rfl)
        _ _
  | popAgain consumerId leaseSecs sync =>
      simp only [QueueAccess.serve]
      rcases hSimulation.current hRelated with
        ⟨hQueue, hTwin⟩ | ⟨queue, twin, hQueue, hTwin⟩
      · rw [hQueue, hTwin]
        exact ⟨rfl, hRelated⟩
      · rw [hQueue, hTwin]
        exact hSimulation.popTurn hRelated hQueue hTwin
          (hAllowed queue (.inl hQueue) _ rfl) _ _
  | popDeadline => exact ⟨rfl, hRelated⟩
  | ack id consumerId sync =>
      exact hSimulation.existingHandler hRelated
        (fun queue hReaches => hAllowed queue hReaches _ rfl)
        _
  | nack id consumerId sync =>
      exact hSimulation.existingHandler hRelated
        (fun queue hReaches => hAllowed queue hReaches _ rfl)
        _
  | status =>
      exact hSimulation.existingHandler hRelated
        (fun queue hReaches => hAllowed queue hReaches _ rfl)
        _
  | compact =>
      have hCompact :=
        hSimulation.compactHandler hRelated
          (fun queue hReaches =>
            hAllowed queue hReaches _ rfl)
      exact ⟨congrArg some hCompact.1, hCompact.2⟩
  | expire tasks =>
      simp only [QueueAccess.serve]
      rcases hSimulation.current hRelated with
        ⟨hQueue, hTwin⟩ | ⟨queue, twin, hQueue, hTwin⟩
      · rw [hQueue, hTwin]
        exact ⟨rfl, hRelated⟩
      · rw [hQueue, hTwin]
        exact ⟨rfl,
          (hSimulation.answer hRelated hQueue hTwin
            (hAllowed queue (.inl hQueue) _ rfl)).2⟩

end QueueAccess.Simulation

end Nesso
