import Nesso.Recovery.RestartRefinement
import Nesso.Server.Handlers

/-
  The server refines one abstract queue for each name.

  Whatever is asked of the other queues, and however often the
  process is started again, the requests that name a queue are
  answered as if the others were never made, and as by an
  abstract work queue of its own, which only cannot tell
  whether a compaction has done anything.

  Key definitions include:
    * `QueueService`
    * `QueueService.access`
    * `Server.observe`
    * `Server.Shows`
    * `ServerAction.Admissible`

  The main theorems are:
    * `Server.access_simulation`
    * `serverRun_isolated`
    * `serverRun_refines_queueService`
-/

------------------------------------------------------------
-- The Abstract Service
------------------------------------------------------------

namespace Nesso

/- A queue is missing, or open, or left by an old process. -/
inductive QueuePhase where
| missing
| closed (queue : TaskQueue)
| opened (queue : TaskQueue)

structure QueueService where
  phase : QueuePhase
  cancelled : Bool

namespace QueueService

def new : QueueService where
  phase := .missing
  cancelled := false

def current (service : QueueService) : Option TaskQueue :=
  match service.phase with
  | .opened queue => some queue
  | _ => none

/- A queue that is opened judges its leases. -/
def getOrCreate
    (service : QueueService)
    (context : RequestContext) :
    Except IoError TaskQueue × QueueService :=
  match service.phase with
  | .opened queue => (.ok queue, service)
  | .closed queue =>
      let next := (queue.serve (.restart context.now)).2
      (.ok next, { service with phase := .opened next })
  | .missing =>
      match context.createDirAll with
      | some error => (.error error, service)
      | none =>
          (.ok .empty,
            { service with phase := .opened .empty })

def getExisting
    (name : String)
    (service : QueueService)
    (context : RequestContext) :
    Except ApiError TaskQueue × QueueService :=
  match service.phase with
  | .missing =>
      (.error
        (.notFound ("Queue '" ++ name ++ "' not found")),
        service)
  | _ =>
      match service.getOrCreate context with
      | (.ok queue, next) => (.ok queue, next)
      | (.error error, next) =>
          (.error (.ofIoError error), next)

/- Silent actions leave the abstract queue alone. -/
def answer
    (service : QueueService)
    (queue : TaskQueue)
    (action : EngineAction) :
    Option EngineReply × QueueService :=
  match action.call with
  | none => (none, service)
  | some call =>
      let out := queue.respond call
      (out.1, { service with phase := .opened out.2 })

def access
    (name : String) :
    QueueAccess QueueService TaskQueue where
  cancelled := QueueService.cancelled
  current := current
  getOrCreate := getOrCreate
  getExisting := getExisting name
  answer := answer
  compact := fun service _ => (.ok false, service)

/- The queue of an old process stays as it was left. -/
def restart (service : QueueService) : QueueService where
  phase :=
    match service.phase with
    | .opened queue => .closed queue
    | phase => phase
  cancelled := false

variable [Base64]

/- A work queue cannot tell the flag of a compaction. -/
def respond
    (name : String)
    (service : QueueService) :
    ServerAction → Option Response × QueueService
| .serve _ context request =>
    let out := (access name).serve service context request
    (out.1.map Response.hideFlag, out.2)
| .cancel => (none, { service with cancelled := true })
| .restart => (none, service.restart)

end QueueService

end Nesso

------------------------------------------------------------
-- Queues and Their Directories
------------------------------------------------------------

namespace Nesso

/- A name that is a single directory below another one. -/
def Simple (name : String) : Prop :=
  Paths.components name = [name.toList] ∧
    Paths.Plain name.toList

instance (name : String) : Decidable (Simple name) := by
  unfold Simple
  infer_instance

theorem Simple.join_eq
    {name : String}
    (hSimple : Simple name)
    (base : Paths.Directory) :
    Paths.join base name = base ++ [name.toList] := by
  have hCanonical : Paths.Canonical name := by
    intro component hComponent
    rw [hSimple.1, List.mem_singleton] at hComponent
    rw [hComponent]
    exact hSimple.2
  rw [Paths.join_of_canonical hCanonical, hSimple.1]

/- Two queues share no directory but the data directory. -/
theorem Simple.eq_of_prefix
    {left right : String}
    (hLeft : Simple left)
    (hRight : Simple right)
    {base : Paths.Directory}
    (hPrefix :
      Paths.join base left <+: Paths.join base right) :
    left = right := by
  rw [hLeft.join_eq, hRight.join_eq] at hPrefix
  have hLength :
      (base ++ [left.toList]).length =
        (base ++ [right.toList]).length := by
    simp
  have hSame := hPrefix.eq_of_length hLength
  rw [List.append_cancel_left_eq, List.singleton_inj]
    at hSame
  exact String.toList_injective hSame

namespace Server

/- All that matters for a queue is the same. -/
structure AlikeFor
    (name : String)
    (server next : Server) : Prop where
  dataDir_eq : next.dataDir = server.dataDir
  cancelled_eq : next.cancelled = server.cancelled
  queues_eq : next.queues name = server.queues name
  directories_eq :
    next.directories (next.queueDir name) =
      server.directories (server.queueDir name)

namespace AlikeFor

variable {name other : String} {server next : Server}

theorem refl
    (name : String)
    (server : Server) :
    AlikeFor name server server :=
  ⟨rfl, rfl, rfl, rfl⟩

theorem symm
    (hAlike : AlikeFor name server next) :
    AlikeFor name next server :=
  ⟨hAlike.dataDir_eq.symm, hAlike.cancelled_eq.symm,
    hAlike.queues_eq.symm, hAlike.directories_eq.symm⟩

theorem trans
    {last : Server}
    (hFirst : AlikeFor name server next)
    (hSecond : AlikeFor name next last) :
    AlikeFor name server last :=
  ⟨hSecond.dataDir_eq.trans hFirst.dataDir_eq,
    hSecond.cancelled_eq.trans hFirst.cancelled_eq,
    hSecond.queues_eq.trans hFirst.queues_eq,
    hSecond.directories_eq.trans hFirst.directories_eq⟩

theorem current_eq
    (hAlike : AlikeFor name server next) :
    next.current name = server.current name := by
  rw [current, hAlike.queues_eq, hAlike.directories_eq,
    current]

/- Files of another queue's directory. -/
theorem updateDirectory
    (hName : Simple name)
    (hOther : Simple other)
    (hNe : other ≠ name)
    (hAlike : AlikeFor name server next)
    (disk : Disk) :
    AlikeFor name server
      { next with
        directories :=
          Function.update next.directories
            (next.queueDir other) (some disk) } := by
  refine ⟨hAlike.dataDir_eq, hAlike.cancelled_eq,
    hAlike.queues_eq, ?_⟩
  have hDir : next.queueDir name ≠ next.queueDir other := by
    intro hSame
    have hPrefix :
        next.queueDir name <+: next.queueDir other := by
      rw [hSame]
    exact hNe (hName.eq_of_prefix hOther hPrefix).symm
  change Function.update next.directories _ _
    (next.queueDir name) = _
  rw [Function.update_of_ne hDir]
  exact hAlike.directories_eq

theorem store
    (hName : Simple name)
    (hOther : Simple other)
    (hNe : other ≠ name)
    (hAlike : AlikeFor name server next)
    (engine : Engine) :
    AlikeFor name server (next.store other engine) := by
  have hFiles :=
    hAlike.updateDirectory hName hOther hNe engine.disk
  refine ⟨hAlike.dataDir_eq, hAlike.cancelled_eq, ?_,
    hFiles.directories_eq⟩
  rw [Server.store]
  simp only [Function.update_of_ne (Ne.symm hNe)]
  exact hAlike.queues_eq

theorem createDirAll
    (hName : Simple name)
    (hOther : Simple other)
    (hNe : other ≠ name)
    (hAlike : AlikeFor name server next) :
    AlikeFor name server
      (next.createDirAll (next.queueDir other)) := by
  refine ⟨hAlike.dataDir_eq, hAlike.cancelled_eq,
    hAlike.queues_eq, ?_⟩
  have hOutside :
      ¬ next.queueDir name <+: next.queueDir other := by
    intro hPrefix
    exact hNe (hName.eq_of_prefix hOther hPrefix).symm
  change
    (if next.queueDir name <+: next.queueDir other then _
      else next.directories (next.queueDir name)) = _
  rw [if_neg hOutside]
  exact hAlike.directories_eq

variable [Hasher]

theorem openEngine
    (hName : Simple name)
    (hOther : Simple other)
    (hNe : other ≠ name)
    (hAlike : AlikeFor name server next)
    (now : UInt64) :
    AlikeFor name server (next.openEngine other now).2 := by
  unfold Server.openEngine
  split
  · exact hAlike.store hName hOther hNe _
  · exact hAlike.updateDirectory hName hOther hNe _

theorem getOrCreateQueue
    (hName : Simple name)
    (hOther : Simple other)
    (hNe : other ≠ name)
    (hAlike : AlikeFor name server next)
    (context : RequestContext) :
    AlikeFor name server
      (next.getOrCreateQueue other context).2 := by
  unfold Server.getOrCreateQueue
  split
  · exact hAlike
  · split
    · exact hAlike.openEngine hName hOther hNe _
    · split
      · exact hAlike
      · exact (hAlike.createDirAll hName hOther
          hNe).openEngine hName hOther hNe _

theorem getExistingQueue
    (hName : Simple name)
    (hOther : Simple other)
    (hNe : other ≠ name)
    (hAlike : AlikeFor name server next)
    (context : RequestContext) :
    AlikeFor name server
      (next.getExistingQueue other context).2 := by
  have hCreate :=
    hAlike.getOrCreateQueue hName hOther hNe context
  unfold Server.getExistingQueue
  split
  · exact hAlike
  · split
    · split
      · next hGet =>
          rw [hGet] at hCreate
          exact hCreate
      · next hGet =>
          rw [hGet] at hCreate
          exact hCreate
    · exact hAlike

/- A request for another queue changes nothing here. -/
theorem serve [Base64]
    (hName : Simple name)
    (hOther : Simple other)
    (hNe : other ≠ name)
    (server : Server)
    (context : RequestContext)
    (request : Request) :
    AlikeFor name server
      ((access other).serve server context request).2 := by
  have hPreserves :
      (access other).Preserves (AlikeFor name server) := by
    constructor
    · intro next hAlike context
      exact hAlike.getOrCreateQueue hName hOther hNe context
    · intro next hAlike context
      exact hAlike.getExistingQueue hName hOther hNe context
    · intro next hAlike engine action
      exact hAlike.store hName hOther hNe _
    · intro next hAlike engine
      exact hAlike.store hName hOther hNe _
  exact hPreserves.serve (refl name server) context request

end AlikeFor

end Server

end Nesso

------------------------------------------------------------
-- Isolated Queues
------------------------------------------------------------

namespace Nesso

/- What concerns the queue of a name. -/
def ServerAction.concerning
    (name : String) : ServerAction → Option ServerAction
| .serve other context request =>
    if other = name then
      some (.serve other context request)
    else
      none
| .cancel => some .cancel
| .restart => some .restart

namespace Server

theorem store_current
    (server : Server)
    (name : String)
    (engine : Engine) :
    (server.store name engine).current name =
      some engine := by
  simp [store, current, queueDir]

namespace AlikeFor

variable {name : String} {server next : Server}

/- The same files and the same engine are written. -/
theorem store_both
    (hAlike : AlikeFor name server next)
    (engine : Engine) :
    AlikeFor name (server.store name engine)
      (next.store name engine) := by
  refine ⟨hAlike.dataDir_eq, hAlike.cancelled_eq, ?_, ?_⟩
  · simp [Server.store]
  · simp [Server.store, queueDir]

theorem createDirAll_both
    (hAlike : AlikeFor name server next) :
    AlikeFor name
      (server.createDirAll (server.queueDir name))
      (next.createDirAll (next.queueDir name)) := by
  refine ⟨hAlike.dataDir_eq, hAlike.cancelled_eq,
    hAlike.queues_eq, ?_⟩
  change
    (if next.queueDir name <+: next.queueDir name then
        some ((next.directories (next.queueDir name)).getD
          FileSystem.empty)
      else _) =
      if server.queueDir name <+: server.queueDir name then
        some ((server.directories
          (server.queueDir name)).getD FileSystem.empty)
      else _
  rw [if_pos (List.prefix_refl _),
    if_pos (List.prefix_refl _), hAlike.directories_eq]

variable [Hasher]

/- Both open the queue, or both fail. -/
def OpenAlike {ε : Type}
    (name : String)
    (out other : Except ε Engine × Server) : Prop :=
  out.1 = other.1 ∧ AlikeFor name out.2 other.2 ∧
    ∀ engine, out.1 = .ok engine →
      out.2.current name = some engine

theorem openEngine_both
    (hAlike : AlikeFor name server next)
    (now : UInt64) :
    OpenAlike name (server.openEngine name now)
      (next.openEngine name now) := by
  unfold Server.openEngine
  rw [hAlike.directories_eq]
  split
  · next engine _ =>
      refine ⟨rfl, hAlike.store_both engine, ?_⟩
      intro found hFound
      rw [Except.ok.injEq] at hFound
      rw [store_current, hFound]
  · refine ⟨rfl, ?_, by simp⟩
    refine ⟨hAlike.dataDir_eq, hAlike.cancelled_eq,
      hAlike.queues_eq, ?_⟩
    simp [queueDir]

theorem getOrCreateQueue_both
    (hAlike : AlikeFor name server next)
    (context : RequestContext) :
    OpenAlike name (server.getOrCreateQueue name context)
      (next.getOrCreateQueue name context) := by
  unfold Server.getOrCreateQueue
  rw [hAlike.current_eq]
  cases hCurrent : server.current name with
  | some engine =>
      refine ⟨rfl, hAlike, ?_⟩
      intro found hFound
      rw [Except.ok.injEq] at hFound
      rw [hCurrent, hFound]
  | none =>
      simp only [hAlike.directories_eq]
      split
      · exact hAlike.openEngine_both context.now
      · split
        · exact ⟨rfl, hAlike, by simp⟩
        · exact hAlike.createDirAll_both.openEngine_both
            context.now

theorem getExistingQueue_both
    (hAlike : AlikeFor name server next)
    (context : RequestContext) :
    OpenAlike name (server.getExistingQueue name context)
      (next.getExistingQueue name context) := by
  have hCreate := hAlike.getOrCreateQueue_both context
  unfold Server.getExistingQueue
  rw [hAlike.current_eq]
  cases hCurrent : server.current name with
  | some engine =>
      refine ⟨rfl, hAlike, ?_⟩
      intro found hFound
      rw [Except.ok.injEq] at hFound
      rw [hCurrent, hFound]
  | none =>
      simp only [hAlike.directories_eq]
      split
      · generalize server.getOrCreateQueue name context =
          out at hCreate ⊢
        generalize next.getOrCreateQueue name context =
          other at hCreate ⊢
        rcases out with ⟨result, last⟩
        rcases other with ⟨same, otherLast⟩
        rcases hCreate with ⟨hResult, hLast, hQueue⟩
        dsimp only at hResult
        subst hResult
        cases result with
        | ok engine =>
            refine ⟨rfl, hLast, ?_⟩
            intro found hFound
            rw [Except.ok.injEq] at hFound
            rw [← hFound]
            exact hQueue engine rfl
        | error error => exact ⟨rfl, hLast, by simp⟩
      · exact ⟨rfl, hAlike, by simp⟩

end AlikeFor

variable [Hasher]

/- The files and the engine of a queue are all it needs. -/
theorem access_alike
    (name : String) :
    (access name).Simulation (access name) id
      (AlikeFor name) (fun _ _ => True) := by
  have hOpen :
      ∀ {ε : Type} {out other : Except ε Engine × Server},
        AlikeFor.OpenAlike name out other →
          (∃ error next after,
            out = (.error error, next) ∧
              other = (.error error, after) ∧
              AlikeFor name next after) ∨
            ∃ engine twin next after,
              out = (.ok engine, next) ∧
                other = (.ok twin, after) ∧
                next.current name = some engine ∧
                after.current name = some twin ∧
                AlikeFor name next after := by
    rintro ε ⟨result, next⟩ ⟨same, after⟩
      ⟨rfl, hAlike, hQueue⟩
    cases result with
    | error error =>
        exact .inl ⟨error, next, after, rfl, rfl, hAlike⟩
    | ok engine =>
        have hNext := hQueue engine rfl
        exact .inr ⟨engine, engine, next, after, rfl, rfl,
          hNext, by rw [hAlike.current_eq, hNext], hAlike⟩
  constructor
  · intro server next hAlike
    exact hAlike.cancelled_eq.symm
  · intro server next hAlike
    simp only [access, hAlike.current_eq]
    cases hCurrent : server.current name with
    | none => exact .inl ⟨rfl, rfl⟩
    | some engine => exact .inr ⟨engine, engine, rfl, rfl⟩
  · intro server next hAlike context
    exact hOpen (hAlike.getOrCreateQueue_both context)
  · intro server next hAlike context
    exact hOpen (hAlike.getExistingQueue_both context)
  · intro server next engine twin action hAlike hEngine
      hTwin _
    simp only [access, hAlike.current_eq] at hEngine hTwin
    rw [hEngine, Option.some.injEq] at hTwin
    subst hTwin
    exact ⟨rfl, hAlike.store_both _⟩
  · intro server next engine twin hAlike hEngine hTwin _
    simp only [access, hAlike.current_eq] at hEngine hTwin
    rw [hEngine, Option.some.injEq] at hTwin
    subst hTwin
    exact ⟨rfl, hAlike.store_both _⟩

variable [Base64]

/- Only the responses to requests for one queue are seen. -/
def observe
    (name : String)
    (server : Server)
    (action : ServerAction) : Option Response × Server :=
  ((action.concerning name).bind (fun _ =>
    (server.step action).1),
    (server.step action).2)

/- All queue names of the run are simple. -/
def OnSimple : ServerAction → Prop
| .serve other _ _ => Simple other
| .cancel => True
| .restart => True

instance (action : ServerAction) :
    Decidable (OnSimple action) :=
  match action with
  | .serve _ _ _ => inferInstanceAs (Decidable (Simple _))
  | .cancel => inferInstanceAs (Decidable True)
  | .restart => inferInstanceAs (Decidable True)

theorem isolation
    {name : String}
    (hName : Simple name) :
    Refinement.Simulation (observe name) (observe name)
      (ServerAction.concerning name)
      (fun _ action => OnSimple action)
      (AlikeFor name) := by
  constructor
  · intro server next action called hAlike hAllowed hCall
    have hSame : called = action := by
      cases action with
      | serve other context request =>
          by_cases hOther : other = name
          · rw [ServerAction.concerning, if_pos hOther,
              Option.some.injEq] at hCall
            exact hCall.symm
          · simp [ServerAction.concerning, hOther] at hCall
      | cancel =>
          exact (Option.some.inj hCall).symm
      | restart =>
          exact (Option.some.inj hCall).symm
    subst hSame
    cases called with
    | serve other context request =>
        have hOther : other = name := by
          by_contra hOther
          simp [ServerAction.concerning, hOther] at hCall
        subst hOther
        have hServe :
            QueueAccess.Simulation.Alike id (AlikeFor other)
              ((access other).serve server context request)
              ((access other).serve next context request) :=
          (access_alike other).serve hAlike
            (fun _ _ _ _ => trivial)
        have hSame := hServe.1
        rw [Response.mapFlag_id, Option.map_id, id_eq, id_eq]
          at hSame
        refine ⟨?_, hServe.2⟩
        simp only [observe, ServerAction.concerning, if_true,
          Option.bind_some]
        exact hSame
    | cancel =>
        exact ⟨rfl, hAlike.dataDir_eq, rfl, hAlike.queues_eq,
          hAlike.directories_eq⟩
    | restart =>
        exact ⟨rfl, hAlike.dataDir_eq, rfl, rfl,
          hAlike.directories_eq⟩
  · intro server next action hAlike hAllowed hCall
    cases action with
    | serve other context request =>
        have hOther : other ≠ name := by
          rintro rfl
          simp [ServerAction.concerning] at hCall
        refine ⟨?_, ?_⟩
        · rw [observe, hCall]
          rfl
        · have hServe :=
            AlikeFor.serve hName hAllowed hOther server
              context request
          exact hServe.symm.trans hAlike
    | cancel => simp [ServerAction.concerning] at hCall
    | restart => simp [ServerAction.concerning] at hCall

end Server

end Nesso

------------------------------------------------------------
-- Served Queues
------------------------------------------------------------

namespace Nesso

namespace Server

variable [Hasher]

/-
  The files and the engine of a name are those of the abstract
  queue; what an old process left can be recovered.
-/
def Shows
    (name : String)
    (server : Server)
    (service : QueueService) : Prop :=
  server.cancelled = service.cancelled ∧
    match service.phase with
    | .missing =>
        server.queues name = none ∧
          server.directories (server.queueDir name) = none
    | .closed queue =>
        server.queues name = none ∧
          ∃ engine : Engine,
            server.directories (server.queueDir name) =
                some engine.disk ∧
              engine.Logged queue ∧
              engine.DataCurrent ∧ engine.IdsKnown
    | .opened queue =>
        ∃ engine,
          server.queues name = some engine ∧
            server.directories (server.queueDir name) =
              some engine.disk ∧
            engine.Logged queue

namespace Shows

variable {name : String} {server next : Server}
variable {service : QueueService}

theorem of_alike
    (hShows : Shows name server service)
    (hAlike : AlikeFor name server next) :
    Shows name next service := by
  unfold Shows at hShows ⊢
  rw [hAlike.cancelled_eq, hAlike.queues_eq,
    hAlike.directories_eq]
  exact hShows

theorem opened
    {queue : TaskQueue}
    (hShows : Shows name server service)
    (hPhase : service.phase = .opened queue) :
    ∃ engine,
      server.current name = some engine ∧
        engine.Logged queue := by
  unfold Shows at hShows
  rw [hPhase] at hShows
  rcases hShows with
    ⟨_, engine, hEngine, hFiles, hLogged⟩
  refine ⟨engine, ?_, hLogged⟩
  rw [current, hEngine, hFiles]
  rfl

theorem current_cases
    (hShows : Shows name server service) :
    (server.current name = none ∧
      service.current = none) ∨
      ∃ engine queue,
        server.current name = some engine ∧
          service.current = some queue ∧
          service.phase = .opened queue ∧
          engine.Logged queue := by
  cases hPhase : service.phase with
  | missing =>
      unfold Shows at hShows
      rw [hPhase] at hShows
      left
      simp [current, hShows.2.1, QueueService.current, hPhase]
  | closed queue =>
      unfold Shows at hShows
      rw [hPhase] at hShows
      left
      simp [current, hShows.2.1, QueueService.current, hPhase]
  | opened queue =>
      rcases hShows.opened hPhase with
        ⟨engine, hEngine, hLogged⟩
      exact .inr ⟨engine, queue, hEngine,
        by simp [QueueService.current, hPhase], rfl, hLogged⟩

theorem logged
    {engine : Engine}
    {queue : TaskQueue}
    (hShows : Shows name server service)
    (hEngine : server.current name = some engine)
    (hQueue : service.current = some queue) :
    engine.Logged queue := by
  rcases hShows.current_cases with
    ⟨hNone, _⟩ | ⟨found, twin, hFound, hTwin, _, hLogged⟩
  · simp [hNone] at hEngine
  · rw [hFound, Option.some.injEq] at hEngine
    rw [hTwin, Option.some.injEq] at hQueue
    rw [← hEngine, ← hQueue]
    exact hLogged

omit [Hasher] in
/- Only an open queue is at hand. -/
theorem opened_eq
    {queue : TaskQueue}
    (hQueue : service.current = some queue) :
    { service with phase := .opened queue } = service := by
  rcases service with ⟨phase, cancelled⟩
  cases phase with
  | missing => simp [QueueService.current] at hQueue
  | closed old => simp [QueueService.current] at hQueue
  | opened old =>
      rw [QueueService.current, Option.some.injEq] at hQueue
      rw [hQueue]

theorem store
    (hCancelled : server.cancelled = service.cancelled)
    {engine : Engine}
    {queue : TaskQueue}
    (hLogged : engine.Logged queue) :
    Shows name (server.store name engine)
      { service with phase := .opened queue } := by
  refine ⟨hCancelled, engine, ?_, ?_, hLogged⟩
  · simp [Server.store]
  · simp [Server.store, queueDir]

theorem openEngine_eq
    (server : Server)
    (name : String)
    {now : UInt64}
    {engine : Engine}
    {disk : Disk}
    (hDisk :
      (server.directories (server.queueDir name)).getD
        FileSystem.empty = disk)
    (hOpen :
      Engine.reopen disk none defaultPayloadCacheCapacity
        now = (.ok (), engine)) :
    server.openEngine name now =
      (.ok engine, server.store name engine) := by
  rw [openEngine, hDisk, hOpen]

/- Opening a queue and creating it go alike. -/
theorem getOrCreate
    (hShows : Shows name server service)
    (context : RequestContext) :
    (∃ error,
      server.getOrCreateQueue name context =
          (.error error, server) ∧
        service.getOrCreate context =
          (.error error, service) ∧
        service.phase = .missing) ∨
      ∃ engine queue next after,
        server.getOrCreateQueue name context =
            (.ok engine, next) ∧
          service.getOrCreate context = (.ok queue, after) ∧
          next.current name = some engine ∧
          after.current = some queue ∧
          Shows name next after := by
  cases hPhase : service.phase with
  | missing =>
      unfold Shows at hShows
      rw [hPhase] at hShows
      rcases hShows with ⟨hCancelled, hQueue, hFiles⟩
      have hCurrent : server.current name = none := by
        simp [current, hQueue]
      simp only [getOrCreateQueue, hCurrent, hFiles,
        Option.isSome_none, Bool.false_eq_true, if_false,
        QueueService.getOrCreate, hPhase]
      cases hCreate : context.createDirAll with
      | some error => exact .inl ⟨error, rfl, rfl, trivial⟩
      | none =>
          right
          have hFresh :=
            Engine.Logged.fresh none
              defaultPayloadCacheCapacity context.now
          rcases Engine.reopen_empty_spec none
            defaultPayloadCacheCapacity context.now with
            ⟨engine, hOpen, _⟩
          rw [Engine.fresh, hOpen] at hFresh
          change engine.Logged .empty at hFresh
          have hDisk :
              ((server.createDirAll
                (server.queueDir name)).directories
                  (server.queueDir name)).getD
                    FileSystem.empty = FileSystem.empty := by
            simp [createDirAll, hFiles]
          rw [openEngine_eq (server.createDirAll _) name hDisk
            hOpen]
          refine ⟨engine, .empty, _, _, rfl, rfl,
            store_current _ _ _, rfl, ?_⟩
          apply Shows.store _ hFresh
          exact hCancelled
  | closed queue =>
      unfold Shows at hShows
      rw [hPhase] at hShows
      rcases hShows with
        ⟨hCancelled, hQueue, engine, hFiles, hLogged, hData,
          hIds⟩
      have hCurrent : server.current name = none := by
        simp [current, hQueue]
      rcases hLogged.restart hData hIds none
        defaultPayloadCacheCapacity context.now with
        ⟨next, hOpen, hNext⟩
      have hDisk :
          (server.directories (server.queueDir name)).getD
            FileSystem.empty = engine.disk := by
        rw [hFiles]
        rfl
      right
      simp only [getOrCreateQueue, hCurrent, hFiles,
        Option.isSome_some, if_true,
        QueueService.getOrCreate, hPhase]
      rw [openEngine_eq server name hDisk hOpen]
      exact ⟨next, _, _, _, rfl, rfl,
        store_current _ _ _, rfl,
        Shows.store hCancelled hNext⟩
  | opened queue =>
      rcases hShows.opened hPhase with
        ⟨engine, hEngine, hLogged⟩
      right
      refine ⟨engine, queue, server, service, ?_, ?_,
        hEngine, ?_, hShows⟩
      · rw [getOrCreateQueue, hEngine]
      · simp only [QueueService.getOrCreate, hPhase]
      · simp [QueueService.current, hPhase]

theorem getExisting
    (hShows : Shows name server service)
    (context : RequestContext) :
    (∃ error,
      server.getExistingQueue name context =
          (.error error, server) ∧
        service.getExisting name context =
          (.error error, service)) ∨
      ∃ engine queue next after,
        server.getExistingQueue name context =
            (.ok engine, next) ∧
          service.getExisting name context =
            (.ok queue, after) ∧
          next.current name = some engine ∧
          after.current = some queue ∧
          Shows name next after := by
  have hGet := hShows.getOrCreate context
  by_cases hMissing : service.phase = .missing
  · left
    unfold Shows at hShows
    rw [hMissing] at hShows
    rcases hShows with ⟨_, hQueue, hFiles⟩
    refine ⟨.notFound ("Queue '" ++ name ++ "' not found"),
      ?_, ?_⟩
    · simp [getExistingQueue, current, hQueue, hFiles]
    · simp [QueueService.getExisting, hMissing]
  · right
    rcases hGet with ⟨_, _, _, hPhase⟩ |
      ⟨engine, queue, next, after, hOpen, hTwin, hNext,
        hAfter, hShown⟩
    · exact (hMissing hPhase).elim
    · refine ⟨engine, queue, next, after, ?_, ?_, hNext,
        hAfter, hShown⟩
      · have hFiles :
            (server.directories
              (server.queueDir name)).isSome := by
          unfold Shows at hShows
          cases hPhase : service.phase with
          | missing => exact (hMissing hPhase).elim
          | closed old =>
              rw [hPhase] at hShows
              rcases hShows with ⟨_, _, _, hFiles, _⟩
              simp [hFiles]
          | opened old =>
              rw [hPhase] at hShows
              rcases hShows with ⟨_, _, _, hFiles, _⟩
              simp [hFiles]
        unfold getExistingQueue
        split
        · next found hFound =>
            rw [getOrCreateQueue, hFound] at hOpen
            simp only [Prod.mk.injEq, Except.ok.injEq]
              at hOpen
            rw [hOpen.1, hOpen.2]
        · rw [if_pos hFiles, hOpen]
      · unfold QueueService.getExisting
        split
        · next hPhase => exact (hMissing hPhase).elim
        · rw [hTwin]

end Shows

/- What the requests may ask of an engine. -/
def Allowed (engine : Engine) (action : EngineAction) : Prop :=
  EngineLife.Admissible engine (.run action)

/- A server and its abstract queue answer alike. -/
theorem access_simulation
    (name : String) :
    (access name).Simulation (QueueService.access name)
      (fun _ => false) (Shows name) Allowed := by
  constructor
  · intro server service hShows
    exact hShows.1
  · intro server service hShows
    rcases hShows.current_cases with
      hNone | ⟨engine, queue, hEngine, hQueue, _, _⟩
    · exact .inl hNone
    · exact .inr ⟨engine, queue, hEngine, hQueue⟩
  · intro server service hShows context
    rcases hShows.getOrCreate context with
      ⟨error, hLeft, hRight, _⟩ | hFound
    · exact .inl
        ⟨error, server, service, hLeft, hRight, hShows⟩
    · exact .inr hFound
  · intro server service hShows context
    rcases hShows.getExisting context with
      ⟨error, hLeft, hRight⟩ | hFound
    · exact .inl
        ⟨error, server, service, hLeft, hRight, hShows⟩
    · exact .inr hFound
  · intro server service engine queue action hShows hEngine
      hQueue hAllowed
    have hLogged := hShows.logged hEngine hQueue
    cases hCall : action.call with
    | some call =>
        have hVisible :=
          Engine.Logged.simulation.visible hLogged hAllowed
            hCall
        simp only [access, QueueService.access,
          QueueService.answer, hCall]
        exact ⟨hVisible.1, Shows.store hShows.1 hVisible.2⟩
    | none =>
        have hSilent :=
          Engine.Logged.simulation.silent hLogged hAllowed
            hCall
        simp only [access, QueueService.access,
          QueueService.answer, hCall]
        refine ⟨hSilent.1, ?_⟩
        rw [← Shows.opened_eq hQueue]
        exact Shows.store hShows.1 hSilent.2
  · intro server service engine queue hShows hEngine hQueue
      hAllowed
    have hLogged := hShows.logged hEngine hQueue
    rcases hLogged.compact_ok with ⟨compacted, hResult⟩
    refine ⟨?_, ?_⟩
    · simp only [access, QueueService.access, hResult]
      rfl
    · have hNext :
          Shows name (server.store name engine.compact.2)
            { service with phase := .opened queue } :=
        Shows.store hShows.1 (hLogged.compact hAllowed)
      rw [Shows.opened_eq hQueue] at hNext
      exact hNext

end Server

end Nesso

------------------------------------------------------------
-- Runs of the Server
------------------------------------------------------------

namespace Nesso

namespace ServerAction

variable [Hasher] [Base64]

/-
  All queue names are simple.  The requests for the queue keep
  to what its engine allows, and a restart finds the payloads
  and the ids that were given out.
-/
def Admissible
    (name : String)
    (server : Server) : ServerAction → Prop
| .serve other context request =>
    Simple other ∧
      (other = name →
        ∀ engine ∈
            (server.getOrCreateQueue name
              context).1.toOption,
          ∀ action ∈ request.action context,
            Server.Allowed engine action)
| .cancel => True
| .restart =>
    ∀ engine ∈ server.current name,
      engine.DataCurrent ∧ engine.IdsKnown

instance
    (engine : Engine)
    (action : EngineAction) :
    Decidable (Server.Allowed engine action) :=
  inferInstanceAs
    (Decidable (EngineLife.Admissible engine (.run action)))

instance (engine : Engine) : Decidable engine.IdsKnown :=
  inferInstanceAs (Decidable (_ = _))

instance
    (name : String)
    (server : Server)
    (action : ServerAction) :
    Decidable (action.Admissible name server) :=
  match action with
  | .serve _ _ _ => inferInstanceAs (Decidable (_ ∧ (_ → _)))
  | .cancel => inferInstanceAs (Decidable True)
  | .restart => inferInstanceAs (Decidable (∀ _ ∈ _, _ ∧ _))

end ServerAction

namespace Server

variable [Hasher] [Base64]

omit [Base64] in
/- Every way to the queue leads to the same engine. -/
theorem getOrCreateQueue_of_reaches
    {name : String}
    {server : Server}
    {service : QueueService}
    (hShows : Shows name server service)
    {context : RequestContext}
    {engine : Engine}
    (hReaches :
      (access name).Reaches server context engine) :
    (server.getOrCreateQueue name context).1 =
      .ok engine := by
  have hExisting :
      ∀ {found : Engine},
        (server.getExistingQueue name context).1 =
            .ok found →
          (server.getOrCreateQueue name context).1 =
            .ok found := by
    intro found hFound
    unfold getExistingQueue at hFound
    split at hFound
    · next hCurrent =>
        rw [Except.ok.injEq] at hFound
        rw [getOrCreateQueue, hCurrent, hFound]
    · split at hFound
      · split at hFound
        · next hGet =>
            rw [Except.ok.injEq] at hFound
            rw [hGet, hFound]
        · simp at hFound
      · simp at hFound
  rcases hReaches with hCurrent | hCreate | hFound | hAgain
  · simp only [access] at hCurrent
    rw [getOrCreateQueue, hCurrent]
  · exact hCreate
  · exact hExisting hFound
  · simp only [access] at hAgain
    rcases hShows.getExisting context with
      ⟨error, hLeft, _⟩ |
        ⟨found, queue, next, after, hLeft, _, hNext, _⟩
    · rw [hLeft] at hAgain
      exact hAgain
    · rw [hLeft, getOrCreateQueue, hNext] at hAgain
      rw [← hAgain]
      apply hExisting
      rw [hLeft]

omit [Base64] in
/- What the process leaves behind can be opened again. -/
theorem Shows.restart
    {name : String}
    {server : Server}
    {service : QueueService}
    (hShows : Shows name server service)
    (hKnown :
      ∀ engine, server.current name = some engine →
        engine.DataCurrent ∧ engine.IdsKnown) :
    Shows name
      { server with
        queues := fun _ => none
        cancelled := false }
      service.restart := by
  refine ⟨rfl, ?_⟩
  unfold Shows at hShows
  cases hPhase : service.phase with
  | missing =>
      simp only [QueueService.restart, hPhase]
      rw [hPhase] at hShows
      exact ⟨trivial, hShows.2.2⟩
  | closed queue =>
      simp only [QueueService.restart, hPhase]
      rw [hPhase] at hShows
      exact ⟨trivial, hShows.2.2⟩
  | opened queue =>
      simp only [QueueService.restart, hPhase]
      rw [hPhase] at hShows
      rcases hShows.2 with
        ⟨engine, hEngine, hFiles, hLogged⟩
      have hCurrent : server.current name = some engine := by
        rw [current, hEngine, hFiles]
        rfl
      rcases hKnown engine hCurrent with ⟨hData, hIds⟩
      exact ⟨trivial, engine, hFiles, hLogged, hData, hIds⟩

/- The server keeps showing the queue of each name. -/
theorem simulation
    {name : String}
    (hName : Simple name) :
    Refinement.Simulation
      (Refinement.viewed (Server.observe name)
        Response.hideFlag)
      (QueueService.respond name)
      (ServerAction.concerning name)
      (fun server action => action.Admissible name server)
      (Shows name) := by
  constructor
  · intro server service action called hShows hAllowed
      hCall
    cases action with
    | serve other context request =>
        by_cases hOther : other = name
        · subst hOther
          rw [ServerAction.concerning, if_pos rfl,
            Option.some.injEq] at hCall
          have hAlike :=
            (access_simulation other).serve hShows
              (fun engine hReaches action hAction =>
                hAllowed.2 rfl engine
                  (by
                    rw [getOrCreateQueue_of_reaches hShows
                      hReaches]
                    rfl)
                  action hAction)
          subst hCall
          refine ⟨?_, hAlike.2⟩
          simp only [Refinement.viewed, observe,
            ServerAction.concerning, if_true,
            Option.bind_some]
          exact hAlike.1
        · simp [ServerAction.concerning, hOther] at hCall
    | cancel =>
        rw [ServerAction.concerning, Option.some.injEq]
          at hCall
        subst hCall
        exact ⟨rfl, rfl, hShows.2⟩
    | restart =>
        rw [ServerAction.concerning, Option.some.injEq]
          at hCall
        subst hCall
        exact ⟨rfl, hShows.restart hAllowed⟩
  · intro server service action hShows hAllowed hCall
    cases action with
    | serve other context request =>
        by_cases hOther : other = name
        · simp [ServerAction.concerning, hOther] at hCall
        · refine ⟨?_, ?_⟩
          · rw [Refinement.viewed, observe, hCall]
            rfl
          · exact hShows.of_alike
              (AlikeFor.serve hName hAllowed.1 hOther server
                context request)
    | cancel => simp [ServerAction.concerning] at hCall
    | restart => simp [ServerAction.concerning] at hCall

omit [Base64] in
theorem shows_new
    (name : String)
    (dataDir : Paths.Directory) :
    Shows name (Server.new dataDir) .new :=
  ⟨rfl, rfl, rfl⟩

end Server

/- The encodings of the payloads below. -/
instance sampleBase64 : Base64 where
  encode bytes :=
    if bytes = [7, 8] then "Bwg="
    else if bytes = [9] then "CQ=="
    else ""
  decode text :=
    if text = "Bwg=" then .ok [7, 8]
    else if text = "CQ==" then .ok [9]
    else .error "Invalid padding"

/- Two queues, a compaction and a restart. -/
def twoQueues : List ServerAction :=
  let context : RequestContext := ⟨10, none, none⟩
  let later : RequestContext := ⟨40, none, none⟩
  [.serve "a" context (.status),
    .serve "a" context (.push "Bwg=" 5 true),
    .serve "b" context (.push "CQ==" 3 false),
    .serve "a" context (.pop 1 20 0 false),
    .serve "b" context (.pop 2 20 5 false),
    .serve "a" context .compact, .restart,
    .serve "b" later .status,
    .serve "a" later (.pop 3 20 0 false),
    .serve "a" later (.ack 1 3 true), .cancel,
    .serve "a" later (.pop 3 20 0 false)]

/- A name with a separator creates the queue above it. -/
example :
    let context : RequestContext := ⟨10, none, none⟩
    let status : ServerAction :=
      .serve "a" context .status
    Refinement.answers (Server.observe "a")
        (Server.new [['d']])
        [.serve "a/b" context (.push "CQ==" 3 false),
          status] =
        [⟨200, .status 0 0⟩] ∧
      Refinement.answers (Server.observe "a")
          (Server.new [['d']]) [status] =
        [⟨404,
          .error "not_found" "Queue 'a' not found"⟩] := by
  decide +kernel

end Nesso
