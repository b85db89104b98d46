import Nesso.Library.Paths
import Nesso.Library.Transition
import Nesso.Storage.Wal

/-
  The queues of the HTTP server (`server.rs`).

  Queues are opened on demand and kept under the name that a
  request gives them.  What the file system answers is an
  input of every request.

  Key definitions include:
    * `AppState.getOrCreateQueue`
    * `AppState.getExistingQueue`
    * `AppState.serve`
    * `AppState.Isolated`

  The main theorems are:
    * `AppState.run_isolated`
    * `AppState.exists_run_not_isolated`
-/

------------------------------------------------------------
-- Opening Queues
------------------------------------------------------------

namespace Nesso

/- An open queue; its engine owns the directory's log. -/
structure QueueContext where
  directory : Paths.Directory
deriving DecidableEq, Repr

structure AppState where
  dataDir : Paths.Directory
  queues : String → Option QueueContext
  shutdownToken : Bool

/- An error that is answered to the client. -/
inductive ApiError where
| notFound (message : String)
| conflict (message : String)
| internal (message : String)
deriving DecidableEq, Repr

/- How storage errors are answered. -/
def ApiError.ofIoError (error : IoError) : ApiError :=
  match error.kind with
  | .notFound => .notFound error.message
  | .permissionDenied => .conflict error.message
  | _ => .internal error.message

/-
  What the file system answers while a request is served:
  whether the directory is there when the queue is looked up
  and when it is opened, and how its creation and the opening
  of the engine fail.
-/
structure DirectoryAnswers where
  found : Bool
  present : Bool
  createDirAll : Option IoError
  openEngine : Option IoError
deriving DecidableEq, Repr

namespace AppState

def new (dataDir : Paths.Directory) : AppState where
  dataDir := dataDir
  queues := fun _ => none
  shutdownToken := false

def getOrCreateQueue
    (state : AppState)
    (name : String)
    (answers : DirectoryAnswers) :
    Except IoError QueueContext × AppState :=
  match state.queues name with
  | some context => (.ok context, state)
  | none =>
      let queueDir := Paths.join state.dataDir name
      match
        if answers.present then none
        else answers.createDirAll
      with
      | some error => (.error error, state)
      | none =>
          match answers.openEngine with
          | some error => (.error error, state)
          | none =>
              (.ok ⟨queueDir⟩,
                { state with
                  queues :=
                    Function.update state.queues name
                      (some ⟨queueDir⟩) })

def getExistingQueue
    (state : AppState)
    (name : String)
    (answers : DirectoryAnswers) :
    Except ApiError QueueContext × AppState :=
  match state.queues name with
  | some context => (.ok context, state)
  | none =>
      if answers.found then
        match state.getOrCreateQueue name answers with
        | (.ok context, next) => (.ok context, next)
        | (.error error, next) =>
            (.error (.ofIoError error), next)
      else
        (.error
          (.notFound ("Queue '" ++ name ++ "' not found")),
          state)

end AppState

/- How far a handler gets before it turns to the engine. -/
inductive Admission where
| engine (context : QueueContext)
| noContent
| shuttingDown
| failed (error : ApiError)
deriving DecidableEq, Repr

namespace AppState

/- `push_handler`, up to the queue it works on. -/
def pushHandler
    (state : AppState)
    (name : String)
    (answers : DirectoryAnswers) : Admission × AppState :=
  match state.getOrCreateQueue name answers with
  | (.ok context, next) => (.engine context, next)
  | (.error error, next) => (.failed (.ofIoError error), next)

/- `pop_handler`, up to the queue it works on. -/
def popHandler
    (state : AppState)
    (name : String)
    (waitSecs : Nat)
    (answers : DirectoryAnswers) : Admission × AppState :=
  if state.shutdownToken then
    (.shuttingDown, state)
  else
    match state.getExistingQueue name answers with
    | (.ok context, next) => (.engine context, next)
    | (.error (.notFound _), next) =>
        if waitSecs = 0 then
          (.noContent, next)
        else
          next.pushHandler name answers
    | (.error error, next) => (.failed error, next)

/-
  `status_handler`, `compact_handler`, `ack_handler` and
  `nack_handler`, up to the queue they work on.
-/
def existingHandler
    (state : AppState)
    (name : String)
    (answers : DirectoryAnswers) : Admission × AppState :=
  match state.getExistingQueue name answers with
  | (.ok context, next) => (.engine context, next)
  | (.error error, next) => (.failed error, next)

end AppState

/- What the server is asked for. -/
inductive QueueRequest where
| push (name : String) (answers : DirectoryAnswers)
| pop (name : String) (waitSecs : Nat)
    (answers : DirectoryAnswers)
| existing (name : String) (answers : DirectoryAnswers)
| shutdown

namespace QueueRequest

/- The queue names that a request mentions. -/
def name? : QueueRequest → Option String
| push name _ => some name
| pop name _ _ => some name
| existing name _ => some name
| shutdown => none

/- Every name spells out one directory below another. -/
def Named (request : QueueRequest) : Prop :=
  ∀ name ∈ request.name?, Paths.Canonical name

end QueueRequest

namespace AppState

/- Serve one request. -/
def serve
    (state : AppState) : QueueRequest → Option AppState
| .push name answers => some (state.pushHandler name answers).2
| .pop name waitSecs answers =>
    some (state.popHandler name waitSecs answers).2
| .existing name answers =>
    some (state.existingHandler name answers).2
| .shutdown => some { state with shutdownToken := true }

/-
  Every open engine works strictly inside the data directory,
  and no two of them in the same directory.
-/
structure Isolated (state : AppState) : Prop where
  inside :
    ∀ name context,
      state.queues name = some context →
        state.dataDir <+: context.directory ∧
          context.directory ≠ state.dataDir
  apart :
    ∀ left right context,
      state.queues left = some context →
        state.queues right = some context →
          left = right

end AppState

end Nesso

------------------------------------------------------------
-- What a Request Opens
------------------------------------------------------------

namespace Nesso

namespace AppState

/- A request opens at most the queue that it names. -/
def Opens
    (state : AppState)
    (name : String)
    (next : AppState) : Prop :=
  next = state ∨
    state.queues name = none ∧
      next =
        { state with
          queues :=
            Function.update state.queues name
              (some ⟨Paths.join state.dataDir name⟩) }

theorem opens_getOrCreateQueue
    (state : AppState)
    (name : String)
    (answers : DirectoryAnswers) :
    state.Opens name
      (state.getOrCreateQueue name answers).2 := by
  unfold getOrCreateQueue
  split
  · exact .inl rfl
  · next hNone =>
      dsimp only
      split
      · exact .inl rfl
      · split
        · exact .inl rfl
        · exact .inr ⟨hNone, rfl⟩

theorem opens_getExistingQueue
    (state : AppState)
    (name : String)
    (answers : DirectoryAnswers) :
    state.Opens name
      (state.getExistingQueue name answers).2 := by
  have hCreate :=
    state.opens_getOrCreateQueue name answers
  unfold getExistingQueue
  split
  · exact .inl rfl
  · split
    · split
      · next hGet =>
          rw [hGet] at hCreate
          exact hCreate
      · next hGet =>
          rw [hGet] at hCreate
          exact hCreate
    · exact .inl rfl

theorem opens_pushHandler
    (state : AppState)
    (name : String)
    (answers : DirectoryAnswers) :
    state.Opens name
      (state.pushHandler name answers).2 := by
  have hCreate :=
    state.opens_getOrCreateQueue name answers
  unfold pushHandler
  split
  · next hGet =>
      rw [hGet] at hCreate
      exact hCreate
  · next hGet =>
      rw [hGet] at hCreate
      exact hCreate

/- A second attempt finds what the first one left. -/
theorem Opens.trans
    {state middle next : AppState}
    {name : String}
    (hFirst : state.Opens name middle)
    (hSecond : middle.Opens name next) :
    state.Opens name next := by
  rcases hFirst with rfl | ⟨hNone, rfl⟩
  · exact hSecond
  · rcases hSecond with rfl | ⟨hAgain, _⟩
    · exact .inr ⟨hNone, rfl⟩
    · simp at hAgain

theorem opens_popHandler
    (state : AppState)
    (name : String)
    (waitSecs : Nat)
    (answers : DirectoryAnswers) :
    state.Opens name
      (state.popHandler name waitSecs answers).2 := by
  have hExisting :=
    state.opens_getExistingQueue name answers
  unfold popHandler
  split
  · exact .inl rfl
  · split
    · next hGet =>
        rw [hGet] at hExisting
        exact hExisting
    · next hGet =>
        rw [hGet] at hExisting
        split
        · exact hExisting
        · exact hExisting.trans
            (opens_pushHandler _ name answers)
    · next hGet =>
        rw [hGet] at hExisting
        exact hExisting

theorem opens_existingHandler
    (state : AppState)
    (name : String)
    (answers : DirectoryAnswers) :
    state.Opens name
      (state.existingHandler name answers).2 := by
  have hExisting :=
    state.opens_getExistingQueue name answers
  unfold existingHandler
  split
  · next hGet =>
      rw [hGet] at hExisting
      exact hExisting
  · next hGet =>
      rw [hGet] at hExisting
      exact hExisting

/- What one request can do. -/
theorem serve_cases
    {state next : AppState}
    {request : QueueRequest}
    (hServe : state.serve request = some next) :
    (∃ name ∈ request.name?, state.Opens name next) ∨
      next = { state with shutdownToken := true } := by
  cases request with
  | push name answers =>
      rw [serve, Option.some.injEq] at hServe
      rw [← hServe]
      exact .inl ⟨name, rfl,
        state.opens_pushHandler name answers⟩
  | pop name waitSecs answers =>
      rw [serve, Option.some.injEq] at hServe
      rw [← hServe]
      exact .inl ⟨name, rfl,
        state.opens_popHandler name waitSecs answers⟩
  | existing name answers =>
      rw [serve, Option.some.injEq] at hServe
      rw [← hServe]
      exact .inl ⟨name, rfl,
        state.opens_existingHandler name answers⟩
  | shutdown =>
      rw [serve, Option.some.injEq] at hServe
      exact .inr hServe.symm

end AppState

end Nesso

------------------------------------------------------------
-- Isolation
------------------------------------------------------------

namespace Nesso

namespace AppState

/- Every open queue has a canonical name and its directory. -/
def Spelled (state : AppState) : Prop :=
  ∀ name context,
    state.queues name = some context →
      Paths.Canonical name ∧
        context.directory = Paths.join state.dataDir name

theorem Spelled.opens
    {state next : AppState}
    {name : String}
    (hState : state.Spelled)
    (hName : Paths.Canonical name)
    (hOpens : state.Opens name next) :
    next.Spelled := by
  rcases hOpens with rfl | ⟨_, rfl⟩
  · exact hState
  · intro other context hOther
    by_cases hEq : other = name
    · subst hEq
      simp only [Function.update_self,
        Option.some.injEq] at hOther
      rw [← hOther]
      exact ⟨hName, rfl⟩
    · simp only [Function.update_of_ne hEq] at hOther
      exact hState other context hOther

theorem Spelled.serve
    {state next : AppState}
    {request : QueueRequest}
    (hState : state.Spelled)
    (hNamed : request.Named)
    (hServe : state.serve request = some next) :
    next.Spelled := by
  rcases serve_cases hServe with
    ⟨name, hName, hOpens⟩ | rfl
  · exact hState.opens (hNamed name hName) hOpens
  · exact hState

theorem Spelled.isolated
    {state : AppState}
    (hState : state.Spelled) :
    state.Isolated := by
  constructor
  · intro name context hName
    rcases hState name context hName with
      ⟨hCanonical, hDirectory⟩
    rw [hDirectory, Paths.join_of_canonical hCanonical]
    refine ⟨List.prefix_append _ _, ?_⟩
    intro hSame
    exact Paths.components_ne_nil name
      (List.append_right_eq_self.mp hSame)
  · intro left right context hLeft hRight
    rcases hState left context hLeft with
      ⟨hLeftName, hLeftDirectory⟩
    rcases hState right context hRight with
      ⟨hRightName, hRightDirectory⟩
    exact Paths.join_injective hLeftName hRightName
      (hLeftDirectory.symm.trans hRightDirectory)

/-
  While all requests use canonical names, the queues stay
  apart and inside the data directory.
-/
theorem run_isolated
    {dataDir : Paths.Directory}
    {requests : List QueueRequest}
    {state : AppState}
    (hRun :
      Transition.Run serve
        (fun _ request => request.Named)
        (AppState.new dataDir) requests state) :
    state.Isolated := by
  have hSpelled : state.Spelled := by
    refine hRun.invariant ?_ ?_
    · intro name context hNone
      simp [AppState.new] at hNone
    · intro before after request hBefore hNamed hServe
      exact hBefore.serve hNamed hServe
  exact hSpelled.isolated

/- A file system on which everything works. -/
def freshAnswers : DirectoryAnswers where
  found := false
  present := false
  createDirAll := none
  openEngine := none

/- Two queues, one of them in a nested directory. -/
theorem run_isolated_nested :
    ∃ state,
      Transition.Run serve
          (fun _ request => request.Named)
          (AppState.new ["srv".toList, "data".toList])
          [.push "jobs" freshAnswers,
            .pop "mail/out" 5 freshAnswers] state ∧
        state.queues "mail/out" =
          some
            ⟨["srv".toList, "data".toList, "mail".toList,
              "out".toList]⟩ ∧
        state.Isolated := by
  have hNamed :
      ∀ request ∈
          [QueueRequest.push "jobs" freshAnswers,
            .pop "mail/out" 5 freshAnswers],
        request.Named := by
    intro request hRequest name hName
    simp only [List.mem_cons, List.not_mem_nil,
      or_false] at hRequest
    rcases hRequest with rfl | rfl
    · rw [QueueRequest.name?, Option.mem_some] at hName
      subst hName
      decide
    · rw [QueueRequest.name?, Option.mem_some] at hName
      subst hName
      decide
  have hRun :
      Transition.Run serve
        (fun _ request => request.Named)
        (AppState.new ["srv".toList, "data".toList])
        [.push "jobs" freshAnswers,
          .pop "mail/out" 5 freshAnswers] _ :=
    .step (.step .start (hNamed _ (by simp)) rfl)
      (hNamed _ (by simp)) rfl
  exact ⟨_, hRun, by decide, run_isolated hRun⟩

/-
  Another spelling of a name opens a second engine in the
  directory of the first, and `..` one outside.
-/
theorem two_engines_in_one_directory :
    ∃ state,
      Transition.Run serve (fun _ _ => True)
          (AppState.new ["srv".toList, "data".toList])
          [.push "jobs" freshAnswers,
            .push "./jobs" freshAnswers,
            .push ".." freshAnswers] state ∧
        state.queues "jobs" = state.queues "./jobs" ∧
        (state.queues "jobs").isSome ∧
        state.queues ".." = some ⟨["srv".toList]⟩ ∧
        ¬ state.Isolated := by
  refine ⟨_,
    .step (.step (.step .start trivial rfl) trivial rfl)
      trivial rfl,
    by decide, by decide, by decide, ?_⟩
  intro hIsolated
  have hInside :=
    hIsolated.inside ".." ⟨["srv".toList]⟩ (by decide)
  revert hInside
  decide

theorem serve_push_fresh
    {state : AppState}
    (name : String)
    (hNone : state.queues name = none) :
    state.serve (.push name freshAnswers) =
      some
        { state with
          queues :=
            Function.update state.queues name
              (some ⟨Paths.join state.dataDir name⟩) } := by
  simp [serve, pushHandler, getOrCreateQueue, hNone,
    freshAnswers]

/-
  The names cannot be chosen more freely: next to the
  canonical names, any other one breaks the isolation.
-/
theorem exists_run_not_isolated
    (dataDir : Paths.Directory)
    {name : String}
    (hName : ¬ Paths.Canonical name) :
    ∃ requests state,
      Transition.Run serve
          (fun _ request =>
            ∀ used ∈ request.name?,
              Paths.Canonical used ∨ used = name)
          (AppState.new dataDir) requests state ∧
        ¬ state.Isolated := by
  have hFirst :
      Transition.Run serve
        (fun _ request =>
          ∀ used ∈ request.name?,
            Paths.Canonical used ∨ used = name)
        (AppState.new dataDir) [.push name freshAnswers]
        _ :=
    .step .start
      (by
        intro used hUsed
        rw [QueueRequest.name?, Option.mem_some] at hUsed
        exact .inr hUsed.symm)
      (serve_push_fresh name rfl)
  by_cases hInside :
      dataDir <+: Paths.join dataDir name ∧
        Paths.join dataDir name ≠ dataDir
  · rcases Paths.exists_canonical_join_eq hInside.1
        hInside.2 with
      ⟨other, hOther, hSame⟩
    have hNe : other ≠ name := by
      intro hEq
      exact hName (hEq ▸ hOther)
    refine ⟨_, _,
      hFirst.step ?_
        (serve_push_fresh other ?_), ?_⟩
    · intro used hUsed
      rw [QueueRequest.name?, Option.mem_some] at hUsed
      exact .inl (hUsed ▸ hOther)
    · simp [AppState.new, Function.update_of_ne hNe]
    · intro hIsolated
      apply hNe
      refine hIsolated.apart other name
        ⟨Paths.join dataDir name⟩ ?_ ?_
      · simp [AppState.new, hSame]
      · simp [Function.update_of_ne hNe.symm, AppState.new]
  · refine ⟨_, _, hFirst, ?_⟩
    intro hIsolated
    exact hInside
      (hIsolated.inside name ⟨Paths.join dataDir name⟩
        (by simp [AppState.new]))

end AppState

end Nesso
