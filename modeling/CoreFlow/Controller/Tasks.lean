import CoreFlow.Dag.Dispatch

/-!
# The coroutines of a query

The controller runs `execute_query_async` once for a query and `handle_node_complete` once for each
message that names it, and these coroutines interleave wherever one of them awaits. A `Task` is a
coroutine of the query that is suspended at an `await`; `advance` runs it to the next one. What the
environment answers (whether a migration raised, where a node was routed, what an instance replied) is
part of the event, so every interleaving and every answer is a run.

`reported`, `dispatched` and `answers` are ghosts: the success reports received, the nodes sent to an
instance, and the answers given to the messages.
-/

namespace CoreFlow

/-- `KeyError.__str__` of a tuple of integers. -/
def KeyError.str (e : KeyError) : String :=
  match e.key with
  | [] => "()"
  | [a] => "(" ++ toString a ++ ",)"
  | key => "(" ++ ", ".intercalate (key.map toString) ++ ")"

/-- `NodeCompleteRequest`, without the fields that only the migration reads. -/
structure NodeCompleteRequest where
  invocationId : Int
  repeatId : Int
  freeCache : Bool
  success : Bool
  error : Option String
deriving DecidableEq

/-- The node that a message names. -/
def NodeCompleteRequest.key (m : NodeCompleteRequest) : NodeKey := [m.invocationId, m.repeatId]

/-- `QueryState`, with the DAG of its query. -/
structure QueryState where
  dag : DAG
  completed : Bool
  error : Option String
deriving DecidableEq

/-- `_dispatch_node_async`: it awaits the route, and then the reply of the instance. -/
inductive Dispatch where
  | routing (node : NodeKey)
  | sending (node : NodeKey)
deriving DecidableEq

/-- A suspended coroutine of the query. `dispatching` is `_schedule_nodes_async` in its `gather`, on
behalf of `execute_query_async` or of a message. -/
inductive Task where
  | execute
  | received (m : NodeCompleteRequest)
  | migrating (m : NodeCompleteRequest)
  | dispatching (children : List Dispatch) (caller : Option NodeCompleteRequest)
deriving DecidableEq

/-- What a message is answered: `ok`, or an exception out of the handler. -/
inductive Answer where
  | ok
  | raised
deriving DecidableEq

/-- How `route` ends. -/
inductive RouteResult where
  | raised
  | noInstance
  | routed
deriving DecidableEq

/-- What a task resumes with. -/
inductive Resume where
  | go
  | migrated (raised : Bool)
  | routed (child : Nat) (result : RouteResult)
  /-- The reply of the instance: its `success` and `error`, or `None`. -/
  | replied (child : Nat) (result : Option (Bool × Option String))
deriving DecidableEq

inductive ControllerEvent where
  | receive (m : NodeCompleteRequest)
  | resume (task : Nat) (r : Resume)
deriving DecidableEq

/-- The state of a query, its coroutines, and the ghosts. -/
structure QueryRun where
  state : QueryState
  tasks : List Task
  reported : List NodeKey
  dispatched : List NodeKey
  answers : List (NodeCompleteRequest × Answer)
deriving DecidableEq

namespace QueryRun

/-- `create_query`. -/
def init (d : DAG) : QueryRun := ⟨⟨d, false, none⟩, [.execute], [], [], []⟩

def setDag (c : QueryRun) (d : DAG) : QueryRun := { c with state := { c.state with dag := d } }

def setError (c : QueryRun) (error : Option String) : QueryRun :=
  { c with state := { c.state with error := error } }

def answer (c : QueryRun) (m : NodeCompleteRequest) (a : Answer) : QueryRun :=
  { c with answers := c.answers ++ [(m, a)] }

/-- The test at the end of `handle_node_complete`. -/
def checkCompleted (c : QueryRun) : QueryRun :=
  if c.state.dag.isCompleted then { c with state := { c.state with completed := true } } else c

/-- `handle_node_complete` from `get_next_execute_agents` to the next `await`. -/
def completeNode (c : QueryRun) (m : NodeCompleteRequest) : QueryRun × List Task :=
  let r := c.state.dag.updateResult m.invocationId m.repeatId
  let c := c.setDag r.2
  match r.1 with
  | .error _ => (c.answer m .raised, [])
  | .ok [] => (c.checkCompleted.answer m .ok, [])
  | .ok nodes => (c, [.dispatching (nodes.map .routing) (some m)])

/-- A child of a `gather` goes on. -/
def advanceChild (c : QueryRun) : Dispatch → Resume → Option (QueryRun × List Dispatch)
  -- the exceptions of a child are collected by `gather` and dropped
  | .routing _, .routed _ .raised => some (c, [])
  | .routing node, .routed _ .noInstance =>
    let agentId := ((c.state.dag.nodeMapping.get? node).map (·.agentId)).getD ""
    some (c.setError (some ("Routing failed for agent " ++ agentId)), [])
  | .routing node, .routed _ .routed =>
    some ({ c with dispatched := c.dispatched ++ [node] }, [.sending node])
  | .sending _, .replied _ (some (true, _)) => some (c, [])
  | .sending _, .replied _ (some (false, error)) => some (c.setError error, [])
  | .sending _, .replied _ none => some (c.setError (some "instance failed"), [])
  | _, _ => none

/-- The child that an answer of the environment is for. -/
def childOf : Resume → Option Nat
  | .routed child _ => some child
  | .replied child _ => some child
  | _ => none

/-- A task runs to its next `await`, or ends; the result lists what is left of it. -/
def advance (c : QueryRun) (t : Task) (r : Resume) : Option (QueryRun × List Task) :=
  match t with
  | .execute =>
    if r = .go then
      let h := c.state.dag.getEntryNodes
      let c := c.setDag h.2
      match h.1 with
      | .error e => some (c.setError (some e.str), [])
      | .ok [] => some (c, [])
      | .ok nodes => some (c, [.dispatching (nodes.map .routing) none])
    else none
  | .received m =>
    if r = .go then
      if m.success = false then some ((c.setError m.error).answer m .ok, [])
      else if m.freeCache = false then some (c, [.migrating m])
      else some (c.completeNode m)
    else none
  | .migrating m =>
    if r = .migrated true then some (c.answer m .raised, [])
    else if r = .migrated false then some (c.completeNode m)
    else none
  | .dispatching children caller =>
    if children = [] then
      if r = .go then
        match caller with
        | none => some (c, [])
        | some m => some (c.checkCompleted.answer m .ok, [])
      else none
    else do
      let j ← childOf r
      let child ← children[j]?
      let (c, left) ← c.advanceChild child r
      some (c, [.dispatching (children.take j ++ left ++ children.drop (j + 1)) caller])

/-- One event. -/
def step (c : QueryRun) : ControllerEvent → Option QueryRun
  | .receive m =>
    some { c with
      tasks := c.tasks ++ [.received m]
      reported := if m.success then c.reported ++ [m.key] else c.reported }
  | .resume i r => do
    let t ← c.tasks[i]?
    let (c', left) ← c.advance t r
    some { c' with tasks := c.tasks.take i ++ left ++ c.tasks.drop (i + 1) }

/-- A run, if every event was possible. -/
def run (c : QueryRun) (events : List ControllerEvent) : Option QueryRun := events.foldlM step c

theorem run_invariant (I : QueryRun → Prop) (hstep : ∀ c ev c', I c → c.step ev = some c' → I c')
    {c c' : QueryRun} {events : List ControllerEvent} (h : c.run events = some c') (h0 : I c) : I c' := by
  induction events generalizing c with
  | nil => exact Option.some.inj h ▸ h0
  | cons ev events ih =>
    rw [run, List.foldlM_cons] at h
    obtain ⟨c₁, h₁, h₂⟩ := Option.bind_eq_some_iff.mp h
    exact ih h₂ (hstep c ev c₁ h0 h₁)

end QueryRun

end CoreFlow
