import LangGraph.Pregel.Runner
import LangGraph.Pregel.UpdateState
import LangGraph.Transition.Run

namespace LangGraph

open Collections Transition

-- One thread over time: its saver, the loop that is running on it if one is, and every call made
-- to the saver so far.
structure Thread (C Ver : Type) where
  saver : InMemorySaver Ver
  loop : Option (PregelLoop C Ver)
  log : List (SaverCall Ver)

inductive Event (Ver : Type) where
  | enter (config : LoopConfig) (cache : Option WritesCache) (freshId : String)
      (checkpointId : Option String)
  | first (input : Input) (sameRun : Bool) (nextNull next : GetNextVersion Ver) (newId : String)
  | tick
  | matchCachedWrites
  | taskWrites (taskId : String) (writes : List Write)
  | commit (taskId : String) (attempt : Attempt)
  | putWrites (taskId : String) (writes : List Write)
  | afterTick (next : GetNextVersion Ver) (newId : String)
  | exit (next : GetNextVersion Ver)
  | updateState (update : StateUpdate) (nextNull next : GetNextVersion Ver)
      (freshId newId : String) (checkpointId : Option String)

variable {C Ver : Type} [BaseChannel C] [LinearOrder Ver] [OrderBot Ver]

namespace Thread

def exec (t : Thread C Ver) (calls : List (SaverCall Ver)) : Thread C Ver :=
  { t with saver := t.saver.execAll calls, log := t.log ++ calls }

-- The calls the loop submitted are executed in order and the loop goes on.
def proceed (l : PregelLoop C Ver) (t : Thread C Ver) : Thread C Ver :=
  { t.exec l.submitted with loop := some { l with submitted := [] } }

def close (l : PregelLoop C Ver) (t : Thread C Ver) : Thread C Ver :=
  { t.exec l.submitted with loop := none }

-- When `after_tick` raises, only exit mode has something left to do: its save at the end.
def step (g : Graph C) (inputKeys : InputKeys) (t : Thread C Ver) (e : Event Ver) :
    Thread C Ver :=
  match e, t.loop with
  | .enter config cache freshId checkpointId, none =>
      match PregelLoop.enter g config cache freshId checkpointId t.saver with
      | .ok l => t.proceed l
      | .error _ => t
  | .updateState update nextNull next freshId newId checkpointId, none =>
      t.exec (updateState g inputKeys nextNull next freshId newId checkpointId update t.saver).1
  | .first input sameRun nextNull next newId, some l =>
      match l.first g inputKeys input sameRun nextNull next newId with
      | (l, none) => t.proceed l
      | (l, some _) => t.close l
  | .tick, some l => t.proceed (l.tick g).1
  | .matchCachedWrites, some l => t.proceed l.matchCachedWrites
  | .taskWrites taskId writes, some l => t.proceed (l.setTaskWrites taskId writes)
  | .commit taskId attempt, some l => t.proceed (l.commit g taskId attempt)
  | .putWrites taskId writes, some l => t.proceed (l.putWrites g taskId writes)
  | .afterTick next newId, some l =>
      match l.afterTick g next newId with
      | (l, none) => t.proceed l
      | (l, some _) => if l.config.durability = .exit then t.proceed l else t.close l
  | .exit next, some l => t.close (l.suppressInterrupt next)
  | _, _ => t

def fresh : Thread C Ver := ⟨InMemorySaver.empty, none, []⟩

end Thread

end LangGraph
