import Mathlib.Tactic.SplitIfs

namespace LangGraph

namespace Key

def input : String := "__input__"
def interrupt : String := "__interrupt__"
def resume : String := "__resume__"
def error : String := "__error__"
def errorSourceNode : String := "__error_source_node__"
def scheduled : String := "__scheduled__"
def noWrites : String := "__no_writes__"
def tasks : String := "__pregel_tasks"
def returned : String := "__return__"
def push : String := "__pregel_push"
def pull : String := "__pregel_pull"
def overwrite : String := "__overwrite__"
def start : String := "__start__"

end Key

def nullTaskId : String := "00000000-0000-0000-0000-000000000000"

def reserved : List String :=
  ["langsmith:hidden", Key.input, Key.interrupt, Key.resume, Key.error, Key.errorSourceNode,
    Key.noWrites, "__pregel_send", "__pregel_read", "__pregel_checkpointer", "__pregel_stream",
    "checkpoint_map", "__pregel_resuming", "__pregel_replay_state", "__pregel_task_id",
    "checkpoint_id", "checkpoint_ns", "__pregel_timed_attempt_observer", "__pregel_resume_map",
    "__pregel_stream_messages_v2", Key.push, Key.pull, "|", ":", "configurable"]

def writesIdxMap (c : String) : Option Int :=
  if c = Key.error then some (-1)
  else if c = Key.scheduled then some (-2)
  else if c = Key.interrupt then some (-3)
  else if c = Key.resume then some (-4)
  else none

def Special (c : String) : Prop := (writesIdxMap c).isSome = true

instance (c : String) : Decidable (Special c) := inferInstanceAs (Decidable (_ = true))

theorem special_iff (c : String) :
    Special c ↔ c = Key.error ∨ c = Key.scheduled ∨ c = Key.interrupt ∨ c = Key.resume := by
  unfold Special writesIdxMap
  split_ifs with h1 h2 h3 h4 <;> simp [*]

theorem writesIdxMap_neg {c : String} {i : Int} (h : writesIdxMap c = some i) : i < 0 := by
  unfold writesIdxMap at h
  split_ifs at h <;> cases h <;> decide

theorem writesIdxMap_inj {c d : String} {i : Int} (hc : writesIdxMap c = some i)
    (hd : writesIdxMap d = some i) : c = d := by
  unfold writesIdxMap at hc hd
  grind

end LangGraph
