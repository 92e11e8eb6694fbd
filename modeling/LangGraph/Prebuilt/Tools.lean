import LangGraph.Collections.Dict
import Mathlib.Algebra.GroupWithZero.Nat

namespace LangGraph

open Collections

namespace Prebuilt

inductive InputType where
  | list
  | dict
  | toolCalls
  deriving DecidableEq

section Data

variable (A : Type)

structure ToolCall where
  name : String
  args : Dict String A
  id : String

inductive Content where
  | text (s : String)
  | parts (items : List A)

structure ToolMessage where
  content : Content A
  name : Option String
  toolCallId : String
  status : String

inductive Message where
  | tool (m : ToolMessage A)
  | remove (id : String)
  | other (a : A)

-- An entry of an update: a message, or what `convert_to_messages` makes one of.
inductive RawMessage where
  | message (m : Message A)
  | object (a : A)

-- The update of a command; of a dict the entry under the messages key is kept apart.
inductive Update where
  | dict (messages : Option (List (RawMessage A))) (others : List (String × A))
  | list (messages : List (RawMessage A))
  | other (a : A)

structure Command where
  graph : Option String
  update : Update A
  rest : A

inductive Output where
  | command (c : Command A)
  | message (m : ToolMessage A)

-- What a tool returns; an element of a list that is none is neither a command nor a message.
inductive Response where
  | output (o : Output A)
  | list (items : List (Option (Output A)))
  | other (type : String)

inductive Outcome where
  | output (o : Output A)
  | list (items : List (Output A))

structure ErrorDetails where
  loc : List String
  msg : String
  input : Option (List (String × A))

inductive ToolState where
  | list (whole : A)
  | dict (items : List (String × A)) (whole : A)
  | object (attributes : List (String × A)) (whole : A)

structure ToolRuntime where
  state : ToolState A
  store : Option A
  itself : A

end Data

-- What the node uses of the language, of pydantic and of the message library: `E` are the
-- exceptions, `C` their classes and `A` all other objects.
class Python (E : Type) (C A : outParam Type) where
  isinstance : E → C → Bool
  issubclass : C → C → Bool
  exception : C
  graphBubbleUp : C
  validationError : C
  toolInvocation : C
  typeError : String → E
  valueError : String → E
  keyError : String → E
  attributeError : String → E
  toolInvocationError : String → E → Dict String A → List (ErrorDetails A) → E
  errors : E → List (ErrorDetails A)
  message : E → String
  repr : E → String
  single : String → A → A
  isBlock : A → Bool
  dumps : List A → String
  convert : A → Except E (Message A)
  reprUpdate : Update A → String
  reprMessages : List (Message A) → String

structure InjectedArgs where
  state : List (String × Option String)
  store : Option String
  runtime : Option String
  allInjectedKeys : List String
  optionalStateArgs : List String

structure Tool (E A : Type) where
  name : String
  injected : InjectedArgs
  invoke : ToolCall A → Except E (Response A)
  ainvoke : ToolCall A → Except E (Response A)

-- A union whose annotation is kept as text is not recognised as one.
inductive TypeHint (C : Type) where
  | single (c : C) (shown : String)
  | union (cs : List C) (shown : String)
  | textual (cs : List C)

structure Handler (E C : Type) where
  parameters : List (String × Option (TypeHint C))
  call : E → Except E String

inductive HandleToolErrors (E C : Type) where
  | bool (b : Bool)
  | str (s : String)
  | type (c : C)
  | tuple (cs : List C)
  | callable (h : Handler E C)

section Errors

variable {E C A : Type} [Python E C A]

open Python

def toolCallErrorTemplate (error : String) : String :=
  "Error: " ++ error ++ "\n Please fix your mistakes."

def invalidToolNameErrorTemplate (requestedTool availableTools : String) : String :=
  "Error: " ++ requestedTool ++ " is not a valid tool, try one of [" ++ availableTools ++ "]."

def isException (e : E) : Bool := isinstance e (exception (E := E))

def isBubbleUp (e : E) : Bool := isinstance e (graphBubbleUp (E := E))

def defaultHandleToolErrors : Handler E C where
  parameters := [("e", some (.single (exception (E := E)) "Exception"))]
  call e := if isinstance e (toolInvocation (E := E)) then .ok (message e) else .error e

def HandleToolErrors.truthy : HandleToolErrors E C → Bool
  | .bool b => b
  | .str s => s ≠ ""
  | .type _ => true
  | .tuple cs => !cs.isEmpty
  | .callable _ => true

def handleToolError (e : E) : HandleToolErrors E C → Except E String
  | .bool _ | .tuple _ | .type _ => .ok (toolCallErrorTemplate (repr e))
  | .str s => .ok s
  | .callable h => h.call e

def firstParameter : List (String × Option (TypeHint C)) → Option (String × Option (TypeHint C))
  | [] => none
  | [p] => some p
  | [p, q] => if p.1 = "self" ∨ p.1 = "cls" then some q else some p
  | p :: _ => some p

def inferHandledTypes (h : Handler E C) : Except E (List C) :=
  match firstParameter h.parameters with
  | some (_, some (.union cs shown)) =>
      if cs.all (fun c => issubclass E c (exception (E := E))) then .ok cs
      else .error (valueError
        ("All types in the error handler error annotation must be Exception types. " ++
          "For example, `def custom_handler(e: Union[ValueError, TypeError])`. Got '" ++ shown ++
          "' instead."))
  | some (_, some (.single c shown)) =>
      if issubclass E c (exception (E := E)) then .ok [c]
      else .error (valueError
        ("Arbitrary types are not supported in the error handler signature. " ++
          "Please annotate the error with either a specific Exception type or a union of " ++
          "Exception types. For example, `def custom_handler(e: ValueError)` or " ++
          "`def custom_handler(e: Union[ValueError, TypeError])`. Got '" ++ shown ++ "' instead."))
  | some (_, some (.textual _)) => .error (attributeError "__mro__")
  | _ => .ok [exception (E := E)]

def handledTypes : HandleToolErrors E C → Except E (List C)
  | .type c => .ok [c]
  | .tuple cs => .ok cs
  | .callable h => inferHandledTypes h
  | .bool _ | .str _ => .ok [exception (E := E)]

end Errors

section Injection

variable {E C A : Type} [Python E C A]

open Python

def stateFields (injected : InjectedArgs) : List String := injected.state.filterMap Prod.snd

-- A list of messages stands for the state that holds them under the messages key.
def asFields (messagesKey : String) (injected : InjectedArgs) (call : ToolCall A) :
    ToolState A → Except E (List (String × A) × A × (String → E))
  | .dict items whole => .ok (items, whole, keyError)
  | .object attributes whole => .ok (attributes, whole, attributeError)
  | .list whole =>
      let required := injected.state.map Prod.snd
      if required = [some messagesKey] ∨ required.head? = some none then
        .ok ([(messagesKey, whole)], single E messagesKey whole, keyError)
      else .error (valueError
        ("Invalid input to ToolNode. Tool " ++ call.name ++ " requires graph state dict as input." ++
          if (stateFields injected).any (· ≠ "") then
            " State should contain fields " ++
              ", ".intercalate ((stateFields injected).filter (· ≠ "")) ++ "."
          else ""))

def injectState (injected : InjectedArgs) (fields : List (String × A)) (whole : A)
    (missing : String → E) : List (String × Option String) → Except E (List (String × A))
  | [] => .ok []
  | (arg, none) :: rest => do
      return (arg, whole) :: (← injectState injected fields whole missing rest)
  | (arg, some field) :: rest => do
      if field = "" then
        return (arg, whole) :: (← injectState injected fields whole missing rest)
      else
        match fields.find? (fun e => e.1 = field) with
        | some e => return (arg, e.2) :: (← injectState injected fields whole missing rest)
        | none =>
            if arg ∈ injected.optionalStateArgs then
              injectState injected fields whole missing rest
            else .error (missing field)

def injectStore (injected : InjectedArgs) (runtime : ToolRuntime A) :
    Except E (List (String × A)) :=
  match injected.store, runtime.store with
  | none, _ => .ok []
  | some arg, some store => .ok [(arg, store)]
  | some _, none => .error (valueError
      ("Cannot inject store into tools with InjectedStore annotations - " ++
        "please compile your graph with a store."))

def injectToolArgs (messagesKey : String) (injected : InjectedArgs) (call : ToolCall A)
    (runtime : ToolRuntime A) : Except E (ToolCall A) := do
  let state ← if injected.state.isEmpty then pure [] else do
    let (fields, whole, missing) ← asFields messagesKey injected call runtime.state
    injectState injected fields whole missing injected.state
  let store ← injectStore injected runtime
  let itself := injected.runtime.toList.map (fun arg => (arg, runtime.itself))
  let stripped := call.args.filter (fun k _ => k ∉ injected.allInjectedKeys)
  return { call with args := stripped.update (state ++ store ++ itself) }

def injectedNames (injected : InjectedArgs) : List String :=
  injected.state.map Prod.fst ++ injected.store.toList ++ injected.runtime.toList

def filterValidationErrors (e : E) (injected : InjectedArgs) : List (ErrorDetails A) :=
  let names := injectedNames injected
  ((errors e).filter (fun d => d.loc.head?.any (· ∉ names))).map (fun d =>
    { d with input := d.input.map (fun items => items.filter (fun i => i.1 ∉ names)) })

end Injection

section Normalization

variable {E C A : Type} [Python E C A]

open Python

def msgContentOutput (E : Type) [Python E C A] : Content A → Content A
  | .text s => .text s
  | .parts items => if items.all (isBlock E) then .parts items else .text (dumps E items)

def normalizedMessage (E : Type) [Python E C A] (m : ToolMessage A) : ToolMessage A :=
  { m with content := msgContentOutput E m.content }

def removeAllMessages : String := "__remove_all__"

def RawMessage.toMessage : RawMessage A → Except E (Message A)
  | .message m => .ok m
  | .object a => convert a

def Message.bound (call : ToolCall A) : Message A → Bool
  | .tool m => m.toolCallId = call.id
  | _ => false

-- A bound message of the command is renamed in place; a converted one is not part of it.
def RawMessage.named (call : ToolCall A) : RawMessage A → RawMessage A
  | .message (.tool m) =>
      if m.toolCallId = call.id then .message (.tool { m with name := some call.name })
      else .message (.tool m)
  | raw => raw

def exampleUpdate : InputType → String
  | .dict => "`Command(update=\x7b\"messages\": " ++
      "[ToolMessage(\"Success\", tool_call_id=tool_call_id), ...]\x7d, ...)`"
  | _ => "`Command(update=" ++ "[ToolMessage(\"Success\", tool_call_id=tool_call_id), ...], ...)`"

def isRemoval : List (Message A) → Bool
  | [.remove id] => id = removeAllMessages
  | _ => false

def validateMessages (command updated : Command A) (call : ToolCall A) (inputType : InputType)
    (requireTerminator : Bool) (messages : List (RawMessage A)) : Except E (Command A) := do
  let converted ← messages.mapM RawMessage.toMessage
  if isRemoval converted then return command
  else if requireTerminator = true ∧ command.graph = none ∧
      converted.any (Message.bound call) = false then
    throw (valueError ("Expected to have a matching ToolMessage in Command.update for tool '" ++
      call.name ++ "', got: " ++ reprMessages E converted ++
      ". Every tool call (LLM requesting to call a tool) in the message history MUST have a " ++
      "corresponding ToolMessage. You can fix it by modifying the tool to return " ++
      exampleUpdate inputType ++ "."))
  else return updated

def validateToolCommand (messagesKey : String) (command : Command A) (call : ToolCall A)
    (inputType : InputType) (requireTerminator : Bool) : Except E (Command A) :=
  match command.update with
  | .dict messages others =>
      if inputType = .list then
        .error (valueError ("Tools can provide a dict in Command.update only when using dict with '" ++
          messagesKey ++ "' key as ToolNode input, got: " ++ reprUpdate E command.update ++
          " for tool '" ++ call.name ++ "'"))
      else
        validateMessages command
          { command with update := .dict (messages.map (·.map (RawMessage.named call))) others }
          call inputType requireTerminator (messages.getD [])
  | .list messages =>
      if inputType ≠ .list then
        .error (valueError ("Tools can provide a list of messages in Command.update " ++
          "only when using list of messages as ToolNode input, got: " ++
          reprUpdate E command.update ++ " for tool '" ++ call.name ++ "'"))
      else
        validateMessages command
          { command with update := .list (messages.map (RawMessage.named call)) }
          call inputType requireTerminator messages
  | .other _ => .ok command

def RawMessage.terminates (call : ToolCall A) : RawMessage A → Bool
  | .message m => m.bound call
  | .object _ => false

def terminators (call : ToolCall A) : Output A → Nat
  | .message m => if m.toolCallId = call.id then 1 else 0
  | .command c =>
      match c.update with
      | .dict messages _ => (messages.getD []).countP (RawMessage.terminates call)
      | _ => 0

def validateToolCommandList (messagesKey : String) (items : List (Output A)) (call : ToolCall A)
    (inputType : InputType) : Except E (List (Output A)) :=
  let count := (items.map (terminators call)).sum
  if count ≠ 1 then
    .error (valueError ("Tool " ++ call.name ++ " returned a list with " ++ toString count ++
      " messages bound to tool_call_id '" ++ call.id ++
      "'; expected exactly one terminating ToolMessage."))
  else items.mapM fun
    | .command c => do
        return .command (← validateToolCommand messagesKey c call inputType false)
    | .message m => .ok (.message (normalizedMessage E m))

def normalizeToolResponse (messagesKey : String) (call : ToolCall A) (inputType : InputType) :
    Response A → Except E (Outcome A)
  | .output (.command c) => do
      return .output (.command (← validateToolCommand messagesKey c call inputType true))
  | .output (.message m) => .ok (.output (.message (normalizedMessage E m)))
  | .list items =>
      if items.all Option.isSome then do
        return .list (← validateToolCommandList messagesKey (items.filterMap id) call inputType)
      else .error (typeError ("Tool " ++ call.name ++ " returned a list with invalid element " ++
        "types: expected all Command or ToolMessage"))
  | .other type => .error (typeError
      ("Tool " ++ call.name ++ " returned unexpected type: " ++ type))

end Normalization

end Prebuilt

end LangGraph
