import LangGraph.Collections.Exceptions
import LangGraph.Prebuilt.Tools

namespace LangGraph

open Collections

namespace Prebuilt

structure ToolNode (E C A : Type) where
  toolsByName : Dict String (Tool E A)
  handleToolErrors : HandleToolErrors E C
  messagesKey : String

structure ToolCallRequest (E A : Type) where
  toolCall : ToolCall A
  tool : Option (Tool E A)
  runtime : ToolRuntime A

abbrev ToolCallWrapper (E A : Type) :=
  ToolCallRequest E A → (ToolCallRequest E A → Except E (Outcome A)) → Except E (Outcome A)

def passThrough {E A : Type} : ToolCallWrapper E A := fun request execute => execute request

section Execution

variable {E C A : Type} [Python E C A] (node : ToolNode E C A)

open Python

def errorMessage (call : ToolCall A) (content : String) : Outcome A :=
  .output (.message
    { content := .text content, name := some call.name, toolCallId := call.id, status := "error" })

def ToolNode.tool (name : String) : Option (Tool E A) := node.toolsByName.get? name

def validateToolCall (call : ToolCall A) : Option (Outcome A) :=
  if call.name ∈ node.toolsByName.keys then none
  else some (errorMessage call (invalidToolNameErrorTemplate call.name
    (", ".intercalate node.toolsByName.keys)))

def inject (tool : Tool E A) (call : ToolCall A) (runtime : ToolRuntime A) :
    Except E (ToolCall A) := injectToolArgs node.messagesKey tool.injected call runtime

-- What the tool makes of the call: its response, checked, or an exception.
def produced (invoke : Tool E A → ToolCall A → Except E (Response A)) (tool : Tool E A)
    (call injected : ToolCall A) (inputType : InputType) : Except E (Outcome A) := do
  let response ← match invoke tool injected with
    | .ok response => pure response
    | .error e =>
        if isinstance e (validationError (E := E)) then
          throw (toolInvocationError call.name e call.args (filterValidationErrors e tool.injected))
        else throw e
  normalizeToolResponse node.messagesKey call inputType response

-- The `except` clauses of the execution.
def handled (call : ToolCall A) (e : E) : Except E (Outcome A) :=
  if isBubbleUp e = true ∨ isException e = false then .error e
  else do
    let types ← handledTypes node.handleToolErrors
    if node.handleToolErrors.truthy = false ∨ types.any (isinstance e) = false then throw e
    else return errorMessage call (← handleToolError e node.handleToolErrors)

def executeTool (invoke : Tool E A → ToolCall A → Except E (Response A))
    (request : ToolCallRequest E A) (inputType : InputType) : Except E (Outcome A) :=
  match request.tool with
  | none =>
      match validateToolCall node request.toolCall with
      | some invalid => .ok invalid
      | none => .error (typeError
          ("Tool " ++ request.toolCall.name ++ " is not registered with ToolNode"))
  | some tool => do
      let injected ← inject node tool request.toolCall request.runtime
      match produced node invoke tool request.toolCall injected inputType with
      | .ok outcome => .ok outcome
      | .error e => handled node request.toolCall e

def executeToolSync (request : ToolCallRequest E A) (inputType : InputType) :
    Except E (Outcome A) := executeTool node Tool.invoke request inputType

def executeToolAsync (request : ToolCallRequest E A) (inputType : InputType) :
    Except E (Outcome A) := executeTool node Tool.ainvoke request inputType

def request (call : ToolCall A) (runtime : ToolRuntime A) : ToolCallRequest E A :=
  ⟨call, node.tool call.name, runtime⟩

-- The `except` clause around a wrapper.
def recovered (call : ToolCall A) : Except E (Outcome A) → Except E (Outcome A)
  | .ok outcome => .ok outcome
  | .error e =>
      if isException e = false ∨ node.handleToolErrors.truthy = false then .error e
      else do return errorMessage call (← handleToolError e node.handleToolErrors)

def runOne (wrapToolCall : Option (ToolCallWrapper E A)) (call : ToolCall A)
    (inputType : InputType) (runtime : ToolRuntime A) : Except E (Outcome A) :=
  let toolRequest := request node call runtime
  match wrapToolCall with
  | none => executeToolSync node toolRequest inputType
  | some wrap =>
      recovered node call (wrap toolRequest (fun req => executeToolSync node req inputType))

def arunOne (awrapToolCall wrapToolCall : Option (ToolCallWrapper E A)) (call : ToolCall A)
    (inputType : InputType) (runtime : ToolRuntime A) : Except E (Outcome A) :=
  let toolRequest := request node call runtime
  match awrapToolCall, wrapToolCall with
  | none, none => executeToolAsync node toolRequest inputType
  | some wrap, _ =>
      recovered node call (wrap toolRequest (fun req => executeToolAsync node req inputType))
  | none, some wrap =>
      recovered node call (wrap toolRequest (fun req => executeToolSync node req inputType))

end Execution

section Escape

variable {E C A : Type} [Python E C A] {node : ToolNode E C A}
  {invoke : Tool E A → ToolCall A → Except E (Response A)} {call : ToolCall A}
  {inputType : InputType} {runtime : ToolRuntime A}

open Python

-- The exceptions that leave the execution of a tool call.
inductive Escapes (node : ToolNode E C A)
    (invoke : Tool E A → ToolCall A → Except E (Response A)) (call : ToolCall A)
    (inputType : InputType) (runtime : ToolRuntime A) : E → Prop
  | injection {tool : Tool E A} {e : E} (htool : node.tool call.name = some tool)
      (hinject : inject node tool call runtime = .error e) :
      Escapes node invoke call inputType runtime e
  | raised {tool : Tool E A} {injected : ToolCall A} {e : E}
      (htool : node.tool call.name = some tool)
      (hinject : inject node tool call runtime = .ok injected)
      (hproduced : produced node invoke tool call injected inputType = .error e)
      (hpasses : isBubbleUp e = true ∨ isException e = false) :
      Escapes node invoke call inputType runtime e
  | untyped {tool : Tool E A} {injected : ToolCall A} {e e' : E}
      (htool : node.tool call.name = some tool)
      (hinject : inject node tool call runtime = .ok injected)
      (hproduced : produced node invoke tool call injected inputType = .error e)
      (hcaught : ¬ (isBubbleUp e = true ∨ isException e = false))
      (htypes : handledTypes node.handleToolErrors = .error e') :
      Escapes node invoke call inputType runtime e'
  | unhandled {tool : Tool E A} {injected : ToolCall A} {e : E} {types : List C}
      (htool : node.tool call.name = some tool)
      (hinject : inject node tool call runtime = .ok injected)
      (hproduced : produced node invoke tool call injected inputType = .error e)
      (hcaught : ¬ (isBubbleUp e = true ∨ isException e = false))
      (htypes : handledTypes node.handleToolErrors = .ok types)
      (hnot : node.handleToolErrors.truthy = false ∨ types.any (isinstance e) = false) :
      Escapes node invoke call inputType runtime e
  | handler {tool : Tool E A} {injected : ToolCall A} {e e' : E} {types : List C}
      (htool : node.tool call.name = some tool)
      (hinject : inject node tool call runtime = .ok injected)
      (hproduced : produced node invoke tool call injected inputType = .error e)
      (hcaught : ¬ (isBubbleUp e = true ∨ isException e = false))
      (htypes : handledTypes node.handleToolErrors = .ok types)
      (hhandled : ¬ (node.handleToolErrors.truthy = false ∨ types.any (isinstance e) = false))
      (hcall : handleToolError e node.handleToolErrors = .error e') :
      Escapes node invoke call inputType runtime e'

theorem handled_passes {e : E} (h : isBubbleUp e = true ∨ isException e = false) :
    handled node call e = .error e := if_pos h

theorem handled_caught {e : E} (h : ¬ (isBubbleUp e = true ∨ isException e = false)) :
    handled node call e = handledTypes node.handleToolErrors >>= fun types =>
      if node.handleToolErrors.truthy = false ∨ types.any (isinstance e) = false then .error e
      else handleToolError e node.handleToolErrors >>= fun content =>
        .ok (errorMessage call content) := if_neg h

theorem executeTool_unregistered (h : node.tool call.name = none) (e : E) :
    executeTool node invoke (request node call runtime) inputType ≠ .error e := by
  have hnot : call.name ∉ node.toolsByName.keys := Dict.get?_eq_none.mp h
  rw [executeTool, request]
  simp only [h, validateToolCall, if_neg hnot]
  exact nofun

theorem executeTool_uninjected {tool : Tool E A} {e : E} (htool : node.tool call.name = some tool)
    (hinject : inject node tool call runtime = .error e) :
    executeTool node invoke (request node call runtime) inputType = .error e := by
  rw [executeTool, request]
  simp only [htool, hinject]
  rfl

theorem executeTool_produced {tool : Tool E A} {injected : ToolCall A} {e : E}
    (htool : node.tool call.name = some tool)
    (hinject : inject node tool call runtime = .ok injected)
    (hproduced : produced node invoke tool call injected inputType = .error e) :
    executeTool node invoke (request node call runtime) inputType = handled node call e := by
  rw [executeTool, request]
  simp only [htool, hinject]
  simp only [bind, Except.bind, hproduced]

theorem executeTool_succeeds {tool : Tool E A} {injected : ToolCall A} {outcome : Outcome A}
    (htool : node.tool call.name = some tool)
    (hinject : inject node tool call runtime = .ok injected)
    (hproduced : produced node invoke tool call injected inputType = .ok outcome) :
    executeTool node invoke (request node call runtime) inputType = .ok outcome := by
  rw [executeTool, request]
  simp only [htool, hinject]
  simp only [bind, Except.bind, hproduced]

theorem executeTool_escapes {e : E} (h : Escapes node invoke call inputType runtime e) :
    executeTool node invoke (request node call runtime) inputType = .error e := by
  cases h with
  | injection htool hinject => exact executeTool_uninjected htool hinject
  | raised htool hinject hproduced hpasses =>
    rw [executeTool_produced htool hinject hproduced, handled_passes hpasses]
  | untyped htool hinject hproduced hcaught htypes =>
    rw [executeTool_produced htool hinject hproduced, handled_caught hcaught, htypes]
    rfl
  | unhandled htool hinject hproduced hcaught htypes hnot =>
    rw [executeTool_produced htool hinject hproduced, handled_caught hcaught, htypes]
    exact if_pos hnot
  | handler htool hinject hproduced hcaught htypes hhandled hcall =>
    rw [executeTool_produced htool hinject hproduced, handled_caught hcaught, htypes]
    refine (if_neg hhandled).trans ?_
    rw [hcall]
    rfl

theorem escapes_executeTool {e : E}
    (h : executeTool node invoke (request node call runtime) inputType = .error e) :
    Escapes node invoke call inputType runtime e := by
  cases htool : node.tool call.name with
  | none => exact absurd h (executeTool_unregistered htool e)
  | some tool =>
    cases hinject : inject node tool call runtime with
    | error e' =>
      rw [executeTool_uninjected htool hinject] at h
      cases h
      exact .injection htool hinject
    | ok injected =>
      cases hproduced : produced node invoke tool call injected inputType with
      | ok outcome =>
        rw [executeTool_succeeds htool hinject hproduced] at h
        cases h
      | error e₀ =>
        rw [executeTool_produced htool hinject hproduced] at h
        by_cases hpasses : isBubbleUp e₀ = true ∨ isException e₀ = false
        · rw [handled_passes hpasses] at h
          cases h
          exact .raised htool hinject hproduced hpasses
        · rw [handled_caught hpasses] at h
          rcases Exceptions.bind_error h with htypes | ⟨types, htypes, h⟩
          · exact .untyped htool hinject hproduced hpasses htypes
          · by_cases hnot : node.handleToolErrors.truthy = false ∨
                types.any (isinstance e₀) = false
            · rw [if_pos hnot] at h
              cases h
              exact .unhandled htool hinject hproduced hpasses htypes hnot
            · rw [if_neg hnot] at h
              rcases Exceptions.bind_error h with hcall | ⟨content, -, h⟩
              · exact .handler htool hinject hproduced hpasses htypes hnot hcall
              · cases h

theorem executeTool_error_iff {e : E} :
    executeTool node invoke (request node call runtime) inputType = .error e ↔
      Escapes node invoke call inputType runtime e :=
  ⟨escapes_executeTool, executeTool_escapes⟩

end Escape

section Transparency

variable {E C A : Type} [Python E C A] {node : ToolNode E C A} {call : ToolCall A}
  {inputType : InputType} {runtime : ToolRuntime A}

-- The `except` clause around a wrapper lets the exception through.
def Reraises (flag : HandleToolErrors E C) (e : E) : Prop :=
  isException e = false ∨ flag.truthy = false ∨ ∃ h, flag = .callable h ∧ h.call e = .error e

theorem recovered_error_iff {e : E} :
    recovered node call (.error e) = .error e ↔ Reraises node.handleToolErrors e := by
  by_cases hpasses : isException e = false ∨ node.handleToolErrors.truthy = false
  · have hrecovered : recovered node call (.error e) = .error e := if_pos hpasses
    exact iff_of_true hrecovered (hpasses.imp_right .inl)
  · have hrecovered : recovered node call (.error e) =
        handleToolError e node.handleToolErrors >>= fun content =>
          .ok (errorMessage call content) := if_neg hpasses
    rw [hrecovered]
    constructor
    · intro h
      rcases Exceptions.bind_error h with hcall | ⟨content, -, h⟩
      · cases hflag : node.handleToolErrors with
        | callable h' =>
          rw [hflag] at hcall
          exact .inr (.inr ⟨h', rfl, hcall⟩)
        | bool b =>
          rw [hflag] at hcall
          cases hcall
        | str s =>
          rw [hflag] at hcall
          cases hcall
        | type c =>
          rw [hflag] at hcall
          cases hcall
        | tuple cs =>
          rw [hflag] at hcall
          cases hcall
      · cases h
    · rintro (hexception | hfalsy | ⟨h', hflag, hcall⟩)
      · exact absurd (.inl hexception) hpasses
      · exact absurd (.inr hfalsy) hpasses
      · rw [hflag, handleToolError, hcall]
        rfl

theorem recovered_eq_iff {x : Except E (Outcome A)} :
    recovered node call x = x ↔ ∀ e, x = .error e → Reraises node.handleToolErrors e := by
  cases x with
  | ok outcome => exact iff_of_true rfl nofun
  | error e =>
    rw [recovered_error_iff]
    exact ⟨fun h _ he => Except.error.inj he ▸ h, fun h => h e rfl⟩

theorem pass_through_transparent_iff (node : ToolNode E C A) (call : ToolCall A)
    (inputType : InputType) (runtime : ToolRuntime A) :
    (runOne node (some passThrough) call inputType runtime =
          runOne node none call inputType runtime ∧
        arunOne node none (some passThrough) call inputType runtime =
          arunOne node none none call inputType runtime ∧
        arunOne node (some passThrough) none call inputType runtime =
          arunOne node none none call inputType runtime) ↔
      (∀ e, Escapes node Tool.invoke call inputType runtime e →
          Reraises node.handleToolErrors e) ∧
        executeToolSync node (request node call runtime) inputType =
          executeToolAsync node (request node call runtime) inputType := by
  have hsync : runOne node (some passThrough) call inputType runtime =
        runOne node none call inputType runtime ↔
      ∀ e, Escapes node Tool.invoke call inputType runtime e →
        Reraises node.handleToolErrors e := by
    refine (recovered_eq_iff (x := executeToolSync node (request node call runtime) inputType)).trans ?_
    exact forall_congr' fun e => imp_congr_left executeTool_error_iff
  have hsame : arunOne node none (some passThrough) call inputType runtime =
      runOne node (some passThrough) call inputType runtime := rfl
  constructor
  · rintro ⟨hrun, harun, -⟩
    exact ⟨hsync.mp hrun, hrun.symm.trans (hsame.symm.trans harun)⟩
  · rintro ⟨hescapes, halike⟩
    have hrun := hsync.mpr hescapes
    have halike' : runOne node none call inputType runtime =
        arunOne node none none call inputType runtime := halike
    refine ⟨hrun, hsame.trans (hrun.trans halike'), ?_⟩
    have hasync : arunOne node (some passThrough) none call inputType runtime =
        runOne node (some passThrough) call inputType runtime :=
      congrArg (recovered node call) halike.symm
    exact hasync.trans (hrun.trans halike')

end Transparency

inductive ToolError where
  | graphInterrupt
  | error (type text : String)

inductive ToolErrorClass where
  | exception
  | graphBubbleUp
  | named (type : String)

instance toolErrors : Python ToolError ToolErrorClass String where
  isinstance
    | _, .exception => true
    | .graphInterrupt, .graphBubbleUp => true
    | .error type _, .named type' => type = type'
    | _, _ => false
  issubclass
    | _, .exception => true
    | .graphBubbleUp, .graphBubbleUp => true
    | .named type, .named type' => type = type'
    | _, _ => false
  exception := .exception
  graphBubbleUp := .graphBubbleUp
  validationError := .named "ValidationError"
  toolInvocation := .named "ToolInvocationError"
  typeError := .error "TypeError"
  valueError := .error "ValueError"
  keyError := .error "KeyError"
  attributeError := .error "AttributeError"
  toolInvocationError name _ _ details := .error "ToolInvocationError"
    ("Error invoking tool '" ++ name ++ "': " ++
      "\n".intercalate (details.map (fun d => ".".intercalate d.loc ++ ": " ++ d.msg)))
  errors _ := []
  message
    | .error _ text => text
    | .graphInterrupt => ""
  repr
    | .error type text => type ++ "('" ++ text ++ "')"
    | .graphInterrupt => "GraphInterrupt()"
  single _ whole := whole
  isBlock _ := false
  dumps items := ", ".intercalate items
  convert text := .ok (.other text)
  reprUpdate _ := ""
  reprMessages _ := ""

def approvalTool : Tool ToolError String where
  name := "ask"
  injected := ⟨[], none, none, [], []⟩
  invoke _ := .error .graphInterrupt
  ainvoke _ := .error .graphInterrupt

def approvalNode (flag : HandleToolErrors ToolError ToolErrorClass) :
    ToolNode ToolError ToolErrorClass String :=
  ⟨Dict.ofList [("ask", approvalTool)], flag, "messages"⟩

def approvalCall : ToolCall String := ⟨"ask", ∅, "call-1"⟩

def approvalRuntime : ToolRuntime String := ⟨.dict [] "", none, ""⟩

theorem interrupt_becomes_message :
    runOne (approvalNode (.bool true)) none approvalCall .dict approvalRuntime =
        .error .graphInterrupt ∧
      runOne (approvalNode (.bool true)) (some passThrough) approvalCall .dict approvalRuntime =
        .ok (errorMessage approvalCall
          "Error: GraphInterrupt()\n Please fix your mistakes.") := ⟨rfl, rfl⟩

theorem wrapper_swallows_interrupt :
    ¬ ∀ (node : ToolNode ToolError ToolErrorClass String) (call : ToolCall String)
        (inputType : InputType) (runtime : ToolRuntime String),
      runOne node (some passThrough) call inputType runtime =
          runOne node none call inputType runtime ∧
        arunOne node none (some passThrough) call inputType runtime =
          arunOne node none none call inputType runtime := by
  intro h
  have hrun := (h (approvalNode (.bool true)) approvalCall .dict approvalRuntime).1
  rw [interrupt_becomes_message.1, interrupt_becomes_message.2] at hrun
  cases hrun

end Prebuilt

end LangGraph
