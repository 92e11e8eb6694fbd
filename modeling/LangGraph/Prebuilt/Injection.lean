import LangGraph.Collections.Exceptions
import LangGraph.Prebuilt.ToolNode

namespace LangGraph

open Collections Exceptions

namespace Prebuilt

-- The classes an annotation asks an injection with.
inductive Injection where
  | state
  | store
  | runtime
  deriving DecidableEq

-- A type hint: a class, an instance among the metadata of an `Annotated`, a `Union`, an
-- `Annotated`, or another generic; `injects` is the injection class it is an instance or a
-- subclass of.
inductive TypeArg where
  | cls (injects : Option Injection) (name : String)
  | inst (injects : Option Injection) (field : Option String)
  | union (args : List TypeArg)
  | annotated (args : List TypeArg)
  | generic (injects : Option Injection) (args : List TypeArg)

-- `_is_injected_arg_type` of langchain_core, and how a list of hints prints.
structure Typing where
  isInjectedArgType : TypeArg → Bool
  repr : List TypeArg → String

structure Signature where
  funcAnnotations : Dict String TypeArg
  schemaAnnotations : Dict String TypeArg
  optionalFields : List String

structure SignedTool where
  name : String
  signature : Signature

namespace Injection

def className : Injection → String
  | .state => "InjectedState"
  | .store => "InjectedStore"
  | .runtime => "ToolRuntime"

end Injection

namespace TypeArg

def getArgs : TypeArg → List TypeArg
  | .cls _ _ => []
  | .inst _ _ => []
  | .union args => args
  | .annotated args => args
  | .generic _ args => args

mutual

def isInjection (injection : Injection) : TypeArg → Bool
  | .cls injects _ => injects = some injection
  | .inst injects _ => injects = some injection
  | .union args => anyInjection injection args
  | .annotated args => anyInjection injection args
  | .generic injects _ => injects = some injection

def anyInjection (injection : Injection) : List TypeArg → Bool
  | [] => false
  | arg :: args => arg.isInjection injection || anyInjection injection args

end

end TypeArg

section Signatures

variable {E C A : Type} [Python E C A] (typing : Typing)

open Python

-- `none` inside stands for the `True` the source returns.
def getInjectionFromType (E : Type) [Python E C A] (type : TypeArg) (injection : Injection) :
    Except E (Option (Option TypeArg)) :=
  match type.getArgs.filter (TypeArg.isInjection injection) with
  | [] => .ok (if type.isInjection injection then some none else none)
  | [found] => .ok (some (some found))
  | found => .error (valueError ("A tool argument should not be annotated with " ++
      injection.className ++ " more than once. Found: " ++ typing.repr found))

def stateField : Option TypeArg → Option String
  | some (.inst (some .state) field) => field.filter (· ≠ "")
  | _ => none

def addStateArg (signature : Signature) (name : String) (injected : InjectedArgs)
    (found : Option TypeArg) : InjectedArgs :=
  match stateField found with
  | some field => { injected with
      state := injected.state ++ [(name, some field)]
      optionalStateArgs := injected.optionalStateArgs ++
        if name ∈ signature.optionalFields then [name] else [] }
  | none => { injected with state := injected.state ++ [(name, none)] }

def addArg (E : Type) [Python E C A] (signature : Signature) (injected : InjectedArgs)
    (entry : String × TypeArg) : Except E InjectedArgs := do
  let (name, type) := entry
  let injected := if typing.isInjectedArgType type then
    { injected with allInjectedKeys := injected.allInjectedKeys ++ [name] } else injected
  let injected := if name = "runtime" then { injected with runtime := some name } else injected
  let injected := match ← getInjectionFromType typing E type .state with
    | some found => addStateArg signature name injected found
    | none => injected
  let injected := match ← getInjectionFromType typing E type .store with
    | some _ => { injected with store := some name }
    | none => injected
  match ← getInjectionFromType typing E type .runtime with
    | some _ => return { injected with runtime := some name }
    | none => return injected

def Signature.annotations (signature : Signature) : Dict String TypeArg :=
  signature.funcAnnotations.update signature.schemaAnnotations.items

def getAllInjectedArgs (E : Type) [Python E C A] (signature : Signature) : Except E InjectedArgs :=
  signature.annotations.items.foldlM (addArg typing E signature) ⟨[], none, none, [], []⟩

end Signatures

-- A ToolNode as far as the injection reads it, with the table its constructor builds.
structure InjectingNode (E : Type) {C A : Type} [Python E C A] (typing : Typing) where
  messagesKey : String
  tools : List SignedTool
  injectedArgs : Dict String InjectedArgs
  built : tools.foldlM (fun table tool =>
    (getAllInjectedArgs typing E tool.signature).map (fun injected => table.set tool.name injected))
      ∅ = .ok injectedArgs

namespace InjectingNode

variable {E C A : Type} [Python E C A] {typing : Typing} (node : InjectingNode E typing)

-- The table of the call's name, or of the executed tool where the name has none.
def tableFor (name : String) (tool : SignedTool) : Except E InjectedArgs :=
  match node.injectedArgs.get? name with
  | some injected => .ok injected
  | none => getAllInjectedArgs typing E tool.signature

-- What the executed tool of a request is invoked with.
def injectedCall (call : ToolCall A) (runtime : ToolRuntime A) (tool : SignedTool) :
    Except E (ToolCall A) := do
  let injected ← node.tableFor call.name tool
  injectToolArgs node.messagesKey injected call runtime

end InjectingNode

section Values

variable {E C A : Type} [Python E C A] {messagesKey : String} {injected : InjectedArgs}
  {call : ToolCall A} {runtime : ToolRuntime A}

open Python

def stateValues (messagesKey : String) (injected : InjectedArgs) (call : ToolCall A)
    (state : ToolState A) : Except E (List (String × A)) := do
  if injected.state.isEmpty then pure [] else do
    let (fields, whole, missing) ← asFields messagesKey injected call state
    injectState injected fields whole missing injected.state

def runtimeValues (injected : InjectedArgs) (runtime : ToolRuntime A) : List (String × A) :=
  injected.runtime.toList.map (fun arg => (arg, runtime.itself))

def injectedValues (messagesKey : String) (injected : InjectedArgs) (call : ToolCall A)
    (runtime : ToolRuntime A) : Except E (List (String × A)) := do
  let state ← stateValues messagesKey injected call runtime.state
  let store ← injectStore injected runtime
  return state ++ store ++ runtimeValues injected runtime

def passedArgs (injected : InjectedArgs) (args : Dict String A) (values : List (String × A)) :
    Dict String A :=
  (args.filter (fun k _ => k ∉ injected.allInjectedKeys)).update values

theorem injectToolArgs_eq :
    injectToolArgs messagesKey injected call runtime =
      (injectedValues (E := E) messagesKey injected call runtime).map (fun values =>
        { call with args := passedArgs injected call.args values }) := by
  rw [injectToolArgs, injectedValues, stateValues]
  split
  · cases injectStore (E := E) injected runtime with
    | error e => rfl
    | ok store => rfl
  · cases asFields (E := E) messagesKey injected call runtime.state with
    | error e => rfl
    | ok found =>
      obtain ⟨fields, whole, missing⟩ := found
      have hstate (found : Except E (List (String × A))) :
          (do
            let state ← found
            let store ← injectStore injected runtime
            let stripped := call.args.filter (fun k _ => k ∉ injected.allInjectedKeys)
            return { call with args := stripped.update (state ++ store ++
              injected.runtime.toList.map (fun arg => (arg, runtime.itself))) }) =
          (do
            let state ← found
            let store ← injectStore injected runtime
            return state ++ store ++ runtimeValues injected runtime).map (fun values =>
              { call with args := passedArgs injected call.args values }) := by
        cases found with
        | error e => rfl
        | ok state =>
          cases injectStore (E := E) injected runtime with
          | error e => rfl
          | ok store => rfl
      exact hstate _

def stateEntry (fields : List (String × A)) (whole : A) (p : String × Option String) :
    Option (String × A) :=
  match p.2.filter (· ≠ "") with
  | none => some (p.1, whole)
  | some field => (fields.find? (fun e => e.1 = field)).map (fun e => (p.1, e.2))

-- The whole state is asked for, or the field is there.
def Present (fields : List (String × A)) (p : String × Option String) : Prop :=
  ∀ field ∈ p.2, field ≠ "" → field ∈ fields.map Prod.fst

def Resolves (injected : InjectedArgs) (fields : List (String × A))
    (p : String × Option String) : Prop :=
  Present fields p ∨ p.1 ∈ injected.optionalStateArgs

theorem stateEntry_ne_none {fields : List (String × A)} {whole : A}
    {p : String × Option String} : stateEntry fields whole p ≠ none ↔ Present fields p := by
  obtain ⟨arg, field⟩ := p
  cases field with
  | none => simp [stateEntry, Present]
  | some field =>
    by_cases hempty : field = ""
    · simp [stateEntry, Present, Option.filter, hempty]
    · simp [stateEntry, Present, Option.filter, hempty]

theorem injectState_entry {fields : List (String × A)} {whole : A} {missing : String → E}
    {p : String × Option String} {rest : List (String × Option String)} {e : String × A}
    (ih : ∀ values, injectState injected fields whole missing rest = .ok values ↔
      (∀ q ∈ rest, Resolves injected fields q) ∧
        values = rest.filterMap (stateEntry fields whole))
    (he : stateEntry fields whole p = some e) (values : List (String × A)) :
    (do return e :: (← injectState injected fields whole missing rest)) = Except.ok values ↔
      (∀ q ∈ p :: rest, Resolves injected fields q) ∧
        values = (p :: rest).filterMap (stateEntry fields whole) := by
  rw [List.forall_mem_cons, List.filterMap_cons_some he]
  constructor
  · intro h
    obtain ⟨found, hfound, hvalues⟩ := bind_ok h
    obtain ⟨hrest, rfl⟩ := (ih found).mp hfound
    have hp : Resolves injected fields p :=
      Or.inl (stateEntry_ne_none.mp (by rw [he]; exact Option.some_ne_none e))
    exact ⟨⟨hp, hrest⟩, (Except.ok.inj hvalues).symm⟩
  · rintro ⟨⟨-, hrest⟩, rfl⟩
    rw [(ih _).mpr ⟨hrest, rfl⟩]
    rfl

theorem injectState_ok_iff {fields : List (String × A)} {whole : A} {missing : String → E}
    (l : List (String × Option String)) (values : List (String × A)) :
    injectState injected fields whole missing l = .ok values ↔
      (∀ p ∈ l, Resolves injected fields p) ∧
        values = l.filterMap (stateEntry fields whole) := by
  induction l generalizing values with
  | nil =>
    rw [injectState]
    constructor
    · intro h
      exact ⟨List.forall_mem_nil _, (Except.ok.inj h).symm⟩
    · rintro ⟨-, rfl⟩
      rfl
  | cons p rest ih =>
    obtain ⟨arg, field⟩ := p
    cases field with
    | none => exact injectState_entry ih (by simp [stateEntry]) values
    | some field =>
      rw [injectState]
      by_cases hempty : field = ""
      · rw [if_pos hempty]
        exact injectState_entry ih (by simp [stateEntry, Option.filter, hempty]) values
      · have hentry : stateEntry fields whole (arg, some field) =
            (fields.find? (fun e => e.1 = field)).map (fun e => (arg, e.2)) := by
          simp [stateEntry, Option.filter, hempty]
        rw [if_neg hempty]
        cases hfind : fields.find? (fun e => e.1 = field) with
        | some e =>
          rw [hfind] at hentry
          exact injectState_entry ih hentry values
        | none =>
          rw [hfind, Option.map_none] at hentry
          rw [List.forall_mem_cons, List.filterMap_cons_none hentry, Resolves,
            ← stateEntry_ne_none, hentry]
          dsimp only
          by_cases hoptional : arg ∈ injected.optionalStateArgs
          · rw [if_pos hoptional, ih values]
            simp [hoptional]
          · rw [if_neg hoptional]
            simp [hoptional]

end Values

section Trusted

variable (E : Type) {C A : Type} [Python E C A] (messagesKey : String) (injected : InjectedArgs)
  (runtime : ToolRuntime A)

open Python

def givenFields : ToolState A → List (String × A)
  | .list whole => [(messagesKey, whole)]
  | .dict items _ => items
  | .object attributes _ => attributes

def givenWhole : ToolState A → A
  | .list whole => single E messagesKey whole
  | .dict _ whole => whole
  | .object _ whole => whole

-- A list of messages is a state for the messages field only, or for a first argument that takes
-- the whole state.
def Fits : ToolState A → Prop
  | .list _ => injected.state.map Prod.snd = [some messagesKey] ∨
      (injected.state.map Prod.snd).head? = some none
  | _ => True

-- The injection raises nothing.
structure Injectable : Prop where
  shape : injected.state ≠ [] → Fits messagesKey injected runtime.state
  fields : ∀ p ∈ injected.state, Resolves injected (givenFields messagesKey runtime.state) p
  store : injected.store ≠ none → runtime.store ≠ none

def storeValues : List (String × A) :=
  match injected.store, runtime.store with
  | some arg, some store => [(arg, store)]
  | _, _ => []

def trustedValues : List (String × A) :=
  injected.state.filterMap (stateEntry (givenFields messagesKey runtime.state)
      (givenWhole E messagesKey runtime.state)) ++
    storeValues injected runtime ++ runtimeValues injected runtime

variable {E messagesKey injected runtime} (call : ToolCall A)

theorem asFields_fits (h : Fits messagesKey injected runtime.state) :
    ∃ missing, asFields (E := E) messagesKey injected call runtime.state =
      .ok (givenFields messagesKey runtime.state, givenWhole E messagesKey runtime.state,
        missing) := by
  cases hstate : runtime.state with
  | list whole =>
    rw [hstate] at h
    exact ⟨_, if_pos h⟩
  | dict items whole => exact ⟨_, rfl⟩
  | object attributes whole => exact ⟨_, rfl⟩

theorem fits_of_asFields {found : List (String × A) × A × (String → E)}
    (h : asFields messagesKey injected call runtime.state = .ok found) :
    Fits messagesKey injected runtime.state := by
  cases hstate : runtime.state with
  | list whole =>
    rw [hstate, asFields] at h
    split at h
    · rename_i hfits
      exact hfits
    · cases h
  | dict items whole => trivial
  | object attributes whole => trivial

theorem stateValues_ok_iff (values : List (String × A)) :
    stateValues (E := E) messagesKey injected call runtime.state = .ok values ↔
      ((injected.state ≠ [] → Fits messagesKey injected runtime.state) ∧
        ∀ p ∈ injected.state, Resolves injected (givenFields messagesKey runtime.state) p) ∧
      values = injected.state.filterMap (stateEntry (givenFields messagesKey runtime.state)
        (givenWhole E messagesKey runtime.state)) := by
  rw [stateValues]
  by_cases hnone : injected.state = []
  · rw [if_pos (List.isEmpty_iff.mpr hnone), hnone]
    constructor
    · intro h
      exact ⟨⟨fun hne => absurd rfl hne, List.forall_mem_nil _⟩, (Except.ok.inj h).symm⟩
    · rintro ⟨-, rfl⟩
      rfl
  · rw [if_neg (by rwa [List.isEmpty_iff])]
    constructor
    · intro h
      obtain ⟨found, hfound, h⟩ := bind_ok h
      have hfits := fits_of_asFields call hfound
      obtain ⟨missing, hfields⟩ := asFields_fits (E := E) call hfits
      rw [hfields] at hfound
      cases hfound
      obtain ⟨hall, hvalues⟩ := (injectState_ok_iff _ _).mp h
      exact ⟨⟨fun _ => hfits, hall⟩, hvalues⟩
    · rintro ⟨⟨hfits, hall⟩, hvalues⟩
      obtain ⟨missing, hfields⟩ := asFields_fits (E := E) call (hfits hnone)
      rw [hfields]
      exact (injectState_ok_iff _ _).mpr ⟨hall, hvalues⟩

theorem injectStore_ok_iff (values : List (String × A)) :
    injectStore (E := E) injected runtime = .ok values ↔
      (injected.store ≠ none → runtime.store ≠ none) ∧ values = storeValues injected runtime := by
  rw [injectStore, storeValues]
  cases injected.store with
  | none => simp [eq_comm]
  | some arg =>
    cases runtime.store with
    | none => simp
    | some store => simp [eq_comm]

theorem injectedValues_ok_iff (values : List (String × A)) :
    injectedValues (E := E) messagesKey injected call runtime = .ok values ↔
      Injectable messagesKey injected runtime ∧
        values = trustedValues E messagesKey injected runtime := by
  rw [injectedValues]
  constructor
  · intro h
    obtain ⟨state, hstate, h⟩ := bind_ok h
    obtain ⟨store, hstore, h⟩ := bind_ok h
    obtain ⟨⟨hshape, hfields⟩, rfl⟩ := (stateValues_ok_iff call state).mp hstate
    obtain ⟨hstored, rfl⟩ := (injectStore_ok_iff store).mp hstore
    exact ⟨⟨hshape, hfields, hstored⟩, (Except.ok.inj h).symm⟩
  · rintro ⟨⟨hshape, hfields, hstored⟩, rfl⟩
    rw [(stateValues_ok_iff (E := E) call _).mpr ⟨⟨hshape, hfields⟩, rfl⟩,
      (injectStore_ok_iff (E := E) _).mpr ⟨hstored, rfl⟩]
    rfl

end Trusted

section Forging

variable {E C A : Type} [Python E C A] {typing : Typing}

def TypeArg.asks (injection : Injection) (type : TypeArg) : Bool :=
  type.isInjection injection || type.getArgs.any (TypeArg.isInjection injection)

-- The arguments for which one of the tests of `_get_all_injected_args` succeeds.
def Signature.Declares (typing : Typing) (signature : Signature) (arg : String) : Prop :=
  ∃ type, signature.annotations.get? arg = some type ∧
    (typing.isInjectedArgType type = true ∨ arg = "runtime" ∨
      ∃ injection, type.asks injection = true)

variable (node : InjectingNode E typing) (name id : String) (tool : SignedTool)
  (runtime : ToolRuntime A)

inductive TakenFrom (E : Type) [Python E C A] (messagesKey : String) (runtime : ToolRuntime A) :
    A → Prop
  | state : TakenFrom E messagesKey runtime (givenWhole E messagesKey runtime.state)
  | field {e : String × A} (h : e ∈ givenFields messagesKey runtime.state) :
      TakenFrom E messagesKey runtime e.2
  | store {store : A} (h : runtime.store = some store) : TakenFrom E messagesKey runtime store
  | itself : TakenFrom E messagesKey runtime runtime.itself

-- Whatever the call's args are, the tool gets the same trusted values for what it declares.
def Unforgeable : Prop :=
  ∀ args args' passed passed', node.injectedCall ⟨name, args, id⟩ runtime tool = .ok passed →
    node.injectedCall ⟨name, args', id⟩ runtime tool = .ok passed' →
      ∀ arg, tool.signature.Declares typing arg →
        passed.args.get? arg = passed'.args.get? arg ∧
          ∀ value, passed.args.get? arg = some value → TakenFrom E node.messagesKey runtime value

def Fills (messagesKey : String) (injected : InjectedArgs) (runtime : ToolRuntime A)
    (arg : String) : Prop :=
  (∃ p ∈ injected.state, p.1 = arg ∧ Present (givenFields messagesKey runtime.state) p) ∨
    (injected.store = some arg ∧ runtime.store ≠ none) ∨ injected.runtime = some arg

-- The table strips or fills each argument the executed tool declares.
def Covers (typing : Typing) (messagesKey : String) (injected : InjectedArgs)
    (tool : SignedTool) (runtime : ToolRuntime A) : Prop :=
  ∀ arg, tool.signature.Declares typing arg →
    arg ∈ injected.allInjectedKeys ∨ Fills messagesKey injected runtime arg

variable {node name id tool runtime} {injected : InjectedArgs} {messagesKey : String}

theorem stateEntry_key {fields : List (String × A)} {whole : A} {p : String × Option String}
    {e : String × A} (h : stateEntry fields whole p = some e) : e.1 = p.1 := by
  rw [stateEntry] at h
  split at h
  · cases h
    rfl
  · obtain ⟨found, -, rfl⟩ := Option.map_eq_some_iff.mp h
    rfl

theorem mem_trustedValues {arg : String} :
    arg ∈ (trustedValues E messagesKey injected runtime).map Prod.fst ↔
      Fills messagesKey injected runtime arg := by
  have hstate : arg ∈ (injected.state.filterMap (stateEntry
      (givenFields messagesKey runtime.state) (givenWhole E messagesKey runtime.state))).map
        Prod.fst ↔
      ∃ p ∈ injected.state, p.1 = arg ∧ Present (givenFields messagesKey runtime.state) p := by
    rw [List.mem_map]
    constructor
    · rintro ⟨e, he, rfl⟩
      obtain ⟨p, hp, hentry⟩ := List.mem_filterMap.mp he
      have hne : stateEntry (givenFields messagesKey runtime.state)
          (givenWhole E messagesKey runtime.state) p ≠ none := by
        rw [hentry]
        exact Option.some_ne_none e
      exact ⟨p, hp, (stateEntry_key hentry).symm, stateEntry_ne_none.mp hne⟩
    · rintro ⟨p, hp, rfl, hpresent⟩
      have hne : stateEntry (givenFields messagesKey runtime.state)
          (givenWhole E messagesKey runtime.state) p ≠ none := stateEntry_ne_none.mpr hpresent
      obtain ⟨e, he⟩ := Option.ne_none_iff_exists'.mp hne
      exact ⟨e, List.mem_filterMap.mpr ⟨p, hp, he⟩, stateEntry_key he⟩
  have hstore : arg ∈ (storeValues injected runtime).map Prod.fst ↔
      injected.store = some arg ∧ runtime.store ≠ none := by
    rw [storeValues]
    cases injected.store with
    | none => simp
    | some name =>
      cases runtime.store with
      | none => simp
      | some store => simp [eq_comm]
  have hruntime : arg ∈ (runtimeValues injected runtime).map Prod.fst ↔
      injected.runtime = some arg := by
    rw [runtimeValues]
    cases injected.runtime with
    | none => simp
    | some name => simp [eq_comm]
  rw [trustedValues, List.map_append, List.map_append, List.mem_append, List.mem_append, hstate,
    hstore, hruntime, or_assoc]
  rfl

theorem taken_trustedValues {e : String × A}
    (h : e ∈ trustedValues E messagesKey injected runtime) :
    TakenFrom E messagesKey runtime e.2 := by
  rw [trustedValues, List.mem_append, List.mem_append] at h
  rcases h with (h | h) | h
  · obtain ⟨p, -, hentry⟩ := List.mem_filterMap.mp h
    rw [stateEntry] at hentry
    split at hentry
    · cases hentry
      exact .state
    · obtain ⟨found, hfound, rfl⟩ := Option.map_eq_some_iff.mp hentry
      exact .field (e := found) (List.mem_of_find?_eq_some hfound)
  · rw [storeValues] at h
    split at h
    · rename_i store _ hstore
      rw [List.mem_singleton.mp h]
      exact .store hstore
    · cases h
  · obtain ⟨arg, -, rfl⟩ := List.mem_map.mp h
    exact .itself

theorem injectedCall_ok_iff {args : Dict String A} {passed : ToolCall A} :
    node.injectedCall ⟨name, args, id⟩ runtime tool = .ok passed ↔
      ∃ injected, node.tableFor name tool = .ok injected ∧
        Injectable node.messagesKey injected runtime ∧ passed = ⟨name, passedArgs injected args
          (trustedValues E node.messagesKey injected runtime), id⟩ := by
  rw [InjectingNode.injectedCall]
  constructor
  · intro h
    obtain ⟨injected, htable, h⟩ := bind_ok h
    rw [injectToolArgs_eq] at h
    cases hvalues : injectedValues (E := E) node.messagesKey injected ⟨name, args, id⟩ runtime with
    | error e =>
      rw [hvalues] at h
      cases h
    | ok values =>
      obtain ⟨hinjectable, rfl⟩ := (injectedValues_ok_iff _ values).mp hvalues
      rw [hvalues] at h
      exact ⟨injected, htable, hinjectable, (Except.ok.inj h).symm⟩
  · rintro ⟨injected, htable, hinjectable, rfl⟩
    rw [htable]
    refine (injectToolArgs_eq (E := E)).trans ?_
    rw [(injectedValues_ok_iff (E := E) ⟨name, args, id⟩ _).mpr ⟨hinjectable, rfl⟩]
    rfl

theorem passedArgs_filled (args args' : Dict String A) {values : List (String × A)}
    {arg : String} (h : arg ∈ injected.allInjectedKeys ∨ arg ∈ values.map Prod.fst) :
    (passedArgs injected args values).get? arg = (passedArgs injected args' values).get? arg ∧
      ∀ value, (passedArgs injected args values).get? arg = some value →
        (arg, value) ∈ values := by
  rw [passedArgs, passedArgs, Dict.get?_update, Dict.get?_update]
  cases hfind : values.reverse.find? (fun p => p.1 = arg) with
  | some p =>
    have hkey : p.1 = arg := by simpa using List.find?_some hfind
    refine ⟨rfl, fun value hvalue => ?_⟩
    rw [Option.map_some, Option.some_or] at hvalue
    rw [← Option.some.inj hvalue, ← hkey]
    exact List.mem_reverse.mp (List.mem_of_find?_eq_some hfind)
  | none =>
    have hkey : arg ∈ injected.allInjectedKeys := by
      refine h.resolve_right (fun hmem => ?_)
      obtain ⟨p, hp, hsame⟩ := List.mem_map.mp hmem
      have hnot := List.find?_eq_none.mp hfind p (List.mem_reverse.mpr hp)
      simp [hsame] at hnot
    have hnone (args : Dict String A) :
        (args.filter (fun k _ => k ∉ injected.allInjectedKeys)).get? arg = none := by
      rw [Dict.get?_filter]
      simp [hkey]
    refine ⟨by rw [hnone, hnone], fun value hvalue => ?_⟩
    rw [hnone] at hvalue
    cases hvalue

theorem passedArgs_forged {args : Dict String A} {values : List (String × A)} {arg : String}
    (hkept : arg ∉ injected.allInjectedKeys) (hunfilled : arg ∉ values.map Prod.fst) :
    (passedArgs injected args values).get? arg = args.get? arg := by
  have hfind : values.reverse.find? (fun p => p.1 = arg) = none := by
    rw [List.find?_eq_none]
    intro p hp hkey
    exact hunfilled (List.mem_map.mpr ⟨p, List.mem_reverse.mp hp, by simpa using hkey⟩)
  rw [passedArgs, Dict.get?_update, hfind, Dict.get?_filter]
  cases args.get? arg with
  | none => rfl
  | some value => simp [Option.filter, hkept]

theorem unforgeable_iff :
    Unforgeable node name id tool runtime ↔
      ∀ injected, node.tableFor name tool = .ok injected →
        Injectable node.messagesKey injected runtime →
          Covers typing node.messagesKey injected tool runtime := by
  constructor
  · intro h injected htable hinjectable arg hdeclares
    by_contra hopen
    rw [not_or, ← mem_trustedValues (E := E)] at hopen
    obtain ⟨hsame, -⟩ := h ∅ ((∅ : Dict String A).set arg runtime.itself) _ _
      (injectedCall_ok_iff.mpr ⟨injected, htable, hinjectable, rfl⟩)
      (injectedCall_ok_iff.mpr ⟨injected, htable, hinjectable, rfl⟩) arg hdeclares
    rw [passedArgs_forged hopen.1 hopen.2, passedArgs_forged hopen.1 hopen.2,
      Dict.get?_set_self] at hsame
    cases hsame
  · intro h args args' passed passed' hpassed hpassed' arg hdeclares
    obtain ⟨injected, htable, hinjectable, rfl⟩ := injectedCall_ok_iff.mp hpassed
    obtain ⟨injected', htable', -, rfl⟩ := injectedCall_ok_iff.mp hpassed'
    obtain rfl : injected = injected' := Except.ok.inj (htable.symm.trans htable')
    have hcovered := h injected htable hinjectable arg hdeclares
    rw [← mem_trustedValues (E := E)] at hcovered
    obtain ⟨hsame, htaken⟩ := passedArgs_filled args args' hcovered
    exact ⟨hsame, fun value hvalue => taken_trustedValues (htaken value hvalue)⟩

section Substituted

-- A hint in the metadata of an `Annotated`.
def metadataTyping : Typing where
  isInjectedArgType type := type.getArgs.tail.any (fun arg =>
    match arg with
    | .inst (some _) _ => true
    | .cls (some _) _ => true
    | _ => false)
  repr _ := ""

def strHint : TypeArg := .cls none "str"

def signed (name : String) (annotations : List (String × TypeArg)) : SignedTool :=
  ⟨name, ⟨Dict.ofList annotations, ∅, []⟩⟩

def searchTool : SignedTool := signed "search" [("query", strHint)]

def accountTool : SignedTool :=
  signed "account" [("query", strHint),
    ("user", .annotated [strHint, .inst (some .state) (some "user")])]

def searchNode : InjectingNode ToolError metadataTyping where
  messagesKey := "messages"
  tools := [searchTool]
  injectedArgs := Dict.ofList [("search", ⟨[], none, none, [], []⟩)]
  built := rfl

def userRuntime : ToolRuntime String := ⟨.dict [("user", "ada")] "state", none, "runtime"⟩

-- A wrapper puts another tool under a registered name.
theorem substituted_tool_forged :
    ¬ ∀ (node : InjectingNode ToolError metadataTyping) (name id : String) (tool : SignedTool)
        (runtime : ToolRuntime String), Unforgeable node name id tool runtime := by
  intro h
  have hforged := (h searchNode "search" "call-1" accountTool userRuntime ∅
    (Dict.ofList [("user", "mallory")]) _ _ rfl rfl "user"
    ⟨.annotated [strHint, .inst (some .state) (some "user")], rfl, .inl rfl⟩).1
  cases hforged

end Substituted

end Forging

end Prebuilt

end LangGraph
