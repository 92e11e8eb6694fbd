import LangGraph.Collections.Traced
import LangGraph.Serde.JsonPlus

namespace LangGraph

open Collections

namespace Serde

def extMethodSingleArg : Int := 3
def extPydanticV1 : Int := 4
def extPydanticV2 : Int := 5
def extNumpyArray : Int := 6

def safeMsgpackMethods : List (String × String × String) :=
  [("datetime", "datetime", "fromisoformat")]

-- What the parser makes of the bytes; it gets to what is malformed after all that stands before.
inductive Packed where
  | nil
  | bool (b : Bool)
  | int (n : Int)
  | float (bits : FloatBits)
  | str (s : PyStr)
  | bin (b : List UInt8)
  | array (xs : List Packed)
  | map (items : List (Packed × Packed))
  | ext (code : Int) (data : List UInt8)
  | malformed

-- The objects of the interpreter, and what the decoder does with them. Where an exception is
-- raised there is no value.
class Objects (V : Type) where
  none : V
  bool : Bool → V
  int : Int → V
  float : FloatBits → V
  str : PyStr → V
  bytes : List UInt8 → V
  list : List V → V
  dict : List (V × V) → Option V
  deltaSnapshot : V → V
  item : V → Nat → Option V
  text : V → Option PyStr
  hashable : V → Bool
  importFrom : PyStr → PyStr → Option V
  getattr : V → PyStr → Option V
  call : V → V → Option V
  callArgs : V → V → Option V
  callKwargs : V → V → Option V
  sendFromArgs : V → Option V
  frombuffer : V → Option V

inductive Called where
  | constructor (module name : PyStr)
  | modelConstruct (module name : PyStr)
  | method (module name method : PyStr)
  | numpyArray
  | deltaSnapshot

section Hook

variable {V : Type} [Objects V] (allowed : AllowedModules)

open Objects

abbrev Decoding (V : Type) := Traced Called V

def read (tup : V) (i : Nat) : Decoding V := .lift (item tup i)

def textItem (tup : V) (i : Nat) : Decoding PyStr := .lift ((item tup i).bind text)

-- `_check_allowed`, on items that need not be strings.
def checkAllowedItems (tup : V) : Decoding Bool := do
  let module ← read tup 0
  let name ← read tup 1
  if hashable module && hashable name then
    match text module, text name with
    | some m, some n => return checkAllowed allowed m n
    | _, _ => return match allowed with
        | .all => true
        | _ => false
  else .raise

def checkAllowedMethod (module name method : PyStr) : Bool :=
  safeMsgpackMethods.any (fun t =>
    PyStr.ofString t.1 = module && PyStr.ofString t.2.1 = name && PyStr.ofString t.2.2 = method)

def checkAllowedMethodItems (tup : V) : Decoding Bool := do
  let module ← read tup 0
  let name ← read tup 1
  let method ← read tup 3
  if hashable module && hashable name && hashable method then
    match text module, text name, text method with
    | some m, some n, some k => return checkAllowedMethod m n k
    | _, _, _ => return false
  else .raise

structure Callee (V : Type) where
  module : PyStr
  name : PyStr
  object : V

-- `getattr(importlib.import_module(tup[0]), tup[1])`
def callee (tup : V) : Decoding (Callee V) := do
  let module ← textItem tup 0
  let name ← textItem tup 1
  let object ← .lift (importFrom module name)
  return ⟨module, name, object⟩

def constructed (apply : V → V → Option V) (c : Callee V) (arg : V) : Decoding V := do
  .note (.constructor c.module c.name)
  .lift (apply c.object arg)

def constructorExtHook (apply : V → V → Option V) (unpacked : Decoding V) : Decoding V :=
  .except (do
      let tup ← unpacked
      if ← checkAllowedItems allowed tup then
        let c ← callee tup
        constructed apply c (← read tup 2)
      else read tup 2)
    (pure none)

def sent (args : V) : Decoding V := do
  .note (.constructor (PyStr.ofString "langgraph.types") (PyStr.ofString "Send"))
  .lift (Objects.sendFromArgs args)

def namesSend (tup : V) : Decoding Bool := do
  let module ← read tup 0
  let name ← read tup 1
  return text module = some (PyStr.ofString "langgraph.types") &&
    text name = some (PyStr.ofString "Send")

def posArgsHook (unpacked : Decoding V) : Decoding V :=
  .except (do
      let tup ← unpacked
      if ← checkAllowedItems allowed tup then
        if ← namesSend tup then sent (← read tup 2)
        else
          let c ← callee tup
          constructed callArgs c (← read tup 2)
      else read tup 2)
    (pure none)

def methodHook (unpacked : Decoding V) : Decoding V :=
  .except (do
      let tup ← unpacked
      if ← checkAllowedMethodItems tup then
        let c ← callee tup
        let name ← textItem tup 3
        let method ← .lift (getattr c.object name)
        let arg ← read tup 2
        .note (.method c.module c.name name)
        .lift (call method arg)
      else read tup 2)
    (pure none)

def modelConstructed (fallback : PyStr) (c : Callee V) (kwargs : V) : Decoding V := do
  let method ← .lift (getattr c.object fallback)
  .note (.modelConstruct c.module c.name)
  .lift (callKwargs method kwargs)

def pydanticBody (fallback : PyStr) (tup : V) : Decoding V := do
  if ← checkAllowedItems allowed tup then
    let c ← callee tup
    .except (do constructed callKwargs c (← read tup 2))
      (do modelConstructed fallback c (← read tup 2))
  else read tup 2

-- Without the payload the last handler's NameError ends in None.
def pydanticHook (fallback : PyStr) (unpacked : Decoding V) : Decoding V :=
  match unpacked.result with
  | some tup => unpacked >>= fun _ => .except (pydanticBody allowed fallback tup) (read tup 2)
  | Option.none => .except unpacked (pure none)

def numpyHook (unpacked : Decoding V) : Decoding V :=
  .except (do
      let array ← unpacked
      .note .numpyArray
      .lift (frombuffer array))
    (pure none)

def deltaHook (unpacked : Decoding V) : Decoding V := do
  let value ← unpacked
  .note .deltaSnapshot
  return deltaSnapshot value

def msgpackExtHook (unpack : List UInt8 → Decoding V) (code : Int) (data : List UInt8) :
    Decoding V :=
  if code = extDeltaSnapshot then deltaHook (unpack data)
  else if code = extConstructorSingleArg then constructorExtHook allowed call (unpack data)
  else if code = extConstructorPosArgs then posArgsHook allowed (unpack data)
  else if code = extConstructorKwArgs then constructorExtHook allowed callKwargs (unpack data)
  else if code = extMethodSingleArg then methodHook (unpack data)
  else if code = extPydanticV1 then pydanticHook allowed (PyStr.ofString "construct") (unpack data)
  else if code = extPydanticV2 then
    pydanticHook allowed (PyStr.ofString "model_construct") (unpack data)
  else if code = extNumpyArray then numpyHook (unpack data)
  else pure none

end Hook

section Decoding

variable {V : Type} [Objects V]

section Build

variable (hook : Int → List UInt8 → Decoding V)

mutual

def build : Packed → Decoding V
  | .nil => return Objects.none
  | .bool b => return Objects.bool b
  | .int n => return Objects.int n
  | .float bits => return Objects.float bits
  | .str s => return Objects.str s
  | .bin b => return Objects.bytes b
  | .array xs => do
      return Objects.list (← buildAll xs)
  | .map items => do
      let built ← buildItems items
      .lift (Objects.dict built)
  | .ext code data => hook code data
  | .malformed => .raise

def buildAll : List Packed → Decoding (List V)
  | [] => return []
  | x :: xs => do
      let v ← build x
      return v :: (← buildAll xs)

def buildItems : List (Packed × Packed) → Decoding (List (V × V))
  | [] => return []
  | (k, x) :: items => do
      let key ← build k
      let v ← build x
      return (key, v) :: (← buildItems items)

end

end Build

-- The hook unpacks what an extension holds by itself; the interpreter allows so many calls deep.
def unpackMsgpack (parse : List UInt8 → Packed) (allowed : AllowedModules) :
    Nat → List UInt8 → Decoding V
  | 0, _ => .raise
  | depth + 1, data =>
      build (msgpackExtHook allowed (unpackMsgpack parse allowed depth)) (parse data)

def JsonPlusSerializer.loadsMsgpack (s : JsonPlusSerializer) (parse : List UInt8 → Packed)
    (depth : Nat) (data : List UInt8) : Decoding V :=
  unpackMsgpack parse s.allowedMsgpackModules depth data

end Decoding

section Guarded

def SafeType (module name : PyStr) : Prop :=
  ∃ t ∈ safeMsgpackTypes, PyStr.ofString t.1 = module ∧ PyStr.ofString t.2 = name

def SafeMethod (module name method : PyStr) : Prop :=
  ∃ t ∈ safeMsgpackMethods, PyStr.ofString t.1 = module ∧ PyStr.ofString t.2.1 = name ∧
    PyStr.ofString t.2.2 = method

def AllowedModules.Lists : AllowedModules → PyStr → PyStr → Prop
  | .only modules, module, name => (module, name) ∈ modules
  | _, _, _ => False

def Called.Permitted (allowed : AllowedModules) : Called → Prop
  | .constructor module name | .modelConstruct module name =>
      SafeType module name ∨ allowed.Lists module name
  | .method module name called => SafeMethod module name called
  | .numpyArray | .deltaSnapshot => True

variable {V : Type} [Objects V] {allowed : AllowedModules}

open Traced

theorem checkAllowed_permits (hstrict : allowed ≠ .all) {module name : PyStr}
    (h : checkAllowed allowed module name = true) :
    SafeType module name ∨ allowed.Lists module name := by
  simp only [checkAllowed, Bool.or_eq_true] at h
  rcases h with hsafe | hlisted
  · obtain ⟨t, ht, hmatch⟩ := List.any_eq_true.mp hsafe
    rw [Bool.and_eq_true, decide_eq_true_eq, decide_eq_true_eq] at hmatch
    exact .inl ⟨t, ht, hmatch⟩
  · cases allowed with
    | all => exact absurd rfl hstrict
    | only modules =>
      have hmem : (module, name) ∈ modules := of_decide_eq_true hlisted
      exact .inr hmem
    | safe => cases hlisted

theorem checkAllowedMethod_permits {module name method : PyStr}
    (h : checkAllowedMethod module name method = true) : SafeMethod module name method := by
  obtain ⟨t, ht, hmatch⟩ := List.any_eq_true.mp h
  rw [Bool.and_eq_true, Bool.and_eq_true, decide_eq_true_eq, decide_eq_true_eq,
    decide_eq_true_eq] at hmatch
  exact ⟨t, ht, hmatch.1.1, hmatch.1.2, hmatch.2⟩

theorem checkAllowedItems_true (hstrict : allowed ≠ .all) {tup : V}
    (h : (checkAllowedItems allowed tup).result = some true) :
    ∃ module name, (Objects.item tup 0).bind Objects.text = some module ∧
      (Objects.item tup 1).bind Objects.text = some name ∧
      checkAllowed allowed module name = true := by
  obtain ⟨module, hmodule, h⟩ := result_bind h
  obtain ⟨name, hname, h⟩ := result_bind h
  have hmodule' : Objects.item tup 0 = some module := hmodule
  have hname' : Objects.item tup 1 = some name := hname
  split at h
  · split at h
    · rename_i m n hm hn
      refine ⟨m, n, ?_, ?_, Option.some.inj h⟩
      · rw [hmodule', Option.bind_some, hm]
      · rw [hname', Option.bind_some, hn]
    · have hfalse := Option.some.inj h
      split at hfalse
      · exact absurd rfl hstrict
      · cases hfalse
  · cases h

theorem checkAllowedMethodItems_true {tup : V}
    (h : (checkAllowedMethodItems tup).result = some true) :
    ∃ module name method, (Objects.item tup 0).bind Objects.text = some module ∧
      (Objects.item tup 1).bind Objects.text = some name ∧
      (Objects.item tup 3).bind Objects.text = some method ∧
      checkAllowedMethod module name method = true := by
  obtain ⟨module, hmodule, h⟩ := result_bind h
  obtain ⟨name, hname, h⟩ := result_bind h
  obtain ⟨method, hmethod, h⟩ := result_bind h
  have hmodule' : Objects.item tup 0 = some module := hmodule
  have hname' : Objects.item tup 1 = some name := hname
  have hmethod' : Objects.item tup 3 = some method := hmethod
  split at h
  · split at h
    · rename_i m n k hm hn hk
      refine ⟨m, n, k, ?_, ?_, ?_, Option.some.inj h⟩
      · rw [hmodule', Option.bind_some, hm]
      · rw [hname', Option.bind_some, hn]
      · rw [hmethod', Option.bind_some, hk]
    · cases h
  · cases h

theorem callee_result {tup : V} {c : Callee V} (h : (callee tup).result = some c) :
    (Objects.item tup 0).bind Objects.text = some c.module ∧
      (Objects.item tup 1).bind Objects.text = some c.name := by
  obtain ⟨module, hmodule, h⟩ := result_bind h
  obtain ⟨name, hname, h⟩ := result_bind h
  obtain ⟨object, -, h⟩ := result_bind h
  cases h
  exact ⟨hmodule, hname⟩

theorem all_callee {P : Called → Prop} (tup : V) : All P (callee tup) :=
  all_bind (all_lift _) fun _ _ => all_bind (all_lift _) fun _ _ =>
    all_bind (all_lift _) fun _ _ => all_pure _

theorem all_checkAllowedItems {P : Called → Prop} (tup : V) :
    All P (checkAllowedItems allowed tup) := by
  refine all_bind (all_lift _) fun _ _ => all_bind (all_lift _) fun _ _ => ?_
  split
  · split
    · exact all_pure _
    · exact all_pure _
  · exact all_raise

theorem all_checkAllowedMethodItems {P : Called → Prop} (tup : V) :
    All P (checkAllowedMethodItems tup) := by
  refine all_bind (all_lift _) fun _ _ => all_bind (all_lift _) fun _ _ =>
    all_bind (all_lift _) fun _ _ => ?_
  split
  · split
    · exact all_pure _
    · exact all_pure _
  · exact all_raise

-- What the check has let through is what is imported.
theorem permitted_callee (hstrict : allowed ≠ .all) {tup : V} {c : Callee V}
    (hcheck : (checkAllowedItems allowed tup).result = some true)
    (hcallee : (callee tup).result = some c) :
    SafeType c.module c.name ∨ allowed.Lists c.module c.name := by
  obtain ⟨module, name, hmodule, hname, hallowed⟩ := checkAllowedItems_true hstrict hcheck
  obtain ⟨hmodule', hname'⟩ := callee_result hcallee
  rw [hmodule] at hmodule'
  rw [hname] at hname'
  cases hmodule'
  cases hname'
  exact checkAllowed_permits hstrict hallowed

omit [Objects V] in
theorem all_constructed {apply : V → V → Option V} {c : Callee V} {arg : V}
    (h : SafeType c.module c.name ∨ allowed.Lists c.module c.name) :
    All (Called.Permitted allowed) (constructed apply c arg) :=
  all_bind (all_note h) fun _ _ => all_lift _

theorem all_modelConstructed {fallback : PyStr} {c : Callee V} {kwargs : V}
    (h : SafeType c.module c.name ∨ allowed.Lists c.module c.name) :
    All (Called.Permitted allowed) (modelConstructed fallback c kwargs) :=
  all_bind (all_lift _) fun _ _ => all_bind (all_note h) fun _ _ => all_lift _

theorem all_sent (args : V) : All (Called.Permitted allowed) (sent args) := by
  have hsafe : SafeType (PyStr.ofString "langgraph.types") (PyStr.ofString "Send") :=
    ⟨("langgraph.types", "Send"), by decide, rfl, rfl⟩
  exact all_bind (all_note (.inl hsafe)) fun _ _ => all_lift _

section Codes

variable {unpacked : Decoding V}

theorem all_constructorExtHook (hstrict : allowed ≠ .all) {apply : V → V → Option V}
    (h : All (Called.Permitted allowed) unpacked) :
    All (Called.Permitted allowed) (constructorExtHook allowed apply unpacked) := by
  refine all_except (all_bind h fun tup _ => all_bind (all_checkAllowedItems tup)
    fun ok hok => ?_) (all_pure _)
  split
  · rename_i htrue
    refine all_bind (all_callee tup) fun c hc => all_bind (all_lift _) fun arg _ => ?_
    exact all_constructed (permitted_callee hstrict (htrue ▸ hok) hc)
  · exact all_lift _

theorem all_posArgsHook (hstrict : allowed ≠ .all)
    (h : All (Called.Permitted allowed) unpacked) :
    All (Called.Permitted allowed) (posArgsHook allowed unpacked) := by
  refine all_except (all_bind h fun tup _ => all_bind (all_checkAllowedItems tup)
    fun ok hok => ?_) (all_pure _)
  split
  · rename_i htrue
    have hsend : All (Called.Permitted allowed) (namesSend tup) :=
      all_bind (all_lift _) fun _ _ => all_bind (all_lift _) fun _ _ => all_pure _
    refine all_bind hsend fun isSend _ => ?_
    split
    · exact all_bind (all_lift _) fun args _ => all_sent args
    · refine all_bind (all_callee tup) fun c hc => all_bind (all_lift _) fun arg _ => ?_
      exact all_constructed (permitted_callee hstrict (htrue ▸ hok) hc)
  · exact all_lift _

theorem all_methodHook (h : All (Called.Permitted allowed) unpacked) :
    All (Called.Permitted allowed) (methodHook unpacked) := by
  refine all_except (all_bind h fun tup _ => all_bind (all_checkAllowedMethodItems tup)
    fun ok hok => ?_) (all_pure _)
  split
  · rename_i htrue
    obtain ⟨module, name, method, hmodule, hname, hmethod, hallowed⟩ :=
      checkAllowedMethodItems_true (htrue ▸ hok)
    refine all_bind (all_callee tup) fun c hc => all_bind (all_lift _) fun called hcalled => ?_
    obtain ⟨hmodule', hname'⟩ := callee_result hc
    have hcalled' : (Objects.item tup 3).bind Objects.text = some called := hcalled
    rw [hmodule] at hmodule'
    rw [hname] at hname'
    rw [hmethod] at hcalled'
    refine all_bind (all_lift _) fun object _ => all_bind (all_lift _) fun arg _ =>
      all_bind (all_note ?_) fun _ _ => all_lift _
    rw [Called.Permitted, ← Option.some.inj hmodule', ← Option.some.inj hname',
      ← Option.some.inj hcalled']
    exact checkAllowedMethod_permits hallowed
  · exact all_lift _

theorem all_pydanticHook (hstrict : allowed ≠ .all) (fallback : PyStr)
    (h : All (Called.Permitted allowed) unpacked) :
    All (Called.Permitted allowed) (pydanticHook allowed fallback unpacked) := by
  rw [pydanticHook]
  split
  · rename_i tup _
    refine all_bind h fun _ _ => all_except ?_ (all_lift _)
    refine all_bind (all_checkAllowedItems tup) fun ok hok => ?_
    split
    · rename_i htrue
      refine all_bind (all_callee tup) fun c hc => ?_
      have hpermitted := permitted_callee hstrict (htrue ▸ hok) hc
      exact all_except (all_bind (all_lift _) fun arg _ => all_constructed hpermitted)
        (all_bind (all_lift _) fun kwargs _ => all_modelConstructed hpermitted)
    · exact all_lift _
  · exact all_except h (all_pure _)

theorem all_numpyHook (h : All (Called.Permitted allowed) unpacked) :
    All (Called.Permitted allowed) (numpyHook unpacked) :=
  all_except (all_bind h fun _ _ => all_bind (all_note trivial) fun _ _ => all_lift _) (all_pure _)

theorem all_deltaHook (h : All (Called.Permitted allowed) unpacked) :
    All (Called.Permitted allowed) (deltaHook unpacked) :=
  all_bind h fun _ _ => all_bind (all_note trivial) fun _ _ => all_pure _

end Codes

theorem all_msgpackExtHook (hstrict : allowed ≠ .all) {unpack : List UInt8 → Decoding V}
    (h : ∀ data, All (Called.Permitted allowed) (unpack data)) (code : Int) (data : List UInt8) :
    All (Called.Permitted allowed) (msgpackExtHook allowed unpack code data) := by
  rw [msgpackExtHook]
  split_ifs
  · exact all_deltaHook (h data)
  · exact all_constructorExtHook hstrict (h data)
  · exact all_posArgsHook hstrict (h data)
  · exact all_constructorExtHook hstrict (h data)
  · exact all_methodHook (h data)
  · exact all_pydanticHook hstrict _ (h data)
  · exact all_pydanticHook hstrict _ (h data)
  · exact all_numpyHook (h data)
  · exact all_pure _

section Built

variable {P : Called → Prop} {hook : Int → List UInt8 → Decoding V}

mutual

theorem all_build (h : ∀ code data, All P (hook code data)) : ∀ p, All P (build hook p)
  | .nil | .bool _ | .int _ | .float _ | .str _ | .bin _ => all_pure _
  | .array xs => all_bind (all_buildAll h xs) fun _ _ => all_pure _
  | .map items => all_bind (all_buildItems h items) fun _ _ => all_lift _
  | .ext code data => h code data
  | .malformed => all_raise

theorem all_buildAll (h : ∀ code data, All P (hook code data)) :
    ∀ xs, All P (buildAll hook xs)
  | [] => all_pure _
  | x :: xs => all_bind (all_build h x) fun _ _ =>
      all_bind (all_buildAll h xs) fun _ _ => all_pure _

theorem all_buildItems (h : ∀ code data, All P (hook code data)) :
    ∀ items, All P (buildItems hook items)
  | [] => all_pure _
  | (k, x) :: items => all_bind (all_build h k) fun _ _ => all_bind (all_build h x) fun _ _ =>
      all_bind (all_buildItems h items) fun _ _ => all_pure _

end

end Built

theorem all_unpackMsgpack (hstrict : allowed ≠ .all) (parse : List UInt8 → Packed) (depth : Nat)
    (data : List UInt8) :
    All (Called.Permitted allowed) (unpackMsgpack parse allowed depth data : Decoding V) := by
  induction depth generalizing data with
  | zero => exact all_raise
  | succ depth ih => exact all_build (all_msgpackExtHook hstrict ih) (parse data)

end Guarded

section Allowlist

inductive ModuleKey where
  | tuple (parts : List PyStr)
  | type (module name : PyStr)

-- A tuple that is no pair is equal to no `(module, name)`.
def ModuleKey.pair? : ModuleKey → Option (PyStr × PyStr)
  | .tuple [module, name] => some (module, name)
  | .tuple _ => none
  | .type module name => some (module, name)

def normalizeModuleKeys (keys : List ModuleKey) : List (PyStr × PyStr) :=
  keys.filterMap ModuleKey.pair?

def JsonPlusSerializer.withMsgpackAllowlist (s : JsonPlusSerializer)
    (extraAllowlist : List ModuleKey) : JsonPlusSerializer :=
  match s.allowedMsgpackModules with
  | .all => s
  | .only base => s.merged base (normalizeModuleKeys extraAllowlist)
  | .safe => s.merged [] (normalizeModuleKeys extraAllowlist)

variable {s : JsonPlusSerializer}

theorem lists_merged {base extra : List (PyStr × PyStr)} {module name : PyStr}
    (hbase : s.allowedMsgpackModules.Lists module name ↔ (module, name) ∈ base) :
    (s.merged base extra).allowedMsgpackModules.Lists module name ↔
      s.allowedMsgpackModules.Lists module name ∨ (module, name) ∈ extra := by
  rw [JsonPlusSerializer.merged]
  split
  · rename_i hall
    have hextra : (module, name) ∈ extra → (module, name) ∈ base := fun h =>
      of_decide_eq_true (List.all_eq_true.mp hall _ h)
    rw [hbase]
    exact ⟨.inl, fun h => h.elim id hextra⟩
  · rw [hbase]
    exact List.mem_append

theorem lists_withMsgpackAllowlist (hstrict : s.allowedMsgpackModules ≠ .all)
    (extra : List ModuleKey) (module name : PyStr) :
    (s.withMsgpackAllowlist extra).allowedMsgpackModules.Lists module name ↔
      s.allowedMsgpackModules.Lists module name ∨ (module, name) ∈ normalizeModuleKeys extra := by
  rw [JsonPlusSerializer.withMsgpackAllowlist]
  split
  · rename_i hall
    exact absurd hall hstrict
  · rename_i base hbase
    exact lists_merged (by rw [hbase]; rfl)
  · rename_i hsafe
    exact lists_merged (by rw [hsafe]; exact iff_of_false id List.not_mem_nil)

theorem strict_withMsgpackAllowlist (hstrict : s.allowedMsgpackModules ≠ .all)
    (extra : List ModuleKey) : (s.withMsgpackAllowlist extra).allowedMsgpackModules ≠ .all := by
  have hmerged (base : List (PyStr × PyStr)) :
      (s.merged base (normalizeModuleKeys extra)).allowedMsgpackModules ≠ .all := by
    rw [JsonPlusSerializer.merged]
    split
    · exact hstrict
    · exact nofun
  rw [JsonPlusSerializer.withMsgpackAllowlist]
  split
  · exact hstrict
  · exact hmerged _
  · exact hmerged _

end Allowlist

theorem strict_decoding_guarded {V : Type} [Objects V] (s : JsonPlusSerializer)
    (hstrict : s.allowedMsgpackModules ≠ .all) :
    (∀ (parse : List UInt8 → Packed) (depth : Nat) (data : List UInt8),
        ∀ c ∈ (s.loadsMsgpack parse depth data : Decoding V).trace,
          c.Permitted s.allowedMsgpackModules) ∧
      ∀ extra : List ModuleKey, (s.withMsgpackAllowlist extra).allowedMsgpackModules ≠ .all ∧
        ∀ module name, (s.withMsgpackAllowlist extra).allowedMsgpackModules.Lists module name ↔
          s.allowedMsgpackModules.Lists module name ∨
            (module, name) ∈ normalizeModuleKeys extra :=
  ⟨all_unpackMsgpack hstrict, fun extra =>
    ⟨strict_withMsgpackAllowlist hstrict extra, lists_withMsgpackAllowlist hstrict extra⟩⟩

-- As much of an interpreter as the constructor of a decimal needs.
instance decimalObjects : Objects (PyObject Unit Unit) where
  none := .none
  bool := .bool
  int := .int
  float := .float
  str := .str
  bytes := .bytes
  list := .list
  dict _ := Option.none
  deltaSnapshot := .deltaSnapshot
  item
    | .list xs, i => xs[i]?
    | _, _ => Option.none
  text
    | .str s => some s
    | _ => Option.none
  hashable := PyObject.hashable
  importFrom module name :=
    if module = PyStr.ofString "decimal" ∧ name = PyStr.ofString "Decimal" then
      some (.str (PyStr.ofString "decimal.Decimal"))
    else Option.none
  getattr _ _ := Option.none
  call
    | .str _, .str _ => some (.decimal ())
    | _, _ => Option.none
  callArgs _ _ := Option.none
  callKwargs _ _ := Option.none
  sendFromArgs _ := Option.none
  frombuffer _ := Option.none

-- `["decimal", "Decimal", "7"]`
def decimalPayload : List UInt8 :=
  [0x93, 0xa7, 0x64, 0x65, 0x63, 0x69, 0x6d, 0x61, 0x6c, 0xa7, 0x44, 0x65, 0x63, 0x69, 0x6d, 0x61,
    0x6c, 0xa1, 0x37]

def decimalBytes : List UInt8 := [0xc7, 0x13, 0x00] ++ decimalPayload

def parseDecimal (data : List UInt8) : Packed :=
  if data = decimalBytes then .ext 0 decimalPayload
  else if data = decimalPayload then
    .array [.str (PyStr.ofString "decimal"), .str (PyStr.ofString "Decimal"),
      .str (PyStr.ofString "7")]
  else .malformed

def strictSerializer : JsonPlusSerializer := ⟨false, .safe⟩

theorem strict_decoding_guarded_decimal :
    (strictSerializer.loadsMsgpack parseDecimal 2 decimalBytes :
        Decoding (PyObject Unit Unit)).trace =
      [.constructor (PyStr.ofString "decimal") (PyStr.ofString "Decimal")] ∧
      ∀ c ∈ (strictSerializer.loadsMsgpack parseDecimal 2 decimalBytes :
        Decoding (PyObject Unit Unit)).trace, c.Permitted strictSerializer.allowedMsgpackModules :=
  ⟨rfl, (strict_decoding_guarded strictSerializer nofun).1 parseDecimal 2 decimalBytes⟩

end Serde

end LangGraph
