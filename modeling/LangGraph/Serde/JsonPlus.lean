import LangGraph.Collections.Dict
import Mathlib.Algebra.Ring.Int.Defs

namespace LangGraph

open Collections

namespace Serde

-- A Python string is any sequence of code points, lone surrogates among them.
abbrev CodePoint := Fin 0x110000

abbrev PyStr := List CodePoint

def CodePoint.surrogate (c : CodePoint) : Bool := 0xD800 ≤ c.val && c.val ≤ 0xDFFF

def CodePoint.ofChar (c : Char) : CodePoint := ⟨c.toNat, by
  rcases c.valid with h | h
  · exact Nat.lt_trans h (by decide)
  · exact h.2⟩

def PyStr.ofString (s : String) : PyStr := s.toList.map CodePoint.ofChar

-- OPT_REPLACE_SURROGATES
def PyStr.replaceSurrogates (s : PyStr) : String :=
  String.ofList (s.map (fun c => if c.surrogate then '?' else Char.ofNat c))

-- A type whose constructor reads the text of its objects back.
class PyText (α : Type) where
  text : α → String
  ofText : PyStr → Option α
  ofText_text : ∀ a, ofText (PyStr.ofString (text a)) = some a

def daysInMonth (year month : Int) : Int :=
  if month = 2 then
    if year % 4 = 0 ∧ (year % 100 ≠ 0 ∨ year % 400 = 0) then 29 else 28
  else if month = 4 ∨ month = 6 ∨ month = 9 ∨ month = 11 then 30 else 31

structure Date where
  year : Int
  month : Int
  day : Int
  valid : (1 ≤ year ∧ year ≤ 9999) ∧ (1 ≤ month ∧ month ≤ 12) ∧
    (1 ≤ day ∧ day ≤ daysInMonth year month)

def Date.new (year month day : Int) : Option Date :=
  if h : (1 ≤ year ∧ year ≤ 9999) ∧ (1 ≤ month ∧ month ≤ 12) ∧
      (1 ≤ day ∧ day ≤ daysInMonth year month) then
    some ⟨year, month, day, h⟩
  else none

structure Timedelta where
  days : Int
  seconds : Int
  microseconds : Int
  valid : (-999999999 ≤ days ∧ days ≤ 999999999) ∧ (0 ≤ seconds ∧ seconds < 86400) ∧
    (0 ≤ microseconds ∧ microseconds < 1000000)

def Timedelta.new (days seconds microseconds : Int) : Option Timedelta :=
  let carried := seconds + microseconds / 1000000
  let total := days + carried / 86400
  if h : -999999999 ≤ total ∧ total ≤ 999999999 then
    some ⟨total, carried % 86400, microseconds % 1000000, h,
      ⟨Int.emod_nonneg _ (by decide), Int.emod_lt_of_pos _ (by decide)⟩,
      ⟨Int.emod_nonneg _ (by decide), Int.emod_lt_of_pos _ (by decide)⟩⟩
  else none

abbrev FloatBits := BitVec 64

def FloatBits.positive (f : FloatBits) : Bool := 0 < f.toNat && f.toNat ≤ 0x7FF0000000000000

-- A policy as `TimeoutPolicy.coerce` leaves it.
structure TimeoutPolicy where
  runTimeout : Option {f : FloatBits // f.positive = true}
  idleTimeout : Option {f : FloatBits // f.positive = true}
  heartbeat : Bool
  bounded : runTimeout.isSome || idleTimeout.isSome

inductive CollectionKind where
  | set
  | frozenset
  | deque
  deriving DecidableEq

inductive PyObject (U D : Type) where
  | none
  | bool (b : Bool)
  | int (n : Int)
  | float (bits : FloatBits)
  | str (s : PyStr)
  | bytes (b : List UInt8)
  | list (xs : List (PyObject U D))
  | tuple (xs : List (PyObject U D))
  | dict (items : List (PyStr × PyObject U D))
  | collection (kind : CollectionKind) (xs : List (PyObject U D))
  | uuid (u : U)
  | decimal (d : D)
  | date (d : Date)
  | timedelta (t : Timedelta)
  | timeoutPolicy (p : TimeoutPolicy)
  | send (node : PyStr) (arg : PyObject U D) (timeout : Option TimeoutPolicy)
  | deltaSnapshot (value : PyObject U D)

-- What an extension holds is the packed form of its payload.
inductive Msgpack where
  | nil
  | bool (b : Bool)
  | int (n : Int)
  | float64 (bits : FloatBits)
  | str (s : String)
  | bin (b : List UInt8)
  | array (xs : List Msgpack)
  | map (items : List (String × Msgpack))
  | ext (code : Nat) (data : Msgpack)

def extConstructorSingleArg : Nat := 0
def extConstructorPosArgs : Nat := 1
def extConstructorKwArgs : Nat := 2
def extDeltaSnapshot : Nat := 7

def packedInt (n : Int) : Option Msgpack :=
  if -2 ^ 63 ≤ n ∧ n < 2 ^ 64 then some (.int n) else none

def constructorExt (code : Nat) (module name : String) (arg : Msgpack) : Msgpack :=
  .ext code (.array [.str module, .str name, arg])

def CollectionKind.module : CollectionKind → String
  | .set => "builtins"
  | .frozenset => "builtins"
  | .deque => "collections"

def CollectionKind.name : CollectionKind → String
  | .set => "set"
  | .frozenset => "frozenset"
  | .deque => "deque"

def packedSeconds : Option {f : FloatBits // f.positive = true} → Msgpack
  | some f => .float64 f.1
  | none => .nil

def packedTimeout (p : TimeoutPolicy) : Msgpack :=
  constructorExt extConstructorKwArgs "langgraph.types" "TimeoutPolicy"
    (.map [("run_timeout", packedSeconds p.runTimeout),
      ("idle_timeout", packedSeconds p.idleTimeout),
      ("refresh_on", .str (if p.heartbeat then "heartbeat" else "auto"))])

section Packing

variable {U D : Type} [PyText U] [PyText D]

mutual

-- `none` is the MsgpackEncodeError.
def msgpackEnc : PyObject U D → Option Msgpack
  | .none => some .nil
  | .bool b => some (.bool b)
  | .int n => packedInt n
  | .float bits => some (.float64 bits)
  | .str s => some (.str s.replaceSurrogates)
  | .bytes b => some (.bin b)
  | .list xs => (msgpackEncAll xs).map .array
  | .tuple xs => (msgpackEncAll xs).map .array
  | .dict items => (msgpackEncItems items).map .map
  | .collection kind xs =>
      (msgpackEncAll xs).map (fun ms =>
        constructorExt extConstructorSingleArg kind.module kind.name (.array ms))
  | .uuid u =>
      some (constructorExt extConstructorSingleArg "uuid" "UUID" (.str (PyText.text u)))
  | .decimal d =>
      some (constructorExt extConstructorSingleArg "decimal" "Decimal" (.str (PyText.text d)))
  | .date d =>
      some (constructorExt extConstructorPosArgs "datetime" "date"
        (.array [.int d.year, .int d.month, .int d.day]))
  | .timedelta t =>
      some (constructorExt extConstructorPosArgs "datetime" "timedelta"
        (.array [.int t.days, .int t.seconds, .int t.microseconds]))
  | .timeoutPolicy p => some (packedTimeout p)
  | .send node arg timeout =>
      (msgpackEnc arg).map (fun m =>
        constructorExt extConstructorPosArgs "langgraph.types" "Send"
          (.array ([.str node.replaceSurrogates, m] ++ (timeout.map packedTimeout).toList)))
  | .deltaSnapshot value => (msgpackEnc value).map (.ext extDeltaSnapshot)

def msgpackEncAll : List (PyObject U D) → Option (List Msgpack)
  | [] => some []
  | x :: xs => (msgpackEnc x).bind (fun m => (msgpackEncAll xs).map (m :: ·))

def msgpackEncItems : List (PyStr × PyObject U D) → Option (List (String × Msgpack))
  | [] => some []
  | (k, x) :: xs =>
      (msgpackEnc x).bind (fun m =>
        (msgpackEncItems xs).map ((PyStr.replaceSurrogates k, m) :: ·))

end

end Packing

inductive AllowedModules where
  | all
  | only (modules : List (PyStr × PyStr))
  | safe

def safeMsgpackTypes : List (String × String) :=
  [("datetime", "datetime"), ("datetime", "date"), ("datetime", "time"),
    ("datetime", "timedelta"), ("datetime", "timezone"), ("uuid", "UUID"),
    ("decimal", "Decimal"), ("builtins", "set"), ("builtins", "frozenset"),
    ("collections", "deque"), ("ipaddress", "IPv4Address"), ("ipaddress", "IPv4Interface"),
    ("ipaddress", "IPv4Network"), ("ipaddress", "IPv6Address"), ("ipaddress", "IPv6Interface"),
    ("ipaddress", "IPv6Network"), ("pathlib", "Path"), ("pathlib", "PosixPath"),
    ("pathlib", "WindowsPath"), ("pathlib._local", "Path"), ("pathlib._local", "PosixPath"),
    ("pathlib._local", "WindowsPath"), ("zoneinfo", "ZoneInfo"), ("re", "compile"),
    ("langchain_core.messages.base", "BaseMessage"),
    ("langchain_core.messages.base", "BaseMessageChunk"),
    ("langchain_core.messages.human", "HumanMessage"),
    ("langchain_core.messages.human", "HumanMessageChunk"),
    ("langchain_core.messages.ai", "AIMessage"), ("langchain_core.messages.ai", "AIMessageChunk"),
    ("langchain_core.messages.system", "SystemMessage"),
    ("langchain_core.messages.system", "SystemMessageChunk"),
    ("langchain_core.messages.chat", "ChatMessage"),
    ("langchain_core.messages.chat", "ChatMessageChunk"),
    ("langchain_core.messages.tool", "ToolMessage"),
    ("langchain_core.messages.tool", "ToolMessageChunk"),
    ("langchain_core.messages.function", "FunctionMessage"),
    ("langchain_core.messages.function", "FunctionMessageChunk"),
    ("langchain_core.messages.modifier", "RemoveMessage"),
    ("langchain_core.documents.base", "Document"), ("langgraph.types", "Send"),
    ("langgraph.types", "TimeoutPolicy"), ("langgraph.types", "Interrupt"),
    ("langgraph.types", "Command"), ("langgraph.types", "StateSnapshot"),
    ("langgraph.types", "PregelTask"), ("langgraph.types", "Overwrite"),
    ("langgraph.store.base", "Item"), ("langgraph.store.base", "GetOp")]

def checkAllowed (allowed : AllowedModules) (module name : PyStr) : Bool :=
  safeMsgpackTypes.any (fun t => PyStr.ofString t.1 = module && PyStr.ofString t.2 = name) ||
    match allowed with
    | .all => true
    | .only modules => (module, name) ∈ modules
    | .safe => false

structure JsonPlusSerializer where
  pickleFallback : Bool
  allowedMsgpackModules : AllowedModules

def JsonPlusSerializer.merged (s : JsonPlusSerializer) (base extra : List (PyStr × PyStr)) :
    JsonPlusSerializer :=
  if extra.all (· ∈ base) then s else { s with allowedMsgpackModules := .only (base ++ extra) }

section Unpacking

variable {U D : Type}

mutual

def PyObject.hashable : PyObject U D → Bool
  | .list _ | .dict _ => false
  | .tuple xs => PyObject.hashableAll xs
  | .collection kind _ => kind = .frozenset
  | .send _ arg _ => arg.hashable
  | .deltaSnapshot value => value.hashable
  | _ => true

def PyObject.hashableAll : List (PyObject U D) → Bool
  | [] => true
  | x :: xs => x.hashable && PyObject.hashableAll xs

end

-- `same` is Python's equality of set elements.
def insertAll (same : PyObject U D → PyObject U D → Bool) (xs : List (PyObject U D)) :
    List (PyObject U D) :=
  xs.foldl (fun acc x => if acc.any (fun y => same y x) then acc else acc ++ [x]) []

def CollectionKind.new (same : PyObject U D → PyObject U D → Bool) (kind : CollectionKind)
    (xs : List (PyObject U D)) : Option (PyObject U D) :=
  match kind with
  | .deque => some (.collection .deque xs)
  | kind => if PyObject.hashableAll xs then some (.collection kind (insertAll same xs)) else none

variable [PyText U] [PyText D]

-- The constructors that some value is written with.
def constructSingleArg (same : PyObject U D → PyObject U D → Bool) (module name : PyStr)
    (arg : PyObject U D) : Option (PyObject U D) :=
  let is (m n : String) : Bool := PyStr.ofString m = module && PyStr.ofString n = name
  match arg with
  | .list xs =>
      if is "builtins" "set" then CollectionKind.set.new same xs
      else if is "builtins" "frozenset" then CollectionKind.frozenset.new same xs
      else if is "collections" "deque" then CollectionKind.deque.new same xs
      else none
  | .str s =>
      if is "uuid" "UUID" then (PyText.ofText s).map .uuid
      else if is "decimal" "Decimal" then (PyText.ofText s).map .decimal
      else none
  | _ => none

-- `_send_from_args`
def sendFromArgs : List (PyObject U D) → Option (PyObject U D)
  | [.str node, arg] => some (.send node arg none)
  | [.str node, arg, .none] => some (.send node arg none)
  | [.str node, arg, .timeoutPolicy p] => some (.send node arg (some p))
  | _ => none

def constructPosArgs (module name : PyStr) : PyObject U D → Option (PyObject U D)
  | .list args =>
      let is (m n : String) : Bool := PyStr.ofString m = module && PyStr.ofString n = name
      if is "langgraph.types" "Send" then sendFromArgs args
      else
        match args with
        | [.int a, .int b, .int c] =>
            if is "datetime" "date" then (Date.new a b c).map .date
            else if is "datetime" "timedelta" then (Timedelta.new a b c).map .timedelta
            else none
        | _ => none
  | _ => none

def secondsArg : Option (PyObject U D) → Option (Option {f : FloatBits // f.positive = true})
  | some .none => some none
  | some (.float f) => if h : f.positive = true then some (some ⟨f, h⟩) else none
  | _ => none

def heartbeatArg : Option (PyObject U D) → Option Bool
  | some (.str s) =>
      if s = PyStr.ofString "heartbeat" then some true
      else if s = PyStr.ofString "auto" then some false
      else none
  | _ => none

def timeoutPolicyOfKwargs (kwargs : List (PyStr × PyObject U D)) : Option TimeoutPolicy :=
  let arg (k : String) := Dict.lookup (PyStr.ofString k) kwargs
  match secondsArg (arg "run_timeout"), secondsArg (arg "idle_timeout"),
      heartbeatArg (arg "refresh_on") with
  | some run, some idle, some heartbeat =>
      if h : (run.isSome || idle.isSome) = true then some ⟨run, idle, heartbeat, h⟩ else none
  | _, _, _ => none

def constructKwArgs (module name : PyStr) : PyObject U D → Option (PyObject U D)
  | .dict kwargs =>
      if PyStr.ofString "langgraph.types" = module && PyStr.ofString "TimeoutPolicy" = name then
        (timeoutPolicyOfKwargs kwargs).map .timeoutPolicy
      else none
  | _ => none

def construct (same : PyObject U D → PyObject U D → Bool) (code : Nat) (module name : PyStr)
    (arg : PyObject U D) : Option (PyObject U D) :=
  if code = extConstructorSingleArg then constructSingleArg same module name arg
  else if code = extConstructorPosArgs then constructPosArgs module name arg
  else if code = extConstructorKwArgs then constructKwArgs module name arg
  else none

-- Every exception of the constructors ends in `return None`.
def extHook (same : PyObject U D → PyObject U D → Bool) (allowed : AllowedModules) (code : Nat)
    (tup : PyObject U D) : PyObject U D :=
  if code = extDeltaSnapshot then .deltaSnapshot tup
  else
    match tup with
    | .list (.str module :: .str name :: arg :: _) =>
        if checkAllowed allowed module name then (construct same code module name arg).getD .none
        else arg
    | _ => .none

mutual

def unpackb (same : PyObject U D → PyObject U D → Bool) (allowed : AllowedModules) :
    Msgpack → PyObject U D
  | .nil => .none
  | .bool b => .bool b
  | .int n => .int n
  | .float64 bits => .float bits
  | .str s => .str (PyStr.ofString s)
  | .bin b => .bytes b
  | .array xs => .list (unpackAll same allowed xs)
  | .map items => .dict (Dict.ofList (unpackItems same allowed items)).items
  | .ext code data => extHook same allowed code (unpackb same allowed data)

def unpackAll (same : PyObject U D → PyObject U D → Bool) (allowed : AllowedModules) :
    List Msgpack → List (PyObject U D)
  | [] => []
  | x :: xs => unpackb same allowed x :: unpackAll same allowed xs

def unpackItems (same : PyObject U D → PyObject U D → Bool) (allowed : AllowedModules) :
    List (String × Msgpack) → List (PyStr × PyObject U D)
  | [] => []
  | (k, x) :: xs => (PyStr.ofString k, unpackb same allowed x) :: unpackItems same allowed xs

end

-- The type and the data that go with it.
inductive Typed (U D : Type) where
  | null
  | bytes (b : List UInt8)
  | msgpack (data : Msgpack)
  | pickle (obj : PyObject U D)

-- `none` where the encoding error is raised.
def JsonPlusSerializer.dumpsTyped (s : JsonPlusSerializer) : PyObject U D → Option (Typed U D)
  | .none => some .null
  | .bytes b => some (.bytes b)
  | obj =>
      match msgpackEnc obj with
      | some data => some (.msgpack data)
      | none => if s.pickleFallback then some (.pickle obj) else none

def JsonPlusSerializer.loadsTyped (same : PyObject U D → PyObject U D → Bool)
    (s : JsonPlusSerializer) : Typed U D → Option (PyObject U D)
  | .null => some .none
  | .bytes b => some (.bytes b)
  | .msgpack data => some (unpackb same s.allowedMsgpackModules data)
  | .pickle obj => if s.pickleFallback then some obj else none

end Unpacking

end Serde

end LangGraph
