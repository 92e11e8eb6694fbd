import LangGraph.Store.Filters

namespace LangGraph

open Store

namespace JsonText

def hexDigit (n : Nat) : Char :=
  if n < 10 then Char.ofNat (48 + n) else Char.ofNat (87 + n)

def unicodeEscape (n : Nat) : List Char :=
  [Char.ofNat 92, Char.ofNat 117, hexDigit (n / 4096 % 16), hexDigit (n / 256 % 16),
    hexDigit (n / 16 % 16), hexDigit (n % 16)]

def shortEscapes : List (Nat × Nat) :=
  [(34, 34), (92, 92), (10, 110), (13, 114), (9, 116), (8, 98), (12, 102)]

def escapeChar (ensureAscii : Bool) (c : Char) : List Char :=
  match shortEscapes.find? (fun e => e.1 = c.toNat) with
  | some e => [Char.ofNat 92, Char.ofNat e.2]
  | none =>
      if c.toNat < 32 then unicodeEscape c.toNat
      else if ensureAscii && 127 ≤ c.toNat then
        if c.toNat < 65536 then unicodeEscape c.toNat
        else
          unicodeEscape (55296 + (c.toNat - 65536) / 1024) ++
            unicodeEscape (56320 + (c.toNat - 65536) % 1024)
      else [c]

def quote (ensureAscii : Bool) (s : String) : String :=
  String.ofList (Char.ofNat 34 :: s.toList.flatMap (escapeChar ensureAscii) ++ [Char.ofNat 34])

end JsonText

open JsonText

section Dumps

-- `json.dumps` without blanks after its separators; `repr` is `float.__repr__`.
variable {F : Type} (repr : F → String) (ensureAscii : Bool)

mutual

def jsonDumps : Json F → String
  | .null => "null"
  | .bool b => if b then "true" else "false"
  | .int n => toString n
  | .float x => repr x
  | .str s => quote ensureAscii s
  | .list xs => "[" ++ String.intercalate "," (jsonDumpsList xs) ++ "]"
  | .dict items =>
      String.ofList [Char.ofNat 123] ++ String.intercalate "," (jsonDumpsItems items) ++
        String.ofList [Char.ofNat 125]

def jsonDumpsList : List (Json F) → List String
  | [] => []
  | x :: xs => jsonDumps x :: jsonDumpsList xs

def jsonDumpsItems : List (String × Json F) → List String
  | [] => []
  | (k, x) :: items => (quote ensureAscii k ++ ":" ++ jsonDumps x) :: jsonDumpsItems items

end

end Dumps

example : jsonDumps (fun (_ : Int) => "") true (.list [.str "é", .int 1]) =
    String.ofList ['[', '"', '\\', 'u', '0', '0', 'e', '9', '"', ',', '1', ']'] := by
  decide +kernel

end LangGraph
