import BehaviorTree.Config
import BehaviorTree.Yaml.Value

/-! Configurations written in YAML: a mapping in which every setting may be missing. -/
namespace BehaviorTree

inductive ConfigError where
  | yaml
  | zeroDepth
  deriving DecidableEq, Repr

/-- The text of a failure that is not one of YAML itself. -/
def ConfigError.message : ConfigError → String
  | yaml => "the text is not the YAML form of a configuration"
  | zeroDepth => "max_tick_depth must be at least 1"

namespace Yaml

/-- The number written by digits of a base up to 16; no digits write none. -/
def digits? (base : Nat) (cs : List Char) : Option Nat :=
  if cs.isEmpty then none
  else
    cs.foldlM (fun n c => do
      let d ← hexValue? c
      if d < base then return base * n + d else none) 0

/-- The number of a plain scalar: decimal without leading zeros, or in another base by its mark; a plus
may come first. -/
def nat? (bound : Nat) : Yaml → Option Nat
  | .plain text => do
    let n ← match text with
      | '+' :: cs => unsigned? cs
      | cs => unsigned? cs
    if n < bound then return n else none
  | _ => none
where
  unsigned? : List Char → Option Nat
    | '0' :: 'x' :: cs => digits? 16 cs
    | '0' :: 'o' :: cs => digits? 8 cs
    | '0' :: 'b' :: cs => digits? 2 cs
    | '0' :: c :: cs => if (c :: cs).all Char.isDigit then none else digits? 10 (c :: cs)
    | cs => digits? 10 cs

/-- The truth value of a plain scalar. -/
def bool? : Yaml → Option Bool
  | .plain text =>
    if text ∈ ["true".toList, "True".toList, "TRUE".toList] then some true
    else if text ∈ ["false".toList, "False".toList, "FALSE".toList] then some false
    else none
  | _ => none

/-- The entries of a mapping with their keys read; a missing value has none. -/
def fields? : Yaml → Option (List (List Char × Yaml))
  | .plain [] => some []
  | .mapping entries => entries.mapM fun e => do return (← e.1.text?, e.2)
  | _ => none

/-- The value of a setting, read by `read`, or its default if it is missing; none may come twice. -/
def setting? {α : Type} (fields : List (List Char × Yaml)) (name : String) (read : Yaml → Option α)
    (default : α) : Option α :=
  match fields.filter (·.1 = name.toList) with
  | [] => some default
  | [f] => read f.2
  | _ => none

end Yaml

namespace Config

def ofYaml? (v : Yaml) : Option Config := do
  let fields ← v.fields?
  let maxTickDepth ← Yaml.setting? fields "max_tick_depth" (Yaml.nat? UInt64.size) default.maxTickDepth
  let trace ← Yaml.setting? fields "trace" Yaml.bool? default.trace
  return { maxTickDepth, trace }

/-- The configuration written by a text. -/
def ofText (text : String) : Except ConfigError Config :=
  match (Yaml.parse? text.toList).bind ofYaml? with
  | none => .error .yaml
  | some c => if c.maxTickDepth = 0 then .error .zeroDepth else .ok c

end Config
end BehaviorTree
