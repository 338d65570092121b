import Earliest.Config
import Earliest.Json.Tree

/-! A reader of settings in JSON, to run programs with: an object by name, or an array in a fixed
order. A setting that is absent has its default. Members of other names are passed over. -/

namespace Earliest.Config

/-- A setting's value is a plain integer of 64 bits. -/
def documentValue? : Json → Option UInt64
  | .number (some n) => if n < sizeRange then some (.ofNat n) else none
  | _ => none

/-- The value of a member that may be absent but not repeated. -/
def member? (s : Setting) (members : List (Option String × Json)) : Option UInt64 :=
  match members.filter fun m => m.1 == some s.name with
  | [] => some (.ofNat (s.value default))
  | [m] => documentValue? m.2
  | _ => none

/-- A document that says nothing. -/
def silent : Document := ⟨.ofNat default.memoryLimit, .ofNat default.minCapacity⟩

def ofJson? : Json → Option Document
  | .object members =>
    if members.all fun m => m.1.isSome then
      match member? .memoryLimit members, member? .groupArrayMinCapacity members with
      | some limit, some capacity => some ⟨limit, capacity⟩
      | _, _ => none
    else none
  | .array [] => some silent
  | .array [limit] => (documentValue? limit).map fun n => { silent with memoryLimit := n }
  | .array [limit, capacity] =>
    match documentValue? limit, documentValue? capacity with
    | some limit, some capacity => some ⟨limit, capacity⟩
    | _, _ => none
  | _ => none

def readJson (text : String) : Option Document := (Json.parse text).bind ofJson?

end Earliest.Config
