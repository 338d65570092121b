import Earliest.Memory.Manager
import Earliest.Scalar.Integer

/-! Settings of grouped aggregation. Each setting has a name and is read and written as
a scalar, and a reset writes the default. A document brings all of them at once. -/

namespace Earliest

structure Config where
  /-- Most bytes that all accumulators together may reserve; zero for no limit. -/
  memoryLimit : Nat
  /-- Slots to take the first time a group array grows. -/
  minCapacity : Nat
  deriving DecidableEq

namespace Config

def default : Config := ⟨0, 1024⟩

def maxMinCapacity : Nat := 16777216

def checkMinCapacity (n : Nat) : Except Fault Unit :=
  if maxMinCapacity < n then .error (.minCapacityRange maxMinCapacity) else .ok ()

/-- The manager that enforces the memory limit. -/
def manager (c : Config) : Manager :=
  .new (if c.memoryLimit = 0 then none else some c.memoryLimit)

end Config

inductive Setting where
  | groupArrayMinCapacity
  | memoryLimit
  deriving DecidableEq

namespace Setting

def name : Setting → String
  | groupArrayMinCapacity => "group_array_min_capacity"
  | memoryLimit => "memory_limit"

def description : Setting → String
  | groupArrayMinCapacity =>
    "Number of group slots to allocate the first time aggregate state grows"
  | memoryLimit => "Max bytes aggregate state may reserve, zero for no limit"

/-- All settings, sorted by name. -/
def all : List Setting := [groupArrayMinCapacity, memoryLimit]

def ofName? (name : String) : Option Setting := all.find? (·.name == name)

def value (c : Config) : Setting → Nat
  | groupArrayMinCapacity => c.minCapacity
  | memoryLimit => c.memoryLimit

/-- Scalars are signed, so a larger value reads as the largest one. -/
def get (s : Setting) (c : Config) : Scalar :=
  .int64 (Int64.ofNat (min (s.value c) 0x7FFFFFFFFFFFFFFF))

/-- The number is checked before it is written. -/
def set (s : Setting) (v : Scalar) (c : Config) : Attempt Config :=
  match v.toNat with
  | .error f => (.error f, c)
  | .ok n =>
    match s with
    | groupArrayMinCapacity =>
      match Config.checkMinCapacity n with
      | .error f => (.error f, c)
      | .ok () => (.ok (), { c with minCapacity := n })
    | memoryLimit => (.ok (), { c with memoryLimit := n })

end Setting

namespace Config

def find (name : String) : Except Fault Setting :=
  match Setting.ofName? name with
  | some s => .ok s
  | none => .error (.unknownSetting name)

def get (c : Config) (name : String) : Except Fault Scalar := (find name).map (·.get c)

def set (c : Config) (name : String) (v : Scalar) : Attempt Config :=
  match find name with
  | .error f => (.error f, c)
  | .ok s => s.set v c

def reset (c : Config) (name : String) : Attempt Config :=
  match find name with
  | .error f => (.error f, c)
  | .ok s => s.set (s.get default) c

/-- The calls that change a configuration. -/
inductive Op where
  | set (name : String) (v : Scalar)
  | reset (name : String)
  | resetAll
  deriving DecidableEq

def apply (c : Config) : Op → Attempt Config
  | .set name v => c.set name v
  | .reset name => c.reset name
  | .resetAll => (.ok (), default)

/-- What a document has for each setting, the default where it says nothing. -/
structure Document where
  memoryLimit : UInt64
  minCapacity : UInt64
  deriving DecidableEq

/-- A configuration from a text. What documents look like is up to the reader. -/
def ofText (read : String → Option Document) (text : String) : Except Fault Config :=
  match read text with
  | none => .error .configSyntax
  | some d =>
    match checkMinCapacity d.minCapacity.toNat with
    | .error f => .error f
    | .ok () => .ok ⟨d.memoryLimit.toNat, d.minCapacity.toNat⟩

end Config

end Earliest
