import Earliest.Memory.Manager

/-! Reservations held by name. Several handles may share one manager, and a
reservation gives its bytes back to the manager that it was made with, once, when
it is dropped or replaced. A merged reservation is held by one owner, who gives
back the bytes of both. -/

namespace Earliest

structure Reservation where
  /-- The manager that gets the bytes back. -/
  owner : Nat
  size : Nat
  deriving DecidableEq

structure Pool where
  managers : List Manager
  /-- The manager behind each handle. -/
  handles : List Nat
  held : List (String × Reservation)
  deriving DecidableEq

namespace Pool

/-- One handle for each manager, and nothing held. -/
def new (managers : List Manager) : Pool := ⟨managers, List.range managers.length, []⟩

def manager? (p : Pool) (handle : Nat) : Option Manager :=
  p.handles[handle]?.bind (p.managers[·]?)

/-- The manager behind each handle. -/
def views (p : Pool) : List Manager :=
  (List.range p.handles.length).filterMap p.manager?

def giveBack (p : Pool) (r : Reservation) : Pool :=
  { p with managers := p.managers.modify r.owner (·.release r.size) }

def remove (p : Pool) (name : String) : Pool :=
  { p with held := p.held.filter (·.1 != name) }

def drop (p : Pool) (name : String) : Pool :=
  match p.held.lookup name with
  | none => p
  | some r => (p.remove name).giveBack r

def dropAll (p : Pool) : Pool := p.held.foldl (fun p h => p.drop h.1) p

/-- What the name held before is dropped. -/
def hold (p : Pool) (name : String) (r : Reservation) : Pool :=
  let p := p.drop name
  { p with held := (name, r) :: p.held }

inductive Op where
  | reserve (handle bytes : Nat) (name : String)
  | empty (handle : Nat) (name : String)
  | merge (name other : String)
  | drop (name : String)
  /-- Gives the bytes back without dropping the reservation. -/
  | release (name : String)
  | share (handle : Nat)
  deriving DecidableEq

def reserve (p : Pool) (handle bytes : Nat) (name : String) :
    Except Fault (Option Nat) × Pool :=
  match p.handles[handle]? with
  | none => (.error (.slotRange handle p.handles.length), p)
  | some owner =>
    match p.managers[owner]? with
    | none => (.error (.slotRange owner p.managers.length), p)
    | some m =>
      match m.reserve bytes with
      | .error f => (.error f, p)
      | .ok m =>
        (.ok (some bytes),
          { p with managers := p.managers.set owner m }.hold name ⟨owner, bytes⟩)

def empty (p : Pool) (handle : Nat) (name : String) : Except Fault (Option Nat) × Pool :=
  match p.handles[handle]? with
  | none => (.error (.slotRange handle p.handles.length), p)
  | some owner => (.ok none, p.hold name ⟨owner, 0⟩)

def merge (p : Pool) (name other : String) : Except Fault (Option Nat) × Pool :=
  match p.held.lookup other, (p.remove other).held.lookup name with
  | some s, some r =>
    let size := (r.size + s.size) % sizeRange
    let rest := (p.remove other).remove name
    (.ok (some size), { rest with held := (name, ⟨r.owner, size⟩) :: rest.held })
  | none, _ => (.error (.absent other), p)
  | _, none => (.error (.absent name), p)

def release (p : Pool) (name : String) : Except Fault (Option Nat) × Pool :=
  match p.held.lookup name with
  | none => (.error (.absent name), p)
  | some r => (.ok none, p.giveBack r)

def share (p : Pool) (handle : Nat) : Except Fault (Option Nat) × Pool :=
  match p.handles[handle]? with
  | none => (.error (.slotRange handle p.handles.length), p)
  | some owner => (.ok none, { p with handles := p.handles ++ [owner] })

/-- The call's answer, a size where it has one, and the pool after it. -/
def apply (p : Pool) : Op → Except Fault (Option Nat) × Pool
  | .reserve handle bytes name => p.reserve handle bytes name
  | .empty handle name => p.empty handle name
  | .merge name other => p.merge name other
  | .drop name => (.ok none, p.drop name)
  | .release name => p.release name
  | .share handle => p.share handle

end Pool

end Earliest
