import Earliest.Column.Basic

/-! Columns that show the same rows, however they are laid out. -/

namespace Earliest.Column

/-- Both rows can be read and are equal. -/
def rowsAgree (x y : Except Fault Scalar) : Bool :=
  match x, y with
  | .ok s, .ok t => s.equal t
  | _, _ => false

def agrees (a b : Column) : Bool :=
  decide (a.dataType = b.dataType) && a.len == b.len &&
    (List.range a.len).all fun i => rowsAgree (a.value i) (b.value i)

end Earliest.Column
