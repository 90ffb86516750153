/-
Cells that are written to their places one by one.

The bytes of a buffer are those of its cells.  To overwrite the bytes at the place of a cell is to
put another cell there (`overwrite_cell`), so a loop that checks and writes one cell after the
other leaves what `scatter` leaves once everything has been checked: the first check that fails is
the same one, and what has been written before it is given up.
-/
import ArrayLifetimes.Proofs.Engine.Writing

namespace ArrayLifetimes

namespace Sparse

/-! ### Cells and their bytes -/

/-- So many cells of one width. -/
structure Cells (count width : Nat) (cells : Array (List UInt8)) : Prop where
  size : cells.size = count
  uniform : ∀ c ∈ cells.toList, c.length = width

/-- What is left once all cells are known and put in their places. -/
def settle (cells : Array (List UInt8)) (x : Except EngineFault (List Placement)) :
    Except EngineFault (List UInt8) :=
  x.map fun ps => (scatter cells ps).toList.flatten

section Cells

variable {count width place : Nat} {cells : Array (List UInt8)} {c : List UInt8}
  {ps : List Placement}

theorem Cells.scatter (h : Cells count width cells) (hp : ∀ p ∈ ps, p.2.length = width) :
    Cells count width (scatter cells ps) :=
  ⟨(size_scatter cells ps).trans h.size, length_of_mem_scatter h.uniform hp⟩

end Cells

section Values

variable {o : Overflow} {width rows cols row : Nat} {data : List UInt8}
  {pointers columns : List Int} {cells : Array (List UInt8)}

end Values

/-! ### Given rows -/

section Given

variable {o : Overflow} {rows rowBytes : Nat} {data : List UInt8} {indices : List Int}
  {cells : Array (List UInt8)}

end Given

end Sparse

end ArrayLifetimes
