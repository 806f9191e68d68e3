/-!
Tables of things that a name can refer back to, numbered from zero in the order of recording.
-/

namespace SwiftMangling

/-- What has been recorded so far, the oldest first. -/
abbrev References (α : Type) := List α

namespace References

variable {α : Type}

def record (table : References α) (item : α) : References α :=
  table ++ [item]

/-- The item at a position; a negative position has none. -/
def resolve? (table : References α) : Int → Option α
  | .ofNat position => table[position]?
  | .negSucc _ => none

theorem resolve?_record_length (table : References α) (item : α) :
    resolve? (record table item) table.length = some item := by
  show (table ++ [item])[table.length]? = some item
  simp

theorem resolve?_record_of_lt {table : References α} (item : α) {position : Nat}
    (h : position < table.length) :
    resolve? (record table item) position = resolve? table position := by
  show (table ++ [item])[position]? = table[position]?
  rw [List.getElem?_append_left h]

end References

end SwiftMangling
