/-!
Tables hold one entry for every validator.
-/

namespace Conclave

abbrev Table (n : Nat) (α : Type) := Vector α n

namespace Table

variable {n : Nat} {α : Type}

def put (t : Table n α) (i : Fin n) (a : α) : Table n α := t.set i a i.isLt

theorem get_eq_getElem (t : Table n α) (i : Fin n) : t.get i = t[i.val] := rfl

theorem get_put (t : Table n α) (i j : Fin n) (a : α) :
    (t.put i a).get j = if i = j then a else t.get j := by
  simp [put, get_eq_getElem, Vector.getElem_set, Fin.ext_iff]

@[simp]
theorem get_put_self (t : Table n α) (i : Fin n) (a : α) : (t.put i a).get i = a := by
  simp [get_put]

theorem get_put_of_ne (t : Table n α) {i j : Fin n} (a : α) (h : i ≠ j) :
    (t.put i a).get j = t.get j := by
  simp [get_put, h]

@[simp]
theorem put_get (t : Table n α) (i : Fin n) : t.put i (t.get i) = t := by
  simp [put, get_eq_getElem]

@[simp]
theorem put_put (t : Table n α) (i : Fin n) (a b : α) : (t.put i a).put i b = t.put i b := by
  simp [put]

@[simp]
theorem get_replicate (a : α) (i : Fin n) : (Vector.replicate n a).get i = a := by
  simp [get_eq_getElem]

end Table

end Conclave
