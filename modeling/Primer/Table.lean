import Primer.Datum

/-! Tables that keep the order in which their keys were first entered. -/
namespace Primer

abbrev Table (α : Type) := List (Key × α)

namespace Table

def find? (t : Table α) (k : Key) : Option α :=
  match t with
  | [] => none
  | (k', a) :: rest => if k' = k then some a else find? rest k

/-- Enters a value. A key that is in the table keeps its place. -/
def insert (t : Table α) (k : Key) (a : α) : Table α :=
  match t with
  | [] => [(k, a)]
  | (k', b) :: rest => if k' = k then (k, a) :: rest else (k', b) :: insert rest k a

theorem find?_insert_self (t : Table α) (k : Key) (a : α) : (t.insert k a).find? k = some a := by
  induction t with
  | nil => simp [insert, find?]
  | cons entry rest ih =>
    obtain ⟨k', b⟩ := entry
    by_cases h : k' = k
    · simp [insert, find?, h]
    · simp [insert, find?, h, ih]

theorem find?_insert_of_ne (t : Table α) {j k : Key} (other : k ≠ j) (a : α) :
    (t.insert k a).find? j = t.find? j := by
  induction t with
  | nil => simp [insert, find?, other]
  | cons entry rest ih =>
    obtain ⟨k', b⟩ := entry
    by_cases h : k' = k
    · subst h; simp [insert, find?, other]
    · simp [insert, find?, h, ih]

end Table
end Primer
