/-!
# Bounded memory

A map that holds at most a given number of entries.  Looking an entry up or
storing it makes it the most recent one, and when there is no room the entry
that was recent longest ago goes.
-/

namespace TreeSelector

/-- Entries, the most recent first. -/
structure Lru (Key Value : Type) where
  capacity : Nat
  entries : List (Key × Value)

namespace Lru

variable {Key Value : Type} [DecidableEq Key]

def empty (capacity : Nat) : Lru Key Value := ⟨capacity, []⟩

def size (memory : Lru Key Value) : Nat := memory.entries.length

/-- The value stored for a key, regardless of when. -/
def peek? (memory : Lru Key Value) (key : Key) : Option Value :=
  memory.entries.lookup key

def without (memory : Lru Key Value) (key : Key) : List (Key × Value) :=
  memory.entries.eraseP (·.1 = key)

/-- Looks a key up and makes its entry the most recent one. -/
def get? (memory : Lru Key Value) (key : Key) : Option Value × Lru Key Value :=
  match memory.peek? key with
  | some value => (some value, { memory with entries := (key, value) :: memory.without key })
  | none => (none, memory)

/-- Stores a value for a key. -/
def insert (memory : Lru Key Value) (key : Key) (value : Value) : Lru Key Value :=
  { memory with entries := ((key, value) :: memory.without key).take memory.capacity }

/-- What is stored for a key once a value was stored for it: that value, provided
there is room at all. -/
theorem peek?_insert_self {memory : Lru Key Value} {key : Key} {value : Value}
    (room : 0 < memory.capacity) : (memory.insert key value).peek? key = some value := by
  obtain ⟨capacity, positive⟩ := Nat.exists_eq_succ_of_ne_zero (Nat.ne_of_gt room)
  simp [insert, peek?, positive]

theorem size_insert_le (memory : Lru Key Value) (key : Key) (value : Value) :
    (memory.insert key value).size ≤ memory.capacity :=
  List.length_take_le _ _

/-- Looking a key up stores nothing. -/
theorem size_get? (memory : Lru Key Value) (key : Key) :
    (memory.get? key).2.size = memory.size := by
  unfold get?
  split
  · rename_i value found
    obtain ⟨before, after, entries, _⟩ := List.lookup_eq_some_iff.mp found
    have member : (key, value) ∈ memory.entries := by simp [entries]
    have positive : 0 < memory.entries.length := List.length_pos_of_mem member
    have removed : (memory.without key).length = memory.entries.length - 1 :=
      List.length_eraseP_of_mem member (by simp)
    simp only [size, List.length_cons, removed]
    omega
  · rfl

def clear (memory : Lru Key Value) : Lru Key Value := { memory with entries := [] }

end Lru

end TreeSelector
