import TreeSelector.Cache.Lru
import TreeSelector.Time

/-!
# Remembered answers

Answers of a host about what is in front: whether a class is an activity, which
holds for good, and which application is in front, which holds for a short time.
-/

namespace TreeSelector

/-- Which classes of which applications are known to be activities, or not to be. -/
structure ActivityTable where
  known : Lru (String × String) Bool

namespace ActivityTable

/-- An empty table; it has room for one answer at least. -/
def empty (capacity : Nat) : ActivityTable := ⟨.empty (max capacity 1)⟩

def size (table : ActivityTable) : Nat := table.known.size

def consult (table : ActivityTable) (appId className : String) :
    Option Bool × ActivityTable :=
  let (answer, known) := table.known.get? (appId, className)
  (answer, ⟨known⟩)

def learn (table : ActivityTable) (appId className : String) (answer : Bool) :
    ActivityTable :=
  ⟨table.known.insert (appId, className) answer⟩

end ActivityTable

/-- The last answer to which application is in front, and when it was given. -/
structure AppIdMemory where
  lifetime : Nat
  answer : Option (Option String × Time) := none

namespace AppIdMemory

/-- The last answer while it holds. -/
def consult (memory : AppIdMemory) (now : Time) : Option (Option String) :=
  match memory.answer with
  | some (appId, time) => if now.since time < memory.lifetime then some appId else none
  | none => none

def learn (memory : AppIdMemory) (appId : Option String) (now : Time) : AppIdMemory :=
  { memory with answer := some (appId, now) }

def forget (memory : AppIdMemory) : AppIdMemory := { memory with answer := none }

end AppIdMemory

end TreeSelector
