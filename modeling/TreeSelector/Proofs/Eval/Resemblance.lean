import Mathlib.Data.List.Forall2
import TreeSelector.Eval.Method

/-!
# Values that differ in the node they are about

Comparisons and methods see of a node only which one it is.  So what they make of values
that are about one node resembles what they make of the same values about another one.
-/

namespace TreeSelector

namespace Value

/-- Whether a value is about no node. -/
def isPlain : Value → Bool
  | node _ | context _ => false
  | _ => true

/-- Values that are told apart at most by the node they are about, which is the current one
of a context. -/
inductive Resembles (context context' : Context) : Value → Value → Prop where
  | plain {value : Value} : value.isPlain = true → Resembles context context' value value
  | node : Resembles context context' (.node context.current) (.node context'.current)
  | context : Resembles context context' (.context context) (.context context')

variable {context context' : Context} {value value' other other' : Value}

theorem Resembles.isNull_eq (alike : value.Resembles context context' value') :
    value.isNull = value'.isNull := by
  cases alike <;> rfl

theorem Resembles.eq_iff (alike : value.Resembles context context' value')
    (alike' : other.Resembles context context' other') : value = other ↔ value' = other' := by
  have apart : ∀ {plain foreign : Value}, plain.isPlain = true → foreign.isPlain = false →
      plain ≠ foreign := by
    rintro plain _ isPlain foreign rfl
    rw [isPlain] at foreign
    cases foreign
  cases alike with
  | plain isPlain =>
      cases alike' with
      | plain _ => rfl
      | node | context => exact iff_of_false (apart isPlain rfl) (apart isPlain rfl)
  | node =>
      cases alike' with
      | plain isPlain => exact iff_of_false (apart isPlain rfl).symm (apart isPlain rfl).symm
      | node => exact iff_of_true rfl rfl
      | context => exact iff_of_false nofun nofun
  | context =>
      cases alike' with
      | plain isPlain => exact iff_of_false (apart isPlain rfl).symm (apart isPlain rfl).symm
      | node => exact iff_of_false nofun nofun
      | context => exact iff_of_true rfl rfl

/-- Nodes and contexts are only ever compared for equality. -/
theorem compare_eq_false_of_foreign {relation : Relation}
    (foreign : ¬ (value.isPlain = true ∧ other.isPlain = true)) (textual : relation ≠ .equal)
    (textual' : relation ≠ .notEqual) : compare relation value other = false := by
  unfold compare
  split <;> simp_all [isPlain]

theorem Resembles.compare_eq (alike : value.Resembles context context' value')
    (alike' : other.Resembles context context' other') (relation : Relation) :
    compare relation value other = compare relation value' other' := by
  have same := alike.eq_iff alike'
  by_cases equality : relation = .equal
  · rw [equality]
    exact decide_eq_decide.mpr same
  by_cases inequality : relation = .notEqual
  · rw [inequality]
    exact decide_eq_decide.mpr (not_congr same)
  have foreign : ∀ {first second : Value}, first.isPlain = false ∨ second.isPlain = false →
      compare relation first second = false := by
    intro first second foreign
    refine compare_eq_false_of_foreign ?_ equality inequality
    rcases foreign with foreign | foreign <;> simp [foreign]
  cases alike with
  | plain _ =>
      cases alike' with
      | plain _ => rfl
      | node | context => rw [foreign (.inr rfl), foreign (.inr rfl)]
  | node | context => rw [foreign (.inl rfl), foreign (.inl rfl)]

/-- Lists of values that resemble one another are the same or both hold something that is
about a node. -/
theorem eq_or_foreign_of_resemble {arguments arguments' : List Value}
    (alike : List.Forall₂ (Resembles context context') arguments arguments') :
    (arguments' = arguments ∧ ∀ argument ∈ arguments, argument.isPlain = true) ∨
      ((∃ argument ∈ arguments, argument.isPlain = false) ∧
        ∃ argument ∈ arguments', argument.isPlain = false) := by
  induction alike with
  | nil => exact .inl ⟨rfl, nofun⟩
  | cons first _ hypothesis =>
      rcases hypothesis with ⟨rfl, plain⟩ | ⟨⟨argument, member, foreign⟩, other, among, foreign'⟩
      · cases first with
        | plain isPlain => exact .inl ⟨rfl, List.forall_mem_cons.mpr ⟨isPlain, plain⟩⟩
        | node | context =>
            exact .inr ⟨⟨_, List.mem_cons_self, rfl⟩, _, List.mem_cons_self, rfl⟩
      · exact .inr ⟨⟨argument, List.mem_cons_of_mem _ member, foreign⟩, other,
          List.mem_cons_of_mem _ among, foreign'⟩

end Value

namespace Method

open Value (isPlain Resembles)

theorem orNull_isPlain {α : Type} {make : α → Value} (plain : ∀ item, (make item).isPlain = true)
    (found : Option α) : (Value.orNull make found).isPlain = true := by
  cases found with
  | none => rfl
  | some item => exact plain item

theorem integer_isPlain (value : Int) : (integer value).isPlain = true :=
  orNull_isPlain (fun _ => rfl) _

theorem slice_isPlain (chars : List Char) (start stop : Int) :
    (slice chars start stop).isPlain = true := by
  unfold slice
  split <;> rfl

theorem parse_isPlain (radix : Nat) (chars : List Char) : (parse radix chars).isPlain = true :=
  orNull_isPlain (fun _ => rfl) _

theorem indexOf_isPlain (chars part : List Char) (start : Nat) :
    (indexOf chars part start).isPlain = true := by
  unfold indexOf
  split
  · rfl
  · split <;> rfl

theorem ofBoolean_isPlain (value : Bool) (method : Symbol) {arguments : List Value}
    (plain : ∀ argument ∈ arguments, argument.isPlain = true) :
    (ofBoolean value method arguments).isPlain = true := by
  unfold ofBoolean
  split
  case h_5 => cases value <;> exact plain _ (by simp)
  all_goals rfl

theorem ofInt_isPlain (value : Int32) (method : Symbol) (arguments : List Value) :
    (ofInt value method arguments).isPlain = true := by
  unfold ofInt
  repeat' split
  all_goals first | rfl | exact integer_isPlain _

/-- Methods of strings take plain values, and make nothing of any other arguments. -/
theorem ofString_of_plain_or_null (value : String) (method : Symbol) (arguments : List Value) :
    (arguments.all isPlain = true ∧ (ofString value method arguments).isPlain = true) ∨
      ofString value method arguments = .null := by
  -- the methods of strings one by one, with the arguments that each of them takes
  cases method
  case get | charAt =>
    rcases arguments with _ | ⟨first, _ | ⟨second, others⟩⟩
    · exact .inr rfl
    · cases first with
      | int position => exact .inl ⟨rfl, slice_isPlain _ _ _⟩
      | _ => exact .inr rfl
    · cases first <;> exact .inr rfl
  case substring =>
    rcases arguments with _ | ⟨first, _ | ⟨second, _ | ⟨third, others⟩⟩⟩
    · exact .inr rfl
    · cases first with
      | int start => exact .inl ⟨rfl, slice_isPlain _ _ _⟩
      | _ => exact .inr rfl
    · cases first with
      | int start =>
          cases second with
          | int stop => exact .inl ⟨rfl, slice_isPlain _ _ _⟩
          | _ => exact .inr rfl
      | _ => exact .inr rfl
    · cases first with
      | int start => cases second <;> exact .inr rfl
      | _ => exact .inr rfl
  case toInt =>
    rcases arguments with _ | ⟨first, _ | ⟨second, others⟩⟩
    · exact .inl ⟨rfl, parse_isPlain _ _⟩
    · cases first with
      | int radix =>
          left
          refine ⟨rfl, ?_⟩
          dsimp only [ofString]
          cases radix? radix with
          | none => rfl
          | some radix => exact parse_isPlain _ _
      | _ => exact .inr rfl
    · cases first <;> exact .inr rfl
  case indexOf =>
    rcases arguments with _ | ⟨first, _ | ⟨second, _ | ⟨third, others⟩⟩⟩
    · exact .inr rfl
    · cases first with
      | string part => exact .inl ⟨rfl, indexOf_isPlain _ _ _⟩
      | _ => exact .inr rfl
    · cases first with
      | string part =>
          cases second with
          | int start => exact .inl ⟨rfl, indexOf_isPlain _ _ _⟩
          | _ => exact .inr rfl
      | _ => exact .inr rfl
    · cases first with
      | string part => cases second <;> exact .inr rfl
      | _ => exact .inr rfl
  all_goals exact .inr rfl

theorem ofString_isPlain (value : String) (method : Symbol) (arguments : List Value) :
    (ofString value method arguments).isPlain = true := by
  rcases ofString_of_plain_or_null value method arguments with ⟨_, plain⟩ | null
  · exact plain
  · rw [null]
    rfl

theorem ofPlain_isPlain (target : Value) (method : Symbol) {arguments : List Value}
    (plain : ∀ argument ∈ arguments, argument.isPlain = true) :
    (ofPlain target method arguments).isPlain = true := by
  cases target with
  | boolean value => exact ofBoolean_isPlain value method plain
  | int value => exact ofInt_isPlain value method arguments
  | string value => exact ofString_isPlain value method arguments
  | null | node | context => rfl

section Foreign

variable {arguments : List Value}
  (foreign : ∃ argument ∈ arguments, argument.isPlain = false)
include foreign

theorem ofBoolean_eq_null (value : Bool) {method : Symbol} (eager : method ≠ .ifElse) :
    ofBoolean value method arguments = .null := by
  unfold ofBoolean
  split <;> simp_all [isPlain]

theorem ofInt_eq_null (value : Int32) (method : Symbol) : ofInt value method arguments = .null := by
  unfold ofInt
  split <;> simp_all [isPlain]

theorem ofString_eq_null (value : String) (method : Symbol) :
    ofString value method arguments = .null := by
  rcases ofString_of_plain_or_null value method arguments with ⟨plain, _⟩ | null
  · obtain ⟨argument, member, about⟩ := foreign
    rw [List.all_eq_true.mp plain argument member] at about
    cases about
  · exact null

end Foreign

variable {context context' : Context} {arguments arguments' : List Value}

/-- No method but `ifElse`, which hands its arguments on, makes anything of a value that is
about a node. -/
theorem ofPlain_resembles (target : Value) (method : Symbol)
    (alike : List.Forall₂ (Resembles context context') arguments arguments') :
    Resembles context context' (ofPlain target method arguments)
      (ofPlain target method arguments') := by
  rcases Value.eq_or_foreign_of_resemble alike with ⟨rfl, plain⟩ | ⟨foreign, foreign'⟩
  · exact .plain (ofPlain_isPlain target method plain)
  have nothing : Resembles context context' .null .null := .plain rfl
  cases target with
  | boolean value =>
      by_cases lazily : method = .ifElse
      · subst lazily
        rcases alike with _ | ⟨yes, _ | ⟨no, _ | _⟩⟩
        · exact nothing
        · exact nothing
        · cases value with
          | true => exact yes
          | false => exact no
        · exact nothing
      · simp only [ofPlain]
        rw [ofBoolean_eq_null foreign value lazily, ofBoolean_eq_null foreign' value lazily]
        exact nothing
  | int value =>
      simp only [ofPlain]
      rw [ofInt_eq_null foreign, ofInt_eq_null foreign']
      exact nothing
  | string value =>
      simp only [ofPlain]
      rw [ofString_eq_null foreign, ofString_eq_null foreign']
      exact nothing
  | null | node | context => exact nothing

end Method

end TreeSelector
