import Mathlib.Data.List.Forall2
import TreeSelector.Eval.Evaluate
import TreeSelector.Language.Schema
import TreeSelector.Proofs.Reading.Follows
import TreeSelector.Reading.Remembering

/-!
# Values and the schema

What the schema says of an attribute or a method is what reading it gives: a value of the
result type, or null where there is none.  Arguments that are not null are of the types of
the parameters.
-/

namespace TreeSelector

open Reading (Ensures)

namespace Value

/-- The type of a value; null has none. -/
def type? : Value → Option Ty
  | null => none
  | boolean _ => some .boolean
  | int _ => some .int
  | string _ => some .string
  | node _ => some .node
  | context _ => some .context

/-- Whether a value is null or of a type. -/
def Fits (type : Option Ty) (value : Value) : Prop := value = null ∨ value.type? = type

/-- Whether two values can be compared: neither is null only if they are of one type. -/
def AreComparable (value value' : Value) : Prop :=
  value = null ∨ value' = null ∨ value.type? = value'.type?

theorem fits_null (type : Option Ty) : null.Fits type := .inl rfl

theorem fits_orNull {α : Type} (make : α → Value) {type : Option Ty}
    (typed : ∀ item, (make item).type? = type) (found : Option α) :
    (orNull make found).Fits type := by
  cases found with
  | none => exact fits_null type
  | some item => exact .inr (typed item)

theorem fits_ite {condition : Prop} [Decidable condition] {type : Option Ty}
    {yes no : Value} (first : yes.Fits type) (second : no.Fits type) :
    (if condition then yes else no).Fits type := by
  split
  · exact first
  · exact second

theorem Fits.type?_eq {type : Option Ty} {value : Value} (fits : value.Fits type)
    (present : value.isNull = false) : value.type? = type := by
  rcases fits with rfl | typed
  · exact absurd present (by decide)
  · exact typed

/-- What has no type is null, and so fits everywhere. -/
theorem Fits.of_none {type : Option Ty} {value : Value} (fits : value.Fits none) :
    value.Fits type := by
  rcases fits with absent | typeless
  · exact .inl absent
  · cases value <;> cases typeless
    exact fits_null type

theorem Fits.areComparable {type type' : Option Ty} {value value' : Value}
    (fits : value.Fits type) (fits' : value'.Fits type')
    (same : type = none ∨ type' = none ∨ type = type') : AreComparable value value' := by
  have one : ∀ type, value.Fits type → value'.Fits type → AreComparable value value' := by
    rintro type (absent | typed) (absent' | typed')
    · exact .inl absent
    · exact .inl absent
    · exact .inr (.inl absent')
    · exact .inr (.inr (typed.trans typed'.symm))
  rcases same with rfl | rfl | rfl
  · exact one type' fits.of_none fits'
  · exact one type fits fits'.of_none
  · exact one type fits fits'

end Value

namespace Attribute

/-- The type of the values of an attribute. -/
def type : Attribute → Ty
  | id | vid | className | text | desc => .string
  | clickable | focusable | checkable | checked | editable | longClickable | visibleToUser =>
      .boolean
  | left | top | right | bottom | width | height => .int

end Attribute

theorem NodeData.attributeValue_fits (data : NodeData) (attr : Attribute) :
    (Value.ofAttribute (data.attributeValue attr)).Fits (some attr.type) := by
  have text : ∀ found, (Value.ofAttribute (textValue found)).Fits (some .string) := by
    intro found
    cases found with
    | none => exact Value.fits_null _
    | some text => exact .inr rfl
  cases attr
  case id | vid | className | text | desc => exact text _
  all_goals exact .inr rfl

/-- A view in which every attribute has values of its own type. -/
def View.IsTyped (view : View) : Prop :=
  ∀ node attr, Ensures (fun value => (Value.ofAttribute value).Fits (some attr.type))
    (view.attributeValue node attr)

namespace Host

theorem readAttribute_ensures (host : Host) (node : NodeId) (attr : Attribute) :
    Ensures (fun value => (Value.ofAttribute value).Fits (some attr.type))
      (host.readAttribute node attr) := by
  have absent : (Value.ofAttribute .absent).Fits (some attr.type) := Value.fits_null _
  refine .ite (fun _ => (Ensures.any _).bind fun _ _ => .pure absent) fun _ => ?_
  intro session
  change (Value.ofAttribute ((host.attributeValue node attr).toOption.getD .absent)).Fits _
  unfold Host.attributeValue
  cases host.access node with
  | error error => exact absent
  | ok entry => exact entry.data.attributeValue_fits attr

theorem view_isTyped (host : Host) (remembering : Bool) : (host.view remembering).IsTyped := by
  cases remembering <;> exact host.readAttribute_ensures

end Host

namespace View

variable {view : View} (typed : view.IsTyped)

include typed

theorem IsTyped.nodeAttribute {name : Symbol} {type : Ty}
    (declared : Ty.node.property? name = some type) (node : NodeId) :
    Ensures (Value.Fits (some type)) (view.nodeAttribute node name) := by
  cases name
  case index =>
    obtain rfl : Ty.int = type := Option.some.inj declared
    exact .map fun found => Value.fits_orNull Method.count (fun _ => rfl) found
  case depth | childCount =>
    obtain rfl : Ty.int = type := Option.some.inj declared
    exact .map fun count => .inr rfl
  case parent =>
    obtain rfl : Ty.node = type := Option.some.inj declared
    exact .map fun found => Value.fits_orNull .node (fun _ => rfl) found
  case id | vid | className | text | desc | clickable | focusable | checkable | checked | editable
      | longClickable | visibleToUser | left | top | right | bottom | width | height =>
    obtain rfl := Option.some.inj declared
    exact (typed node _).bind fun value fits => .pure fits
  all_goals cases declared

theorem IsTyped.contextAttribute {name : Symbol} {type : Ty}
    (declared : Ty.context.property? name = some type) (context : Context) :
    Ensures (Value.Fits (some type)) (view.valueAttribute (.context context) name) := by
  cases name
  case prev =>
    obtain rfl : Ty.context = type := Option.some.inj declared
    exact .pure (Value.fits_orNull .context (fun _ => rfl) _)
  case current =>
    obtain rfl : Ty.node = type := Option.some.inj declared
    exact .pure (.inr rfl)
  all_goals
    refine typed.nodeAttribute ?_ context.current
    exact declared

/-- An attribute of a value has the type that the schema declares. -/
theorem IsTyped.valueAttribute {owner type : Ty} {name : Symbol} {target : Value}
    (declared : owner.property? name = some type) (fits : target.type? = some owner) :
    Ensures (Value.Fits (some type)) (view.valueAttribute target name) := by
  cases target <;> cases fits
  case string text =>
    cases name
    case length =>
      obtain rfl : Ty.int = type := Option.some.inj declared
      exact .pure (.inr rfl)
    all_goals cases declared
  case node node => exact typed.nodeAttribute declared node
  case context context => exact typed.contextAttribute declared context
  all_goals cases name <;> cases declared

end View

section Methods

/-! A method is called with values of the types of its parameters. -/

/-- Whether some values are of the given types, one by one. -/
def Value.HaveTypes (types : List Ty) (values : List Value) : Prop :=
  List.Forall₂ (fun value type => value.type? = some type) values types

namespace Value.HaveTypes

variable {values : List Value}

theorem eq_nil (typed : HaveTypes [] values) : values = [] := by
  cases typed
  rfl

theorem eq_one {type : Ty} (typed : HaveTypes [type] values) :
    ∃ value, values = [value] ∧ value.type? = some type := by
  rcases typed with _ | ⟨first, _ | _⟩
  exact ⟨_, rfl, first⟩

theorem eq_two {type type' : Ty} (typed : HaveTypes [type, type'] values) :
    ∃ value value', values = [value, value'] ∧ value.type? = some type ∧
      value'.type? = some type' := by
  rcases typed with _ | ⟨first, _ | ⟨second, _ | _⟩⟩
  exact ⟨_, _, rfl, first, second⟩

theorem eq_boolean (typed : HaveTypes [.boolean] values) : ∃ value, values = [boolean value] := by
  obtain ⟨value, rfl, type⟩ := typed.eq_one
  cases value <;> cases type
  exact ⟨_, rfl⟩

theorem eq_int (typed : HaveTypes [.int] values) : ∃ value, values = [int value] := by
  obtain ⟨value, rfl, type⟩ := typed.eq_one
  cases value <;> cases type
  exact ⟨_, rfl⟩

theorem eq_string (typed : HaveTypes [.string] values) : ∃ value, values = [string value] := by
  obtain ⟨value, rfl, type⟩ := typed.eq_one
  cases value <;> cases type
  exact ⟨_, rfl⟩

theorem eq_int_int (typed : HaveTypes [.int, .int] values) :
    ∃ value value', values = [int value, int value'] := by
  obtain ⟨value, value', rfl, type, type'⟩ := typed.eq_two
  cases value <;> cases type
  cases value' <;> cases type'
  exact ⟨_, _, rfl⟩

theorem eq_string_int (typed : HaveTypes [.string, .int] values) :
    ∃ value value', values = [string value, int value'] := by
  obtain ⟨value, value', rfl, type, type'⟩ := typed.eq_two
  cases value <;> cases type
  cases value' <;> cases type'
  exact ⟨_, _, rfl⟩

end Value.HaveTypes

variable {signature : Method} {arguments : List Value}

namespace Method

theorem fits_integer (value : Int) : (integer value).Fits (some .int) :=
  Value.fits_orNull .int (fun _ => rfl) _

theorem ofBoolean_fits (declared : signature ∈ Ty.boolean.methods)
    (typed : Value.HaveTypes signature.parameters arguments) (value : Bool) :
    (ofBoolean value signature.name arguments).Fits (some signature.result) := by
  rcases List.mem_append.mp declared with plain | chosen
  · simp only [List.mem_cons, List.not_mem_nil, or_false] at plain
    rcases plain with rfl | rfl | rfl | rfl
    · rw [typed.eq_nil]
      exact .inr rfl
    · obtain ⟨other, rfl⟩ := typed.eq_boolean
      exact .inr rfl
    · obtain ⟨other, rfl⟩ := typed.eq_boolean
      exact .inr rfl
    · rw [typed.eq_nil]
      exact .inr rfl
  -- there is a choice between two values for each of their types
  · obtain ⟨type, _, rfl⟩ := List.mem_map.mp chosen
    obtain ⟨yes, no, rfl, yesType, noType⟩ := typed.eq_two
    exact Value.fits_ite (.inr yesType) (.inr noType)

theorem ofInt_fits (declared : signature ∈ Ty.int.methods)
    (typed : Value.HaveTypes signature.parameters arguments) (value : Int32) :
    (ofInt value signature.name arguments).Fits (some signature.result) := by
  simp only [Ty.methods, List.mem_cons, List.not_mem_nil, or_false] at declared
  rcases declared with rfl | rfl | rfl | rfl | rfl | rfl | rfl | rfl | rfl | rfl | rfl
  · rw [typed.eq_nil]
    exact .inr rfl
  all_goals obtain ⟨other, rfl⟩ := typed.eq_int
  · dsimp only [ofInt]
    cases radix? other with
    | none => exact Value.fits_null _
    | some radix => exact .inr rfl
  · exact fits_integer _
  · exact fits_integer _
  · exact fits_integer _
  · exact Value.fits_ite (Value.fits_null _) (fits_integer _)
  · exact Value.fits_ite (Value.fits_null _) (fits_integer _)
  all_goals exact .inr rfl

theorem slice_fits (chars : List Char) (start stop : Int) :
    (slice chars start stop).Fits (some .string) :=
  Value.fits_ite (.inr rfl) (Value.fits_null _)

theorem parse_fits (radix : Nat) (chars : List Char) : (parse radix chars).Fits (some .int) :=
  Value.fits_orNull .int (fun _ => rfl) _

theorem indexOf_fits (chars part : List Char) (start : Nat) :
    (indexOf chars part start).Fits (some .int) := by
  refine Value.fits_ite (.inr rfl) ?_
  cases Text.firstOccurrence part (chars.drop start) <;> exact .inr rfl

theorem ofString_fits (declared : signature ∈ Ty.string.methods)
    (typed : Value.HaveTypes signature.parameters arguments) (value : String) :
    (ofString value signature.name arguments).Fits (some signature.result) := by
  simp only [Ty.methods, List.mem_cons, List.not_mem_nil, or_false] at declared
  rcases declared with rfl | rfl | rfl | rfl | rfl | rfl | rfl | rfl
  · obtain ⟨position, rfl⟩ := typed.eq_int
    exact slice_fits _ _ _
  · obtain ⟨position, rfl⟩ := typed.eq_int
    exact slice_fits _ _ _
  · obtain ⟨start, rfl⟩ := typed.eq_int
    exact slice_fits _ _ _
  · obtain ⟨start, stop, rfl⟩ := typed.eq_int_int
    exact slice_fits _ _ _
  · rw [typed.eq_nil]
    exact parse_fits _ _
  · obtain ⟨radix, rfl⟩ := typed.eq_int
    dsimp only [ofString]
    cases radix? radix with
    | none => exact Value.fits_null _
    | some radix => exact parse_fits _ _
  · obtain ⟨part, rfl⟩ := typed.eq_string
    exact indexOf_fits _ _ _
  · obtain ⟨part, start, rfl⟩ := typed.eq_string_int
    exact indexOf_fits _ _ _

end Method

theorem View.childAt_ensures (view : View) (node : NodeId) (position : Int32) :
    Ensures (Value.Fits (some .node)) (view.childAt node position) := by
  unfold View.childAt
  cases position? position with
  | none => exact .pure (Value.fits_null _)
  | some index => exact .map fun found => Value.fits_orNull .node (fun _ => rfl) found

/-- A method of a value has a result of the type that the schema declares. -/
theorem View.invoke_ensures (view : View) {owner : Ty} (declared : signature ∈ owner.methods)
    {target : Value} (fits : target.type? = some owner)
    (typed : Value.HaveTypes signature.parameters arguments) :
    Ensures (Value.Fits (some signature.result))
      (view.invoke target signature.name arguments) := by
  cases target <;> cases fits
  case boolean value => exact .pure (Method.ofBoolean_fits declared typed value)
  case int value => exact .pure (Method.ofInt_fits declared typed value)
  case string value => exact .pure (Method.ofString_fits declared typed value)
  case node node =>
    obtain rfl := List.mem_singleton.mp declared
    obtain ⟨position, rfl⟩ := typed.eq_int
    exact view.childAt_ensures _ _
  case context context =>
    simp only [Ty.methods, Ty.contextMethods, Ty.nodeMethods, List.cons_append, List.nil_append,
      List.mem_cons, List.not_mem_nil, or_false] at declared
    rcases declared with rfl | rfl
    · obtain ⟨position, rfl⟩ := typed.eq_int
      exact view.childAt_ensures _ _
    · obtain ⟨steps, rfl⟩ := typed.eq_int
      exact .pure (Value.fits_orNull .context (fun _ => rfl) _)

end Methods

section Calls

/-! Arguments are readings; one that is null makes the call null, and some are not read. -/

/-- Whether some readings give null or values of the given types, one by one. -/
def Reading.HaveTypes (types : List Ty) (readings : List (Reading Value)) : Prop :=
  List.Forall₂ (fun reading type => Ensures (Value.Fits (some type)) reading) readings types

variable {view : View} {signature : Method} {arguments : List (Reading Value)}

theorem Operand.allValues_ensures {types : List Ty}
    (typed : Reading.HaveTypes types arguments) :
    Ensures (fun found => ∀ values ∈ found, Value.HaveTypes types values)
      (allValues arguments) := by
  induction typed with
  | nil =>
      refine .pure ?_
      rintro _ ⟨⟩
      exact .nil
  | cons first _ hypothesis =>
      refine first.bind fun value fits => .ite (fun _ => .pure nofun) fun present => ?_
      have type := fits.type?_eq (Bool.eq_false_iff.mpr present)
      refine hypothesis.bind fun found others => ?_
      cases found with
      | none => exact .pure nofun
      | some values =>
          refine .pure ?_
          rintro _ ⟨⟩
          exact .cons type (others values rfl)

theorem Operand.invokeWith_ensures {owner : Ty} (declared : signature ∈ owner.methods)
    {target : Value} (fits : target.type? = some owner)
    (typed : Reading.HaveTypes signature.parameters arguments) :
    Ensures (Value.Fits (some signature.result))
      (invokeWith view target signature.name arguments) := by
  refine (allValues_ensures typed).bind fun found types => ?_
  cases found with
  | none => exact .pure (Value.fits_null _)
  | some values => exact view.invoke_ensures declared fits (types values rfl)

theorem Operand.applyFunction_ensures (declared : signature ∈ Ty.global.methods)
    (typed : Reading.HaveTypes signature.parameters arguments) (context : Context) :
    Ensures (Value.Fits (some signature.result))
      (applyFunction view context signature.name arguments) := by
  rcases List.mem_append.mp declared with first | unequal
  · rcases List.mem_append.mp first with inherited | equal
    · have ordinary : Ensures (Value.Fits (some signature.result))
          (invokeWith view (.context context) signature.name arguments) :=
        invokeWith_ensures inherited rfl typed
      simp only [Ty.contextMethods, Ty.nodeMethods, List.cons_append, List.nil_append,
        List.mem_cons, List.not_mem_nil, or_false] at inherited
      rcases inherited with rfl | rfl
      all_goals
        rcases typed with _ | ⟨_, _ | _⟩
        exact ordinary
    · obtain ⟨type, _, rfl⟩ := List.mem_map.mp equal
      rcases typed with _ | ⟨left, _ | ⟨right, _ | _⟩⟩
      exact left.bind fun _ _ => right.bind fun _ _ => .pure (.inr rfl)
  · obtain ⟨type, _, rfl⟩ := List.mem_map.mp unequal
    rcases typed with _ | ⟨left, _ | ⟨right, _ | _⟩⟩
    exact left.bind fun _ _ => right.bind fun _ _ => .pure (.inr rfl)

theorem Operand.fits_onlyBoolean (value : Value) :
    (onlyBoolean value).Fits (some .boolean) := by
  cases value
  case boolean => exact .inr rfl
  all_goals exact Value.fits_null _

theorem Operand.applyBoolean_ensures (declared : signature ∈ Ty.boolean.methods)
    (typed : Reading.HaveTypes signature.parameters arguments) (value : Bool) :
    Ensures (Value.Fits (some signature.result))
      (applyMethod view (.boolean value) signature.name arguments) := by
  have ordinary : Ensures (Value.Fits (some signature.result))
      (invokeWith view (.boolean value) signature.name arguments) :=
    invokeWith_ensures declared rfl typed
  rcases List.mem_append.mp declared with plain | chosen
  · simp only [List.mem_cons, List.not_mem_nil, or_false] at plain
    rcases plain with rfl | rfl | rfl | rfl
    · cases typed
      exact ordinary
    · rcases typed with _ | ⟨other, _ | _⟩
      cases value
      · exact .map Operand.fits_onlyBoolean
      · exact .pure (.inr rfl)
    · rcases typed with _ | ⟨other, _ | _⟩
      cases value
      · exact .pure (.inr rfl)
      · exact .map Operand.fits_onlyBoolean
    · cases typed
      exact ordinary
  · obtain ⟨type, _, rfl⟩ := List.mem_map.mp chosen
    rcases typed with _ | ⟨yes, _ | ⟨no, _ | _⟩⟩
    cases value
    · exact no
    · exact yes

theorem Operand.applyMethod_ensures {owner : Ty} (declared : signature ∈ owner.methods)
    {target : Value} (fits : target.type? = some owner)
    (typed : Reading.HaveTypes signature.parameters arguments) :
    Ensures (Value.Fits (some signature.result))
      (applyMethod view target signature.name arguments) := by
  have ordinary : Ensures (Value.Fits (some signature.result))
      (invokeWith view target signature.name arguments) :=
    invokeWith_ensures declared fits typed
  cases target
  case boolean value =>
    obtain rfl := Option.some.inj fits
    exact applyBoolean_ensures declared typed value
  all_goals
    unfold applyMethod
    split <;> first | contradiction | exact ordinary

end Calls

end TreeSelector
