import TreeSelector.Json.Record
import TreeSelector.Proofs.Json.Texts
import TreeSelector.Proofs.Text.Numerals

/-!
# Records read back from their objects

What the members of an object are, however the object was put together, and that a decoder gives
back what an encoder wrote: for the fields of a record that are always written, and for those
that are left out when they are missing.
-/

namespace TreeSelector.Json

section Members

variable {α : Type} {name other : String} {value : Json} {members : List (String × Json)}

theorem member?_nil : member? [] name = none := rfl

theorem member?_cons : member? ((other, value) :: members) name =
    if name = other then some value else member? members name := by
  simp only [member?, List.lookup_cons]
  by_cases same : name = other
  · simp [same]
  · simp [beq_eq_false_iff_ne.mpr same, same]

theorem member?_append {others : List (String × Json)} :
    member? (members ++ others) name = (member? members name).or (member? others name) :=
  List.lookup_append

theorem member?_unlessMissing {encode : α → Json} {content : Option α} :
    member? (unlessMissing other encode content) name =
      if name = other then content.map encode else none := by
  cases content with
  | none => simp [unlessMissing, member?_nil]
  | some content => simp [unlessMissing, member?_cons, member?_nil]

/-- The names of some members are among the known ones, in their order. -/
def NamesWithin (members : List (String × Json)) (known : List String) : Prop :=
  (members.map Prod.fst).Sublist known

theorem NamesWithin.all (members : List (String × Json)) :
    NamesWithin members (members.map Prod.fst) :=
  List.Sublist.refl _

theorem NamesWithin.append {others : List (String × Json)} {known more : List String}
    (first : NamesWithin members known) (second : NamesWithin others more) :
    NamesWithin (members ++ others) (known ++ more) := by
  unfold NamesWithin
  rw [List.map_append]
  exact List.Sublist.append first second

theorem NamesWithin.unlessMissing (name : String) (encode : α → Json) (content : Option α) :
    NamesWithin (unlessMissing name encode content) [name] := by
  cases content with
  | none => exact List.nil_sublist _
  | some content => exact List.Sublist.refl _

theorem forall_mem_unlessMissing {holds : Json → Prop} {encode : α → Json} {content : Option α}
    (each : ∀ present ∈ content, holds (encode present)) (name : String) :
    ∀ member ∈ unlessMissing name encode content, holds member.2 := by
  cases content with
  | none => exact fun _ listed => nomatch listed
  | some content =>
      intro member listed
      rw [List.mem_singleton.mp listed]
      exact each content rfl

theorem members?_of_namesWithin {known : List String} (distinct : known.Nodup)
    (names : NamesWithin members known) : (object members).members? known = some members := by
  have single : ∀ name : String, (members.filter (·.1 == name)).length ≤ 1 := by
    intro name
    have once := List.nodup_iff_count.mp (distinct.sublist names) name
    rwa [List.count_eq_countP, List.countP_map, List.countP_eq_length_filter] at once
  simp [members?, single]

end Members

section Decoders

variable {α : Type}

/-- A decoder gives back what an encoder writes, and nothing is written as null. -/
structure Decodes (decode : Json → Option α) (encode : α → Json) : Prop where
  reads : ∀ content, decode (encode content) = some content
  written : ∀ content, encode content ≠ null

theorem decodes_boolean : Decodes toBool? boolean where
  reads _ := rfl
  written _ := Json.noConfusion

theorem decodes_string : Decodes toString? string where
  reads _ := rfl
  written _ := Json.noConfusion

theorem decodes_int32 : Decodes toInt32? (fun number : Int32 => integer number.toInt) where
  reads := Text.int32?_toInt
  written _ := Json.noConfusion

theorem toNat?_ofNat (number : Nat) : (ofNat number).toNat? = some number := by
  simp [ofNat, toNat?]

theorem decodes_uint32 : Decodes toUInt32? (fun number : UInt32 => ofNat number.toNat) where
  reads number := by
    rw [toUInt32?, toNat?_ofNat]
    exact Text.uint32?_toNat number
  written _ := Json.noConfusion

theorem decodes_uint64 : Decodes toUInt64? (fun number : UInt64 => ofNat number.toNat) where
  reads number := by
    rw [toUInt64?, toNat?_ofNat]
    exact Text.uint64?_toNat number
  written _ := Json.noConfusion

theorem decodes_title {title : α → String} {ofTitle? : String → Option α}
    (known : ∀ alternative, ofTitle? (title alternative) = some alternative) :
    Decodes (toAlternative? ofTitle?) (fun alternative => string (title alternative)) where
  reads := known
  written _ := Json.noConfusion

variable {decode : Json → Option α} {encode : α → Json}

theorem Decodes.list (decodes : Decodes decode encode) :
    Decodes (toList? decode) (ofList encode) where
  reads contents := by
    change allOf decode (contents.map encode) = some contents
    induction contents with
    | nil => rfl
    | cons content contents hypothesis => simp [allOf, decodes.reads, hypothesis]
  written _ := Json.noConfusion

/-- What a field that may be missing is read as, given the member if there is one. -/
def contentOf? (decode : Json → Option α) : Option Json → Option (Option α)
  | some null | none => some none
  | some value => (decode value).map some

theorem optional_eq (members : List (String × Json)) (name : String) :
    optional decode members name = contentOf? decode (member? members name) := by
  unfold optional contentOf?
  rfl

/-- A field that is left out if it is missing is read back either way. -/
theorem Decodes.contentOf?_map (decodes : Decodes decode encode) (content : Option α) :
    contentOf? decode (content.map encode) = some content := by
  cases content with
  | none => rfl
  | some content =>
      rw [Option.map_some, contentOf?, decodes.reads]
      · rfl
      · exact decodes.written content

end Decoders

section Nesting

variable {α : Type} {bound : Nat}

/-- A value has integers for numbers and nests at most so deep. -/
structure Fits (bound : Nat) (json : Json) : Prop where
  integral : json.IsIntegral
  shallow : json.nesting ≤ bound

theorem fits_boolean (value : Bool) : Fits bound (boolean value) :=
  ⟨.boolean value, Nat.zero_le bound⟩

theorem fits_integer (number : Int) : Fits bound (integer number) :=
  ⟨.integer number, Nat.zero_le bound⟩

theorem fits_ofNat (number : Nat) : Fits bound (ofNat number) := fits_integer number

theorem fits_string (text : String) : Fits bound (string text) :=
  ⟨.string text, Nat.zero_le bound⟩

theorem fits_ofList {encode : α → Json} (each : ∀ content, Fits bound (encode content))
    (contents : List α) : Fits (bound + 1) (ofList encode contents) := by
  have items : ∀ item ∈ contents.map encode, Fits bound item := by
    intro item listed
    obtain ⟨content, _, rfl⟩ := List.mem_map.mp listed
    exact each content
  exact ⟨.array fun item listed => (items item listed).integral,
    Nat.succ_le_succ (nestingOfItems_le_iff.mpr fun item listed => (items item listed).shallow)⟩

/-- The values of some members fit. -/
def AllFit (bound : Nat) (members : List (String × Json)) : Prop :=
  ∀ member ∈ members, Fits bound member.2

theorem fits_object {members : List (String × Json)} (each : AllFit bound members) :
    Fits (bound + 1) (object members) where
  integral := .object fun member listed => (each member listed).integral
  shallow := Nat.succ_le_succ <|
    nestingOfMembers_le_iff.mpr fun member listed => (each member listed).shallow

theorem allFit_nil : AllFit bound [] := fun _ listed => nomatch listed

theorem allFit_cons {name : String} {value : Json} {members : List (String × Json)} :
    AllFit bound ((name, value) :: members) ↔ Fits bound value ∧ AllFit bound members :=
  List.forall_mem_cons

theorem allFit_append {members others : List (String × Json)} :
    AllFit bound (members ++ others) ↔ AllFit bound members ∧ AllFit bound others :=
  List.forall_mem_append

theorem allFit_unlessMissing {encode : α → Json} (each : ∀ content, Fits bound (encode content))
    (name : String) (content : Option α) : AllFit bound (unlessMissing name encode content) :=
  forall_mem_unlessMissing (fun content _ => each content) name

/-- A value that nests less deep than the reader allows is read back from its text. -/
theorem Fits.parse?_render {json : Json} (fits : Fits bound json)
    (allowed : bound ≤ Reader.maxNesting) : parse? json.render = some json :=
  Json.parse?_render fits.integral (Nat.le_trans fits.shallow allowed)

end Nesting

end TreeSelector.Json
