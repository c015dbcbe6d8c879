import MailTemplate.Context.Decode
import MailTemplate.Proofs.Context.Bindings

/-!
The members of a JSON object as bindings of variables: which JSON is the value of a variable, what
is wrong with any other, and the context that has all the members of an object.
-/

namespace MailTemplate

namespace Json

inductive Gives : Json → Value → Prop
  | null : Gives .null .null
  | bool (value : Bool) : Gives (.bool value) (.bool value)
  | integer (value : Int) : Gives (.number (.integer value)) (.number (.ofInt value))
  | double (value : Double) : Gives (.number (.double value)) (.number value)
  | string (value : Text) : Gives (.string value) (.string value)
  | array (texts : List Text) : Gives (.array (texts.map .string)) (.array texts)

def IsFlat : Json → Prop
  | .null | .bool _ | .number _ | .string _ => True
  | .array items => ∀ item ∈ items, ∃ text, item = .string text
  | .object _ => False

/-- What is wrong with JSON that is not flat. In an array it is the first item that is no string. -/
inductive Blames : Json → ValueFault → Prop
  | object (members : List (Text × Json)) : Blames (.object members) .nestedObject
  | array (texts : List Text) {item : Json} (items : List Json)
      (other : ∀ text, item ≠ .string text) :
      Blames (.array (texts.map .string ++ item :: items)) (.arrayItem item.canonical)

theorem Gives.number (value : JsonNumber) : Gives (.number value) (.number value.toDouble) := by
  cases value with
  | integer value => exact .integer value
  | double value => exact .double value

theorem Gives.unique {json : Json} {first second : Value} (one : json.Gives first)
    (two : json.Gives second) : first = second := by
  cases one with
  | null | bool | integer | double | string =>
      cases two
      rfl
  | array texts =>
      generalize same : texts.map Json.string = items at two
      cases two with
      | array others =>
          have injective : Function.Injective Json.string := fun _ _ => Json.string.inj
          rw [List.map_injective_iff.mpr injective same]

theorem exists_texts {items : List Json} (strings : ∀ item ∈ items, ∃ text, item = .string text) :
    ∃ texts : List Text, items = texts.map .string := by
  induction items with
  | nil => exact ⟨[], rfl⟩
  | cons item items ih =>
      rw [List.forall_mem_cons] at strings
      obtain ⟨text, rfl⟩ := strings.1
      obtain ⟨texts, rfl⟩ := ih strings.2
      exact ⟨text :: texts, rfl⟩

theorem isFlat_iff {json : Json} : json.IsFlat ↔ ∃ value, json.Gives value := by
  cases json with
  | null => exact iff_of_true trivial ⟨_, .null⟩
  | bool value => exact iff_of_true trivial ⟨_, .bool value⟩
  | number value => exact iff_of_true trivial ⟨_, .number value⟩
  | string value => exact iff_of_true trivial ⟨_, .string value⟩
  | object members =>
      refine iff_of_false id ?_
      rintro ⟨value, ⟨⟩⟩
  | array items =>
      constructor
      · intro strings
        obtain ⟨texts, rfl⟩ := exists_texts strings
        exact ⟨_, .array texts⟩
      · rintro ⟨value, ⟨⟩⟩
        intro item member
        obtain ⟨text, _, rfl⟩ := List.mem_map.mp member
        exact ⟨text, rfl⟩

theorem Blames.not_isFlat {json : Json} {fault : ValueFault} (blames : json.Blames fault) :
    ¬json.IsFlat := by
  cases blames with
  | object members => exact id
  | array texts items other =>
      intro strings
      obtain ⟨text, same⟩ := strings _ (List.mem_append_right _ List.mem_cons_self)
      exact other text same

theorem canonicalItems_eq (items : List Json) : canonicalItems items = items.map canonical := by
  induction items with
  | nil => rfl
  | cons item items ih => rw [canonicalItems, ih, List.map_cons]

theorem canonicalMembers_eq (members : List (Text × Json)) :
    canonicalMembers members =
      Entries.ofList (members.map fun member => (member.1, member.2.canonical)) := by
  induction members with
  | nil => rfl
  | cons member members ih =>
      rw [canonicalMembers, ih]
      rfl

theorem canonical_eq_string_iff {json : Json} {text : Text} :
    json.canonical = .string text ↔ json = .string text := by
  cases json <;> simp [canonical]

theorem map_canonical_eq_strings_iff {items : List Json} {texts : List Text} :
    items.map canonical = texts.map .string ↔ items = texts.map .string := by
  induction items generalizing texts with
  | nil => rfl
  | cons item items ih =>
      cases texts with
      | nil => simp
      | cons text texts =>
          simp only [List.map_cons, List.cons.injEq, canonical_eq_string_iff, ih]

theorem gives_canonical_iff {json : Json} {value : Value} :
    json.canonical.Gives value ↔ json.Gives value := by
  cases json with
  | null | bool | number | string => rfl
  | object members =>
      rw [canonical]
      constructor <;> rintro ⟨⟩
  | array items =>
      rw [canonical, canonicalItems_eq]
      constructor
      · intro gives
        generalize same : items.map canonical = others at gives
        cases gives with
        | array texts =>
            rw [map_canonical_eq_strings_iff.mp same]
            exact .array texts
      · intro gives
        cases gives with
        | array texts =>
            rw [map_canonical_eq_strings_iff.mpr rfl]
            exact .array texts

theorem isFlat_canonical_iff {json : Json} : json.canonical.IsFlat ↔ json.IsFlat := by
  simp only [isFlat_iff, gives_canonical_iff]

end Json

namespace Value

variable {name : Text} {json : Json} {value : Value} {error : Error}

theorem stringsOfJson_eq_ok_iff {items : List Json} {texts : List Text} :
    stringsOfJson items = .ok texts ↔ items = texts.map .string := by
  constructor
  · intro read
    fun_induction stringsOfJson items generalizing texts with
    | case1 =>
        cases read
        rfl
    | case2 text items others all ih =>
        cases read
        rw [List.map_cons, ih all]
    | case3 text items first all ih => cases read
    | case4 item items other => cases read
  · rintro rfl
    induction texts with
    | nil => rfl
    | cons text texts ih => rw [List.map_cons, stringsOfJson, ih]

theorem stringsOfJson_eq_error_iff {items : List Json} {found : Json} :
    stringsOfJson items = .error found ↔
      ∃ (texts : List Text) (rest : List Json), items = texts.map .string ++ found :: rest ∧
        ∀ text, found ≠ .string text := by
  constructor
  · intro read
    fun_induction stringsOfJson items with
    | case1 => cases read
    | case2 text items texts all => cases read
    | case3 text items first all ih =>
        obtain ⟨texts, rest, rfl, other⟩ := ih (by rw [all, Except.error.inj read])
        exact ⟨text :: texts, rest, rfl, other⟩
    | case4 item items other =>
        cases read
        exact ⟨[], items, rfl, other⟩
  · rintro ⟨texts, rest, rfl, other⟩
    induction texts with
    | nil => cases found <;> first | rfl | exact absurd rfl (other _)
    | cons text texts ih =>
        rw [List.map_cons, List.cons_append, stringsOfJson, ih]

theorem ofJson_eq_ok_iff : ofJson name json = .ok value ↔ json.Gives value := by
  constructor
  · intro read
    cases json with
    | null =>
        cases read
        exact .null
    | bool value =>
        cases read
        exact .bool value
    | number value =>
        cases read
        exact .number value
    | string value =>
        cases read
        exact .string value
    | array items =>
        rw [ofJson] at read
        cases all : stringsOfJson items with
        | ok texts =>
            rw [all] at read
            cases read
            rw [stringsOfJson_eq_ok_iff.mp all]
            exact .array texts
        | error found =>
            rw [all] at read
            cases read
    | object members => cases read
  · intro gives
    cases gives with
    | null | bool | integer | double | string => rfl
    | array texts => rw [ofJson, stringsOfJson_eq_ok_iff.mpr rfl]

theorem ofJson_canonical_eq_error_iff :
    ofJson name json.canonical = .error error ↔
      ∃ fault, json.Blames fault ∧ error = .unsupportedValue name fault := by
  constructor
  · intro refused
    cases json with
    | null | bool | number | string => cases refused
    | object members =>
        cases refused
        exact ⟨_, .object members, rfl⟩
    | array items =>
        rw [Json.canonical, Json.canonicalItems_eq, ofJson] at refused
        cases all : stringsOfJson (items.map Json.canonical) with
        | ok texts =>
            rw [all] at refused
            cases refused
        | error found =>
            rw [all] at refused
            cases refused
            obtain ⟨texts, rest, split, other⟩ := stringsOfJson_eq_error_iff.mp all
            obtain ⟨before, after, rfl, strings, blamed⟩ := List.map_eq_append_iff.mp split
            obtain ⟨item, items, rfl, rfl, rfl⟩ := List.map_eq_cons_iff.mp blamed
            rw [Json.map_canonical_eq_strings_iff.mp strings]
            refine ⟨_, .array texts items ?_, rfl⟩
            intro text same
            exact other text (Json.canonical_eq_string_iff.mpr same)
  · rintro ⟨fault, blames, rfl⟩
    cases blames with
    | object members => rfl
    | @array texts item items other =>
        have first : stringsOfJson ((texts.map Json.string ++ item :: items).map Json.canonical) =
            .error item.canonical := by
          rw [stringsOfJson_eq_error_iff]
          refine ⟨texts, items.map Json.canonical, ?_, ?_⟩
          · rw [List.map_append, Json.map_canonical_eq_strings_iff.mpr rfl, List.map_cons]
          · intro text same
            exact other text (Json.canonical_eq_string_iff.mp same)
        rw [Json.canonical, Json.canonicalItems_eq, ofJson, first]

end Value

namespace Json

theorem mem_canonicalMembers_iff {members : List (Text × Json)} {name : Text} {json : Json} :
    (name, json) ∈ canonicalMembers members ↔
      ∃ inner, Entries.Binds members name inner ∧ json = inner.canonical := by
  rw [canonicalMembers_eq, Entries.mem_ofList_iff, Entries.binds_map_iff]

theorem ascending_canonicalMembers (members : List (Text × Json)) :
    Entries.Ascending (canonicalMembers members) := by
  rw [canonicalMembers_eq]
  exact Entries.ascending_ofList _

end Json

namespace Context

def GiveAll (members : List (Text × Json)) (bindings : List (Text × Value)) : Prop :=
  List.Forall₂ (fun member binding => binding.1 = member.1 ∧ member.2.Gives binding.2)
    members bindings

/-- The context has just the names of the members, each with the value of its last member. -/
structure Mirrors (context : Context) (members : List (Text × Json)) : Prop where
  names : ∀ name, context.contains name ↔ name ∈ members.map Prod.fst
  values : ∀ name json, Entries.Binds members name json →
    ∃ value, json.Gives value ∧ context.get? name = some value

section

variable {members : List (Text × Json)} {bindings : List (Text × Value)}

theorem exists_giveAll_iff :
    (∃ bindings, GiveAll members bindings) ↔ ∀ member ∈ members, member.2.IsFlat := by
  induction members with
  | nil => simp [GiveAll]
  | cons member members ih =>
      rw [List.forall_mem_cons, ← ih, Json.isFlat_iff]
      constructor
      · rintro ⟨bindings, give⟩
        cases give with
        | cons first rest => exact ⟨⟨_, first.2⟩, _, rest⟩
      · rintro ⟨⟨value, gives⟩, bindings, rest⟩
        exact ⟨(member.1, value) :: bindings, .cons ⟨rfl, gives⟩ rest⟩

theorem GiveAll.names (give : GiveAll members bindings) :
    bindings.map Prod.fst = members.map Prod.fst := by
  induction give with
  | nil => rfl
  | cons first _ ih => rw [List.map_cons, List.map_cons, first.1, ih]

theorem GiveAll.binds (give : GiveAll members bindings) {name : Text} {json : Json}
    (bound : Entries.Binds members name json) :
    ∃ value, json.Gives value ∧ Entries.Binds bindings name value := by
  induction give with
  | nil => exact absurd bound Entries.not_binds_nil
  | cons first rest ih =>
      rcases Entries.binds_cons_iff.mp bound with later | ⟨missing, rfl⟩
      · obtain ⟨value, gives, inside⟩ := ih later
        exact ⟨value, gives, Entries.binds_cons_iff.mpr (.inl inside)⟩
      · rw [← GiveAll.names rest] at missing
        exact ⟨_, first.2, Entries.binds_cons_iff.mpr (.inr ⟨missing, Prod.ext first.1 rfl⟩)⟩

theorem bindingsOfJson_eq_ok_iff :
    bindingsOfJson members = .ok bindings ↔ GiveAll members bindings := by
  constructor
  · intro read
    fun_induction bindingsOfJson members generalizing bindings with
    | case1 =>
        cases read
        exact .nil
    | case2 name json members error refused => cases read
    | case3 name json members value given error refused ih => cases read
    | case4 name json members value given others all ih =>
        cases read
        exact .cons ⟨rfl, Value.ofJson_eq_ok_iff.mp given⟩ (ih all)
  · intro give
    induction give with
    | nil => rfl
    | @cons member binding members bindings first _ ih =>
        rw [bindingsOfJson, Value.ofJson_eq_ok_iff.mpr first.2, ih, ← first.1]

theorem bindingsOfJson_eq_error_iff {error : Error} :
    bindingsOfJson members = .error error ↔
      ∃ before name json after, members = before ++ (name, json) :: after ∧
        (∀ earlier ∈ before, earlier.2.IsFlat) ∧ Value.ofJson name json = .error error := by
  constructor
  · intro refused
    fun_induction bindingsOfJson members with
    | case1 => cases refused
    | case2 name json members error found =>
        cases refused
        exact ⟨[], name, json, members, rfl, by simp, found⟩
    | case3 name json members value given error found ih =>
        cases refused
        obtain ⟨before, bad, inner, after, rfl, flat, first⟩ := ih found
        refine ⟨(name, json) :: before, bad, inner, after, rfl, ?_, first⟩
        rw [List.forall_mem_cons]
        exact ⟨Json.isFlat_iff.mpr ⟨value, Value.ofJson_eq_ok_iff.mp given⟩, flat⟩
    | case4 name json members value given others all ih => cases refused
  · rintro ⟨before, name, json, after, rfl, flat, first⟩
    induction before with
    | nil => rw [List.nil_append, bindingsOfJson, first]
    | cons member before ih =>
        rw [List.forall_mem_cons, Json.isFlat_iff] at flat
        obtain ⟨value, gives⟩ := flat.1
        rw [List.cons_append, bindingsOfJson, Value.ofJson_eq_ok_iff.mpr gives, ih flat.2]

theorem mirrors_ofList (give : GiveAll members bindings) : (ofList bindings).Mirrors members := by
  constructor
  · intro name
    rw [← give.names, ← Entries.mem_names_ofList_iff, ← not_iff_not, ← Entries.get?_eq_none_iff,
      contains, Option.not_isSome_iff_eq_none]
    rfl
  · intro name json bound
    obtain ⟨value, gives, inside⟩ := give.binds bound
    exact ⟨value, gives, Entries.get?_ofList_eq_some_iff.mpr inside⟩

theorem Mirrors.unique {first second : Context} (one : first.Mirrors members)
    (two : second.Mirrors members) : first = second := by
  apply ext_get?
  intro name
  by_cases member : name ∈ members.map Prod.fst
  · obtain ⟨json, bound⟩ := Entries.exists_binds member
    obtain ⟨value, gives, found⟩ := one.values name json bound
    obtain ⟨other, givesOther, foundOther⟩ := two.values name json bound
    rw [found, foundOther, gives.unique givesOther]
  · have absent (context : Context) (mirrors : context.Mirrors members) :
        context.get? name = none := by
      rw [← Option.not_isSome_iff_eq_none]
      exact mt (mirrors.names name).mp member
    rw [absent first one, absent second two]

theorem Mirrors.flat {context : Context} (mirrors : context.Mirrors members) {name : Text}
    {json : Json} (bound : Entries.Binds members name json) : json.IsFlat := by
  obtain ⟨value, gives, _⟩ := mirrors.values name json bound
  exact Json.isFlat_iff.mpr ⟨value, gives⟩

theorem mirrors_canonicalMembers_iff {context : Context} :
    context.Mirrors (Json.canonicalMembers members) ↔ context.Mirrors members := by
  have names (name : Text) : name ∈ (Json.canonicalMembers members).map Prod.fst ↔
      name ∈ members.map Prod.fst := by
    rw [Json.canonicalMembers_eq, Entries.mem_names_ofList_iff, List.map_map]
    rfl
  have distinct := (Json.ascending_canonicalMembers members).nodup
  constructor
  · intro mirrors
    refine ⟨fun name => (mirrors.names name).trans (names name), ?_⟩
    intro name json bound
    have inside := Json.mem_canonicalMembers_iff.mpr ⟨json, bound, rfl⟩
    obtain ⟨value, gives, found⟩ :=
      mirrors.values name json.canonical ((Entries.binds_iff_mem distinct).mpr inside)
    exact ⟨value, Json.gives_canonical_iff.mp gives, found⟩
  · intro mirrors
    refine ⟨fun name => (mirrors.names name).trans (names name).symm, ?_⟩
    intro name json bound
    obtain ⟨inner, last, rfl⟩ :=
      Json.mem_canonicalMembers_iff.mp ((Entries.binds_iff_mem distinct).mp bound)
    obtain ⟨value, gives, found⟩ := mirrors.values name inner last
    exact ⟨value, Json.gives_canonical_iff.mpr gives, found⟩

end

end Context

end MailTemplate
