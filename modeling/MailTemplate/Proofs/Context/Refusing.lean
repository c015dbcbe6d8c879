import MailTemplate.Proofs.Context.Members
import MailTemplate.Proofs.Text.ByteOrder

/-!
What is refused as a context, and whom the error blames. An object that is taken is taken whole, and
one that is refused leaves no trace in a context that it was to be merged into.
-/

namespace MailTemplate

/-- The error for JSON that is no context. In an object it blames the first name, by its bytes,
whose value is not flat. -/
inductive Json.Refuses : Json → Error → Prop
  | notObject {json : Json} (other : ∀ members, json ≠ .object members) :
      Refuses json (.context (.notObject json.canonical))
  | member {members : List (Text × Json)} {name : Text} {json : Json} {fault : ValueFault}
      (bound : Entries.Binds members name json) (blames : json.Blames fault)
      (first : ∀ other inner, Entries.Binds members other inner → other.bytes < name.bytes →
        inner.IsFlat) :
      Refuses (.object members) (.unsupportedValue name fault)

namespace Context

variable {members : List (Text × Json)} {context : Context} {error : Error}

theorem ofJson_object (members : List (Text × Json)) :
    ofJson (.object members) = (bindingsOfJson (Json.canonicalMembers members)).map ofList := by
  rw [ofJson, Json.canonical]

theorem ofJson_of_not_object {json : Json} (other : ∀ members, json ≠ .object members) :
    ofJson json = .error (.context (.notObject json.canonical)) := by
  cases json with
  | object members => exact absurd rfl (other members)
  | null | bool | number | string | array => rfl

theorem ofJson_object_eq_ok_iff :
    ofJson (.object members) = .ok context ↔ context.Mirrors members := by
  rw [ofJson_object, ← mirrors_canonicalMembers_iff]
  constructor
  · intro read
    cases given : bindingsOfJson (Json.canonicalMembers members) with
    | error refused =>
        rw [given] at read
        cases read
    | ok bindings =>
        rw [given] at read
        cases read
        exact mirrors_ofList (bindingsOfJson_eq_ok_iff.mp given)
  · intro mirrors
    have distinct := (Json.ascending_canonicalMembers members).nodup
    have flat : ∀ member ∈ Json.canonicalMembers members, member.2.IsFlat :=
      fun member inside => mirrors.flat ((Entries.binds_iff_mem distinct).mpr inside)
    obtain ⟨bindings, give⟩ := exists_giveAll_iff.mpr flat
    rw [bindingsOfJson_eq_ok_iff.mpr give, mirrors.unique (mirrors_ofList give)]
    rfl

theorem ofJson_object_eq_error_iff :
    ofJson (.object members) = .error error ↔ (Json.object members).Refuses error := by
  have refused : ofJson (.object members) = .error error ↔
      bindingsOfJson (Json.canonicalMembers members) = .error error := by
    rw [ofJson_object]
    cases bindingsOfJson (Json.canonicalMembers members) <;> simp [Except.map]
  have ascending := Json.ascending_canonicalMembers members
  rw [refused, bindingsOfJson_eq_error_iff]
  constructor
  · rintro ⟨before, name, json, after, split, flat, found⟩
    have here : (name, json) ∈ Json.canonicalMembers members := by simp [split]
    obtain ⟨inner, bound, rfl⟩ := Json.mem_canonicalMembers_iff.mp here
    obtain ⟨fault, blames, rfl⟩ := Value.ofJson_canonical_eq_error_iff.mp found
    refine .member bound blames ?_
    intro other another last less
    have inside := Json.mem_canonicalMembers_iff.mpr ⟨another, last, rfl⟩
    rw [split] at inside ascending
    have earlier := (ascending.mem_before_iff inside).mpr ((Text.bytes_lt_iff _ _).mp less)
    exact Json.isFlat_canonical_iff.mp (flat _ earlier)
  · intro refuses
    cases refuses with
    | notObject other => exact absurd rfl (other members)
    | @member _ name json fault bound blames first =>
        have here := Json.mem_canonicalMembers_iff.mpr ⟨json, bound, rfl⟩
        obtain ⟨before, after, split⟩ := List.append_of_mem here
        refine ⟨before, name, json.canonical, after, split, ?_, ?_⟩
        · intro earlier inside
          have member : earlier ∈ Json.canonicalMembers members := by simp [split, inside]
          obtain ⟨another, last, same⟩ := Json.mem_canonicalMembers_iff.mp member
          rw [split] at member ascending
          have less := (ascending.mem_before_iff member).mp inside
          rw [same]
          exact Json.isFlat_canonical_iff.mpr (first _ _ last ((Text.bytes_lt_iff _ _).mpr less))
        · exact Value.ofJson_canonical_eq_error_iff.mpr ⟨fault, blames, rfl⟩

theorem ofJson_eq_ok_iff {json : Json} :
    ofJson json = .ok context ↔ ∃ members, json = .object members ∧ context.Mirrors members := by
  constructor
  · intro read
    cases json with
    | object members => exact ⟨members, rfl, ofJson_object_eq_ok_iff.mp read⟩
    | null | bool | number | string | array => cases read
  · rintro ⟨members, rfl, mirrors⟩
    exact ofJson_object_eq_ok_iff.mpr mirrors

theorem ofJson_eq_error_iff {json : Json} : ofJson json = .error error ↔ json.Refuses error := by
  constructor
  · intro refused
    by_cases isObject : ∃ members, json = .object members
    · obtain ⟨members, rfl⟩ := isObject
      exact ofJson_object_eq_error_iff.mp refused
    · have other : ∀ members, json ≠ .object members := fun members same => isObject ⟨members, same⟩
      rw [ofJson_of_not_object other] at refused
      cases refused
      exact .notObject other
  · intro refuses
    cases refuses with
    | notObject other => exact ofJson_of_not_object other
    | member bound blames first =>
        exact ofJson_object_eq_error_iff.mpr (.member bound blames first)

theorem exists_ofJson_iff {json : Json} :
    (∃ context, ofJson json = .ok context) ↔
      ∃ members, json = .object members ∧
        ∀ name inner, Entries.Binds members name inner → inner.IsFlat := by
  constructor
  · rintro ⟨context, read⟩
    obtain ⟨members, rfl, mirrors⟩ := ofJson_eq_ok_iff.mp read
    exact ⟨members, rfl, fun _ _ => mirrors.flat⟩
  · rintro ⟨members, rfl, flat⟩
    cases read : ofJson (.object members) with
    | ok context => exact ⟨context, rfl⟩
    | error error =>
        cases ofJson_eq_error_iff.mp read with
        | notObject other => exact absurd rfl (other members)
        | member bound blames first => exact absurd (flat _ _ bound) blames.not_isFlat

theorem run_forM_insert (bindings : List (Text × Value)) (receiver : Context) :
    (bindings.forM fun binding =>
        (modify (·.insert binding.1 binding.2) : ExceptT Error (StateM Context) Unit)).run.run
          receiver =
      (.ok (),
        bindings.foldl (fun bound binding => bound.insert binding.1 binding.2) receiver) := by
  induction bindings generalizing receiver with
  | nil => rfl
  | cons binding bindings ih => exact ih (receiver.insert binding.1 binding.2)

theorem run_mergeJson_of_ok {json : Json} (read : ofJson json = .ok context) (receiver : Context) :
    (mergeJson json).run.run receiver = (.ok (), receiver.merge context) := by
  rw [mergeJson, read]
  exact run_forM_insert context.entries receiver

theorem run_mergeJson_of_error {json : Json} (refused : ofJson json = .error error)
    (receiver : Context) : (mergeJson json).run.run receiver = (.error error, receiver) := by
  rw [mergeJson, refused]
  rfl

/-- JSON is a context exactly if it is an object of flat values, and then it is the context of all
its members. Any other JSON is refused for a determined reason, and a context that it was to be
merged into stays as it was. -/
theorem ofJson_all_or_nothing (json : Json) :
    ((∃ context, ofJson json = .ok context) ↔
      ∃ members, json = .object members ∧
        ∀ name inner, Entries.Binds members name inner → inner.IsFlat) ∧
    (∀ context, ofJson json = .ok context ↔
      ∃ members, json = .object members ∧ context.Mirrors members) ∧
    (∀ error, ofJson json = .error error ↔ json.Refuses error) ∧
    ∀ receiver : Context,
      (∀ context, ofJson json = .ok context →
        (mergeJson json).run.run receiver = (.ok (), receiver.merge context)) ∧
      ∀ error, ofJson json = .error error →
        (mergeJson json).run.run receiver = (.error error, receiver) := by
  refine ⟨exists_ofJson_iff, fun _ => ofJson_eq_ok_iff, fun _ => ofJson_eq_error_iff, ?_⟩
  intro receiver
  constructor
  · intro context read
    exact run_mergeJson_of_ok read receiver
  · intro error refused
    exact run_mergeJson_of_error refused receiver

/-- The object `{"é":{},"z":["a",1,{}],"a":{},"a":true}`, whose last `a` is flat. -/
def twoFaults : List (Text × Json) :=
  [ (['é'], .object []), (['z'], .array [.string ['a'], .number (.integer 1), .object []]),
    (['a'], .object []), (['a'], .bool true) ]

/-- The object `{"n":-3,"l":["x","y"],"h":0.5,"s":"1"}`. -/
def noFaults : List (Text × Json) :=
  [ (['n'], .number (.integer (-3))), (['l'], .array [.string ['x'], .string ['y']]),
    (['h'], .number (.double ⟨0x3fe0000000000000⟩)), (['s'], .string ['1']) ]

def noFaultsContext : Context :=
  .ofList [ (['h'], .number ⟨0x3fe0000000000000⟩), (['l'], .array [['x'], ['y']]),
    (['n'], .number ⟨0xc008000000000000⟩), (['s'], .string ['1']) ]

theorem ofJson_all_or_nothing_twoFaults :
    ofJson (.object twoFaults) =
        .error (.unsupportedValue ['z'] (.arrayItem (.number (.integer 1)))) ∧
      (Json.object twoFaults).Refuses
        (.unsupportedValue ['z'] (.arrayItem (.number (.integer 1)))) ∧
      (mergeJson (.object twoFaults)).run.run (empty.insert ['n'] .null) =
        (.error (.unsupportedValue ['z'] (.arrayItem (.number (.integer 1)))),
          empty.insert ['n'] .null) ∧
      ofJson (.object noFaults) = .ok noFaultsContext ∧
      (∃ members, Json.object noFaults = .object members ∧ noFaultsContext.Mirrors members) ∧
      (mergeJson (.object noFaults)).run.run (empty.insert ['n'] .null) =
        (.ok (), (empty.insert ['n'] .null).merge noFaultsContext) := by
  obtain ⟨_, _, errors, merges⟩ := ofJson_all_or_nothing (.object twoFaults)
  have refused : ofJson (.object twoFaults) =
      .error (.unsupportedValue ['z'] (.arrayItem (.number (.integer 1)))) := by rfl
  obtain ⟨_, contexts, _, taken⟩ := ofJson_all_or_nothing (.object noFaults)
  have minusThree : Double.ofInt (-3) = ⟨0xc008000000000000⟩ := by decide +kernel
  have read : ofJson (.object noFaults) = .ok noFaultsContext := by
    rw [noFaultsContext, ← minusThree]
    rfl
  exact ⟨refused, (errors _).mp refused, (merges _).2 _ refused, read, (contexts _).mp read,
    (taken _).1 _ read⟩

end Context
end MailTemplate
