import MailTemplate.Proofs.Context.Layering
import MailTemplate.Proofs.Context.Members
import MailTemplate.Proofs.Context.Refusing

/-!
The two readers of contexts. They give the same context to a text that both take, and the one that
decodes the members as they stand refuses more only for what a later namesake hides.
-/

namespace MailTemplate

namespace Value

theorem stringsOf?_eq_some_iff {items : List Json} {texts : List Text} :
    stringsOf? items = some texts ↔ items = texts.map .string := by
  constructor
  · intro read
    induction items generalizing texts with
    | nil =>
        cases read
        rfl
    | cons item items ih =>
        cases item with
        | string text =>
            rw [stringsOf?, stringOf?, Option.map_eq_some_iff] at read
            obtain ⟨others, all, rfl⟩ := read
            rw [List.map_cons, ih all]
        | null | bool | number | array | object => cases read
  · rintro rfl
    induction texts with
    | nil => rfl
    | cons text texts ih =>
        rw [List.map_cons, stringsOf?, stringOf?, ih]
        rfl

theorem decode?_array (items : List Json) :
    decode? (.array items) = (stringsOf? items).map .array := by
  simp only [decode?, kinds, List.findSome?_cons, readNull?, readBool?, readDouble?, readString?,
    stringOf?, Option.map_none, readArray?]
  cases stringsOf? items <;> rfl

theorem decode?_eq_some_iff {json : Json} {value : Value} :
    decode? json = some value ↔ json.Gives value := by
  constructor
  · intro read
    cases json with
    | null =>
        cases read
        exact .null
    | bool value =>
        cases read
        exact .bool value
    | number value =>
        cases read
        exact .number value
    | string value =>
        cases read
        exact .string value
    | array items =>
        rw [decode?_array, Option.map_eq_some_iff] at read
        obtain ⟨texts, all, rfl⟩ := read
        rw [stringsOf?_eq_some_iff.mp all]
        exact .array texts
    | object members => cases read
  · intro gives
    cases gives with
    | null | bool | integer | double | string => rfl
    | array texts =>
        rw [decode?_array, stringsOf?_eq_some_iff.mpr rfl]
        rfl

end Value

namespace Context

variable {members : List (Text × Json)} {context : Context}

theorem decodeMembers?_eq_some_iff {result : Context} :
    decodeMembers? context members = some result ↔
      ∃ bindings, GiveAll members bindings ∧
        result =
          bindings.foldl (fun bound binding => bound.insert binding.1 binding.2) context := by
  constructor
  · intro read
    fun_induction decodeMembers? context members with
    | case1 context =>
        cases read
        exact ⟨[], .nil, rfl⟩
    | case2 context name json members refused => cases read
    | case3 context name json members value given ih =>
        obtain ⟨bindings, give, rfl⟩ := ih read
        exact ⟨(name, value) :: bindings, .cons ⟨rfl, Value.decode?_eq_some_iff.mp given⟩ give, rfl⟩
  · rintro ⟨bindings, give, rfl⟩
    induction give generalizing context with
    | nil => rfl
    | @cons member binding members bindings first _ ih =>
        rw [decodeMembers?, Value.decode?_eq_some_iff.mpr first.2, ← first.1]
        exact ih

theorem foldl_insert_empty (bindings : List (Text × Value)) :
    bindings.foldl (fun bound binding => bound.insert binding.1 binding.2) empty =
      ofList bindings := by
  apply ext_get?
  intro name
  rw [get?_foldl_insert, get?_empty, Option.or_none, ← Entries.get?_ofList]
  rfl

theorem decodeMembers?_empty_eq_some_iff :
    decodeMembers? empty members = some context ↔
      context.Mirrors members ∧ ∀ member ∈ members, member.2.IsFlat := by
  simp only [decodeMembers?_eq_some_iff, foldl_insert_empty]
  constructor
  · rintro ⟨bindings, give, rfl⟩
    exact ⟨mirrors_ofList give, exists_giveAll_iff.mp ⟨bindings, give⟩⟩
  · rintro ⟨mirrors, flat⟩
    obtain ⟨bindings, give⟩ := exists_giveAll_iff.mpr flat
    exact ⟨bindings, give, mirrors.unique (mirrors_ofList give)⟩

/-- Each value that a later member of the same name hides is flat. -/
def HidesFlat (members : List (Text × Json)) : Prop :=
  ∀ before name json after, members = before ++ (name, json) :: after →
    name ∈ after.map Prod.fst → json.IsFlat

theorem Mirrors.all_flat_iff (mirrors : context.Mirrors members) :
    (∀ member ∈ members, member.2.IsFlat) ↔ HidesFlat members := by
  constructor
  · intro flat before name json after split _
    exact flat (name, json) (split ▸ List.mem_append_right _ List.mem_cons_self)
  · rintro hides ⟨name, json⟩ member
    obtain ⟨before, after, split⟩ := List.append_of_mem member
    by_cases hidden : name ∈ after.map Prod.fst
    · exact hides before name json after split hidden
    · have last : Entries.Binds members name json := by
        refine ⟨before, after, split, ?_⟩
        intro later inside same
        exact hidden (List.mem_map.mpr ⟨later, inside, same⟩)
      exact mirrors.flat last

theorem hidesFlat_of_nodup (distinct : (members.map Prod.fst).Nodup) : HidesFlat members := by
  rintro before name json after rfl hidden
  rw [List.map_append, List.map_cons, List.nodup_append, List.nodup_cons] at distinct
  exact absurd hidden distinct.2.1.1

theorem ofJsonText_eq_ok_iff {text : Text} :
    ofJsonText text = .ok context ↔
      ∃ members, Json.ofText? text = some (.object members) ∧ context.Mirrors members := by
  rw [ofJsonText]
  cases Json.ofText? text with
  | none => simp
  | some json => simp [ofJson_eq_ok_iff]

theorem toOption_ofJsonText_eq_some_iff {text : Text} :
    (ofJsonText text).toOption = some context ↔ ofJsonText text = .ok context := by
  cases ofJsonText text <;> simp [Except.toOption]

theorem decode?_eq_some_iff_mirrors {text : Text} :
    decode? text = some context ↔
      ∃ members, Json.ofText? text = some (.object members) ∧ context.Mirrors members ∧
        ∀ member ∈ members, member.2.IsFlat := by
  rw [decode?]
  cases Json.ofText? text with
  | none => simp
  | some json =>
      cases json with
      | object members => simp [decodeMembers?_empty_eq_some_iff]
      | null | bool | number | string | array => simp

/-- Both readers give a text the same context. Decoding the members as they stand succeeds where the
other reader does unless a value that is not flat is hidden by a later namesake, so on objects
without repeated names the two take the same texts. -/
theorem decoders_agree (text : Text) :
    (∀ context, decode? text = some context ↔
      ofJsonText text = .ok context ∧
        ∀ members, Json.ofText? text = some (.object members) → HidesFlat members) ∧
    ((∀ members, Json.ofText? text = some (.object members) → (members.map Prod.fst).Nodup) →
      decode? text = (ofJsonText text).toOption) := by
  have agree (context : Context) : decode? text = some context ↔
      ofJsonText text = .ok context ∧
        ∀ members, Json.ofText? text = some (.object members) → HidesFlat members := by
    rw [decode?_eq_some_iff_mirrors, ofJsonText_eq_ok_iff]
    constructor
    · rintro ⟨members, read, mirrors, flat⟩
      refine ⟨⟨members, read, mirrors⟩, ?_⟩
      intro others same
      rw [read] at same
      cases same
      exact mirrors.all_flat_iff.mp flat
    · rintro ⟨⟨members, read, mirrors⟩, hides⟩
      exact ⟨members, read, mirrors, mirrors.all_flat_iff.mpr (hides members read)⟩
  refine ⟨agree, ?_⟩
  intro distinct
  apply Option.ext
  intro context
  rw [agree, toOption_ofJsonText_eq_some_iff]
  exact and_iff_left fun members read => hidesFlat_of_nodup (distinct members read)

/-- The text `{"b":["x"],"a":-0}`. -/
def minusZeroText : Text :=
  "\x7b\x22b\x22:[\x22x\x22],\x22a\x22:-0\x7d".toList

/-- The text `{"a":{},"a":true}`. -/
def hiddenObjectText : Text :=
  "\x7b\x22a\x22:\x7b\x7d,\x22a\x22:true\x7d".toList

def memberNames : Json → List Text
  | .object members => members.map Prod.fst
  | _ => []

theorem decoders_agree_minusZeroText :
    (∀ members, Json.ofText? minusZeroText = some (.object members) →
      (members.map Prod.fst).Nodup) ∧
    decode? minusZeroText = (ofJsonText minusZeroText).toOption ∧
    ofJsonText minusZeroText =
      .ok ((empty.insert ['a'] (.number ⟨0x8000000000000000⟩)).insert ['b'] (.array [['x']])) := by
  have names : (Json.ofText? minusZeroText).map memberNames = some [['b'], ['a']] := by
    decide +kernel
  have distinct : ∀ members, Json.ofText? minusZeroText = some (.object members) →
      (members.map Prod.fst).Nodup := by
    intro members read
    rw [read, Option.map_some, Option.some.injEq] at names
    change (memberNames (.object members)).Nodup
    rw [names]
    decide
  have decoded : decode? minusZeroText =
      some ((empty.insert ['a'] (.number ⟨0x8000000000000000⟩)).insert ['b'] (.array [['x']])) := by
    decide +kernel
  obtain ⟨agree, once⟩ := decoders_agree minusZeroText
  exact ⟨distinct, once distinct, ((agree _).mp decoded).1⟩

/-- What a later namesake hides is looked at by one of the readers only. -/
example :
    (ofJsonText hiddenObjectText).toOption = some (empty.insert ['a'] (.bool true)) ∧
      decode? hiddenObjectText = none := by
  decide +kernel

end Context
end MailTemplate
