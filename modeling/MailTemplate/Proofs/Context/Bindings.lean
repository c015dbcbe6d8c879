import Mathlib.Data.List.Basic
import Mathlib.Data.List.Nodup
import MailTemplate.Entries

/-!
Lists of bindings in any order and with repeated names. A name has the value of its last binding;
without repeated names the order does not matter.
-/

namespace MailTemplate
namespace Entries

variable {α : Type} {entries bindings : List (Text × α)} {name : Text} {value : α}

def Binds (bindings : List (Text × α)) (name : Text) (value : α) : Prop :=
  ∃ before after, bindings = before ++ (name, value) :: after ∧ ∀ later ∈ after, later.1 ≠ name

theorem get?_append (first second : List (Text × α)) (name : Text) :
    get? (first ++ second) name = (get? first name).or (get? second name) := by
  induction first with
  | nil => rfl
  | cons entry first ih =>
      rw [List.cons_append, get?_cons, get?_cons, ih]
      by_cases found : entry.1 = name
      · rw [if_pos found, if_pos found]
        rfl
      · rw [if_neg found, if_neg found]

theorem get?_eq_some_iff :
    get? entries name = some value ↔
      ∃ before after, entries = before ++ (name, value) :: after ∧
        ∀ earlier ∈ before, earlier.1 ≠ name := by
  simp only [get?, Option.map_eq_some_iff, List.find?_eq_some_iff_append]
  constructor
  · rintro ⟨⟨found, _⟩, ⟨same, before, after, split, others⟩, rfl⟩
    have names : found = name := of_decide_eq_true same
    exact ⟨before, after, names ▸ split, by simpa using others⟩
  · rintro ⟨before, after, split, others⟩
    exact ⟨(name, value), ⟨decide_eq_true rfl, before, after, split, by simpa using others⟩, rfl⟩

theorem get?_eq_none_iff : get? entries name = none ↔ name ∉ entries.map Prod.fst := by
  rw [get?, Option.map_eq_none_iff, List.find?_eq_none]
  constructor
  · intro others member
    obtain ⟨entry, inside, same⟩ := List.mem_map.mp member
    exact others entry inside (decide_eq_true same)
  · intro missing entry inside same
    exact missing (List.mem_map.mpr ⟨entry, inside, of_decide_eq_true same⟩)

theorem get?_reverse_eq_some_iff :
    get? bindings.reverse name = some value ↔ Binds bindings name value := by
  rw [get?_eq_some_iff]
  constructor
  · rintro ⟨before, after, split, others⟩
    refine ⟨after.reverse, before.reverse, ?_, ?_⟩
    · rw [← List.reverse_reverse bindings, split]
      simp
    · simpa using others
  · rintro ⟨before, after, rfl, others⟩
    exact ⟨after.reverse, before.reverse, by simp, by simpa using others⟩

theorem get?_reverse_eq_none_iff :
    get? bindings.reverse name = none ↔ name ∉ bindings.map Prod.fst := by
  rw [get?_eq_none_iff, List.map_reverse, List.mem_reverse]

theorem not_binds_nil : ¬Binds [] name value := by
  rintro ⟨before, after, split, _⟩
  cases before <;> cases split

theorem binds_cons_iff {binding : Text × α} :
    Binds (binding :: bindings) name value ↔
      Binds bindings name value ∨ name ∉ bindings.map Prod.fst ∧ binding = (name, value) := by
  rw [← get?_reverse_eq_some_iff, ← get?_reverse_eq_some_iff, ← get?_reverse_eq_none_iff,
    List.reverse_cons, get?_append, Option.or_eq_some_iff, get?_cons, Prod.ext_iff]
  by_cases same : binding.1 = name <;> simp [same]

theorem get?_ofList (bindings : List (Text × α)) (name : Text) :
    get? (ofList bindings) name = get? bindings.reverse name := by
  induction bindings generalizing name with
  | nil => rfl
  | cons binding bindings ih =>
      have step : ofList (binding :: bindings) =
          insert false binding.1 binding.2 (ofList bindings) := rfl
      rw [step, get?_insert_false _ _ _ (ascending_ofList bindings), ih, ih, List.reverse_cons,
        get?_append, get?_cons]
      by_cases same : binding.1 = name
      · rw [if_pos same, if_pos same, ← same]
        cases get? bindings.reverse binding.1 <;> rfl
      · rw [if_neg same, if_neg same]
        cases get? bindings.reverse name <;> rfl

theorem get?_ofList_eq_some_iff :
    get? (ofList bindings) name = some value ↔ Binds bindings name value := by
  rw [get?_ofList, get?_reverse_eq_some_iff]

theorem mem_names_ofList_iff :
    name ∈ (ofList bindings).map Prod.fst ↔ name ∈ bindings.map Prod.fst := by
  rw [← not_iff_not, ← get?_eq_none_iff, get?_ofList, get?_reverse_eq_none_iff]

theorem exists_binds (member : name ∈ bindings.map Prod.fst) :
    ∃ value, Binds bindings name value := by
  cases found : get? bindings.reverse name with
  | none => exact absurd member (get?_reverse_eq_none_iff.mp found)
  | some value => exact ⟨value, get?_reverse_eq_some_iff.mp found⟩

theorem get?_eq_some_iff_mem (distinct : (entries.map Prod.fst).Nodup) :
    get? entries name = some value ↔ (name, value) ∈ entries := by
  rw [get?_eq_some_iff]
  constructor
  · rintro ⟨before, after, rfl, _⟩
    exact List.mem_append_right _ List.mem_cons_self
  · intro member
    obtain ⟨before, after, rfl⟩ := List.append_of_mem member
    refine ⟨before, after, rfl, ?_⟩
    intro earlier inside same
    rw [List.map_append, List.map_cons, List.nodup_append] at distinct
    exact distinct.2.2 earlier.1 (List.mem_map_of_mem inside) name List.mem_cons_self same

theorem get?_perm {first second : List (Text × α)} (perm : first.Perm second)
    (distinct : (first.map Prod.fst).Nodup) (name : Text) :
    get? first name = get? second name := by
  apply Option.ext
  intro value
  rw [get?_eq_some_iff_mem distinct, get?_eq_some_iff_mem ((perm.map Prod.fst).nodup distinct),
    perm.mem_iff]

theorem Ascending.nodup (ascending : Ascending entries) : (entries.map Prod.fst).Nodup := by
  rw [List.nodup_iff_pairwise_ne, List.pairwise_map]
  apply ascending.imp
  intro first second less same
  exact List.lt_irrefl _ (same ▸ less)

theorem Ascending.mem_before_iff {before after : Entries α}
    (ascending : Ascending (before ++ (name, value) :: after)) {entry : Text × α}
    (member : entry ∈ before ++ (name, value) :: after) : entry ∈ before ↔ entry.1 < name := by
  obtain ⟨_, rest, apart⟩ := List.pairwise_append.mp ascending
  constructor
  · intro inside
    exact apart entry inside _ List.mem_cons_self
  · intro less
    rcases List.mem_append.mp member with inside | later
    · exact inside
    · rcases List.mem_cons.mp later with rfl | behind
      · exact absurd less (List.lt_irrefl _)
      · have greater := (List.pairwise_cons.mp rest).1 entry behind
        exact absurd less (List.lt_asymm greater)

theorem binds_iff_mem (distinct : (bindings.map Prod.fst).Nodup) :
    Binds bindings name value ↔ (name, value) ∈ bindings := by
  rw [← get?_reverse_eq_some_iff, get?_perm (List.reverse_perm bindings) (by simpa using distinct),
    get?_eq_some_iff_mem distinct]

theorem mem_ofList_iff : (name, value) ∈ ofList bindings ↔ Binds bindings name value := by
  rw [← get?_eq_some_iff_mem (ascending_ofList bindings).nodup, get?_ofList_eq_some_iff]

theorem binds_map_iff {β : Type} (change : α → β) {value : β} :
    Binds (bindings.map fun binding => (binding.1, change binding.2)) name value ↔
      ∃ inner, Binds bindings name inner ∧ value = change inner := by
  constructor
  · rintro ⟨before, after, split, others⟩
    obtain ⟨front, back, rfl, rfl, blamed⟩ := List.map_eq_append_iff.mp split
    obtain ⟨⟨_, inner⟩, rest, rfl, same, rfl⟩ := List.map_eq_cons_iff.mp blamed
    cases same
    refine ⟨inner, ⟨front, rest, rfl, ?_⟩, rfl⟩
    intro later member
    exact others _ (List.mem_map_of_mem member)
  · rintro ⟨inner, ⟨before, after, rfl, others⟩, rfl⟩
    exact ⟨_, _, List.map_append, List.forall_mem_map.mpr others⟩

end Entries
end MailTemplate
