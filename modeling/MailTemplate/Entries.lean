import MailTemplate.Text

/-!
Lists of named things in ascending order of the names, each name once. Two such lists that hold the
same are equal.
-/

namespace MailTemplate

abbrev Entries (α : Type) := List (Text × α)

namespace Entries

def Ascending {α : Type} (entries : Entries α) : Prop :=
  entries.Pairwise fun first second => first.1 < second.1

def get? {α : Type} (entries : Entries α) (name : Text) : Option α :=
  (entries.find? fun entry => entry.1 = name).map Prod.snd

/-- Puts a value under a name, in its place in the order. A value that is there already is either
replaced or kept. -/
def insert {α : Type} (replace : Bool) (name : Text) (value : α) : Entries α → Entries α
  | [] => [(name, value)]
  | entry :: entries =>
      if name < entry.1 then (name, value) :: entry :: entries
      else if name = entry.1 then (name, if replace then value else entry.2) :: entries
      else entry :: insert replace name value entries

def ofList {α : Type} (bindings : List (Text × α)) : Entries α :=
  bindings.foldr (fun binding entries => insert false binding.1 binding.2 entries) []

theorem lt_of_not_lt {first second : Text} (notLess : ¬first < second)
    (different : first ≠ second) : second < first := by
  by_cases less : second < first
  · exact less
  · exact absurd (List.le_antisymm (List.not_lt.mp less) (List.not_lt.mp notLess)) different

theorem name_of_mem_insert {α : Type} {replace : Bool} {name : Text} {value : α}
    {entries : Entries α} {entry : Text × α} (member : entry ∈ insert replace name value entries) :
    entry.1 = name ∨ entry ∈ entries := by
  induction entries with
  | nil =>
      rw [insert, List.mem_singleton] at member
      exact .inl (congrArg Prod.fst member)
  | cons head tail ih =>
      rw [insert] at member
      split at member
      · rcases List.mem_cons.mp member with same | later
        · exact .inl (congrArg Prod.fst same)
        · exact .inr later
      · split at member
        · rcases List.mem_cons.mp member with same | later
          · exact .inl (congrArg Prod.fst same)
          · exact .inr (List.mem_cons_of_mem _ later)
        · rcases List.mem_cons.mp member with same | later
          · exact .inr (same ▸ List.mem_cons_self)
          · exact (ih later).imp id (List.mem_cons_of_mem _)

theorem ascending_insert {α : Type} (replace : Bool) (name : Text) (value : α)
    {entries : Entries α} (ascending : Ascending entries) :
    Ascending (insert replace name value entries) := by
  induction entries with
  | nil => exact List.pairwise_singleton _ _
  | cons head tail ih =>
      have below := (List.pairwise_cons.mp ascending).1
      have rest := (List.pairwise_cons.mp ascending).2
      rw [insert]
      split
      · rename_i less
        refine List.pairwise_cons.mpr ⟨?_, ascending⟩
        intro entry member
        rcases List.mem_cons.mp member with same | later
        · exact same ▸ less
        · exact List.lt_trans less (below entry later)
      · rename_i notLess
        split
        · rename_i same
          refine List.pairwise_cons.mpr ⟨?_, rest⟩
          intro entry member
          exact same ▸ below entry member
        · rename_i different
          refine List.pairwise_cons.mpr ⟨?_, ih rest⟩
          intro entry member
          rcases name_of_mem_insert member with same | later
          · exact same ▸ lt_of_not_lt notLess different
          · exact below entry later

theorem ascending_ofList {α : Type} (bindings : List (Text × α)) :
    Ascending (ofList bindings) := by
  induction bindings with
  | nil => exact List.Pairwise.nil
  | cons binding bindings ih => exact ascending_insert false binding.1 binding.2 ih

@[simp] theorem get?_nil {α : Type} (name : Text) : get? ([] : Entries α) name = none := rfl

theorem get?_cons {α : Type} (entry : Text × α) (entries : Entries α) (name : Text) :
    get? (entry :: entries) name =
      if entry.1 = name then some entry.2 else get? entries name := by
  by_cases same : entry.1 = name
  · simp [get?, same]
  · simp [get?, same]

theorem get?_eq_none_of_lt {α : Type} {entries : Entries α} {name : Text}
    (below : ∀ entry ∈ entries, name < entry.1) : get? entries name = none := by
  rw [get?, Option.map_eq_none_iff, List.find?_eq_none]
  intro entry member same
  have less := below entry member
  rw [of_decide_eq_true same] at less
  exact List.lt_irrefl name less

theorem get?_insert_true {α : Type} (name other : Text) (value : α) (entries : Entries α) :
    get? (insert true name value entries) other =
      if name = other then some value else get? entries other := by
  induction entries with
  | nil => exact get?_cons (name, value) [] other
  | cons entry entries ih =>
      rw [insert]
      by_cases less : name < entry.1
      · rw [if_pos less]
        exact get?_cons (name, value) (entry :: entries) other
      · by_cases same : name = entry.1
        · rw [if_neg less, if_pos same, get?_cons, get?_cons]
          by_cases found : name = other
          · simp [found]
          · have different : entry.1 ≠ other := same ▸ found
            simp [found, different]
        · rw [if_neg less, if_neg same, get?_cons, get?_cons, ih]
          by_cases found : entry.1 = other
          · have different : name ≠ other := fun equal => same (equal.trans found.symm)
            simp [found, different]
          · simp [found]

theorem get?_insert_false {α : Type} (name other : Text) (value : α) {entries : Entries α}
    (ascending : Ascending entries) :
    get? (insert false name value entries) other =
      if name = other then some ((get? entries name).getD value) else get? entries other := by
  induction entries with
  | nil => exact get?_cons (name, value) [] other
  | cons entry entries ih =>
      have below := (List.pairwise_cons.mp ascending).1
      rw [insert]
      by_cases less : name < entry.1
      · have absent : get? (entry :: entries) name = none := by
          apply get?_eq_none_of_lt
          intro member inside
          rcases List.mem_cons.mp inside with rfl | later
          · exact less
          · exact List.lt_trans less (below member later)
        rw [if_pos less, absent]
        exact get?_cons (name, value) (entry :: entries) other
      · by_cases same : name = entry.1
        · rw [if_neg less, if_pos same, get?_cons, get?_cons entry entries name,
            get?_cons entry entries other, if_pos same.symm]
          by_cases found : name = other
          · simp [found]
          · have different : entry.1 ≠ other := same ▸ found
            simp [found, different]
        · have different : entry.1 ≠ name := fun equal => same equal.symm
          rw [if_neg less, if_neg same, get?_cons, get?_cons, get?_cons, if_neg different,
            ih (List.pairwise_cons.mp ascending).2]
          by_cases found : entry.1 = other
          · have apart : name ≠ other := fun equal => same (equal.trans found.symm)
            simp [found, apart]
          · simp [found]

theorem ext_get? {α : Type} {first second : Entries α} (firstAscending : Ascending first)
    (secondAscending : Ascending second)
    (same : ∀ name, get? first name = get? second name) : first = second := by
  induction first generalizing second with
  | nil =>
      cases second with
      | nil => rfl
      | cons entry entries =>
          have found := same entry.1
          rw [get?_cons, if_pos rfl] at found
          cases found
  | cons left lefts ih =>
      have leftBelow := (List.pairwise_cons.mp firstAscending).1
      cases second with
      | nil =>
          have found := same left.1
          rw [get?_cons, if_pos rfl] at found
          cases found
      | cons right rights =>
          have rightBelow := (List.pairwise_cons.mp secondAscending).1
          have names : left.1 = right.1 := by
            by_cases equal : left.1 = right.1
            · exact equal
            · by_cases less : left.1 < right.1
              · have found := same left.1
                rw [get?_cons, if_pos rfl, get?_eq_none_of_lt] at found
                · cases found
                · intro entry member
                  rcases List.mem_cons.mp member with rfl | later
                  · exact less
                  · exact List.lt_trans less (rightBelow entry later)
              · have found := same right.1
                have greater := lt_of_not_lt less equal
                rw [get?_cons right, if_pos rfl, get?_eq_none_of_lt] at found
                · cases found
                · intro entry member
                  rcases List.mem_cons.mp member with rfl | later
                  · exact greater
                  · exact List.lt_trans greater (leftBelow entry later)
          have values : left.2 = right.2 := by
            have found := same left.1
            rw [get?_cons, get?_cons, if_pos rfl, if_pos names.symm] at found
            exact Option.some.inj found
          have rest : lefts = rights := by
            apply ih (List.pairwise_cons.mp firstAscending).2
              (List.pairwise_cons.mp secondAscending).2
            intro name
            by_cases here : left.1 = name
            · rw [get?_eq_none_of_lt (here ▸ leftBelow),
                get?_eq_none_of_lt (here ▸ names ▸ rightBelow)]
            · have found := same name
              rwa [get?_cons, get?_cons, if_neg here, if_neg (names ▸ here)] at found
          rw [Prod.ext names values, rest]

end Entries

def dropRepeats : List Text → List Text
  | [] => []
  | [name] => [name]
  | first :: second :: names =>
      if first = second then dropRepeats (second :: names)
      else first :: dropRepeats (second :: names)

def sortNames (names : List Text) : List Text :=
  dropRepeats (names.mergeSort fun first second => ¬second < first)

theorem mem_dropRepeats (name : Text) (names : List Text) :
    name ∈ dropRepeats names ↔ name ∈ names := by
  fun_induction dropRepeats names with
  | case1 => rfl
  | case2 other => rfl
  | case3 first names ih => simp [ih]
  | case4 first second names different ih => simp only [List.mem_cons, ih]

theorem mem_sortNames (name : Text) (names : List Text) :
    name ∈ sortNames names ↔ name ∈ names := by
  rw [sortNames, mem_dropRepeats, List.mem_mergeSort]

end MailTemplate
