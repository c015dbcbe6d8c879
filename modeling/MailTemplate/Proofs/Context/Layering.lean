import MailTemplate.Config
import MailTemplate.Proofs.Context.Bindings

/-!
Layers of contexts. A name has the value that the last layer with the name gives it, however the
layers are grouped on the way, and however the bindings of a layer are ordered.
-/

namespace MailTemplate
namespace Context

theorem get?_foldl_insert (bindings : List (Text × Value)) (context : Context) (name : Text) :
    (bindings.foldl (fun bound binding => bound.insert binding.1 binding.2) context).get? name =
      (Entries.get? bindings.reverse name).or (context.get? name) := by
  induction bindings generalizing context with
  | nil => rfl
  | cons binding bindings ih =>
      rw [List.foldl_cons, ih, get?_insert, List.reverse_cons, Entries.get?_append,
        Entries.get?_cons, Option.or_assoc]
      by_cases same : binding.1 = name
      · rw [if_pos same, if_pos same]
        rfl
      · rw [if_neg same, if_neg same]
        rfl

theorem get?_merge (context other : Context) (name : Text) :
    (context.merge other).get? name = (other.get? name).or (context.get? name) := by
  have distinct : (other.entries.reverse.map Prod.fst).Nodup := by
    simpa using other.ascending.nodup
  rw [merge, get?_foldl_insert, Entries.get?_perm (List.reverse_perm _) distinct]
  rfl

theorem foldl_insert_eq_merge {bindings : List (Text × Value)} {other : Context}
    (perm : bindings.Perm other.entries) (context : Context) :
    bindings.foldl (fun bound binding => bound.insert binding.1 binding.2) context =
      context.merge other := by
  have distinct : (bindings.reverse.map Prod.fst).Nodup := by
    simpa using (perm.map Prod.fst).nodup_iff.mpr other.ascending.nodup
  apply ext_get?
  intro name
  rw [get?_foldl_insert, get?_merge,
    Entries.get?_perm ((List.reverse_perm _).trans perm) distinct]
  rfl

theorem get?_foldl_merge (layers : List Context) (context : Context) (name : Text) :
    (layers.foldl merge context).get? name =
      (layers.reverse.findSome? (get? · name)).or (context.get? name) := by
  induction layers generalizing context with
  | nil => rfl
  | cons layer layers ih =>
      rw [List.foldl_cons, ih, get?_merge, List.reverse_cons, List.findSome?_append,
        Option.or_assoc, List.findSome?_singleton]

theorem get?_layered (layers : List Context) (name : Text) :
    (layered layers).get? name = layers.reverse.findSome? (get? · name) := by
  rw [layered, get?_foldl_merge, get?_empty, Option.or_none]

theorem get?_layered_eq_some_iff {layers : List Context} {name : Text} {value : Value} :
    (layered layers).get? name = some value ↔
      ∃ before layer after, layers = before ++ layer :: after ∧ layer.get? name = some value ∧
        ∀ later ∈ after, later.get? name = none := by
  rw [get?_layered, List.findSome?_eq_some_iff]
  constructor
  · rintro ⟨after, layer, before, split, found, others⟩
    refine ⟨before.reverse, layer, after.reverse, ?_, found, by simpa using others⟩
    rw [← List.reverse_reverse layers, split]
    simp
  · rintro ⟨before, layer, after, rfl, found, others⟩
    exact ⟨after.reverse, layer, before.reverse, by simp, found, by simpa using others⟩

theorem get?_layered_eq_none_iff {layers : List Context} {name : Text} :
    (layered layers).get? name = none ↔ ∀ layer ∈ layers, layer.get? name = none := by
  rw [get?_layered, List.findSome?_eq_none_iff]
  simp

theorem empty_merge (context : Context) : empty.merge context = context := by
  apply ext_get?
  intro name
  rw [get?_merge, get?_empty, Option.or_none]

theorem merge_assoc (first second third : Context) :
    (first.merge second).merge third = first.merge (second.merge third) := by
  apply ext_get?
  intro name
  rw [get?_merge, get?_merge, get?_merge, get?_merge, Option.or_assoc]

theorem merge_merge_self (context other : Context) :
    (context.merge other).merge other = context.merge other := by
  apply ext_get?
  intro name
  rw [get?_merge, get?_merge, ← Option.or_assoc, Option.or_self]

theorem foldl_merge (layers : List Context) (context : Context) :
    layers.foldl merge context = context.merge (layered layers) := by
  apply ext_get?
  intro name
  rw [get?_foldl_merge, get?_merge, get?_layered]

theorem layered_append (first second : List Context) :
    layered (first ++ second) = (layered first).merge (layered second) := by
  rw [layered, List.foldl_append, foldl_merge second]
  rfl

theorem layered_singleton (layer : Context) : layered [layer] = layer :=
  empty_merge layer

theorem layered_pair (first second : Context) : layered [first, second] = first.merge second := by
  rw [← List.singleton_append, layered_append, layered_singleton, layered_singleton]

theorem layered_layered_cons (first second : List Context) :
    layered (layered first :: second) = layered (first ++ second) := by
  rw [← List.singleton_append, layered_append, layered_singleton, layered_append]

theorem layered_map_layered (groups : List (List Context)) :
    layered (groups.map layered) = layered groups.flatten := by
  induction groups with
  | nil => rfl
  | cons group groups ih =>
      rw [List.map_cons, List.flatten_cons, layered_layered_cons, layered_append, ih,
        layered_append]

theorem layered_empty_layer (before after : List Context) :
    layered (before ++ empty :: after) = layered (before ++ after) := by
  rw [layered_append, layered_append, ← List.singleton_append, layered_append, layered_singleton,
    empty_merge]

/-- A name has the value of the last layer that binds it, null as much as any other. So layers may
be put together in groups, an empty one makes no difference, and a context merged twice is merged
once. The context for a recipient is the recipient's merged into the defaults, all at once or name by
name in any order. -/
theorem layers_right_biased :
    (∀ (layers : List Context) (name : Text),
      (∀ value, (layered layers).get? name = some value ↔
        ∃ before layer after, layers = before ++ layer :: after ∧
          layer.get? name = some value ∧ ∀ later ∈ after, later.get? name = none) ∧
      ((layered layers).get? name = none ↔ ∀ layer ∈ layers, layer.get? name = none)) ∧
    (∀ first second : List Context,
      layered (first ++ second) = layered [layered first, layered second]) ∧
    (∀ groups : List (List Context), layered (groups.map layered) = layered groups.flatten) ∧
    (∀ first second third : Context,
      (first.merge second).merge third = first.merge (second.merge third)) ∧
    (∀ context other : Context, (context.merge other).merge other = context.merge other) ∧
    (∀ before after : List Context,
      layered (before ++ empty :: after) = layered (before ++ after)) ∧
    ∀ (config : Config) (recipient : Context),
      config.contextFor recipient = config.context.merge recipient ∧
        ∀ bindings : List (Text × Value), bindings.Perm recipient.entries →
          bindings.foldl (fun bound binding => bound.insert binding.1 binding.2) config.context =
            config.contextFor recipient := by
  refine ⟨?_, ?_, layered_map_layered, merge_assoc, merge_merge_self, layered_empty_layer, ?_⟩
  · intro layers name
    exact ⟨fun _ => get?_layered_eq_some_iff, get?_layered_eq_none_iff⟩
  · intro first second
    rw [layered_append, layered_pair]
  · intro config recipient
    have merged : config.contextFor recipient = config.context.merge recipient :=
      layered_pair config.context recipient
    refine ⟨merged, ?_⟩
    intro bindings perm
    rw [merged, foldl_insert_eq_merge perm]

def nullFirst : Context :=
  (empty.insert ['a'] .null).insert ['b'] (.bool true)

theorem layers_right_biased_nullFirst :
    (layered [empty.insert ['a'] (.bool true), nullFirst]).get? ['a'] = some .null ∧
      List.Perm [(['b'], .bool true), (['a'], .null)] nullFirst.entries ∧
      [(['b'], .bool true), (['a'], .null)].foldl
          (fun bound binding => bound.insert binding.1 binding.2) Config.default.context =
        Config.default.contextFor nullFirst := by
  obtain ⟨values, _, _, _, _, _, recipients⟩ := layers_right_biased
  have hidden : ∃ before layer after,
      [empty.insert ['a'] (.bool true), nullFirst] = before ++ layer :: after ∧
        layer.get? ['a'] = some .null ∧ ∀ later ∈ after, later.get? ['a'] = none :=
    ⟨[empty.insert ['a'] (.bool true)], nullFirst, [], rfl, rfl, by simp⟩
  have order : List.Perm [(['b'], .bool true), (['a'], .null)] nullFirst.entries := .swap _ _ _
  exact ⟨((values _ _).1 _).mpr hidden, order, (recipients _ _).2 _ order⟩

end Context
end MailTemplate
