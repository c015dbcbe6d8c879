import MailTemplate.Text

/-!
Parts of a text between two byte offsets.
-/

namespace MailTemplate

namespace Text

def slice? (text : Text) (start stop : Nat) : Option Text :=
  if start ≤ stop then
    match text.cutAt? start with
    | none => none
    | some (_, rest) => (cutAt? (stop - start) rest).map Prod.fst
  else none

def slice (text : Text) (start stop : Nat) : Text :=
  (text.slice? start stop).getD []

theorem append_inj_of_byteSize {before after other rest : Text}
    (split : before ++ after = other ++ rest) (size : byteSize before = byteSize other) :
    before = other ∧ after = rest := by
  have cut := (cutAt?_eq_some_iff (byteSize other) (other ++ rest) before after).mpr
    ⟨split.symm, size⟩
  rw [(cutAt?_eq_some_iff _ _ other rest).mpr ⟨rfl, rfl⟩, Option.some.injEq, Prod.mk.injEq] at cut
  exact ⟨cut.1.symm, cut.2.symm⟩

theorem slice?_eq_some_iff (text inside : Text) (start stop : Nat) :
    text.slice? start stop = some inside ↔
      ∃ before after, text = before ++ inside ++ after ∧ byteSize before = start ∧
        start + byteSize inside = stop := by
  constructor
  · intro found
    unfold slice? at found
    split at found
    · rename_i ordered
      split at found
      · cases found
      · rename_i before rest first
        obtain ⟨⟨same, after⟩, second, rfl⟩ := Option.map_eq_some_iff.mp found
        rw [cutAt?_eq_some_iff] at first second
        refine ⟨before, after, ?_, first.2, ?_⟩
        · rw [first.1, second.1, List.append_assoc]
        · rw [second.2]
          omega
    · cases found
  · rintro ⟨before, after, split, first, last⟩
    have front : text.cutAt? start = some (before, inside ++ after) :=
      (cutAt?_eq_some_iff _ _ _ _).mpr ⟨by rw [split, List.append_assoc], first⟩
    have back : cutAt? (stop - start) (inside ++ after) = some (inside, after) :=
      (cutAt?_eq_some_iff _ _ _ _).mpr ⟨rfl, by omega⟩
    have ordered : start ≤ stop := by omega
    simp only [slice?, if_pos ordered, front, back, Option.map_some]

theorem slice?_of_split {text before inside after : Text} {start stop : Nat}
    (split : text = before ++ inside ++ after) (first : byteSize before = start)
    (last : byteSize before + byteSize inside = stop) : text.slice? start stop = some inside :=
  (slice?_eq_some_iff _ _ _ _).mpr ⟨before, after, split, first, first ▸ last⟩

theorem slice_of_split {text before inside after : Text} {start stop : Nat}
    (split : text = before ++ inside ++ after) (first : byteSize before = start)
    (last : byteSize before + byteSize inside = stop) : text.slice start stop = inside := by
  rw [slice, slice?_of_split split first last, Option.getD_some]

end Text

end MailTemplate
