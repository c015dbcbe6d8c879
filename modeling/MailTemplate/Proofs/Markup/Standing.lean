import MailTemplate.Position
import MailTemplate.Proofs.Markup.Placed

/-!
Where each token of a list stands. A token takes at least one byte, so that no two of them stand
at one point.
-/

namespace MailTemplate

namespace Token

def placedAt (token : Token) (start : Nat) : PlacedToken :=
  ⟨token.sort, .ofText start token.source⟩

theorem placedAt_stop (token : Token) (point : Point) :
    (token.placedAt point.offset).span.stop = (point.advance token.source).offset :=
  (Point.advance_offset point token.source).symm

/-- A token of the list, whose first token stands at `start`, stands at `point`. -/
def Stands (start : Point) (tokens : List Token) (token : Token) (point : Point) : Prop :=
  ∃ before after, tokens = before ++ token :: after ∧ point = start.advance (sources before)

variable {start point : Point} {token : Token} {tokens first second : List Token}

theorem not_stands_nil : ¬Stands start [] token point := by
  rintro ⟨before, after, split, _⟩
  simp at split

theorem stands_cons_iff (head : Token) :
    Stands start (head :: tokens) token point ↔
      (token = head ∧ point = start) ∨ Stands (start.advance head.source) tokens token point := by
  constructor
  · rintro ⟨before, after, split, rfl⟩
    cases before with
    | nil =>
        cases split
        exact .inl ⟨rfl, rfl⟩
    | cons other before =>
        cases split
        exact .inr ⟨before, after, rfl, by simp⟩
  · rintro (⟨rfl, rfl⟩ | ⟨before, after, rfl, rfl⟩)
    · exact ⟨[], tokens, rfl, rfl⟩
    · exact ⟨head :: before, after, rfl, by simp⟩

theorem stands_append_iff :
    Stands start (first ++ second) token point ↔
      Stands start first token point ∨
        Stands (start.advance (sources first)) second token point := by
  induction first generalizing start with
  | nil => simp [not_stands_nil]
  | cons head first ih =>
      rw [List.cons_append, stands_cons_iff, stands_cons_iff, ih, sources_cons,
        Point.advance_append, or_assoc]

theorem stands_singleton_iff (head : Token) :
    Stands start [head] token point ↔ token = head ∧ point = start := by
  simp [stands_cons_iff, not_stands_nil]

theorem Stands.of_part {inner : Point} {front back whole : List Token}
    (stands : Stands inner tokens token point) (split : whole = front ++ tokens ++ back)
    (joins : inner = start.advance (sources front)) : Stands start whole token point := by
  subst split joins
  obtain ⟨before, after, rfl, rfl⟩ := stands
  exact ⟨front ++ before, after ++ back, by simp, by simp⟩

theorem Stands.mem (stands : Stands start tokens token point) : token ∈ tokens := by
  obtain ⟨before, after, rfl, _⟩ := stands
  simp

theorem Stands.bounds (stands : Stands start tokens token point) :
    start.offset ≤ point.offset ∧
      point.offset + token.source.byteSize ≤ start.offset + (sources tokens).byteSize := by
  obtain ⟨before, after, rfl, rfl⟩ := stands
  simp only [Point.advance_offset, sources_append, sources_cons, Text.byteSize_append]
  omega

theorem placeFrom_append (start : Nat) (first second : List Token) :
    placeFrom start (first ++ second) =
      placeFrom start first ++ placeFrom (start + (sources first).byteSize) second := by
  induction first generalizing start with
  | nil => rfl
  | cons token first ih =>
      rw [List.cons_append, placeFrom, placeFrom, ih, sources_cons, Text.byteSize_append,
        Nat.add_assoc, List.cons_append]

theorem mem_placeFrom_iff (start : Point) (tokens : List Token) (placed : PlacedToken) :
    placed ∈ placeFrom start.offset tokens ↔
      ∃ token point, Stands start tokens token point ∧ placed = token.placedAt point.offset := by
  induction tokens generalizing start with
  | nil => simp [placeFrom, not_stands_nil]
  | cons head tokens ih =>
      rw [placeFrom, List.mem_cons, ← Point.advance_offset, ih]
      constructor
      · rintro (rfl | ⟨token, point, stands, same⟩)
        · exact ⟨head, start, (stands_cons_iff head).mpr (.inl ⟨rfl, rfl⟩), rfl⟩
        · exact ⟨token, point, (stands_cons_iff head).mpr (.inr stands), same⟩
      · rintro ⟨token, point, stands, rfl⟩
        rcases (stands_cons_iff head).mp stands with ⟨rfl, rfl⟩ | later
        · exact .inl rfl
        · exact .inr ⟨token, point, later, rfl⟩

theorem Stands.placed_mem (stands : Stands start tokens token point) :
    token.placedAt point.offset ∈ placeFrom start.offset tokens :=
  (mem_placeFrom_iff start tokens _).mpr ⟨token, point, stands, rfl⟩

theorem nodup_placeFrom (lexed : ∀ token ∈ tokens, token.IsLexed) (start : Point) :
    (placeFrom start.offset tokens).Nodup := by
  induction tokens generalizing start with
  | nil => exact List.nodup_nil
  | cons head tokens ih =>
      rw [List.forall_mem_cons] at lexed
      rw [placeFrom, List.nodup_cons, ← Point.advance_offset]
      refine ⟨?_, ih lexed.2 _⟩
      intro member
      obtain ⟨token, point, stands, same⟩ := (mem_placeFrom_iff _ _ _).mp member
      have later := stands.bounds.1
      have here : start.offset = point.offset := congrArg (·.span.start) same
      have positive := lexed.1.byteSize_pos
      rw [Point.advance_offset] at later
      omega

theorem Stands.locate_eq {source : Text}
    (stands : Stands .origin (tokenize source) token point) :
    Point.locate source point.offset = point := by
  obtain ⟨before, after, split, rfl⟩ := stands
  have whole : source = sources before ++ sources (token :: after) := by
    rw [← sources_append, ← split, sources_tokenize]
  have offset : (Point.origin.advance (sources before)).offset = (sources before).byteSize := by
    simp [Point.origin]
  rw [offset, whole, Point.locate_append]

end Token

end MailTemplate
