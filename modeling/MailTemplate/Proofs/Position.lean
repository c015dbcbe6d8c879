import Mathlib.Data.List.DropRight
import MailTemplate.Position
import MailTemplate.Proofs.Text.Slice

/-!
Points by what can be counted in the text before them, although they are computed step by step.
Points come in the order of their offsets, and a range of a source has the points of its two ends,
whatever it is a range of.
-/

namespace MailTemplate

namespace Text

/-- `before` is the text of `source` up to a byte offset. An offset past the end counts as the
end. -/
inductive UpTo (source : Text) : Nat → Text → Prop
  | boundary {before after : Text} (split : source = before ++ after) :
      UpTo source before.byteSize before
  | pastEnd {offset : Nat} (past : source.byteSize < offset) : UpTo source offset source

def lastLine (text : Text) : Text :=
  text.rtakeWhile (· != '\n')

theorem lastLine_append_singleton (text : Text) (c : Char) :
    lastLine (text ++ [c]) = if c = '\n' then [] else text.lastLine ++ [c] := by
  rw [lastLine, List.rtakeWhile_concat]
  by_cases newline : c = '\n'
  · simp [newline]
  · simp [newline, lastLine]

theorem byteSize_le_of_prefix {before text : Text} (front : before <+: text) :
    before.byteSize ≤ text.byteSize := by
  obtain ⟨after, rfl⟩ := front
  rw [byteSize_append]
  omega

theorem prefix_of_byteSize_le {before further text : Text} (front : before <+: text)
    (longer : further <+: text) (sizes : before.byteSize ≤ further.byteSize) :
    before <+: further := by
  rcases List.prefix_or_prefix_of_prefix front longer with shorter | ⟨rest, rfl⟩
  · exact shorter
  · rw [byteSize_append] at sizes
    have none : rest = [] := eq_nil_of_byteSize (by omega)
    exact ⟨[], by rw [none, List.append_nil, List.append_nil]⟩

theorem byteSize_pos {text : Text} (nonempty : text ≠ []) : 0 < text.byteSize :=
  Nat.pos_of_ne_zero fun size => nonempty (eq_nil_of_byteSize size)

namespace UpTo

variable {source before : Text} {offset : Nat}

theorem front (upTo : source.UpTo offset before) : before <+: source := by
  cases upTo with
  | boundary split => exact ⟨_, split.symm⟩
  | pastEnd _ => exact List.prefix_rfl

theorem byteSize_eq (upTo : source.UpTo offset before) :
    before.byteSize = min offset source.byteSize := by
  cases upTo with
  | boundary split =>
      have bound := byteSize_le_of_prefix ⟨_, split.symm⟩
      omega
  | pastEnd past => omega

theorem locate_eq (upTo : source.UpTo offset before) :
    Point.locate source offset = .advance .origin before := by
  cases upTo with
  | boundary split => rw [split, Point.locate_append]
  | pastEnd past =>
      have missing : source.cutAt? offset = none := by
        rw [Option.eq_none_iff_forall_ne_some]
        rintro ⟨front, back⟩ cut
        obtain ⟨rfl, size⟩ := (cutAt?_eq_some_iff _ _ _ _).mp cut
        rw [byteSize_append] at past
        omega
      rw [Point.locate, missing]

end UpTo

end Text

namespace Point

/-- The point behind a text, by what can be counted in it. -/
def behind (text : Text) : Point :=
  ⟨1 + text.count '\n', 1 + text.lastLine.length, text.byteSize⟩

def Precedes (first second : Point) : Prop :=
  first.line < second.line ∨ first.line = second.line ∧ first.column < second.column

variable {first second third : Point}

theorem Precedes.trans (before : first.Precedes second) (after : second.Precedes third) :
    first.Precedes third := by
  unfold Precedes at *
  omega

theorem Precedes.asymm (before : first.Precedes second) : ¬second.Precedes first := by
  unfold Precedes at *
  omega

theorem not_precedes_self (point : Point) : ¬point.Precedes point := by
  unfold Precedes
  omega

theorem precedes_step (point : Point) (c : Char) : point.Precedes (point.step c) := by
  unfold step
  split
  · exact .inl (Nat.lt_succ_self _)
  · exact .inr ⟨rfl, Nat.lt_succ_self _⟩

theorem precedes_advance (point : Point) {text : Text} (nonempty : text ≠ []) :
    point.Precedes (point.advance text) := by
  induction text generalizing point with
  | nil => exact absurd rfl nonempty
  | cons c text ih =>
      change point.Precedes ((point.step c).advance text)
      by_cases last : text = []
      · rw [last]
        exact precedes_step point c
      · exact (precedes_step point c).trans (ih (point.step c) last)

theorem advance_origin (text : Text) : origin.advance text = behind text := by
  induction text using List.reverseRecOn with
  | nil => rfl
  | append_singleton text c ih =>
      have step : origin.advance (text ++ [c]) = (origin.advance text).step c :=
        advance_append origin text [c]
      rw [step, ih, Point.step, behind, behind, Text.lastLine_append_singleton]
      by_cases newline : c = '\n'
      · simp [newline, Nat.add_assoc]
      · simp [newline, Nat.add_assoc]

theorem precedes_advance_iff {source before further : Text} (front : before <+: source)
    (longer : further <+: source) :
    (origin.advance before).Precedes (origin.advance further) ↔
      before.byteSize < further.byteSize := by
  rcases List.prefix_or_prefix_of_prefix front longer with ⟨rest, rfl⟩ | ⟨rest, rfl⟩
  · by_cases same : rest = []
    · simp [same, not_precedes_self]
    · have positive := Text.byteSize_pos same
      have after := precedes_advance (origin.advance before) same
      simp [after, positive]
  · by_cases same : rest = []
    · simp [same, not_precedes_self]
    · have after := (precedes_advance (origin.advance further) same).asymm
      simp [after]

theorem exists_split_locate (source : Text) (offset : Nat) :
    ∃ before after, source = before ++ after ∧ locate source offset = origin.advance before := by
  unfold locate
  split
  · rename_i before after cut
    exact ⟨before, after, ((Text.cutAt?_eq_some_iff _ _ _ _).mp cut).1, rfl⟩
  · exact ⟨source, [], (List.append_nil source).symm, rfl⟩

end Point

namespace Position

def clamp? (low high number : Nat) : Option Nat :=
  if low ≤ high then some (max low (min number high)) else none

/-- The position of the bytes from `first` up to `last`, if the second bound can be moved into what
follows the first. -/
def ofSpan? (source : Text) (first last : Nat) : Option Position :=
  let start := Point.locate source first
  (clamp? start.offset source.byteSize last).map fun stop =>
    ⟨start, start.advance (source.slice start.offset stop)⟩

variable {source before further after : Text} {first last : Nat}

theorem ofSpan_of_split (split : source = before ++ after)
    (located : Point.locate source first = .advance .origin before) :
    let size := min last source.byteSize - before.byteSize
    ofSpan source first last =
      ⟨.advance .origin before, (Point.origin.advance before).advance
        (((Text.cutAt? size after).map Prod.fst).getD [])⟩ := by
  intro size
  have cut : source.cutAt? before.byteSize = some (before, after) :=
    (Text.cutAt?_eq_some_iff _ _ _ _).mpr ⟨split, rfl⟩
  have offset : (Point.origin.advance before).offset = before.byteSize := by simp [Point.origin]
  simp only [ofSpan, located, offset, cut, Option.bind_eq_bind, Option.bind_some]
  cases Text.cutAt? (min last source.byteSize - before.byteSize) after with
  | none => rfl
  | some parts => rfl

theorem ofSpan?_eq (source : Text) (first last : Nat) :
    ofSpan? source first last = some (ofSpan source first last) := by
  obtain ⟨before, after, split, located⟩ := Point.exists_split_locate source first
  have cut : source.cutAt? before.byteSize = some (before, after) :=
    (Text.cutAt?_eq_some_iff _ _ _ _).mpr ⟨split, rfl⟩
  have offset : (Point.origin.advance before).offset = before.byteSize := by simp [Point.origin]
  have bound := Text.byteSize_le_of_prefix ⟨after, split.symm⟩
  have size : max before.byteSize (min last source.byteSize) - before.byteSize =
      min last source.byteSize - before.byteSize := by omega
  rw [ofSpan_of_split split located]
  simp only [ofSpan?, clamp?, located, offset, if_pos bound, Option.map_some, Text.slice,
    Text.slice?, if_pos (Nat.le_max_left _ _), cut, size]

theorem ofSpan_of_upTo (starts : source.UpTo first before) (stops : source.UpTo last further)
    (ordered : first ≤ last) :
    ofSpan source first last = ⟨.locate source first, .locate source last⟩ := by
  have sizes : before.byteSize ≤ further.byteSize := by
    rw [starts.byteSize_eq, stops.byteSize_eq]
    omega
  obtain ⟨inside, rfl⟩ := Text.prefix_of_byteSize_le starts.front stops.front sizes
  obtain ⟨tail, split⟩ := stops.front
  have size : min last source.byteSize - before.byteSize = Text.byteSize inside := by
    rw [← stops.byteSize_eq, Text.byteSize_append, Nat.add_sub_cancel_left]
  have cut : Text.cutAt? (Text.byteSize inside) (inside ++ tail) = some (inside, tail) :=
    (Text.cutAt?_eq_some_iff _ _ _ _).mpr ⟨rfl, rfl⟩
  rw [List.append_assoc] at split
  rw [ofSpan_of_split split.symm starts.locate_eq, size, cut, starts.locate_eq, stops.locate_eq,
    Point.advance_append]
  rfl

theorem ofSpan_bounds (source : Text) (first last : Nat) :
    (ofSpan source first last).start.offset ≤ (ofSpan source first last).stop.offset ∧
      (ofSpan source first last).stop.offset ≤ source.byteSize := by
  obtain ⟨before, after, split, located⟩ := Point.exists_split_locate source first
  have whole : source.byteSize = before.byteSize + after.byteSize := by
    rw [split, Text.byteSize_append]
  have start : Point.origin.offset = 0 := rfl
  rw [ofSpan_of_split split located]
  simp only [Point.advance_offset, start]
  cases cut : Text.cutAt? (min last source.byteSize - before.byteSize) after with
  | none =>
      simp only [Option.map_none, Option.getD_none, Text.byteSize_nil]
      omega
  | some parts =>
      obtain ⟨inside, tail⟩ := parts
      obtain ⟨rfl, -⟩ := (Text.cutAt?_eq_some_iff _ _ _ _).mp cut
      rw [Text.byteSize_append] at whole
      simp only [Option.map_some, Option.getD_some]
      omega

end Position

end MailTemplate
