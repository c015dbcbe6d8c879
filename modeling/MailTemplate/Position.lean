import MailTemplate.Text

/-!
Places in a source text. A point gives the line and the column, both counted from one in
characters, and the offset, counted from zero in bytes.
-/

namespace MailTemplate

structure Point where
  line : Nat
  column : Nat
  offset : Nat
  deriving DecidableEq, Repr

namespace Point

def origin : Point := ⟨1, 1, 0⟩

def step (point : Point) (c : Char) : Point :=
  if c = '\n' then ⟨point.line + 1, 1, point.offset + c.utf8Size⟩
  else ⟨point.line, point.column + 1, point.offset + c.utf8Size⟩

def advance (point : Point) (text : Text) : Point :=
  text.foldl step point

@[simp] theorem advance_nil (point : Point) : point.advance [] = point := rfl

@[simp] theorem advance_append (point : Point) (first second : Text) :
    point.advance (first ++ second) = (point.advance first).advance second := by
  simp [advance]

@[simp] theorem step_offset (point : Point) (c : Char) :
    (point.step c).offset = point.offset + c.utf8Size := by
  unfold step
  split <;> rfl

@[simp] theorem advance_offset (point : Point) (text : Text) :
    (point.advance text).offset = point.offset + text.byteSize := by
  induction text generalizing point with
  | nil => simp [advance]
  | cons c text ih =>
      have tail := ih (point.step c)
      simp only [advance, List.foldl_cons, step_offset, Text.byteSize_cons] at tail ⊢
      omega

/-- The point at a byte offset. An offset past the end or inside a character gives the end of the
source. -/
def locate (source : Text) (offset : Nat) : Point :=
  match source.cutAt? offset with
  | some (before, _) => origin.advance before
  | none => origin.advance source

theorem locate_append (before after : Text) :
    locate (before ++ after) before.byteSize = origin.advance before := by
  rw [locate, (Text.cutAt?_eq_some_iff _ _ before after).mpr ⟨rfl, rfl⟩]

end Point

structure Position where
  start : Point
  stop : Point
  deriving DecidableEq, Repr

namespace Position

def origin : Position := ⟨.origin, .origin⟩

/-- The position of the bytes from `first` up to `last`. When they do not delimit characters in
order, the position is empty. -/
def ofSpan (source : Text) (first last : Nat) : Position :=
  let start := Point.locate source first
  let size := min last source.byteSize - start.offset
  let covered := do
    let (_, rest) ← source.cutAt? start.offset
    let (inside, _) ← Text.cutAt? size rest
    pure inside
  ⟨start, start.advance (covered.getD [])⟩

end Position

end MailTemplate
