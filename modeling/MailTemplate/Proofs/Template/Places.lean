import MailTemplate.Proofs.Position
import MailTemplate.Proofs.Template.Logging
import MailTemplate.Proofs.Template.Printing

/-!
Where the blocks of a template stand. A block has the position of its opening tag, exactly as it is
found by counting in the source.
-/

namespace MailTemplate

open Token (sources tokenize Stands)

theorem Tree.heads_eq (tree : Tree) : tree.heads = tree.blocks.map Prod.fst := by
  induction tree with
  | empty => rfl
  | literal content next ih => exact ih
  | block head consequent next insideIh laterIh => simp [heads, blocks, insideIh, laterIh]
  | choice head consequent alternative next insideIh otherwiseIh laterIh =>
      simp [heads, blocks, insideIh, otherwiseIh, laterIh]

namespace Parsed

variable {options : Options} {room : Option Nat} {start : Point} {tokens : List Token}
  {parsed : Parsed}

theorem Reads.position_stop (reads : Reads options room start tokens parsed) :
    ∀ block ∈ parsed.tree.blocks, block.1.position.stop =
      block.1.position.start.advance (Token.opening block.1.kind block.1.written).source := by
  induction reads with
  | literal scanned => simp
  | malformed scanned => simp
  | tooDeep scanned later ih => simpa using ih
  | block scanned single shallow opened headed inside later insideIh laterIh =>
      simp only [Tree.blocks_withText, Tree.blocks, List.cons_append, List.forall_mem_cons,
        List.forall_mem_append]
      exact ⟨headed ▸ rfl, insideIh, laterIh⟩
  | choice scanned double shallow opened headed inside otherwise later insideIh otherwiseIh laterIh =>
      simp only [Tree.blocks_withText, Tree.blocks, List.cons_append, List.forall_mem_cons,
        List.forall_mem_append]
      exact ⟨headed ▸ rfl, ⟨insideIh, otherwiseIh⟩, laterIh⟩

end Parsed

namespace Template

theorem position_of_mem_heads {options : Options} {source : Text} {head : BlockHead}
    (member : head ∈ (parse options source).tree.heads) :
    source.slice? head.position.start.offset head.position.stop.offset =
        some (Token.opening head.kind head.written).source ∧
      head.position =
        .ofSpan source head.position.start.offset head.position.stop.offset := by
  have reads := Parsed.reads_ofTokens options (some maxNestingDepth) .origin (tokenize source)
  rw [Tree.heads_eq] at member
  obtain ⟨block, inside, rfl⟩ := List.mem_map.mp member
  obtain ⟨before, after, tokens, starts⟩ := reads.blocks_stand block inside
  have stops := reads.position_stop block inside
  set tag := (Token.opening block.1.kind block.1.written).source
  have split : source = sources before ++ tag ++ sources after := by
    rw [← Token.sources_tokenize source, tokens]
    simp [tag]
  have startOffset : block.1.position.start.offset = (sources before).byteSize := by
    simp [starts, Point.origin]
  have stopOffset : block.1.position.stop.offset = (sources before ++ tag).byteSize := by
    simp [stops, startOffset]
  have first : source.UpTo (sources before).byteSize (sources before) :=
    .boundary (split.trans (List.append_assoc _ _ _))
  have last : source.UpTo (sources before ++ tag).byteSize (sources before ++ tag) :=
    .boundary split
  have ordered : (sources before).byteSize ≤ (sources before ++ tag).byteSize :=
    Text.byteSize_le_of_prefix (List.prefix_append _ _)
  rw [startOffset, stopOffset]
  refine ⟨Text.slice?_of_split split rfl (Text.byteSize_append _ _).symm, ?_⟩
  rw [Position.ofSpan_of_upTo first last ordered, first.locate_eq, last.locate_eq,
    Point.advance_append, ← starts, ← stops]

/-- Lines and columns of the offsets of a source are those that counting gives, and come in the
order of the offsets. A range has the points of its two ends, and any two numbers give a range
inside of the source. The range of a block of the template is its opening tag. -/
theorem positions_exact (source : Text) :
    (∀ offset before, source.UpTo offset before →
      Point.locate source offset =
        ⟨1 + before.count '\n', 1 + before.lastLine.length, min offset source.byteSize⟩) ∧
    (∀ first second before further, source.UpTo first before → source.UpTo second further →
      let here := Point.locate source first
      let there := Point.locate source second
      (here.Precedes there ↔ min first source.byteSize < min second source.byteSize) ∧
        (here.line = there.line → here.column = there.column →
          min first source.byteSize = min second source.byteSize) ∧
        (first ≤ second → Position.ofSpan source first second = ⟨here, there⟩)) ∧
    (∀ first last, let position := Position.ofSpan source first last
      Position.ofSpan? source first last = some position ∧
        position.start.offset ≤ position.stop.offset ∧ position.stop.offset ≤ source.byteSize) ∧
    ∀ options, ∀ head ∈ (parse options source).tree.heads,
      source.slice? head.position.start.offset head.position.stop.offset =
          some (['{', '{', '#'] ++ head.kind.word ++ head.written ++ ['}', '}']) ∧
        head.position =
          .ofSpan source head.position.start.offset head.position.stop.offset := by
  refine ⟨?_, ?_, ?_, ?_⟩
  · intro offset before upTo
    rw [upTo.locate_eq, Point.advance_origin, Point.behind, upTo.byteSize_eq]
  · intro first second before further here there
    have order := Point.precedes_advance_iff here.front there.front
    have back := Point.precedes_advance_iff there.front here.front
    rw [here.byteSize_eq, there.byteSize_eq, ← here.locate_eq, ← there.locate_eq] at order back
    refine ⟨order, ?_, Position.ofSpan_of_upTo here there⟩
    intro line column
    simp only [Point.Precedes] at order back
    omega
  · intro first last
    exact ⟨Position.ofSpan?_eq source first last, Position.ofSpan_bounds source first last⟩
  · intro options head member
    exact position_of_mem_heads member

def accented : Document :=
  .literal ['é', '\n'] (.block .ifTrue [' ', 'x'] (.literal ['ü'] .empty) .empty)

theorem positions_exact_accented :
    Point.locate accented.print 3 = ⟨2, 1, 3⟩ ∧
      (Point.locate accented.print 2).Precedes (Point.locate accented.print 3) ∧
      Position.ofSpan accented.print 3 99 = ⟨⟨2, 1, 3⟩, .locate accented.print 99⟩ ∧
      ∃ head ∈ (parse .lenient accented.print).tree.heads,
        head = .after ['é', '\n'] .ifTrue [' ', 'x'] ∧
          accented.print.slice? head.position.start.offset head.position.stop.offset =
            some ['{', '{', '#', 'i', 'f', ' ', 'x', '}', '}'] := by
  obtain ⟨counts, pairs, -, blocks⟩ := positions_exact accented.print
  have middle : accented.print.UpTo 2 ['é'] := .boundary (List.append_assoc ['é'] _ _)
  have second : accented.print.UpTo 3 ['é', '\n'] := .boundary rfl
  have stop : accented.print.UpTo 99 accented.print := .pastEnd (by decide)
  have located : Point.locate accented.print 3 = ⟨2, 1, 3⟩ := (counts 3 _ second).trans (by decide)
  have precedes := (pairs 2 3 _ _ middle second).1.mpr (by decide)
  have spans := (pairs 3 99 _ _ second stop).2.2 (by decide)
  rw [located] at spans
  have heads : (parse .lenient accented.print).tree.heads =
      [.after ['é', '\n'] .ifTrue [' ', 'x']] := by
    have printable : accented.Printable := by decide
    rw [Document.parse_eq_of_printable .lenient printable (by decide)]
    rfl
  have member : .after ['é', '\n'] .ifTrue [' ', 'x'] ∈
      (parse .lenient accented.print).tree.heads := by
    rw [heads]
    exact List.mem_singleton_self _
  exact ⟨located, precedes, spans, _, member, rfl, (blocks .lenient _ member).1⟩

end Template

end MailTemplate
