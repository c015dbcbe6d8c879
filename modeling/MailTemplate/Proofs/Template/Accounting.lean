import MailTemplate.Proofs.Markup.Match
import MailTemplate.Proofs.Template.Closing
import MailTemplate.Proofs.Template.Kept

/-!
Every tag of a source is accounted for once: it is a tag of a block of the tree, or kept as text
because of a problem, or reported to stand outside of any block.
-/

namespace MailTemplate

open Token (sources Balanced Stands)

def ExactlyOne (first second third : Prop) : Prop :=
  (first ∧ ¬second ∧ ¬third) ∨ (¬first ∧ second ∧ ¬third) ∨ (¬first ∧ ¬second ∧ third)

def Span.Inside (inner outer : Span) : Prop :=
  outer.start ≤ inner.start ∧ inner.stop ≤ outer.stop

def BlockHead.placed (head : BlockHead) : PlacedToken :=
  ⟨.opening head.kind (some head.written),
    ⟨head.position.start.offset, head.position.stop.offset⟩⟩

namespace ClosedTree

def stop (start : Nat) : ClosedTree → Nat
  | .empty => start
  | .literal content next => next.stop (start + content.byteSize)
  | .block head consequent closer next =>
      let closing := (Token.closing closer).placedAt (consequent.stop head.position.stop.offset)
      next.stop closing.span.stop
  | .choice head consequent alternative closer next =>
      let divider := Token.divider.placedAt (consequent.stop head.position.stop.offset)
      let closing := (Token.closing closer).placedAt (alternative.stop divider.span.stop)
      next.stop closing.span.stop

def tags (start : Nat) : ClosedTree → List PlacedToken
  | .empty => []
  | .literal content next => next.tags (start + content.byteSize)
  | .block head consequent closer next =>
      let inside := head.position.stop.offset
      let closing := (Token.closing closer).placedAt (consequent.stop inside)
      head.placed :: consequent.tags inside ++ closing :: next.tags closing.span.stop
  | .choice head consequent alternative closer next =>
      let inside := head.position.stop.offset
      let divider := Token.divider.placedAt (consequent.stop inside)
      let closing := (Token.closing closer).placedAt (alternative.stop divider.span.stop)
      head.placed :: consequent.tags inside ++ divider :: alternative.tags divider.span.stop ++
        closing :: next.tags closing.span.stop

def endings (start : Nat) : ClosedTree → List Span
  | .empty => []
  | .literal content next =>
      if next = .empty then [.ofText start content] else next.endings (start + content.byteSize)
  | .block head consequent closer next =>
      let inside := head.position.stop.offset
      let closing := (Token.closing closer).placedAt (consequent.stop inside)
      consequent.endings inside ++ next.endings closing.span.stop
  | .choice head consequent alternative closer next =>
      let inside := head.position.stop.offset
      let divider := Token.divider.placedAt (consequent.stop inside)
      let closing := (Token.closing closer).placedAt (alternative.stop divider.span.stop)
      consequent.endings inside ++ alternative.endings divider.span.stop ++
        next.endings closing.span.stop

@[simp] theorem stop_withText (start : Nat) (content : Text) (next : ClosedTree) :
    (withText content next).stop start = next.stop (start + content.byteSize) := by
  unfold withText
  split
  · rename_i none
    rw [List.isEmpty_iff.mp none, Text.byteSize_nil, Nat.add_zero]
  · rfl

@[simp] theorem tags_withText (start : Nat) (content : Text) (next : ClosedTree) :
    (withText content next).tags start = next.tags (start + content.byteSize) := by
  unfold withText
  split
  · rename_i none
    rw [List.isEmpty_iff.mp none, Text.byteSize_nil, Nat.add_zero]
  · rfl

theorem endings_subset_withText (start : Nat) (content : Text) (next : ClosedTree) :
    next.endings (start + content.byteSize) ⊆ (withText content next).endings start := by
  unfold withText
  split
  · rename_i none
    rw [List.isEmpty_iff.mp none, Text.byteSize_nil, Nat.add_zero]
    exact List.Subset.refl _
  · rw [endings]
    split
    · rename_i last
      subst last
      exact List.nil_subset _
    · exact List.Subset.refl _

theorem endings_ofText {content : Text} (nonempty : content ≠ []) (start : Nat) :
    (withText content .empty).endings start = [.ofText start content] := by
  simp [withText, nonempty, endings]

end ClosedTree

/-- All that becomes of some tokens, the first of which stands at `start`: the tags that are tags of
blocks, the stretches that are kept as text with the problems that are the reason, and all the
problems. -/
structure Accounting (start : Point) (tokens : List Token) (tags : List PlacedToken)
    (endings : List Span) (kept : List (Diagnostic × Span)) (diagnostics : List Diagnostic) :
    Prop where
  tags_sublist : List.Sublist tags (Token.placeFrom start.offset tokens)
  told : (kept.map Prod.fst).Perm (diagnostics.filter Diagnostic.keepsText)
  keeps : ∀ region ∈ kept, Keeps start endings tokens region.1 region.2
  named : ∀ diagnostic ∈ diagnostics, ∃ token,
    Stands start tokens token diagnostic.point ∧ diagnostic.Names token.sort
  distinct : (diagnostics.map Diagnostic.point).Nodup
  once : ∀ token point, Stands start tokens token point → token.sort ≠ .text →
    ExactlyOne (token.placedAt point.offset ∈ tags)
      (∃ region ∈ kept, (token.placedAt point.offset).span.Inside region.2)
      (∃ diagnostic ∈ diagnostics, token.sort.stray? point = some diagnostic)

namespace Accounting

variable {start middle : Point} {tokens others : List Token} {tags more : List PlacedToken}
  {endings ends : List Span} {kept later : List (Diagnostic × Span)}
  {diagnostics problems : List Diagnostic}

theorem perm (accounts : Accounting start tokens tags endings kept diagnostics)
    (same : diagnostics.Perm problems) : Accounting start tokens tags endings kept problems where
  tags_sublist := accounts.tags_sublist
  told := accounts.told.trans (same.filter _)
  keeps := accounts.keeps
  named diagnostic member := accounts.named diagnostic (same.mem_iff.mpr member)
  distinct := (same.map _).nodup_iff.mp accounts.distinct
  once token point stands tag := by
    simpa only [same.mem_iff] using accounts.once token point stands tag

theorem endings_mono (accounts : Accounting start tokens tags endings kept diagnostics)
    (subset : endings ⊆ ends) : Accounting start tokens tags ends kept diagnostics where
  tags_sublist := accounts.tags_sublist
  told := accounts.told
  keeps region member := by
    have split : tokens = [] ++ tokens ++ [] := by simp
    exact (accounts.keeps region member).of_part split (Point.advance_nil _).symm subset
  named := accounts.named
  distinct := accounts.distinct
  once := accounts.once

theorem unsaid (accounts : Accounting start tokens tags endings kept diagnostics)
    (lexed : ∀ token ∈ tokens, token.IsLexed) {token : Token} {point : Point}
    (solid : token.IsLexed)
    (outside : point.offset < start.offset ∨
      start.offset + (sources tokens).byteSize ≤ point.offset) :
    token.placedAt point.offset ∉ tags ∧
      (¬∃ region ∈ kept, (token.placedAt point.offset).span.Inside region.2) ∧
        ¬∃ diagnostic ∈ diagnostics, token.sort.stray? point = some diagnostic := by
  have elsewhere {other : Token} {place : Point} (stands : Stands start tokens other place) :
      point.offset ≠ place.offset := by
    have positive := (lexed other stands.mem).byteSize_pos
    have bounds := stands.bounds
    omega
  refine ⟨fun member => ?_, ?_, ?_⟩
  · obtain ⟨other, place, stands, same⟩ :=
      (Token.mem_placeFrom_iff start tokens _).mp (accounts.tags_sublist.subset member)
    exact elsewhere stands (congrArg (·.span.start) same)
  · rintro ⟨region, member, first, last⟩
    have bounds := (accounts.keeps region member).bounds
    have positive := solid.byteSize_pos
    simp only [Token.placedAt, Span.ofText] at first last
    omega
  · rintro ⟨diagnostic, member, stray⟩
    obtain ⟨other, stands, _⟩ := accounts.named diagnostic member
    exact elsewhere stands (congrArg Point.offset (TokenSort.eq_of_stray? stray).1.symm)

theorem append (lexed : ∀ token ∈ tokens ++ others, token.IsLexed)
    (joins : middle = start.advance (sources tokens))
    (first : Accounting start tokens tags endings kept diagnostics)
    (second : Accounting middle others more ends later problems) :
    Accounting start (tokens ++ others) (tags ++ more) (endings ++ ends) (kept ++ later)
      (diagnostics ++ problems) := by
  obtain ⟨lexedFirst, lexedSecond⟩ := List.forall_mem_append.mp lexed
  have size : middle.offset = start.offset + (sources tokens).byteSize := by simp [joins]
  -- What stands in one part comes before or after all that is said of the other.
  have before {token : Token} {point : Point} (stands : Stands start tokens token point) :
      point.offset < middle.offset := by
    have positive := (lexedFirst token stands.mem).byteSize_pos
    have bounds := stands.bounds
    omega
  have after {token : Token} {point : Point} (stands : Stands middle others token point) :
      middle.offset ≤ point.offset := stands.bounds.1
  constructor
  · rw [Token.placeFrom_append, ← size]
    exact first.tags_sublist.append second.tags_sublist
  · rw [List.map_append, List.filter_append]
    exact first.told.append second.told
  · rw [List.forall_mem_append]
    constructor
    · intro region member
      have split : tokens ++ others = [] ++ tokens ++ others := rfl
      exact (first.keeps region member).of_part split (Point.advance_nil _).symm
        (List.subset_append_left _ _)
    · intro region member
      exact (second.keeps region member).of_part (List.append_nil _).symm joins
        (List.subset_append_right _ _)
  · rw [List.forall_mem_append]
    constructor
    · intro diagnostic member
      obtain ⟨token, stands, names⟩ := first.named diagnostic member
      exact ⟨token, Token.stands_append_iff.mpr (.inl stands), names⟩
    · intro diagnostic member
      obtain ⟨token, stands, names⟩ := second.named diagnostic member
      exact ⟨token, Token.stands_append_iff.mpr (.inr (joins ▸ stands)), names⟩
  · rw [List.map_append, List.nodup_append]
    refine ⟨first.distinct, second.distinct, ?_⟩
    simp only [List.forall_mem_map]
    intro diagnostic member other here same
    obtain ⟨token, stands, _⟩ := first.named diagnostic member
    obtain ⟨next, standsNext, _⟩ := second.named other here
    have left := before stands
    have right := after standsNext
    rw [same] at left
    omega
  · intro token point stands tag
    simp only [List.mem_append, or_and_right, exists_or]
    rcases Token.stands_append_iff.mp stands with stands | stands
    · have absent := second.unsaid lexedSecond (lexedFirst token stands.mem) (.inl (before stands))
      simpa only [absent, or_false] using first.once token point stands tag
    · rw [← joins] at stands
      have absent := first.unsaid lexedFirst (lexedSecond token stands.mem)
        (.inr (size ▸ after stands))
      simpa only [absent, false_or] using second.once token point stands tag

theorem nil (start : Point) : Accounting start [] [] [] [] [] where
  tags_sublist := .slnil
  told := .nil
  keeps := by simp
  named := by simp
  distinct := .nil
  once _ _ stands := absurd stands Token.not_stands_nil

theorem singleton {token : Token}
    (sublist : List.Sublist tags [token.placedAt start.offset]) (single : diagnostics.length ≤ 1)
    (reported : ∀ diagnostic ∈ diagnostics, diagnostic.point = start ∧
      diagnostic.Names token.sort ∧ diagnostic.keepsText = false)
    (once : token.sort ≠ .text → ExactlyOne (token.placedAt start.offset ∈ tags) False
      (∃ diagnostic ∈ diagnostics, token.sort.stray? start = some diagnostic)) :
    Accounting start [token] tags [] [] diagnostics where
  tags_sublist := sublist
  told := by
    have none : diagnostics.filter Diagnostic.keepsText = [] := by
      simpa using fun diagnostic member => (reported diagnostic member).2.2
    rw [none]
    exact .nil
  keeps := by simp
  named diagnostic member := by
    obtain ⟨place, names, _⟩ := reported diagnostic member
    exact ⟨token, (Token.stands_singleton_iff token).mpr ⟨rfl, place⟩, names⟩
  distinct := by
    cases diagnostics with
    | nil => exact .nil
    | cons diagnostic rest =>
        cases rest with
        | nil => simp
        | cons other rest => simp at single
  once other point stands tag := by
    obtain ⟨rfl, rfl⟩ := (Token.stands_singleton_iff token).mp stands
    simpa using once tag

theorem text (start : Point) (content : Text) : Accounting start [.text content] [] [] [] [] :=
  singleton (List.nil_sublist _) (Nat.zero_le _) (by simp) (fun tag => absurd rfl tag)

theorem stray {token : Token} {diagnostic : Diagnostic}
    (stray : token.sort.stray? start = some diagnostic) :
    Accounting start [token] [] [] [] [diagnostic] := by
  obtain ⟨place, names, _, keepsText⟩ := TokenSort.eq_of_stray? stray
  refine singleton (List.nil_sublist _) (Nat.le_refl _) ?_ ?_
  · simpa using ⟨place, names, keepsText⟩
  · intro _
    simp [ExactlyOne, stray]

theorem tag {token : Token} (single : diagnostics.length ≤ 1)
    (reported : ∀ diagnostic ∈ diagnostics, diagnostic.point = start ∧
      diagnostic.Names token.sort ∧ diagnostic.keepsText = false ∧ diagnostic.isStray = false) :
    Accounting start [token] [token.placedAt start.offset] [] [] diagnostics := by
  refine singleton (List.Sublist.refl _) single ?_ ?_
  · intro diagnostic member
    obtain ⟨place, names, keepsText, _⟩ := reported diagnostic member
    exact ⟨place, names, keepsText⟩
  · intro _
    refine .inl ⟨by simp, not_false, ?_⟩
    rintro ⟨diagnostic, member, stray⟩
    have other := (reported diagnostic member).2.2.2
    rw [(TokenSort.eq_of_stray? stray).2.2.1] at other
    cases other

theorem flat (lexed : ∀ token ∈ tokens, token.IsLexed)
    (flat : ∀ token ∈ tokens, ¬Scan.OpensBlock token) (start : Point) :
    Accounting start tokens [] [] [] (Report.ofStrays start tokens).diagnostics := by
  induction tokens generalizing start with
  | nil => exact nil start
  | cons token tokens ih =>
      have later := ih (List.forall_mem_cons.mp lexed).2 (List.forall_mem_cons.mp flat).2
        (start.advance token.source)
      have joins : start.advance token.source = start.advance (sources [token]) := by simp
      cases token with
      | text content => exact append lexed joins (text start content) later
      | divider => exact append lexed joins (stray rfl) later
      | closing kind => exact append lexed joins (stray rfl) later
      | opening kind written => exact absurd trivial (flat _ List.mem_cons_self)
      | unterminated kind remainder => exact absurd trivial (flat _ List.mem_cons_self)

theorem keep {diagnostic : Diagnostic}
    (keeps : Keeps start endings tokens diagnostic (.ofText start.offset (sources tokens))) :
    Accounting start tokens [] endings [(diagnostic, .ofText start.offset (sources tokens))]
      [diagnostic] where
  tags_sublist := List.nil_sublist _
  told := by simp [keeps.named.1]
  keeps := by simpa using keeps
  named := by simpa using keeps.named.2
  distinct := by simp
  once token point stands tag := by
    refine .inr (.inl ⟨by simp, ⟨_, List.mem_singleton_self _, stands.bounds⟩, ?_⟩)
    rintro ⟨other, member, stray⟩
    have keepsText := keeps.named.1
    rw [← List.mem_singleton.mp member, (TokenSort.eq_of_stray? stray).2.2.2] at keepsText
    cases keepsText

theorem opens (found : FoundBlock) (start : Point) :
    Accounting start [found.openingTag] [(found.headAt start).placed] [] []
      (Report.ofCondition (found.headAt start)).diagnostics := by
  have same : (found.headAt start).placed = found.openingTag.placedAt start.offset := by
    simp [BlockHead.placed, FoundBlock.headAt, FoundBlock.openingTag, Token.placedAt, Token.sort,
      Span.ofText]
  rw [same]
  unfold Report.ofCondition
  split
  · exact tag (Nat.zero_le _) (by simp [Report.empty])
  · refine tag (Nat.le_refl _) ?_
    rw [List.forall_mem_singleton]
    exact ⟨rfl, ⟨found.kind, found.written, rfl, rfl⟩, rfl, rfl⟩

theorem closes (head : BlockHead) (closer : BlockKind) (start : Point) :
    Accounting start [.closing closer] [(Token.closing closer).placedAt start.offset] [] []
      (Report.ofCloser head closer start).diagnostics := by
  unfold Report.ofCloser
  split
  · exact tag (Nat.zero_le _) (by simp [Report.empty])
  · refine tag (Nat.le_refl _) ?_
    rw [List.forall_mem_singleton]
    exact ⟨rfl, rfl, rfl, rfl⟩

theorem enclose {found : FoundBlock} (lexed : ∀ token ∈ found.tokens, token.IsLexed)
    {head : BlockHead} (headed : head = found.headAt start) {closing : Point}
    (closed : closing = head.position.stop.advance (sources found.branches.content))
    (inside : Accounting head.position.stop found.branches.content tags endings kept diagnostics) :
    Accounting start found.tokens
      (head.placed :: tags ++ [(Token.closing found.closer).placedAt closing.offset]) endings kept
      ((Report.ofCondition head).diagnostics ++
        (Report.ofCloser head found.closer closing).diagnostics ++ diagnostics) := by
  subst headed
  have split : found.tokens =
      [found.openingTag] ++ (found.branches.content ++ [found.closingTag]) := by
    simp [FoundBlock.tokens]
  rw [split] at lexed ⊢
  have joins : (found.headAt start).position.stop = start.advance (sources [found.openingTag]) := by
    simp [FoundBlock.headAt]
  have closes := closes (found.headAt start) found.closer closing
  have body := inside.append (List.forall_mem_append.mp lexed).2 closed closes
  have block := (opens found start).append lexed joins body
  -- The closing tag is reported before what stands inside of the block.
  have reordered := block.perm (List.perm_append_comm.append_left _)
  simpa [FoundBlock.closingTag] using reordered

end Accounting

namespace ClosedTree

structure Explains (start : Point) (tokens : List Token) (tree : Tree)
    (diagnostics : List Diagnostic) (kept : List (Diagnostic × Span)) (closed : ClosedTree) :
    Prop where
  forget_eq : closed.forget = tree
  stop_eq : closed.stop start.offset = start.offset + (sources tokens).byteSize
  accounts : Accounting start tokens (closed.tags start.offset) (closed.endings start.offset) kept
    diagnostics

section

variable {start middle : Point} {tokens rest : List Token} {tree : Tree}
  {diagnostics problems : List Diagnostic} {kept later : List (Diagnostic × Span)}
  {closed : ClosedTree} {endings : List Span}

theorem explains_ofText
    (accounts : Accounting start tokens [] endings kept diagnostics)
    (last : endings ⊆ (withText (sources tokens) .empty).endings start.offset) :
    Explains start tokens (.ofText (sources tokens)) diagnostics kept
      (withText (sources tokens) .empty) where
  forget_eq := forget_withText _ _
  stop_eq := by rw [stop_withText, stop]
  accounts := by
    rw [tags_withText, tags]
    exact accounts.endings_mono last

theorem Explains.withText (lexed : ∀ token ∈ tokens ++ rest, token.IsLexed)
    (joins : middle = start.advance (sources tokens))
    (accounts : Accounting start tokens [] [] kept diagnostics)
    (explains : Explains middle rest tree problems later closed) :
    Explains start (tokens ++ rest) (.withText (sources tokens) tree) (diagnostics ++ problems)
      (kept ++ later) (withText (sources tokens) closed) := by
  have size : middle.offset = start.offset + (sources tokens).byteSize := by simp [joins]
  constructor
  · rw [forget_withText, explains.forget_eq]
  · rw [stop_withText, ← size, explains.stop_eq, size, Token.sources_append, Text.byteSize_append,
      Nat.add_assoc]
  · rw [tags_withText, ← size]
    refine (accounts.append lexed joins explains.accounts).endings_mono ?_
    rw [size]
    exact endings_subset_withText _ _ _

theorem placedAt_closing_stop {found : FoundBlock} {head : BlockHead} {closing : Point}
    (headed : head = found.headAt start)
    (closes : closing = head.position.stop.advance (sources found.branches.content))
    (joins : middle = start.advance (sources found.tokens)) :
    ((Token.closing found.closer).placedAt closing.offset).span.stop = middle.offset := by
  rw [Token.placedAt_stop]
  simp [joins, closes, headed, FoundBlock.tokens, FoundBlock.closingTag, FoundBlock.headAt]

theorem Explains.block {found : FoundBlock} {head : BlockHead} {consequent next : Tree}
    {first second : ClosedTree} {closing : Point}
    (lexed : ∀ token ∈ found.tokens ++ rest, token.IsLexed)
    (headed : head = found.headAt start) (single : found.branches.alternative = none)
    (closes : closing = head.position.stop.advance (sources found.branches.content))
    (joins : middle = start.advance (sources found.tokens))
    (inside : Explains head.position.stop found.branches.consequent consequent diagnostics kept
      first)
    (explains : Explains middle rest next problems later second) :
    Explains start (found.tokens ++ rest) (.block head consequent next)
      ((Report.ofCondition head).diagnostics ++
        (Report.ofCloser head found.closer closing).diagnostics ++ diagnostics ++ problems)
      (kept ++ later) (.block head first found.closer second) := by
  have content : found.branches.content = found.branches.consequent := by
    simp [Branches.content, single]
  have body := inside.accounts
  rw [← content] at body
  have node := (Accounting.enclose (List.forall_mem_append.mp lexed).1 headed closes body).append
    lexed joins explains.accounts
  have place : first.stop head.position.stop.offset = closing.offset := by
    rw [inside.stop_eq, closes, content, Point.advance_offset]
  have after := placedAt_closing_stop headed closes joins
  constructor
  · rw [forget, inside.forget_eq, explains.forget_eq]
  · simp only [stop, place, after, explains.stop_eq]
    simp [joins, Nat.add_assoc]
  · simp only [tags, ClosedTree.endings, place, after]
    simpa using node

theorem Explains.choice {found : FoundBlock} {head : BlockHead}
    {consequent alternative next : Tree} {first other second : ClosedTree}
    {division closing : Point} {branch : List Token} {reported : List Diagnostic}
    {keptOther : List (Diagnostic × Span)}
    (lexed : ∀ token ∈ found.tokens ++ rest, token.IsLexed)
    (headed : head = found.headAt start) (double : found.branches.alternative = some branch)
    (divides : division = head.position.stop.advance (sources found.branches.consequent))
    (closes : closing = head.position.stop.advance (sources found.branches.content))
    (joins : middle = start.advance (sources found.tokens))
    (inside : Explains head.position.stop found.branches.consequent consequent diagnostics kept
      first)
    (otherwise : Explains (division.advance dividerLiteral) branch alternative reported keptOther
      other)
    (explains : Explains middle rest next problems later second) :
    Explains start (found.tokens ++ rest) (.choice head consequent alternative next)
      ((Report.ofCondition head).diagnostics ++
        (Report.ofCloser head found.closer closing).diagnostics ++ diagnostics ++ reported ++
          problems)
      (kept ++ keptOther ++ later) (.choice head first other found.closer second) := by
  have content : found.branches.content = found.branches.consequent ++ ([.divider] ++ branch) := by
    simp [Branches.content, double]
  obtain ⟨lexedBlock, _⟩ := List.forall_mem_append.mp lexed
  have lexedContent : ∀ token ∈ found.branches.consequent ++ ([.divider] ++ branch),
      token.IsLexed := by
    rw [← content]
    intro token member
    exact lexedBlock token (by simp [FoundBlock.tokens, member])
  have divider : Accounting division [.divider] [Token.divider.placedAt division.offset] [] [] [] :=
    .tag (Nat.zero_le _) (by simp)
  have split := divider.append (List.forall_mem_append.mp lexedContent).2
    (by simp [Token.source]) otherwise.accounts
  have body := inside.accounts.append lexedContent divides split
  rw [← content] at body
  have node := (Accounting.enclose lexedBlock headed closes body).append lexed joins
    explains.accounts
  have place : first.stop head.position.stop.offset = division.offset := by
    rw [inside.stop_eq, divides, Point.advance_offset]
  have afterDivider := Token.divider.placedAt_stop division
  have placeOther : other.stop (division.advance dividerLiteral).offset = closing.offset := by
    rw [otherwise.stop_eq, closes, content, ← Point.advance_offset]
    simp [divides, Token.source]
  have after := placedAt_closing_stop headed closes joins
  constructor
  · rw [forget, inside.forget_eq, otherwise.forget_eq, explains.forget_eq]
  · simp only [stop, place, afterDivider, Token.source, placeOther, after, explains.stop_eq]
    simp [joins, Nat.add_assoc]
  · simp only [tags, ClosedTree.endings, place, afterDivider, Token.source, placeOther, after]
    simpa using node

end

theorem exists_explains {options : Options} {room : Option Nat} {start : Point}
    {tokens : List Token} {parsed : Parsed}
    (reads : Parsed.Reads options room start tokens parsed) (lexed : Token.Lexed tokens) :
    ∃ closed kept, Explains start tokens parsed.tree parsed.report.diagnostics kept closed := by
  induction reads with
  | @literal room start tokens scanned =>
      have flat := Accounting.flat lexed.1 (Scan.flat_of_literal scanned) start
      exact ⟨_, _, explains_ofText flat (List.nil_subset _)⟩
  | @malformed room start tokens before reason scanned =>
      obtain ⟨kept, diagnostic, rfl, plain, reported, abandons⟩ :=
        Scan.abandons_of_malformed lexed scanned (start.advance (sources before))
      have flat := Accounting.flat lexed.left.1 plain start
      -- The branch ends with one literal, of all its tokens.
      have keeps := abandons.keeps
        (List.mem_singleton_self (Span.ofText start.offset (sources (before ++ kept))))
        (by simp [Span.ofText]) (by simp [Span.ofText, Nat.add_assoc])
      have whole := flat.append lexed.1 rfl (.keep keeps)
      rw [Report.diagnostics_append, reported]
      refine ⟨_, _, explains_ofText whole ?_⟩
      have text : sources (before ++ kept) ≠ [] := by
        obtain ⟨_, token, stands, _⟩ := abandons.named
        have positive := (lexed.right.1 token stands.mem).byteSize_pos
        have bounds := stands.bounds
        intro none
        rw [Token.sources_append, List.append_eq_nil_iff] at none
        rw [none.2, Text.byteSize_nil] at bounds
        omega
      rw [endings_ofText text]
      exact List.Subset.refl _
  | @tooDeep start tokens before found rest next scanned later ih =>
      have keeps := FoundBlock.keeps (Scan.balanced_of_block lexed scanned)
        (start.advance (sources before))
      have plain := Scan.flat_of_block scanned
      obtain rfl := Scan.tokens_of_block scanned
      obtain ⟨closed, kept, explains⟩ := ih lexed.right
      have flat := Accounting.flat lexed.left.left.1 plain start
      rw [List.append_assoc] at lexed ⊢
      have node := (explains.withText lexed.right.1 rfl (.keep keeps)).withText lexed.1 rfl flat
      simp only [Report.diagnostics_append, List.append_assoc] at node ⊢
      exact ⟨_, _, node⟩
  | @block room start opening head tokens before found rest consequent next scanned single shallow
      opened headed inside later insideIh laterIh =>
      have plain := Scan.flat_of_block scanned
      obtain rfl := Scan.tokens_of_block scanned
      have flat := Accounting.flat lexed.left.left.1 plain start
      have lexedBranch (first : Bool) := lexed.left.right.of_part (found.branch_part_tokens first)
      obtain ⟨first, kept, explainsInside⟩ := insideIh (lexedBranch true)
      obtain ⟨second, keptLater, explains⟩ := laterIh lexed.right
      rw [List.append_assoc] at lexed ⊢
      have node := (explainsInside.block lexed.right.1 headed single rfl rfl explains).withText
        lexed.1 opened flat
      simp only [Report.diagnostics_append, List.append_assoc] at node ⊢
      exact ⟨_, _, node⟩
  | @choice room start opening head tokens before found rest branch consequent alternative next
      scanned double shallow opened headed inside otherwise later insideIh otherwiseIh laterIh =>
      have plain := Scan.flat_of_block scanned
      obtain rfl := Scan.tokens_of_block scanned
      have flat := Accounting.flat lexed.left.left.1 plain start
      have second : found.branch false = branch := by simp [FoundBlock.branch, double]
      have lexedBranch (first : Bool) := lexed.left.right.of_part (found.branch_part_tokens first)
      obtain ⟨first, kept, explainsInside⟩ := insideIh (lexedBranch true)
      obtain ⟨other, keptOther, explainsOther⟩ := otherwiseIh (second ▸ lexedBranch false)
      obtain ⟨last, keptLater, explains⟩ := laterIh lexed.right
      rw [List.append_assoc] at lexed ⊢
      have node := (explainsInside.choice lexed.right.1 headed double rfl rfl rfl explainsOther
        explains).withText lexed.1 opened flat
      simp only [Report.diagnostics_append, List.append_assoc] at node ⊢
      exact ⟨_, _, node⟩

end ClosedTree

def PlacedToken.IsStray (source : Text) (diagnostics : List Diagnostic) (placed : PlacedToken) :
    Prop :=
  ∃ diagnostic, placed.sort.stray? (Point.locate source placed.span.start) = some diagnostic ∧
    diagnostics.count diagnostic = 1

theorem Token.Stands.isStray_iff {source : Text} {token : Token} {point : Point}
    {diagnostics : List Diagnostic} (stands : Stands .origin (Token.tokenize source) token point)
    (once : diagnostics.Nodup) :
    (token.placedAt point.offset).IsStray source diagnostics ↔
      ∃ diagnostic ∈ diagnostics, token.sort.stray? point = some diagnostic := by
  have place : Point.locate source (token.placedAt point.offset).span.start = point :=
    stands.locate_eq
  have sort : (token.placedAt point.offset).sort = token.sort := rfl
  simp [PlacedToken.IsStray, place, sort, once.count, and_comm]

/-- What the tags of a source have to do with the tree and the problems of a template. `closed` is
the tree with its closing tags, and `kept` are the stretches of markup that became text. -/
structure Template.Accounts (template : Template) (closed : ClosedTree)
    (kept : List (Diagnostic × Span)) : Prop where
  forget_eq : closed.forget = template.tree
  tags_sublist : List.Sublist (closed.tags 0) (Token.place template.source)
  told : (kept.map Prod.fst).Perm (template.diagnostics.filter Diagnostic.keepsText)
  keeps : ∀ region ∈ kept,
    Keeps .origin (closed.endings 0) (Token.tokenize template.source) region.1 region.2
  once : ∀ placed ∈ Token.place template.source, placed.sort ≠ .text →
    ExactlyOne ((closed.tags 0).count placed = 1)
      (∃ region ∈ kept, placed.span.Inside region.2)
      (placed.IsStray template.source template.diagnostics)
  named : ∀ diagnostic ∈ template.diagnostics, ∃ placed ∈ Token.place template.source,
    diagnostic.point = Point.locate template.source placed.span.start ∧
      diagnostic.Names placed.sort ∧
        (diagnostic.isStray = true → placed.IsStray template.source template.diagnostics)
  distinct : (template.diagnostics.map Diagnostic.point).Nodup

/-- Every tag is a tag of one block, or in markup that a problem keeps as text, or reported once to
stand outside of any block, and is only one of these. Every problem stands at a token of its sort,
and no two problems at the same. -/
theorem Template.exists_accounts (options : Options) (source : Text) :
    ∃ closed kept, Accounts (parse options source) closed kept := by
  have reads := Parsed.reads_ofTokens options (some maxNestingDepth) .origin
    (Token.tokenize source)
  have lexed := Token.lexed_tokenize source
  obtain ⟨closed, kept, explains⟩ := ClosedTree.exists_explains reads lexed
  have accounts : Accounting .origin (Token.tokenize source) (closed.tags 0)
      (closed.endings 0) kept (parse options source).diagnostics := explains.accounts
  have tagsOnce := accounts.tags_sublist.nodup (Token.nodup_placeFrom lexed.1 .origin)
  have problemsOnce : (parse options source).diagnostics.Nodup :=
    List.Pairwise.of_map Diagnostic.point (fun _ _ differ same => differ (congrArg _ same))
      accounts.distinct
  refine ⟨closed, kept, explains.forget_eq, accounts.tags_sublist, accounts.told, accounts.keeps,
    ?_, ?_, accounts.distinct⟩
  · intro placed member tag
    obtain ⟨token, point, stands, rfl⟩ := (Token.mem_placeFrom_iff .origin _ _).mp member
    have once := accounts.once token point stands tag
    rw [← stands.isStray_iff problemsOnce] at once
    simpa [tagsOnce.count] using once
  · intro diagnostic member
    obtain ⟨token, stands, names⟩ := accounts.named diagnostic member
    refine ⟨token.placedAt diagnostic.point.offset, stands.placed_mem, stands.locate_eq.symm,
      names, fun stray => ?_⟩
    exact (stands.isStray_iff problemsOnce).mpr ⟨diagnostic, member, names.stray? stray⟩

end MailTemplate
