import MailTemplate.Template.Report

/-!
Reading a template. Blocks are taken one after the other from the tokens of the source, and the
tokens of each branch are read in the same way one level deeper. Markup that makes no block stays
as text, so that reading never fails.
-/

namespace MailTemplate

structure Parsed where
  tree : Tree
  report : Report
  deriving DecidableEq, Repr

def FoundBlock.headAt (found : FoundBlock) (opening : Point) : BlockHead :=
  ⟨found.kind, found.written, ⟨opening, opening.advance found.openingTag.source⟩⟩

namespace Parsed

/-- Reads tokens, the first of which stands at `start`. `room` is the number of levels that blocks
may still go down, if there is a limit. -/
def ofTokens (options : Options) (room : Option Nat) (start : Point) (tokens : List Token) :
    Parsed :=
  match _scanned : Scan.ofTokens options tokens with
  | .literal => ⟨.ofText (Token.sources tokens), .ofStrays start tokens⟩
  | .malformed before reason =>
      let opening := start.advance (Token.sources before)
      ⟨.ofText (Token.sources tokens), .ofStrays start before ++ .ofMalformed opening reason⟩
  | .block before found rest =>
      let opening := start.advance (Token.sources before)
      let head := found.headAt opening
      let inside := head.position.stop
      let closing := inside.advance (Token.sources found.branches.content)
      let next := ofTokens options room (closing.advance found.closingTag.source) rest
      if room = some 0 then
        ⟨.withText (Token.sources before) (.withText (Token.sources found.tokens) next.tree),
          .ofStrays start before ++ .ofTooDeep opening found.kind ++ next.report⟩
      else
        let below := room.map (· - 1)
        let opened : Report :=
          .ofStrays start before ++ .ofCondition head ++ .ofCloser head found.closer closing
        let consequent := ofTokens options below inside found.branches.consequent
        match _branch : found.branches.alternative with
        | none =>
            ⟨.withText (Token.sources before) (.block head consequent.tree next.tree),
              opened ++ consequent.report ++ next.report⟩
        | some tokens =>
            let middle := inside.advance (Token.sources found.branches.consequent)
            let alternative := ofTokens options below (middle.advance dividerLiteral) tokens
            ⟨.withText (Token.sources before)
                (.choice head consequent.tree alternative.tree next.tree),
              opened ++ consequent.report ++ alternative.report ++ next.report⟩
termination_by tokens.length
decreasing_by
  · exact (Scan.length_lt_of_block _scanned).2.2
  · exact (Scan.length_lt_of_block _scanned).1
  · simpa [_branch] using (Scan.length_lt_of_block _scanned).2.1

theorem ofTokens_of_literal {options : Options} {tokens : List Token}
    (scanned : Scan.ofTokens options tokens = .literal) (room : Option Nat) (start : Point) :
    ofTokens options room start tokens =
      ⟨.ofText (Token.sources tokens), .ofStrays start tokens⟩ := by
  rw [ofTokens]
  split
  · rfl
  · simp_all
  · simp_all

theorem ofTokens_of_malformed {options : Options} {tokens before : List Token}
    {reason : Malformed} (scanned : Scan.ofTokens options tokens = .malformed before reason)
    (room : Option Nat) (start : Point) :
    ofTokens options room start tokens =
      ⟨.ofText (Token.sources tokens),
        .ofStrays start before ++
          .ofMalformed (start.advance (Token.sources before)) reason⟩ := by
  rw [ofTokens]
  split
  · simp_all
  · simp_all
  · simp_all

theorem ofTokens_of_tooDeep {options : Options} {tokens before rest : List Token}
    {found : FoundBlock} (scanned : Scan.ofTokens options tokens = .block before found rest)
    (start : Point) :
    ofTokens options (some 0) start tokens =
      let opening := start.advance (Token.sources before)
      let next := ofTokens options (some 0) (opening.advance (Token.sources found.tokens)) rest
      ⟨.withText (Token.sources before) (.withText (Token.sources found.tokens) next.tree),
        .ofStrays start before ++ .ofTooDeep opening found.kind ++ next.report⟩ := by
  rw [ofTokens]
  split
  · simp_all
  · simp_all
  · rename_i scannedHere
    rw [scanned] at scannedHere
    cases scannedHere
    simp [FoundBlock.tokens, FoundBlock.headAt]

theorem ofTokens_of_block {options : Options} {tokens before rest : List Token}
    {found : FoundBlock} (scanned : Scan.ofTokens options tokens = .block before found rest)
    (single : found.branches.alternative = none) {room : Option Nat} (deep : room ≠ some 0)
    (start : Point) :
    ofTokens options room start tokens =
      let opening := start.advance (Token.sources before)
      let head := found.headAt opening
      let closing := head.position.stop.advance (Token.sources found.branches.content)
      let consequent :=
        ofTokens options (room.map (· - 1)) head.position.stop found.branches.consequent
      let next := ofTokens options room (opening.advance (Token.sources found.tokens)) rest
      ⟨.withText (Token.sources before) (.block head consequent.tree next.tree),
        .ofStrays start before ++ .ofCondition head ++ .ofCloser head found.closer closing ++
          consequent.report ++ next.report⟩ := by
  rw [ofTokens]
  split
  · simp_all
  · simp_all
  · rename_i scannedHere
    rw [scanned] at scannedHere
    cases scannedHere
    rw [if_neg deep]
    split
    · simp [FoundBlock.tokens, FoundBlock.headAt]
    · simp_all

theorem ofTokens_of_choice {options : Options} {tokens before rest second : List Token}
    {found : FoundBlock} (scanned : Scan.ofTokens options tokens = .block before found rest)
    (double : found.branches.alternative = some second) {room : Option Nat}
    (deep : room ≠ some 0) (start : Point) :
    ofTokens options room start tokens =
      let opening := start.advance (Token.sources before)
      let head := found.headAt opening
      let closing := head.position.stop.advance (Token.sources found.branches.content)
      let below := room.map (· - 1)
      let divider := head.position.stop.advance (Token.sources found.branches.consequent)
      let consequent := ofTokens options below head.position.stop found.branches.consequent
      let alternative := ofTokens options below (divider.advance dividerLiteral) second
      let next := ofTokens options room (opening.advance (Token.sources found.tokens)) rest
      ⟨.withText (Token.sources before)
          (.choice head consequent.tree alternative.tree next.tree),
        .ofStrays start before ++ .ofCondition head ++ .ofCloser head found.closer closing ++
          consequent.report ++ alternative.report ++ next.report⟩ := by
  rw [ofTokens]
  split
  · simp_all
  · simp_all
  · rename_i scannedHere
    rw [scanned] at scannedHere
    cases scannedHere
    rw [if_neg deep]
    split
    · simp_all
    · rename_i secondHere
      rw [double] at secondHere
      cases secondHere
      simp [FoundBlock.tokens, FoundBlock.headAt]

end Parsed

structure Template where
  source : Text
  tree : Tree
  report : Report
  deriving DecidableEq, Repr

namespace Template

def parseWithin (limit : Option Nat) (options : Options) (source : Text) : Template :=
  let parsed := Parsed.ofTokens options limit .origin (Token.tokenize source)
  ⟨source, parsed.tree, parsed.report⟩

/-- Reads a template. Malformed markup is kept as text and reported. -/
def parse (options : Options) (source : Text) : Template :=
  parseWithin (some maxNestingDepth) options source

def diagnostics (template : Template) : List Diagnostic :=
  template.report.diagnostics

def check (template : Template) : Except Diagnostic Unit :=
  match template.diagnostics with
  | [] => .ok ()
  | diagnostic :: _ => .error diagnostic

end Template

end MailTemplate
