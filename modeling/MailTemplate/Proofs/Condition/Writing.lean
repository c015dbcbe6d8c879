import MailTemplate.Proofs.Condition.Grammar

/-!
Writing a comparison with its literal in quotes. It is read back as it was meant, with any white
space around its parts and whatever the literal holds, signs of comparisons apart. A literal that is
a word needs no quotes.
-/

namespace MailTemplate

open Text (Splits)

def IsSignChar (c : Char) : Prop :=
  c = '=' ∨ c = '!'

/-- What can stand before any sign: a text that neither holds a sign nor adds to the one after it. -/
structure Text.IsOperand (name : Text) : Prop where
  nonempty : name ≠ []
  trimmed : name.trim = name
  free : name.SignFree
  ends : ∀ c ∈ name.getLast?, ¬IsSignChar c

structure Text.IsWord (literal : Text) : Prop where
  nonempty : literal ≠ []
  each : ∀ c ∈ literal, isBlank c = false ∧ ¬IsSignChar c ∧ ¬IsQuote c

theorem not_isSignChar_of_isBlank {c : Char} (blank : isBlank c = true) : ¬IsSignChar c := by
  rintro (rfl | rfl)
  · exact absurd blank (by decide)
  · exact absurd blank (by decide)

theorem IsQuote.not_isSignChar {c : Char} (isQuote : IsQuote c) : ¬IsSignChar c := by
  rcases isQuote with rfl | rfl
  · rintro (same | same) <;> cases same
  · rintro (same | same) <;> cases same

theorem IsQuote.isBlank_eq_false {c : Char} (isQuote : IsQuote c) : isBlank c = false := by
  rcases isQuote with rfl | rfl
  · decide
  · decide

namespace Text

theorem SignFree.append {first second : Text} (left : first.SignFree) (right : second.SignFree)
    (border : (∀ c ∈ first.getLast?, ¬IsSignChar c) ∨ ∀ c ∈ second.head?, ¬IsSignChar c) :
    SignFree (first ++ second) := by
  have apart {part : Text} (signs : ∀ c ∈ part, IsSignChar c) (inside : part <:+: first ++ second) :
      part <:+: first ∨ part <:+: second := by
    apply infix_of_border ?_ inside
    refine border.imp ?_ ?_
    · exact fun free c member sign => free c member (signs c sign)
    · exact fun free c member sign => free c member (signs c sign)
  constructor
  · intro inside
    have signs : ∀ c ∈ ['=', '='], IsSignChar c := by simp [IsSignChar]
    exact (apart signs inside).elim left.1 right.1
  · intro inside
    have signs : ∀ c ∈ ['!', '='], IsSignChar c := by simp [IsSignChar]
    exact (apart signs inside).elim left.2 right.2

theorem signFree_of_not_mem {text : Text} (free : '=' ∉ text) : text.SignFree := by
  constructor
  · intro inside
    exact free (inside.subset (by simp))
  · intro inside
    exact free (inside.subset (by simp))

theorem signFree_of_isBlank {text : Text} (blank : ∀ c ∈ text, isBlank c = true) :
    text.SignFree := by
  apply signFree_of_not_mem
  intro member
  exact absurd (blank _ member) (by decide)

theorem SignFree.append_blank {name gap : Text} (free : name.SignFree)
    (blank : ∀ c ∈ gap, isBlank c = true) : SignFree (name ++ gap) := by
  refine free.append (signFree_of_isBlank blank) (.inr ?_)
  exact fun c member => not_isSignChar_of_isBlank (blank c (List.mem_of_mem_head? member))

theorem SignFree.quoted {quote : Char} {literal : Text} (free : literal.SignFree)
    (isQuote : IsQuote quote) : SignFree (quote :: literal ++ [quote]) := by
  have alone : SignFree [quote] := by
    apply signFree_of_not_mem
    intro member
    rw [List.mem_singleton] at member
    exact isQuote.not_isSignChar (.inl member.symm)
  have border : ∀ c ∈ [quote].getLast?, ¬IsSignChar c := by
    rintro c ⟨⟩
    exact isQuote.not_isSignChar
  have opened : SignFree ([quote] ++ literal) := alone.append free (.inl border)
  exact opened.append alone (.inr border)

theorem SignFree.quoted_append {quote : Char} {space literal : Text} (free : literal.SignFree)
    (isQuote : IsQuote quote) (blank : ∀ c ∈ space, isBlank c = true) :
    SignFree (space ++ (quote :: literal ++ [quote])) := by
  refine (signFree_of_isBlank blank).append (free.quoted isQuote) (.inr ?_)
  rintro c ⟨⟩
  exact isQuote.not_isSignChar

theorem IsOperand.trim_append {name gap : Text} (operand : name.IsOperand)
    (blank : ∀ c ∈ gap, isBlank c = true) : trim (name ++ gap) = name := by
  have padded := trim_padded (List.forall_mem_nil _) blank operand.trimmed operand.nonempty
  rwa [List.nil_append] at padded

theorem IsOperand.ends_append {name gap : Text} (operand : name.IsOperand)
    (blank : ∀ c ∈ gap, isBlank c = true) : ∀ c ∈ (name ++ gap).getLast?, ¬IsSignChar c := by
  intro c member
  rcases List.eq_nil_or_concat' gap with rfl | ⟨initial, last, rfl⟩
  · rw [List.append_nil] at member
    exact operand.ends c member
  · rw [← List.append_assoc, List.getLast?_concat, Option.mem_some_iff] at member
    subst member
    exact not_isSignChar_of_isBlank (blank _ (by simp))

end Text

namespace IsQuote

variable {quote : Char} {space : Text}

theorem trim_quoted (isQuote : IsQuote quote) (literal : Text) :
    Text.trim (quote :: literal ++ [quote]) = quote :: literal ++ [quote] := by
  rw [Text.trim_eq_self_iff]
  constructor
  · rintro c ⟨⟩
    exact isQuote.isBlank_eq_false
  · intro c member
    rw [List.getLast?_concat, Option.mem_some_iff] at member
    exact member ▸ isQuote.isBlank_eq_false

theorem trim_append (isQuote : IsQuote quote) (blank : ∀ c ∈ space, isBlank c = true)
    (literal : Text) :
    Text.trim (space ++ (quote :: literal ++ [quote])) = quote :: literal ++ [quote] := by
  have padded := Text.trim_padded blank (List.forall_mem_nil _) (isQuote.trim_quoted literal)
    (by simp)
  rwa [List.append_nil] at padded

theorem starts_append (isQuote : IsQuote quote) (blank : ∀ c ∈ space, isBlank c = true)
    (literal : Text) :
    ∀ c ∈ (space ++ (quote :: literal ++ [quote])).head?, ¬IsSignChar c := by
  intro c member
  cases space with
  | nil =>
      cases member
      exact isQuote.not_isSignChar
  | cons first space =>
      cases member
      exact not_isSignChar_of_isBlank (blank _ List.mem_cons_self)

end IsQuote

theorem Text.IsOperand.trim_before {name rest : Text} (operand : name.IsOperand)
    (nonempty : rest ≠ []) (last : ∀ c ∈ rest.getLast?, isBlank c = false) :
    Text.trim (name ++ rest) = name ++ rest := by
  obtain ⟨first, _⟩ := (Text.trim_eq_self_iff name).mp operand.trimmed
  rw [Text.trim_eq_self_iff, List.head?_append_of_ne_nil _ operand.nonempty,
    List.getLast?_append_of_ne_nil _ nonempty]
  exact ⟨first, last⟩

theorem Text.IsOperand.trim_between {name : Text} {quote : Char} (operand : name.IsOperand)
    (isQuote : IsQuote quote) (middle : Text) :
    Text.trim (name ++ middle ++ [quote]) = name ++ middle ++ [quote] := by
  rw [List.append_assoc]
  apply operand.trim_before (by simp)
  intro c member
  rw [List.getLast?_concat, Option.mem_some_iff] at member
  exact member ▸ isQuote.isBlank_eq_false

namespace Text.IsWord

variable {literal space : Text}

theorem signFree (word : literal.IsWord) : literal.SignFree :=
  signFree_of_not_mem fun member => (word.each _ member).2.1 (.inl rfl)

theorem trim_eq (word : literal.IsWord) : literal.trim = literal := by
  rw [trim_eq_self_iff]
  exact ⟨fun c first => (word.each c (List.mem_of_mem_head? first)).1,
    fun c last => (word.each c (List.mem_of_mem_getLast? last)).1⟩

theorem trim_append (word : literal.IsWord) (blank : ∀ c ∈ space, isBlank c = true) :
    trim (space ++ literal) = literal := by
  have padded := trim_padded blank (List.forall_mem_nil _) word.trim_eq word.nonempty
  rwa [List.append_nil] at padded

theorem starts_append (word : literal.IsWord) (blank : ∀ c ∈ space, isBlank c = true) :
    ∀ c ∈ (space ++ literal).head?, ¬IsSignChar c := by
  intro c first
  rcases List.mem_append.mp (List.mem_of_mem_head? first) with inside | inside
  · exact not_isSignChar_of_isBlank (blank c inside)
  · exact (word.each c inside).2.1

theorem unquote_eq (word : literal.IsWord) : Condition.unquote literal = literal := by
  refine (Condition.unquotes_unquote literal).eq (.bare ?_)
  rintro quote inside isQuote rfl
  exact (word.each quote List.mem_cons_self).2.2 isQuote

end Text.IsWord

namespace Comparison

inductive Writes (sign : Comparison) (name literal : Text) : Text → Prop
  | quoted {quote before gap space after} (isQuote : IsQuote quote)
      (blank : ∀ c ∈ before ++ gap ++ space ++ after, isBlank c = true) :
      Writes sign name literal
        (before ++ name ++ gap ++ sign.symbol ++ space ++ quote :: literal ++ [quote] ++ after)

inductive WritesBare (sign : Comparison) (name literal : Text) : Text → Prop
  | bare {before gap space after} (blank : ∀ c ∈ before ++ gap ++ space ++ after, isBlank c = true) :
      WritesBare sign name literal
        (before ++ name ++ gap ++ sign.symbol ++ space ++ literal ++ after)

section

variable {sign : Comparison} {before after : Text}

theorem isSignChar_of_mem_symbol {c : Char} (member : c ∈ sign.symbol) : IsSignChar c := by
  have each : sign.symbol.all (fun c => c = '=' ∨ c = '!') = true := by cases sign <;> rfl
  simpa [IsSignChar] using List.all_eq_true.mp each c member

theorem infix_symbol_of_between (left : before.SignFree) (right : after.SignFree)
    (front : ∀ c ∈ before.getLast?, ¬IsSignChar c) (back : ∀ c ∈ after.head?, ¬IsSignChar c)
    {other : Comparison} (inside : other.symbol <:+: before ++ sign.symbol ++ after) :
    other.symbol <:+: sign.symbol := by
  have early : ∀ c ∈ before.getLast?, c ∉ other.symbol :=
    fun c member part => front c member (isSignChar_of_mem_symbol part)
  have late : ∀ c ∈ after.head?, c ∉ other.symbol :=
    fun c member part => back c member (isSignChar_of_mem_symbol part)
  rcases Text.infix_of_border (.inr late) inside with inside | inside
  · rcases Text.infix_of_border (.inl early) inside with inside | inside
    · exact absurd inside (not_infix_of_signFree left other)
    · exact inside
  · exact absurd inside (not_infix_of_signFree right other)

theorem leadsIn_between (left : before.SignFree) (right : after.SignFree)
    (front : ∀ c ∈ before.getLast?, ¬IsSignChar c) (back : ∀ c ∈ after.head?, ¬IsSignChar c) :
    sign.LeadsIn (before ++ sign.symbol ++ after) := by
  have here : sign.symbol <:+: before ++ sign.symbol ++ after := ⟨before, after, rfl⟩
  have absent {other : Comparison} (apart : ¬other.symbol <:+: sign.symbol) :
      ¬other.symbol <:+: before ++ sign.symbol ++ after :=
    fun inside => apart (infix_symbol_of_between left right front back inside)
  cases sign with
  | strictEq => exact here
  | strictNe => exact ⟨here, @absent .strictEq (by decide)⟩
  | looseEq => exact ⟨here, @absent .strictEq (by decide), @absent .strictNe (by decide)⟩
  | looseNe =>
      exact ⟨here, @absent .strictEq (by decide), @absent .strictNe (by decide),
        @absent .looseEq (by decide)⟩

theorem splits_between (left : before.SignFree) (right : after.SignFree)
    (front : ∀ c ∈ before.getLast?, ¬IsSignChar c) :
    Splits sign.symbol (before ++ sign.symbol ++ after) [before, after] := by
  rw [Text.splits_pair_iff]
  refine ⟨Text.breakAt?_of_border ?_ (not_infix_of_signFree left sign) after,
    not_infix_of_signFree right sign⟩
  exact fun c member part => front c member (isSignChar_of_mem_symbol part)

end

end Comparison

namespace Condition

variable {sign : Comparison} {text left right : Text}

theorem parse_of_between (leftFree : left.SignFree)
    (rightFree : right.SignFree) (front : ∀ c ∈ left.getLast?, ¬IsSignChar c)
    (back : ∀ c ∈ right.head?, ¬IsSignChar c) (leftSide : left.trim ≠ [])
    (rightSide : right.trim ≠ []) (trimmed : text.trim = left ++ sign.symbol ++ right) :
    parse text = .ok (.compared sign left.trim (unquote right.trim)) := by
  have leads : sign.LeadsIn text.trim := by
    rw [trimmed]
    exact Comparison.leadsIn_between leftFree rightFree front back
  have splits : Splits sign.symbol text.trim [left, right] := by
    rw [trimmed]
    exact Comparison.splits_between leftFree rightFree front
  exact parse_of_divides leads ⟨splits, leftSide, rightSide⟩

theorem parse_of_writes {name literal : Text} (operand : name.IsOperand)
    (free : literal.SignFree) (writes : sign.Writes name literal text) :
    parse text = .ok (.compared sign name literal) := by
  cases writes with
  | @quoted quote before gap space after isQuote blank =>
      simp only [List.forall_mem_append] at blank
      obtain ⟨⟨⟨beforeBlank, gapBlank⟩, spaceBlank⟩, afterBlank⟩ := blank
      have leftTrim := operand.trim_append gapBlank
      have rightTrim := isQuote.trim_append spaceBlank literal
      have trimmed : Text.trim
          (before ++ name ++ gap ++ sign.symbol ++ space ++ quote :: literal ++ [quote] ++ after) =
            name ++ gap ++ sign.symbol ++ (space ++ (quote :: literal ++ [quote])) := by
        have inside :=
          operand.trim_between isQuote (gap ++ sign.symbol ++ space ++ quote :: literal)
        have padded := Text.trim_padded beforeBlank afterBlank inside (by simp)
        simpa only [List.append_assoc, List.cons_append] using padded
      have parsed := parse_of_between (operand.free.append_blank gapBlank)
        (free.quoted_append isQuote spaceBlank) (operand.ends_append gapBlank)
        (isQuote.starts_append spaceBlank literal) (by rw [leftTrim]; exact operand.nonempty)
        (by rw [rightTrim]; simp) trimmed
      rw [parsed, leftTrim, rightTrim, (unquotes_unquote _).eq (.quoted isQuote)]

theorem parse_of_writesBare {name literal : Text} (operand : name.IsOperand)
    (word : literal.IsWord) (writes : sign.WritesBare name literal text) :
    parse text = .ok (.compared sign name literal) := by
  cases writes with
  | @bare before gap space after blank =>
      simp only [List.forall_mem_append] at blank
      obtain ⟨⟨⟨beforeBlank, gapBlank⟩, spaceBlank⟩, afterBlank⟩ := blank
      have leftTrim := operand.trim_append gapBlank
      have rightTrim := word.trim_append spaceBlank
      have rightFree : Text.SignFree (space ++ literal) := by
        refine (Text.signFree_of_isBlank spaceBlank).append word.signFree (.inr ?_)
        exact fun c first => (word.each c (List.mem_of_mem_head? first)).2.1
      have inside : Text.trim (name ++ (gap ++ sign.symbol ++ space ++ literal)) =
          name ++ (gap ++ sign.symbol ++ space ++ literal) := by
        apply operand.trim_before (by simp [word.nonempty])
        intro c last
        rw [List.getLast?_append_of_ne_nil _ word.nonempty] at last
        exact (word.each c (List.mem_of_mem_getLast? last)).1
      have trimmed : Text.trim
          (before ++ name ++ gap ++ sign.symbol ++ space ++ literal ++ after) =
            name ++ gap ++ sign.symbol ++ (space ++ literal) := by
        have padded := Text.trim_padded beforeBlank afterBlank inside
          (List.append_ne_nil_of_left_ne_nil operand.nonempty _)
        simpa only [List.append_assoc] using padded
      have parsed := parse_of_between (operand.free.append_blank gapBlank) rightFree
        (operand.ends_append gapBlank) (word.starts_append spaceBlank)
        (by rw [leftTrim]; exact operand.nonempty) (by rw [rightTrim]; exact word.nonempty) trimmed
      rw [parsed, leftTrim, rightTrim, word.unquote_eq]

/-- Reading a condition decides what its text says, and undoes the writing of a comparison. -/
theorem parse_decides (text : Text) :
    (∀ outcome, parse text = outcome ↔ Denotes text outcome) ∧
      ∀ (sign : Comparison) (name literal : Text), name.IsOperand → literal.SignFree →
        sign.Writes name literal text → parse text = .ok (.compared sign name literal) :=
  ⟨parse_eq_iff_denotes text, fun _ _ _ operand free writes => parse_of_writes operand free writes⟩

def signCharacters : Text × Text :=
  (['a', '=', '!', 'b'], ['=', ' ', '\x22', '!'])

theorem parse_decides_signCharacters :
    signCharacters.1.IsOperand ∧ signCharacters.2.SignFree ∧
      Comparison.Writes .looseNe signCharacters.1 signCharacters.2
        ['\t', 'a', '=', '!', 'b', '!', '=', ' ', '\x22', '=', ' ', '\x22', '!', '\x22'] ∧
      parse ['\t', 'a', '=', '!', 'b', '!', '=', ' ', '\x22', '=', ' ', '\x22', '!', '\x22'] =
        .ok (.compared .looseNe signCharacters.1 signCharacters.2) := by
  have operand : signCharacters.1.IsOperand :=
    ⟨by decide, by decide, ⟨by decide, by decide⟩, by simp [signCharacters, IsSignChar]⟩
  have free : signCharacters.2.SignFree := ⟨by decide, by decide⟩
  have blank : ∀ c ∈ ['\t'] ++ ([] : Text) ++ [' '] ++ [], isBlank c = true :=
    List.all_eq_true.mp rfl
  have writes : Comparison.Writes .looseNe signCharacters.1 signCharacters.2 _ :=
    .quoted (.inl rfl) blank
  exact ⟨operand, free, writes, (parse_decides _).2 _ _ _ operand free writes⟩

end Condition

end MailTemplate
