import MailTemplate.Proofs.Markup.Lexed
import MailTemplate.Proofs.Substitution
import MailTemplate.Proofs.Text.Slice

/-!
The sites of a text, each known by the bytes at its own place. They lie apart from one another, so
taking them from the front on leaves out none, and what is put in their places has no part in
where they are.
-/

namespace MailTemplate

namespace Text

def SiteAt (text : Text) (offset : Nat) (site : Site) : Prop :=
  site.IsValid ∧ text.slice? offset (offset + site.source.byteSize) = some site.source

/-- The part comes out as it is wherever it stands, and what stands beside it as if it were alone. -/
def IsCopied (part : Text) : Prop :=
  ∀ (front back : Text) (context : Context),
    (substitute (front ++ part ++ back) context).text =
      (substitute front context).text ++ part ++ (substitute back context).text

theorem siteAt_iff (text : Text) (offset : Nat) (site : Site) :
    text.SiteAt offset site ↔ site.IsValid ∧
      ∃ before after, text = before ++ site.source ++ after ∧ before.byteSize = offset := by
  rw [SiteAt, slice?_eq_some_iff]
  simp

end Text

namespace Site

def shown (context : Context) (site : Site) : Text :=
  match context.get? site.name with
  | none | some .null => []
  | some value => value.text

theorem IsValid.not_mem {site : Site} (valid : site.IsValid) {c : Char}
    (padding : isSitePadding c = false) (char : isNameChar c = false) :
    c ∉ site.before ++ site.name ++ site.after := by
  obtain ⟨before, name, after⟩ := isValid_iff.mp valid
  simp only [isName, Bool.and_eq_true] at name
  simp only [List.mem_append, not_or]
  refine ⟨⟨?_, ?_⟩, ?_⟩
  · intro member
    simp [List.all_eq_true.mp before _ member] at padding
  · intro member
    simp [List.all_eq_true.mp name.1.2 _ member] at char
  · intro member
    simp [List.all_eq_true.mp after _ member] at padding

theorem IsValid.exists_inside {site : Site} (valid : site.IsValid) :
    ∃ inside, site.source = '{' :: '{' :: inside ∧ '{' ∉ inside ∧ inside ≠ [] := by
  refine ⟨site.before ++ site.name ++ site.after ++ tagEnd, by simp [source, siteStart], ?_,
    by simp [tagEnd]⟩
  rw [List.mem_append, not_or]
  exact ⟨valid.not_mem (by decide) (by decide), by decide⟩

theorem IsValid.eq_nil_of_tagEnd {site : Site} (valid : site.IsValid) {before after : Text}
    (split : site.source = before ++ tagEnd ++ after) : after = [] := by
  have free : '}' ∉ siteStart ++ (site.before ++ site.name ++ site.after) := by
    rw [List.mem_append, not_or]
    exact ⟨by decide, valid.not_mem (by decide) (by decide)⟩
  have writable : Text.Writable (siteStart ++ (site.before ++ site.name ++ site.after)) := by
    refine ⟨fun inside => free (inside.subset List.mem_cons_self), fun last => ?_⟩
    exact free (List.mem_of_getLast? last)
  have whole : site.source =
      siteStart ++ (site.before ++ site.name ++ site.after) ++ tagEnd ++ [] := by
    simp [source]
  have found := (Text.breakAt?_tagEnd_iff _ _ _).mpr ⟨whole, writable⟩
  have earliest := Text.breakAt?_length_le found before after split
  have lengths := congrArg List.length (whole.symm.trans split)
  simp only [List.length_append, List.length_nil] at lengths earliest
  exact List.length_eq_zero_iff.mp (by omega)

theorem IsValid.ends_before {site : Site} (valid : site.IsValid) {before back rest : Text}
    (split : site.source ++ rest = before ++ '{' :: '{' :: back) (nonempty : before ≠ []) :
    ∃ between, before = site.source ++ between ∧ rest = between ++ '{' :: '{' :: back := by
  obtain ⟨inside, braces, free, filled⟩ := valid.exists_inside
  rcases List.append_eq_append_iff.mp split with ⟨between, same, later⟩ | ⟨crossing, same, later⟩
  · exact ⟨between, same, later⟩
  · rw [braces] at same
    match before, crossing with
    | [], _ => exact absurd rfl nonempty
    | before, [] =>
        rw [List.append_nil] at same
        exact ⟨[], by rw [braces, same, List.append_nil], later.symm⟩
    | [first], second :: crossing =>
        simp only [List.cons_append, List.nil_append, List.cons.injEq] at same later
        obtain ⟨_, _, rfl⟩ := same
        cases inside with
        | nil => exact absurd rfl filled
        | cons c inside =>
            simp only [List.cons_append, List.cons.injEq] at later
            exact absurd (by simp [← later.2.1]) free
    | first :: second :: before, third :: crossing =>
        simp only [List.cons_append, List.cons.injEq] at same later
        exact absurd (by simp [same.2.2, ← later.1]) free

theorem IsValid.apart {first second : Site} (valid : first.IsValid) (other : second.IsValid)
    {rest before after : Text} (split : first.source ++ rest = before ++ second.source ++ after) :
    before = [] ∧ first = second ∨
      ∃ between, before = first.source ++ between ∧ rest = between ++ second.source ++ after := by
  by_cases none : before = []
  · subst none
    have here := (read?_eq_some_iff _ first rest).mpr ⟨valid, rfl⟩
    rw [split, List.nil_append, (read?_eq_some_iff _ second after).mpr ⟨other, rfl⟩,
      Option.some.injEq, Prod.mk.injEq] at here
    exact .inl ⟨rfl, here.1.symm⟩
  · obtain ⟨inside, braces, _⟩ := other.exists_inside
    rw [List.append_assoc, braces, List.cons_append, List.cons_append] at split
    obtain ⟨between, same, later⟩ := valid.ends_before split none
    exact .inr ⟨between, same, by rw [later, braces, List.append_assoc]; rfl⟩

end Site

theorem Text.SiteAt.apart {text : Text} {start later : Nat} {first second : Site}
    (left : text.SiteAt start first) (right : text.SiteAt later second) (order : start ≤ later) :
    start = later ∧ first = second ∨ start + first.source.byteSize ≤ later := by
  obtain ⟨valid, before, after, split, rfl⟩ := (Text.siteAt_iff _ _ _).mp left
  obtain ⟨other, front, back, same, rfl⟩ := (Text.siteAt_iff _ _ _).mp right
  obtain ⟨between, rfl⟩ : before <+: front := by
    rw [split, List.append_assoc, List.append_assoc] at same
    rcases List.append_eq_append_iff.mp same with ⟨between, reach, _⟩ | ⟨between, reach, _⟩
    · exact ⟨between, reach.symm⟩
    · rw [reach, Text.byteSize_append] at order
      have none : between = [] := Text.eq_nil_of_byteSize (by omega)
      rw [none, List.append_nil] at reach
      exact ⟨[], by rw [reach, List.append_nil]⟩
  rw [split] at same
  simp only [List.append_assoc, List.append_cancel_left_eq] at same
  rw [← List.append_assoc between] at same
  rcases valid.apart other same with ⟨rfl, rfl⟩ | ⟨gap, rfl, _⟩
  · exact .inl ⟨by simp, rfl⟩
  · refine .inr ?_
    simp only [Text.byteSize_append]
    omega

namespace Piece

def placesFrom (start : Nat) : List Piece → List (Nat × Site)
  | [] => []
  | .copied c :: pieces => placesFrom (start + c.utf8Size) pieces
  | .reference site :: pieces =>
      (start, site) :: placesFrom (start + site.source.byteSize) pieces

def shown (context : Context) : Piece → Text
  | .copied c => [c]
  | .reference site => site.shown context

theorem text_substitute (context : Context) (piece : Piece) :
    (piece.substitute context).text = piece.shown context := by
  cases piece with
  | copied c => rfl
  | reference site =>
      rw [Piece.substitute, shown, Site.shown]
      cases context.get? site.name with
      | none => rfl
      | some value => cases value <;> rfl

theorem shown_copied (context : Context) (text : Text) :
    (text.map copied).flatMap (shown context) = text := by
  rw [List.flatMap_map]
  exact List.flatMap_singleton' text

/-- The pieces of a text refer to what stands at each of its sites and to nothing else. -/
theorem mem_placesFrom_split_iff (start : Nat) (text : Text) (offset : Nat) (site : Site) :
    (offset, site) ∈ placesFrom start (split text) ↔ site.IsValid ∧
      ∃ before after, text = before ++ site.source ++ after ∧
        start + before.byteSize = offset := by
  induction size : text.length using Nat.strongRecOn generalizing start text with
  | ind count ih =>
      cases found : Site.read? text with
      | some result =>
          obtain ⟨first, rest⟩ := result
          have shorter : rest.length < count := size ▸ Site.length_lt_of_read? found
          obtain ⟨valid, rfl⟩ := (Site.read?_eq_some_iff _ _ _).mp found
          rw [split_of_site found, placesFrom, List.mem_cons, ih _ shorter _ rest rfl]
          constructor
          · rintro (same | ⟨other, before, after, rfl, rfl⟩)
            · cases same
              exact ⟨valid, [], rest, rfl, rfl⟩
            · refine ⟨other, first.source ++ before, after, by simp, ?_⟩
              rw [Text.byteSize_append, Nat.add_assoc]
          · rintro ⟨other, before, after, same, rfl⟩
            rcases valid.apart other same with ⟨rfl, rfl⟩ | ⟨between, rfl, later⟩
            · exact .inl rfl
            · refine .inr ⟨other, between, after, later, ?_⟩
              rw [Text.byteSize_append, Nat.add_assoc]
      | none =>
          have absent (after : Text) (valid : site.IsValid) : text ≠ site.source ++ after := by
            intro same
            rw [(Site.read?_eq_some_iff _ site after).mpr ⟨valid, same⟩] at found
            cases found
          cases text with
          | nil =>
              rw [split_nil]
              constructor
              · intro member
                cases member
              · rintro ⟨valid, before, after, same, _⟩
                obtain ⟨inside, braces, _⟩ := valid.exists_inside
                simp [braces] at same
          | cons c rest =>
              have shorter : rest.length < count := by simp [← size]
              rw [split_of_char found, placesFrom, ih _ shorter _ rest rfl]
              constructor
              · rintro ⟨valid, before, after, rfl, rfl⟩
                refine ⟨valid, c :: before, after, by simp, ?_⟩
                rw [Text.byteSize_cons, Nat.add_assoc]
              · rintro ⟨valid, before, after, same, rfl⟩
                cases before with
                | nil => exact absurd same (absent after valid)
                | cons d before =>
                    simp only [List.cons_append, List.cons.injEq] at same
                    obtain ⟨rfl, same⟩ := same
                    refine ⟨valid, before, after, same, ?_⟩
                    rw [Text.byteSize_cons, Nat.add_assoc]

theorem split_append_braces (front back : Text) :
    split (front ++ '{' :: '{' :: back) = split front ++ split ('{' :: '{' :: back) := by
  induction size : front.length using Nat.strongRecOn generalizing front with
  | ind count ih =>
      by_cases none : front = []
      · subst none
        simp
      · cases found : Site.read? (front ++ '{' :: '{' :: back) with
        | some result =>
            obtain ⟨site, rest⟩ := result
            obtain ⟨valid, same⟩ := (Site.read?_eq_some_iff _ _ _).mp found
            obtain ⟨between, rfl, rfl⟩ := valid.ends_before same.symm none
            have here : Site.read? (site.source ++ between) = some (site, between) :=
              (Site.read?_eq_some_iff _ _ _).mpr ⟨valid, rfl⟩
            have shorter : between.length < count := size ▸ Site.length_lt_of_read? here
            rw [split_of_site found, split_of_site here, ih _ shorter between rfl,
              List.cons_append]
        | none =>
            cases front with
            | nil => exact absurd rfl none
            | cons c front =>
                have missing : Site.read? (c :: front) = Option.none := by
                  cases here : Site.read? (c :: front) with
                  | none => rfl
                  | some result =>
                      rw [Site.read?_append here] at found
                      cases found
                have shorter : front.length < count := by simp [← size]
                rw [List.cons_append] at found ⊢
                rw [split_of_char found, split_of_char missing, ih _ shorter front rfl,
                  List.cons_append]

end Piece

theorem Site.read?_eq_none_of_first {c : Char} (rest : Text) (other : c ≠ '{') :
    read? (c :: rest) = none := by
  simp [read?, siteStart, Text.after?, Ne.symm other]

theorem Site.read?_eq_none_of_second {c d : Char} (rest : Text) (other : d ≠ '{') :
    read? (c :: d :: rest) = none := by
  simp [read?, siteStart, Text.after?, Ne.symm other]

namespace Piece

theorem split_append_of_no_brace {part : Text} (free : '{' ∉ part) (back : Text) :
    split (part ++ back) = part.map copied ++ split back := by
  induction part with
  | nil => simp
  | cons c part ih =>
      rw [List.mem_cons, not_or] at free
      rw [List.cons_append, split_of_char (Site.read?_eq_none_of_first _ (Ne.symm free.1)),
        ih free.2, List.map_cons, List.cons_append]

theorem split_braces_append {tail : Text} (free : '{' ∉ tail) (nonempty : tail ≠ [])
    {back : Text} (missing : Site.read? ('{' :: '{' :: tail ++ back) = none) :
    split ('{' :: '{' :: tail ++ back) = ('{' :: '{' :: tail).map copied ++ split back := by
  cases tail with
  | nil => exact absurd rfl nonempty
  | cons c tail =>
      have other : c ≠ '{' := by
        rintro rfl
        exact free List.mem_cons_self
      simp only [List.cons_append] at missing ⊢
      rw [split_of_char missing, split_of_char (Site.read?_eq_none_of_second _ other),
        ← List.cons_append, split_append_of_no_brace free]
      rfl

end Piece

theorem text_substitute_eq (text : Text) (context : Context) :
    (substitute text context).text = (Piece.split text).flatMap (Piece.shown context) := by
  rw [substitute, Output.concat, List.flatMap_map]
  exact List.flatMap_congr fun piece _ => Piece.text_substitute context piece

theorem referencedNames_eq (text : Text) (start : Nat) :
    referencedNames text =
      (Piece.placesFrom start (Piece.split text)).map fun place => place.2.name := by
  unfold referencedNames
  generalize Piece.split text = pieces
  induction pieces generalizing start with
  | nil => rfl
  | cons piece pieces ih =>
      cases piece with
      | copied c => exact ih _
      | reference site =>
          simp only [List.filterMap_cons, Piece.placesFrom, List.map_cons]
          rw [ih]

theorem text_substitute_of_no_reference {text : Text} (none : referencedNames text = [])
    (context : Context) : (substitute text context).text = text := by
  rw [text_substitute_eq]
  refine Eq.trans (List.flatMap_congr fun piece member => ?_) (Piece.sources_split text)
  cases piece with
  | copied c => rfl
  | reference site =>
      have named := (mem_referencedNames_iff text site.name).mpr ⟨site, member, rfl⟩
      rw [none] at named
      cases named

theorem text_substitute_eq_self_iff (text : Text) :
    (∀ context, (substitute text context).text = text) ↔ referencedNames text = [] := by
  constructor
  · intro unchanged
    rw [List.eq_nil_iff_forall_not_mem]
    intro name member
    have shorter := length_substitute_lt member .empty
    rw [unchanged, unchanged] at shorter
    omega
  · intro none context
    exact text_substitute_of_no_reference none context

namespace Text

theorem finishesSites_tagEnd (text : Text) : FinishesSites (text ++ tagEnd) := by
  rintro part last ⟨nonempty, site, more, valid, unfinished, split⟩
  obtain ⟨inside, braces, _⟩ := valid.exists_inside
  by_cases short : part.length < 2
  · obtain ⟨c, rfl⟩ := List.length_eq_one_iff.mp
      (show part.length = 1 by have := List.length_pos_iff.mpr nonempty; omega)
    rw [braces, List.singleton_append, List.cons.injEq] at split
    obtain ⟨front, same⟩ := last
    have ends := congrArg List.getLast? same
    simp [tagEnd, ← split.1] at ends
  · obtain ⟨front, rfl⟩ : tagEnd <:+ part :=
      List.suffix_of_suffix_length_le (List.suffix_append _ _) last (by simp [tagEnd]; omega)
    exact unfinished (valid.eq_nil_of_tagEnd split)

theorem referencedNames_of_endless {text : Text} (endless : ¬tagEnd <:+: text) :
    referencedNames text = [] := by
  rw [List.eq_nil_iff_forall_not_mem]
  intro name member
  rw [referencedNames_eq text 0, List.mem_map] at member
  obtain ⟨⟨offset, site⟩, placed, _⟩ := member
  obtain ⟨_, before, after, same, _⟩ := (Piece.mem_placesFrom_split_iff _ _ _ _).mp placed
  exact endless ⟨before ++ siteStart ++ site.before ++ site.name ++ site.after, after, by
    simp [same, Site.source]⟩

theorem isCopied_of_braces {tail : Text} (free : '{' ∉ tail) (nonempty : tail ≠ [])
    (missing : ∀ back, Site.read? ('{' :: '{' :: tail ++ back) = none) :
    IsCopied ('{' :: '{' :: tail) := by
  intro front back context
  rw [List.append_assoc, text_substitute_eq, List.cons_append, List.cons_append,
    Piece.split_append_braces, ← List.cons_append, ← List.cons_append,
    Piece.split_braces_append free nonempty (missing back), List.flatMap_append,
    List.flatMap_append, Piece.shown_copied, ← text_substitute_eq, ← text_substitute_eq,
    List.append_assoc]

theorem isCopied_reserved {before after : Text} (padded : before.IsPadding)
    (ended : after.IsPadding) :
    IsCopied ('{' :: '{' :: (before ++ ['e', 'l', 's', 'e'] ++ after ++ ['}', '}'])) := by
  have padding : ∀ text : Text, text.IsPadding → '{' ∉ text := by
    intro text all member
    have brace := all _ member
    revert brace
    decide
  apply isCopied_of_braces
  · simp only [List.mem_append, not_or]
    exact ⟨⟨⟨padding _ padded, by decide⟩, padding _ ended⟩, by decide⟩
  · simp
  · intro back
    have start : reservedName.head?.any isNameStart = true := by decide
    have named : reservedName.all isNameChar = true := by decide
    exact @Site.read?_source ⟨before, reservedName, after⟩ (isPadding_iff.mp padded) start named
      (isPadding_iff.mp ended) back

theorem isCopied_of_mem_tagLiterals {literal : Text} (member : literal ∈ tagLiterals) :
    literal.IsCopied := by
  simp only [tagLiterals, List.mem_cons, List.not_mem_nil, or_false] at member
  rcases member with rfl | rfl | rfl | rfl | rfl
  · exact isCopied_of_braces (by decide) (by decide) fun _ => rfl
  · exact isCopied_of_braces (by decide) (by decide) fun _ => rfl
  · have nothing : IsPadding [] := by simp [IsPadding]
    exact isCopied_reserved nothing nothing
  · exact isCopied_of_braces (by decide) (by decide) fun _ => rfl
  · exact isCopied_of_braces (by decide) (by decide) fun _ => rfl

theorem text_substitute_opening (kind : BlockKind) (written front back : Text)
    (context : Context) :
    (substitute (front ++ (Token.opening kind written).source ++ back) context).text =
      (substitute front context).text ++ kind.openingLiteral ++
        (substitute (written ++ tagEnd) context).text ++ (substitute back context).text := by
  have free : '{' ∉ '#' :: kind.word := by cases kind <;> decide
  have missing : ∀ rest, Site.read? ('{' :: '{' :: '#' :: kind.word ++ rest) = none := by
    intro rest
    cases kind <;> rfl
  have opened : ∀ rest, Piece.split (front ++ (kind.openingLiteral ++ rest)) =
      Piece.split front ++ (kind.openingLiteral.map Piece.copied ++ Piece.split rest) := by
    intro rest
    have braces : kind.openingLiteral = '{' :: '{' :: '#' :: kind.word := rfl
    rw [braces, ← Piece.split_braces_append free (by simp) (missing rest)]
    exact Piece.split_append_braces front _
  have ended := Piece.split_append (finishesSites_tagEnd written) back
  have whole : front ++ (Token.opening kind written).source ++ back =
      front ++ (kind.openingLiteral ++ (written ++ tagEnd ++ back)) := by
    simp [Token.source]
  rw [whole, text_substitute_eq, opened, ended]
  simp only [List.flatMap_append, Piece.shown_copied, ← text_substitute_eq, List.append_assoc]

theorem text_substitute_unterminated (kind : BlockKind) {remainder : Text}
    (endless : ¬tagEnd <:+: remainder) (front : Text) (context : Context) :
    (substitute (front ++ (Token.unterminated kind remainder).source) context).text =
      (substitute front context).text ++ (Token.unterminated kind remainder).source := by
  have none : referencedNames (Token.unterminated kind remainder).source = [] := by
    apply referencedNames_of_endless
    cases kind <;>
      simpa [Token.source, BlockKind.openingLiteral, BlockKind.word, tagEnd, List.infix_cons_iff]
        using endless
  have split := Piece.split_append_braces front
    ('#' :: (kind.word ++ remainder))
  have braces : (Token.unterminated kind remainder).source =
      '{' :: '{' :: '#' :: (kind.word ++ remainder) := rfl
  rw [braces] at none ⊢
  rw [text_substitute_eq, split, List.flatMap_append, ← text_substitute_eq, ← text_substitute_eq,
    text_substitute_of_no_reference none]

end Text

/-- What makes pieces the right ones of a text: they are cut at its sites and nowhere else. -/
structure Piece.CutAtSites (text : Text) (pieces : List Piece) : Prop where
  sources : pieces.flatMap source = text
  places : ∀ offset site, (offset, site) ∈ placesFrom 0 pieces ↔ text.SiteAt offset site
  apart : (placesFrom 0 pieces).Pairwise fun first second =>
    first.1 + first.2.source.byteSize ≤ second.1

namespace Piece

theorem le_of_mem_placesFrom {start : Nat} {pieces : List Piece} {place : Nat × Site}
    (member : place ∈ placesFrom start pieces) : start ≤ place.1 := by
  induction pieces generalizing start with
  | nil => cases member
  | cons piece pieces ih =>
      cases piece with
      | copied c =>
          have later := ih member
          omega
      | reference site =>
          rcases List.mem_cons.mp member with rfl | member
          · exact Nat.le_refl _
          · have later := ih member
            omega

theorem pairwise_placesFrom (start : Nat) (pieces : List Piece) :
    (placesFrom start pieces).Pairwise fun first second =>
      first.1 + first.2.source.byteSize ≤ second.1 := by
  induction pieces generalizing start with
  | nil => exact .nil
  | cons piece pieces ih =>
      cases piece with
      | copied c => exact ih _
      | reference site => exact .cons (fun _ member => le_of_mem_placesFrom member) (ih _)

theorem cutAtSites_split (text : Text) : CutAtSites text (split text) := by
  refine ⟨sources_split text, ?_, pairwise_placesFrom 0 _⟩
  intro offset site
  rw [mem_placesFrom_split_iff, Text.siteAt_iff]
  simp only [Nat.zero_add]

end Piece

/-- Substitution replaces the sites of a text, whatever is put in their places, and copies all
else. Tags are copied with it, except for the sites in the condition of an opening tag. -/
theorem substitute_replaces_sites (text : Text) :
    (∀ start later first second, text.SiteAt start first → text.SiteAt later second →
        start ≤ later → start = later ∧ first = second ∨ start + first.source.byteSize ≤ later) ∧
      (∃ pieces, Piece.CutAtSites text pieces ∧
        (∀ context, (substitute text context).text = pieces.flatMap (Piece.shown context)) ∧
          referencedNames text = (Piece.placesFrom 0 pieces).map fun place => place.2.name) ∧
      ((∀ context, (substitute text context).text = text) ↔ referencedNames text = []) ∧
      (∀ literal ∈ tagLiterals, literal.IsCopied) ∧
      (∀ before after : Text, before.IsPadding → after.IsPadding →
        Text.IsCopied ('{' :: '{' :: (before ++ ['e', 'l', 's', 'e'] ++ after ++ ['}', '}']))) ∧
      (∀ kind written front back context,
        (substitute (front ++ (Token.opening kind written).source ++ back) context).text =
          (substitute front context).text ++ kind.openingLiteral ++
            (substitute (written ++ tagEnd) context).text ++ (substitute back context).text) ∧
      (∀ kind remainder, ¬tagEnd <:+: remainder → ∀ front context,
        (substitute (front ++ (Token.unterminated kind remainder).source) context).text =
          (substitute front context).text ++ (Token.unterminated kind remainder).source) := by
  refine ⟨?_, ?_, text_substitute_eq_self_iff text, ?_, ?_, Text.text_substitute_opening, ?_⟩
  · intro start later first second left right order
    exact left.apart right order
  · refine ⟨Piece.split text, Piece.cutAtSites_split text, ?_, referencedNames_eq text 0⟩
    exact text_substitute_eq text
  · exact fun literal member => Text.isCopied_of_mem_tagLiterals member
  · exact fun before after padded ended => Text.isCopied_reserved padded ended
  · exact fun kind remainder endless => Text.text_substitute_unterminated kind endless

/-- An opening tag whose condition starts a site, which ends with the tag. -/
def siteInTag : Text := ['{', '{', '#', 'i', 'f', ' ', '{', '{', 'x', '}', '}']

def siteContext : Context := .ofList [(['x'], .string ['V', 'A', 'L', 'U', 'E'])]

theorem not_isCopied_siteInTag :
    Token.tokenize siteInTag = [.opening .ifTrue [' ', '{', '{', 'x']] ∧
      (substitute siteInTag siteContext).text =
        ['{', '{', '#', 'i', 'f', ' ', 'V', 'A', 'L', 'U', 'E'] ∧
      ¬siteInTag.IsCopied := by
  have lexed : Token.Lexed [.opening .ifTrue [' ', '{', '{', 'x']] := by
    refine (Token.lexed_cons_iff _ _).mpr ⟨show Text.Writable _ by decide, ?_, Token.lexed_nil⟩
    intro next member
    cases member
  have tokens := Token.tokenize_sources lexed
  have space : Site.read? [' ', '{', '{', 'x', '}', '}'] = none := by decide
  have site : Site.read? ['{', '{', 'x', '}', '}'] = some (⟨[], ['x'], []⟩, []) := by decide
  have pieces : Piece.split ([' ', '{', '{', 'x'] ++ tagEnd) =
      [.copied ' ', .reference ⟨[], ['x'], []⟩] := by
    refine (Piece.split_of_char space).trans ?_
    rw [Piece.split_of_site site, Piece.split_nil]
  have nothing : (substitute [] siteContext).text = [] := by simp [text_substitute_eq]
  have replaced := Text.text_substitute_opening .ifTrue [' ', '{', '{', 'x'] [] [] siteContext
  rw [text_substitute_eq (_ ++ tagEnd), pieces, nothing] at replaced
  refine ⟨tokens, replaced, fun copied => ?_⟩
  have kept := copied [] [] siteContext
  rw [nothing] at kept
  have same := replaced.symm.trans kept
  revert same
  decide

end MailTemplate
