import MailTemplate.Markup.Block

/-!
What looking for a block finds, said about the whole list of tokens at once. Nothing before the
first opening tag matters, and from there on the end of the body decides.
-/

namespace MailTemplate

namespace Scan

def OpensBlock : Token → Prop
  | .opening _ _ | .unterminated _ _ => True
  | .text _ | .divider | .closing _ => False

inductive Finds (options : Options) : List Token → Scan → Prop
  | literal {tokens} (flat : ∀ token ∈ tokens, ¬OpensBlock token) :
      Finds options tokens .literal
  | unterminated {before kind remainder rest} (flat : ∀ token ∈ before, ¬OpensBlock token) :
      Finds options (before ++ .unterminated kind remainder :: rest)
        (.malformed before (.unterminatedTag kind))
  | unclosed {before kind written rest} (flat : ∀ token ∈ before, ¬OpensBlock token)
      (endless : Body.read? 0 rest = none) :
      Finds options (before ++ .opening kind written :: rest)
        (.malformed before (.unclosed kind written))
  | refused {before kind written rest body} (flat : ∀ token ∈ before, ¬OpensBlock token)
      (read : Body.read? 0 rest = some body) (strict : options.strictClosers = true)
      (other : kind ≠ body.closer) :
      Finds options (before ++ .opening kind written :: rest)
        (.malformed before (.mismatchedClose kind written body.content body.closer))
  | block {before kind written rest body} (flat : ∀ token ∈ before, ¬OpensBlock token)
      (read : Body.read? 0 rest = some body)
      (accepted : options.strictClosers = true → kind = body.closer) :
      Finds options (before ++ .opening kind written :: rest)
        (.block before ⟨kind, written, .split 0 body.content, body.closer⟩ body.rest)

theorem Finds.push {options : Options} {tokens : List Token} {scan : Scan} {token : Token}
    (finds : Finds options tokens scan) (plain : ¬OpensBlock token) :
    Finds options (token :: tokens) (scan.push token) := by
  cases finds with
  | literal flat => exact .literal (List.forall_mem_cons.mpr ⟨plain, flat⟩)
  | unterminated flat => exact .unterminated (List.forall_mem_cons.mpr ⟨plain, flat⟩)
  | unclosed flat endless => exact .unclosed (List.forall_mem_cons.mpr ⟨plain, flat⟩) endless
  | refused flat read strict other =>
      exact .refused (List.forall_mem_cons.mpr ⟨plain, flat⟩) read strict other
  | block flat read accepted =>
      exact .block (List.forall_mem_cons.mpr ⟨plain, flat⟩) read accepted

theorem finds_ofTokens (options : Options) (tokens : List Token) :
    Finds options tokens (ofTokens options tokens) := by
  have none : ∀ token ∈ ([] : List Token), ¬OpensBlock token := by simp
  induction tokens with
  | nil => exact .literal none
  | cons token tokens ih =>
      cases token with
      | text content => exact ih.push id
      | divider => exact ih.push id
      | closing kind => exact ih.push id
      | unterminated kind remainder =>
          change Finds options ([] ++ .unterminated kind remainder :: tokens) _
          exact .unterminated none
      | opening kind written =>
          change Finds options ([] ++ .opening kind written :: tokens) _
          simp only [ofTokens]
          split
          · rename_i body read
            unfold ofBody
            split
            · rename_i refused
              exact .refused none read refused.1 refused.2
            · rename_i accepted
              apply Finds.block none read
              intro strict
              by_cases same : kind = body.closer
              · exact same
              · exact absurd ⟨strict, same⟩ accepted
          · rename_i endless
            exact .unclosed none endless

theorem finds_of_eq {options : Options} {tokens : List Token} {scan : Scan}
    (scanned : ofTokens options tokens = scan) : Finds options tokens scan :=
  scanned ▸ finds_ofTokens options tokens

theorem flat_of_literal {options : Options} {tokens : List Token}
    (scanned : ofTokens options tokens = .literal) : ∀ token ∈ tokens, ¬OpensBlock token := by
  cases finds_of_eq scanned with
  | literal flat => exact flat

theorem flat_of_block {options : Options} {tokens before rest : List Token} {found : FoundBlock}
    (scanned : ofTokens options tokens = .block before found rest) :
    ∀ token ∈ before, ¬OpensBlock token := by
  cases finds_of_eq scanned with
  | block flat _ _ => exact flat

theorem prefix_of_malformed {options : Options} {tokens before : List Token} {reason : Malformed}
    (scanned : ofTokens options tokens = .malformed before reason) : before <+: tokens := by
  cases finds_of_eq scanned with
  | unterminated _ => exact List.prefix_append _ _
  | unclosed _ _ => exact List.prefix_append _ _
  | refused _ _ _ _ => exact List.prefix_append _ _

theorem closer_of_block {options : Options} {tokens before rest : List Token}
    {found : FoundBlock} (scanned : ofTokens options tokens = .block before found rest)
    (strict : options.strictClosers = true) : found.kind = found.closer := by
  cases finds_of_eq scanned with
  | block _ _ accepted => exact accepted strict

end Scan

end MailTemplate
