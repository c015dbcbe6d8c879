import MailTemplate.Markup.Block

/-!
Balanced token lists: each opening tag has its closing tag, whatever the kinds of the two. Looking
for the end of a block, or for the divider of one, passes over them.
-/

namespace MailTemplate

namespace Token

inductive Balanced : List Token → Prop
  | nil : Balanced []
  | text {content tokens} : Balanced tokens → Balanced (.text content :: tokens)
  | divider {tokens} : Balanced tokens → Balanced (.divider :: tokens)
  | block {kind written content closer tokens} : Balanced content → Balanced tokens →
      Balanced (.opening kind written :: content ++ .closing closer :: tokens)

/-- Balanced tokens whose dividers all stand inside of blocks. -/
inductive Undivided : List Token → Prop
  | nil : Undivided []
  | text {content tokens} : Undivided tokens → Undivided (.text content :: tokens)
  | block {kind written content closer tokens} : Balanced content → Undivided tokens →
      Undivided (.opening kind written :: content ++ .closing closer :: tokens)

theorem Undivided.balanced {tokens : List Token} (undivided : Undivided tokens) :
    Balanced tokens := by
  induction undivided with
  | nil => exact .nil
  | text _ ih => exact .text ih
  | block inside _ ih => exact .block inside ih

theorem Balanced.append {first second : List Token} (balanced : Balanced first)
    (later : Balanced second) : Balanced (first ++ second) := by
  induction balanced with
  | nil => exact later
  | text _ ih => exact .text ih
  | divider _ ih => exact .divider ih
  | block inside _ _ ih =>
      rw [List.append_assoc, List.cons_append]
      exact .block inside ih

end Token

namespace Body

def prepend (tokens : List Token) (body : Body) : Body :=
  { body with content := tokens ++ body.content }

@[simp] theorem prepend_nil (body : Body) : prepend [] body = body := rfl

@[simp] theorem push_prepend (token : Token) (tokens : List Token) (body : Body) :
    push token (prepend tokens body) = prepend (token :: tokens) body := rfl

@[simp] theorem prepend_prepend (first second : List Token) (body : Body) :
    prepend first (prepend second body) = prepend (first ++ second) body := by
  simp [prepend]

theorem read?_balanced_append {content : List Token} (balanced : Token.Balanced content)
    (depth : Nat) (rest : List Token) :
    read? depth (content ++ rest) = (read? depth rest).map (prepend content) := by
  induction balanced generalizing depth rest with
  | nil => cases same : read? depth rest <;> simp [same]
  | text _ ih => simp [read?, ih, Option.map_map, Function.comp_def]
  | divider _ ih => simp [read?, ih, Option.map_map, Function.comp_def]
  | block _ _ inside later =>
      rw [List.append_assoc, List.cons_append, List.cons_append]
      simp [read?, inside, later, Option.map_map, Function.comp_def]

theorem read?_balanced_closing {content : List Token} (balanced : Token.Balanced content)
    (closer : BlockKind) (rest : List Token) :
    read? 0 (content ++ .closing closer :: rest) = some ⟨content, closer, rest⟩ := by
  simp [read?_balanced_append balanced, read?, prepend]

end Body

namespace Branches

def prepend (tokens : List Token) (branches : Branches) : Branches :=
  { branches with consequent := tokens ++ branches.consequent }

theorem split_balanced_append {content : List Token} (balanced : Token.Balanced content)
    (depth : Nat) (rest : List Token) :
    split (depth + 1) (content ++ rest) = (split (depth + 1) rest).prepend content := by
  induction balanced generalizing depth rest with
  | nil => rfl
  | text _ ih => simp [split, ih, push, prepend]
  | divider _ ih => simp [split, ih, push, prepend]
  | block _ _ inside later =>
      rw [List.append_assoc, List.cons_append, List.cons_append]
      simp [split, inside, later, push, prepend]

theorem split_undivided_append {content : List Token} (undivided : Token.Undivided content)
    (rest : List Token) :
    split 0 (content ++ rest) = (split 0 rest).prepend content := by
  induction undivided with
  | nil => rfl
  | text _ ih => simp [split, ih, push, prepend]
  | block inside _ later =>
      rw [List.append_assoc, List.cons_append, List.cons_append]
      simp [split, split_balanced_append inside, later, push, prepend]

theorem split_undivided {content : List Token} (undivided : Token.Undivided content) :
    split 0 content = ⟨content, none⟩ := by
  have parts := split_undivided_append undivided []
  simpa [split, prepend] using parts

theorem split_undivided_divider {first : List Token} (undivided : Token.Undivided first)
    (second : List Token) :
    split 0 (first ++ .divider :: second) = ⟨first, some second⟩ := by
  simp [split_undivided_append undivided, split, prepend]

end Branches

namespace Scan

theorem ofTokens_balanced {content : List Token} (balanced : Token.Balanced content)
    (options : Options) (kind closer : BlockKind) (written : Text) (rest : List Token) :
    ofTokens options (.opening kind written :: content ++ .closing closer :: rest) =
      ofBody options kind written ⟨content, closer, rest⟩ := by
  simp [ofTokens, Body.read?_balanced_closing balanced]

theorem ofTokens_matched {content : List Token} (balanced : Token.Balanced content)
    (options : Options) (kind : BlockKind) (written : Text) (rest : List Token) :
    ofTokens options (.opening kind written :: content ++ .closing kind :: rest) =
      .block [] ⟨kind, written, .split 0 content, kind⟩ rest := by
  rw [ofTokens_balanced balanced]
  simp [ofBody]

theorem ofTokens_undivided {content : List Token} (undivided : Token.Undivided content)
    (options : Options) (kind : BlockKind) (written : Text) (rest : List Token) :
    ofTokens options (.opening kind written :: content ++ .closing kind :: rest) =
      .block [] ⟨kind, written, ⟨content, none⟩, kind⟩ rest := by
  rw [ofTokens_matched undivided.balanced, Branches.split_undivided undivided]

theorem ofTokens_divided {first second : List Token} (front : Token.Undivided first)
    (back : Token.Balanced second) (options : Options) (kind : BlockKind) (written : Text)
    (rest : List Token) :
    ofTokens options
        (.opening kind written :: (first ++ .divider :: second) ++ .closing kind :: rest) =
      .block [] ⟨kind, written, ⟨first, some second⟩, kind⟩ rest := by
  rw [ofTokens_matched (front.balanced.append (.divider back)),
    Branches.split_undivided_divider front]

end Scan

end MailTemplate
