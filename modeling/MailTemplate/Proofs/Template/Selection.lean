import MailTemplate.Template.Expand

/-!
The literals that make up an expanded template. Which of them are selected is decided by the
variables of the conditions alone.
-/

namespace MailTemplate

namespace Tree

@[simp] theorem text_expand_withText (context : Context) (content : Text) (next : Tree) :
    ((withText content next).expand context).text = content ++ (next.expand context).text := by
  unfold withText
  split
  · rename_i none
    rw [List.isEmpty_iff.mp none, List.nil_append]
  · rfl

theorem text_expand_ofText (context : Context) (content : Text) :
    ((ofText content).expand context).text = content := by
  rw [ofText, text_expand_withText]
  exact List.append_nil content

theorem text_expand_literal (context : Context) (content : Text) (next : Tree) :
    ((literal content next).expand context).text = content ++ (next.expand context).text := rfl

theorem text_expand_block (context : Context) (head : BlockHead) (consequent next : Tree) :
    ((block head consequent next).expand context).text =
      (if head.isSatisfied context then (consequent.expand context).text else []) ++
        (next.expand context).text := by
  rw [expand]
  split <;> rfl

theorem text_expand_choice (context : Context) (head : BlockHead)
    (consequent alternative next : Tree) :
    ((choice head consequent alternative next).expand context).text =
      (if head.isSatisfied context then (consequent.expand context).text
        else (alternative.expand context).text) ++ (next.expand context).text := by
  rw [expand]
  split <;> rfl

def selected (context : Context) : Tree → List Text
  | .empty => []
  | .literal content next => content :: next.selected context
  | .block head consequent next =>
      (if head.isSatisfied context then consequent.selected context else []) ++
        next.selected context
  | .choice head consequent alternative next =>
      (if head.isSatisfied context then consequent.selected context
        else alternative.selected context) ++ next.selected context

def literals : Tree → List Text
  | .empty => []
  | .literal content next => content :: next.literals
  | .block _ consequent next => consequent.literals ++ next.literals
  | .choice _ consequent alternative next =>
      consequent.literals ++ alternative.literals ++ next.literals

theorem text_expand_eq_flatten (context : Context) (tree : Tree) :
    (tree.expand context).text = (tree.selected context).flatten := by
  induction tree with
  | empty => rfl
  | literal content next ih =>
      rw [selected, List.flatten_cons, ← ih]
      rfl
  | block head consequent next inside later =>
      rw [text_expand_block, inside, later, selected, List.flatten_append]
      split <;> rfl
  | choice head consequent alternative next inside otherwise later =>
      rw [text_expand_choice, inside, otherwise, later, selected, List.flatten_append]
      split <;> rfl

theorem selected_subset_literals (context : Context) (tree : Tree) :
    tree.selected context ⊆ tree.literals := by
  induction tree with
  | empty => exact List.Subset.refl _
  | literal content next ih => exact List.cons_subset_cons content ih
  | block head consequent next inside later =>
      intro content member
      rw [selected, List.mem_append] at member
      rw [literals, List.mem_append]
      refine member.imp ?_ (fun after => later after)
      intro member
      split at member
      · exact inside member
      · cases member
  | choice head consequent alternative next inside otherwise later =>
      intro content member
      rw [selected, List.mem_append] at member
      rw [literals, List.mem_append, List.mem_append]
      refine member.imp ?_ (fun after => later after)
      intro member
      split at member
      · exact .inl (inside member)
      · exact .inr (otherwise member)

theorem referencedNames_subset_names {tree : Tree} {content : Text}
    (member : content ∈ tree.literals) : referencedNames content ⊆ tree.names := by
  induction tree with
  | empty => cases member
  | literal first next ih =>
      rcases List.mem_cons.mp member with rfl | later
      · exact List.subset_append_left _ _
      · exact List.subset_append_of_subset_right _ (ih later)
  | block head consequent next inside later =>
      rcases List.mem_append.mp member with first | rest
      · exact List.subset_append_of_subset_left _ (List.subset_append_of_subset_right _ (inside first))
      · exact List.subset_append_of_subset_right _ (later rest)
  | choice head consequent alternative next inside otherwise later =>
      rw [literals, List.mem_append, List.mem_append] at member
      rw [names]
      intro name referenced
      simp only [List.mem_append]
      rcases member with (first | second) | rest
      · exact .inl (.inl (.inr (inside first referenced)))
      · exact .inl (.inr (otherwise second referenced))
      · exact .inr (later rest referenced)

end Tree

theorem Template.expand_eq_flatten (template : Template) (context : Context) :
    template.expand context = (template.tree.selected context).flatten :=
  template.tree.text_expand_eq_flatten context

theorem Condition.holds_congr {condition : Condition} {first second : Context}
    (agree : first.lookup condition.name = second.lookup condition.name) :
    condition.holds first = condition.holds second := by
  cases condition with
  | truthy name =>
      have same : first.lookup name = second.lookup name := agree
      rw [holds, holds, same]
  | compared sign name literal =>
      have same : first.lookup name = second.lookup name := agree
      rw [holds, holds, same]

theorem BlockHead.isSatisfied_congr {head : BlockHead} {first second : Context}
    (agree : ∀ name ∈ head.names, first.lookup name = second.lookup name) :
    head.isSatisfied first = head.isSatisfied second := by
  have same : Condition.textHolds head.condition first =
      Condition.textHolds head.condition second := by
    unfold names test at agree
    unfold Condition.textHolds
    cases parsed : Condition.parse head.condition with
    | error reason => rfl
    | ok condition =>
        rw [parsed] at agree
        exact Condition.holds_congr (agree condition.name (by simp))
  rw [isSatisfied, isSatisfied, same]

theorem Tree.selected_congr {tree : Tree} {first second : Context}
    (agree : ∀ name ∈ tree.names, first.lookup name = second.lookup name) :
    tree.selected first = tree.selected second := by
  induction tree with
  | empty => rfl
  | literal content next ih =>
      rw [names, List.forall_mem_append] at agree
      rw [selected, selected, ih agree.2]
  | block head consequent next inside later =>
      rw [names, List.forall_mem_append, List.forall_mem_append] at agree
      rw [selected, selected, BlockHead.isSatisfied_congr agree.1.1, inside agree.1.2,
        later agree.2]
  | choice head consequent alternative next inside otherwise later =>
      rw [names, List.forall_mem_append, List.forall_mem_append, List.forall_mem_append] at agree
      rw [selected, selected, BlockHead.isSatisfied_congr agree.1.1.1, inside agree.1.1.2,
        otherwise agree.1.2, later agree.2]

end MailTemplate
