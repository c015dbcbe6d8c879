import MailTemplate.Substitution
import MailTemplate.Template.Parse

/-!
Rendering a template: the blocks are resolved against a context, and then the variables of the
result are substituted. Also the names of the variables that a template refers to.
-/

namespace MailTemplate

namespace BlockHead

def expansionEvents (head : BlockHead) (selected : Bool) : List Event :=
  let expanded := Event.blockExpanded head.kind head.condition selected
  match head.test with
  | .ok _ => [expanded]
  | .error reason =>
      [.conditionInvalid head.condition reason (some head.position.start), expanded]

def names (head : BlockHead) : List Text :=
  match head.test with
  | .ok condition => [condition.name]
  | .error _ => []

end BlockHead

namespace Tree

/-- Resolves every block. Variables are left in place. -/
def expand (context : Context) : Tree → Output
  | .empty => .empty
  | .literal content next => .ofText content ++ next.expand context
  | .block head consequent next =>
      if head.isSatisfied context then
        .ofEvents (head.expansionEvents true) ++ consequent.expand context ++ next.expand context
      else .ofEvents (head.expansionEvents false) ++ next.expand context
  | .choice head consequent alternative next =>
      .ofEvents (head.expansionEvents true) ++
        (if head.isSatisfied context then consequent.expand context
          else alternative.expand context) ++
        next.expand context

def names : Tree → List Text
  | .empty => []
  | .literal content next => referencedNames content ++ next.names
  | .block head consequent next => head.names ++ consequent.names ++ next.names
  | .choice head consequent alternative next =>
      head.names ++ consequent.names ++ alternative.names ++ next.names

end Tree

namespace Template

def expandLogged (template : Template) (context : Context) : Output :=
  template.tree.expand context

def expand (template : Template) (context : Context) : Text :=
  (template.expandLogged context).text

def renderLogged (template : Template) (context : Context) : Output :=
  let expanded := template.expandLogged context
  .ofEvents expanded.events ++ substitute expanded.text context

def render (template : Template) (context : Context) : Text :=
  (template.renderLogged context).text

def variableNames (template : Template) : List Text :=
  sortNames template.tree.names

def missingVariables (template : Template) (context : Context) : List Text :=
  template.variableNames.filter fun name => !context.contains name

end Template

end MailTemplate
