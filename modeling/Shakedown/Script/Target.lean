import Shakedown.Script.Node

/-!
# Assignment targets

The left side of an assignment reads like an expression. This module turns such an expression into
the pattern that it is, if it is one.
-/

namespace Shakedown
namespace Node

/-- The target of an assignment that takes a single value: a name or a member, whose parentheses
do not count. -/
def simpleTarget? : Node → Option Node
  | mk .parenthesized _ [inner] => inner.simpleTarget?
  | mk kind span children =>
      match kind with
      | .reference _ => some (mk kind span children)
      | .member _ _ => some (mk kind span children)
      | .privateMember _ _ => some (mk kind span children)
      | .index _ => some (mk kind span children)
      | _ => none

/-- Whether a node of a list other than the last is a rest pattern. -/
def hasEarlyRest : List Node → Bool
  | [] => false
  | [_] => false
  | mk .rest _ _ :: _ :: _ => true
  | _ :: second :: others => hasEarlyRest (second :: others)

/-- A pattern of several parts, in which only the last may be a rest. -/
def patternOf? (kind : NodeKind) (span : Span) (parts : Option (List Node)) : Option Node :=
  parts.bind fun parts => if hasEarlyRest parts then none else some (mk kind span parts)

mutual

/-- The target of an assignment. -/
def target? : Node → Option Node
  | mk .array span elements => patternOf? .arrayPattern span (elementTargets? elements)
  | mk .object span members => patternOf? .objectPattern span (memberTargets? members)
  | mk .arrayPattern span elements => some (mk .arrayPattern span elements)
  | mk .objectPattern span members => some (mk .objectPattern span members)
  | node => node.simpleTarget?

/-- The target that an element of a literal stands for. -/
def elementTarget? : Node → Option Node
  | mk .hole span children => some (mk .hole span children)
  | mk (.assignment "=") span [target, standard] => some (mk .withDefault span [target, standard])
  | mk .spread span [inner] => (target? inner).map fun target => mk .rest span [target]
  | mk .array span elements => patternOf? .arrayPattern span (elementTargets? elements)
  | mk .object span members => patternOf? .objectPattern span (memberTargets? members)
  | mk .arrayPattern span elements => some (mk .arrayPattern span elements)
  | mk .objectPattern span members => some (mk .objectPattern span members)
  | node => node.simpleTarget?

/-- The targets that the elements of an array stand for. -/
def elementTargets? : List Node → Option (List Node)
  | [] => some []
  | node :: rest =>
      match elementTarget? node, elementTargets? rest with
      | some target, some targets => some (target :: targets)
      | _, _ => none

/-- The target that a member of an object stands for. -/
def memberTarget? : Node → Option Node
  | mk (.property .value isComputed) span [key, value] =>
      (elementTarget? value).map fun target =>
        mk (.patternProperty .value isComputed) span [key, target]
  | mk (.property .shorthand isComputed) span children =>
      some (mk (.patternProperty .shorthand isComputed) span children)
  | mk .shorthandDefault span [key, name, standard] =>
      some (mk (.patternProperty .shorthand false) span
        [key, mk .withDefault span [name, standard]])
  | mk .spread span [inner] => inner.simpleTarget?.map fun target => mk .rest span [target]
  | _ => none

/-- The targets that the members of an object stand for. -/
def memberTargets? : List Node → Option (List Node)
  | [] => some []
  | node :: rest =>
      match memberTarget? node, memberTargets? rest with
      | some target, some targets => some (target :: targets)
      | _, _ => none

end

end Node
end Shakedown
