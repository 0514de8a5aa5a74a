import DocTree.Node.Basic

/-!
# Visiting walk

A walk that reads a tree depth first, every node before its content.  Only roots and elements are
gone into; texts and nodes of other kinds are leaves, whatever they hold.

A `Visitor` acts in a monad, which carries its state and its early end.  At a root or an element
it is handed the walk over the content, so it decides whether and when the content is walked.
-/

namespace DocTree

/-- What is done at the nodes of a tree. -/
structure Visitor (m : Type → Type) where
  /-- Before any node. -/
  enter : Node → m Unit
  /-- At a root, with the walk over its content. -/
  root : Root → m Unit → m Unit
  /-- At an element, with the walk over its content. -/
  element : Element → m Unit → m Unit
  /-- At a text. -/
  text : TextNode → m Unit
  /-- At a node of another kind. -/
  other : OtherNode → m Unit

namespace Visitor

variable {m : Type → Type} [Monad m]

/-- The visitor that goes everywhere and does nothing. -/
def passive : Visitor m where
  enter _ := pure ()
  root _ content := content
  element _ content := content
  text _ := pure ()
  other _ := pure ()

mutual

/-- Walks a node. -/
def visit (v : Visitor m) : Node → m Unit
  | .root children extra => do
    v.enter (.root children extra)
    v.root ⟨children, extra⟩ (visitAll v children)
  | .element tag properties children extra => do
    v.enter (.element tag properties children extra)
    v.element ⟨tag, properties, children, extra⟩ (visitAll v children)
  | .text value extra => do
    v.enter (.text value extra)
    v.text ⟨value, extra⟩
  | .other kind value children extra => do
    v.enter (.other kind value children extra)
    v.other ⟨kind, value, children, extra⟩

/-- Walks nodes in order. -/
def visitAll (v : Visitor m) : List Node → m Unit
  | [] => pure ()
  | node :: rest => do
    visit v node
    visitAll v rest

end

/-- Walks a tree from its root, which is visited but not entered. -/
def visitTree (v : Visitor m) (r : Root) : m Unit := v.root r (v.visitAll r.children)

end Visitor

end DocTree
