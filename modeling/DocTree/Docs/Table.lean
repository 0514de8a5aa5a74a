import DocTree.Docs.Config
import DocTree.Docs.Event
import DocTree.Node.Basic

/-!
# Table containers

A table directly under a root gets a container, so that it can be scrolled apart from the page.  The
container takes the table's place and has the table as its only content; tables anywhere else stay.
-/

namespace DocTree.Docs

/-- Whether the node is a table. -/
def isTable (node : Node) : Bool := node.hasTag "table"

/-- Only the tag counts: a table may have any properties and any content. -/
theorem isTable_iff {node : Node} :
    isTable node = true ↔
      ∃ properties children extra, node = .element "table" properties children extra :=
  Node.hasTag_iff

/-- The container of a table. -/
def tableContainer (config : Config) (table : Node) : Node :=
  let container := Element.ofTag "div" (by decide)
  ((container.insertProperty "class" (.string config.tableWrapperClass)).append [table]).toNode

/-- The positions of the tables among nodes. -/
def tablePositions (nodes : List Node) : List Nat :=
  (nodes.zipIdx.filter fun (node, _) => isTable node).map (·.2)

/-- Puts every table directly under the root into a container, and counts them. -/
def containTables (config : Config) (r : Root) : Edit Root :=
  let positions := tablePositions r.children
  { value :=
      { r with children := r.children.map fun node =>
          if isTable node then tableContainer config node else node }
    count := positions.length
    events := positions.map .wrappedTable }

end DocTree.Docs
