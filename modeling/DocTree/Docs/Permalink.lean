import DocTree.Docs.Config
import DocTree.Docs.Event
import DocTree.Node.Basic

/-!
# Permalinks

A heading of the first five ranks that has an identifier gets a fixed class and, as its last
content, an anchor that links to the heading itself.  Identifiers are given elsewhere; a heading
without one is not a match, and neither is `h6`.
-/

namespace DocTree.Docs

/-- The tags of the headings that get a permalink. -/
def permalinkTags : List String := ["h1", "h2", "h3", "h4", "h5"]

/-- The identifier of a heading that gets a permalink: the text of its `id`, which has to count as
present. -/
def permalinkId? (e : Element) : Option String := do
  guard (e.tag ∈ permalinkTags)
  let id ← e.property? "id"
  guard id.isPresent
  return id.text

/-- The anchor that links to an identifier. -/
def permalinkAnchor (config : Config) (id : String) : Node :=
  let anchor := (Element.ofTag "a" (by decide))
    |>.insertProperty "href" (.string ("#" ++ id))
    |>.insertProperty "class" (.string config.permalinkClass)
    |>.insertProperty "aria-label" (.string config.permalinkLabel)
  (anchor.append [.ofText config.permalinkText]).toNode

/-- Gives a heading with an identifier its class and its permalink. -/
def linkHeading (config : Config) (e : Element) : Edit Element :=
  match permalinkId? e with
  | none => .unchanged e
  | some id =>
    { value :=
        (e.insertProperty "class" (.string config.headingClass)).append [permalinkAnchor config id]
      count := 1
      events := [.addedPermalink e.tag id] }

end DocTree.Docs
