import DocTree.Docs.Config
import DocTree.Docs.Event
import DocTree.Node.Basic
import DocTree.Text.Replace

/-!
# Callouts

A blockquote with a property map and a paragraph is a callout: it gets a class in addition to
those it has, and another for every marker at the beginning of the paragraph's text.  The markers
are taken off the text, each at most once and in a fixed order.

The first paragraph decides, and in it the first text.  A paragraph without text is passed over,
or is an error in strict mode; then nothing is changed.
-/

namespace DocTree.Docs

/-- A callout paragraph has no text to take markers from. -/
structure MissingLeadText where
  /-- The paragraph's index in the blockquote. -/
  paragraph : Nat
  deriving DecidableEq

/-- The markers and the classes that they stand for, in the order in which they are looked for. -/
def markerClasses : List (String × String) := [("(warn)", "bq-warn"), ("(red)", "bq-red")]

/-- The index of the paragraph that a callout's markers are read from. -/
def calloutParagraph? (e : Element) : Option Nat :=
  if e.tag = "blockquote" ∧ e.properties.isSome then
    e.children.findIdx? (·.hasTag "p")
  else none

/-- The first text among nodes. -/
def leadText? (nodes : List Node) : Option String := nodes.findSome? Node.text?

/-- Replaces the first text among nodes. -/
def setLeadText (value : String) : List Node → List Node
  | [] => []
  | .text _ extra :: rest => .text value extra :: rest
  | node :: rest => node :: setLeadText value rest

/-- Applies a function to the content of an element; other nodes stay. -/
def mapContent (f : List Node → List Node) : Node → Node
  | .element tag properties children extra => .element tag properties (f children) extra
  | node => node

/-- Takes a marker off a text that begins with it: its first occurrence is replaced by nothing. -/
def dropMarker? (marker text : String) : Option String :=
  if marker.toList.isPrefixOf text.toList then
    some (String.ofList (Text.replaceFirst marker.toList [] text.toList))
  else none

/-- Takes markers off a text: the classes of those that were there, and the text that is left. -/
def takeMarkers : List (String × String) → String → List String × String
  | [], text => ([], text)
  | (marker, class_) :: markers, text =>
    match dropMarker? marker text with
    | none => takeMarkers markers text
    | some text =>
      let (classes, text) := takeMarkers markers text
      (class_ :: classes, text)

/-- The classes that an element has: the text of its `class`, split at every space; absent and null
are no class. -/
def classNames : Option PropertyValue → List String
  | none | some .null => []
  | some value => (value.text.toList.splitOn ' ').map String.ofList

/-- Makes a callout of a blockquote that is one.  An error or a rule that does not apply leaves the
element as it is. -/
def markCallout (config : Config) (e : Element) : Except MissingLeadText (Edit Element) :=
  match calloutParagraph? e with
  | none => .ok (.unchanged e)
  | some paragraph =>
    match (e.children[paragraph]?.bind Node.element?).bind (leadText? ·.children) with
    | none =>
      if config.strictCallouts then .error ⟨paragraph⟩
      else .ok { value := e, count := 0, events := [.skippedCallout paragraph] }
    | some text =>
      let (marked, text) := takeMarkers markerClasses text
      let classes := classNames (e.property? "class") ++ config.calloutBaseClass :: marked
      let class_ := String.intercalate " " classes
      let content := e.children.modify paragraph (mapContent (setLeadText text))
      .ok
        { value := { e with children := content }.insertProperty "class" (.string class_)
          count := 1
          events := [.styledCallout class_] }

end DocTree.Docs
