/-!
# Events

What a run of the rules reports: an event for every change and for every callout that is
passed over, and a summary at the end.
-/

namespace DocTree.Docs

/-- The numbers of headings, callouts and tables that were changed. -/
structure Tally where
  headings : Nat
  callouts : Nat
  tables : Nat
  deriving DecidableEq, Inhabited

/-- The name under which a run reports. -/
def reporterName : String := "docs"

/-- Something that a run of the rules reports. -/
inductive Event where
  /-- The table at a position under a root got its container. -/
  | wrappedTable (position : Nat)
  /-- A callout got its class. -/
  | styledCallout (class_ : String)
  /-- A callout paragraph, given by its index in the blockquote, has no text. -/
  | skippedCallout (paragraph : Nat)
  /-- A heading got its permalink. -/
  | addedPermalink (tag id : String)
  /-- The rules came to the end of the tree. -/
  | finished (tally : Tally)
  deriving DecidableEq

/-- How much an event matters. -/
inductive Event.Level where
  | trace
  | debug
  deriving DecidableEq

/-- The name of a level. -/
def Event.Level.name : Level → String
  | trace => "trace"
  | debug => "debug"

/-- The value of a field of an event. -/
inductive Event.Datum where
  | count (n : Nat)
  | text (s : String)
  deriving DecidableEq

namespace Event

/-- The level of an event: single changes are details. -/
def level : Event → Level
  | wrappedTable _ | styledCallout _ | addedPermalink .. => .trace
  | skippedCallout _ | finished _ => .debug

/-- The words of an event. -/
def message : Event → String
  | wrappedTable _ => "Wrapped table"
  | styledCallout _ => "Styled callout"
  | skippedCallout _ => "Skipping callout without leading text"
  | addedPermalink .. => "Added heading permalink"
  | finished _ => "Transformed document tree"

/-- The fields of an event, by name. -/
def fields : Event → List (String × Datum)
  | wrappedTable position => [("position", .count position)]
  | styledCallout class_ => [("class", .text class_)]
  | skippedCallout paragraph => [("index", .count paragraph)]
  | addedPermalink tag id => [("tag", .text tag), ("id", .text id)]
  | finished tally =>
    [("transform", .text reporterName), ("headings", .count tally.headings),
      ("callouts", .count tally.callouts), ("tables", .count tally.tables)]

end Event

/-- What a rule made of a node: how often it applied, and what it reports. -/
structure Edit (α : Type) where
  value : α
  count : Nat
  events : List Event

/-- The rule does not apply. -/
def Edit.unchanged {α : Type} (value : α) : Edit α := ⟨value, 0, []⟩

/-- Whether the rule applied. -/
def Edit.applied {α : Type} (edit : Edit α) : Bool := edit.count != 0

end DocTree.Docs
