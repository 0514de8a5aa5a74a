import DocTree.Docs.Callout
import DocTree.Docs.ConfigReader
import DocTree.Docs.Permalink
import DocTree.Docs.Table
import DocTree.Node.Reader
import DocTree.Walk.Edit

/-!
# Running the rules on a document

One walk applies all rules, each node before its content: at a root tables get their containers,
at an element callouts are styled and then permalinks added.  The walk goes on into what the rules
leave, so a table is reached through its container, and an anchor is met as an element like any
other; no rule applies to either a second time.

Only strict mode can stop the walk.  The tree then keeps what was changed before.
-/

namespace DocTree.Docs

/-- What a walk has counted and reported so far. -/
structure Progress where
  tally : Tally
  events : List Event
  deriving Inhabited

namespace Progress

/-- Before the first node. -/
def start : Progress := ⟨⟨0, 0, 0⟩, []⟩

/-- Counts the tables of a root. -/
def addTables (p : Progress) (r : Edit Root) : Progress :=
  ⟨{ p.tally with tables := p.tally.tables + r.count }, p.events ++ r.events⟩

/-- Counts a styled callout. -/
def addCallouts (p : Progress) (r : Edit Element) : Progress :=
  ⟨{ p.tally with callouts := p.tally.callouts + r.count }, p.events ++ r.events⟩

/-- Counts a heading with a permalink. -/
def addHeadings (p : Progress) (r : Edit Element) : Progress :=
  ⟨{ p.tally with headings := p.tally.headings + r.count }, p.events ++ r.events⟩

end Progress

/-- The rules as the hooks of a walk. -/
def rules (config : Config) : Editor Progress MissingLeadText where
  root progress r :=
    let wrapped := containTables config r
    .unchanged (progress.addTables wrapped) wrapped.value
  element progress e :=
    match markCallout config e with
    | .error missing => ⟨progress, e, some missing⟩
    | .ok styled =>
      let linked := linkHeading config styled.value
      .unchanged ((progress.addCallouts styled).addHeadings linked) linked.value

/-- A depth that no walk with the rules reaches beyond: of the nodes that the rules add, a container
stands between a root and its table, and an anchor under a heading. -/
def walkLimit (r : Root) : Nat := 2 * r.toNode.height + 1

/-- What a run of the rules makes of a tree. -/
structure Run where
  root : Root
  tally : Tally
  events : List Event
  /-- What stopped the run, if it did not come to the end of the tree. -/
  failure : Option MissingLeadText

/-- Runs the rules on a tree, and reports a summary if they come to its end. -/
def run (config : Config) (r : Root) : Run :=
  let walked := (rules config).walkTree (walkLimit r) .start r
  let progress := walked.state
  match walked.stop with
  | some missing => ⟨walked.value, progress.tally, progress.events, some missing⟩
  | none =>
    ⟨walked.value, progress.tally, progress.events ++ [.finished progress.tally], none⟩

/-- Why a text with a tree is not changed. -/
inductive RunError where
  | config (reason : ConfigError)
  | missingLeadText (reason : MissingLeadText)
  | tree (reason : TreeError)

/-- The text of the error. -/
def RunError.message : RunError → String
  | config reason => "Configuration error: " ++ reason.message
  | missingLeadText reason =>
    "Callout paragraph at blockquote child " ++
      String.ofList (Nat.toDigits 10 reason.paragraph) ++ " has no leading text"
  | tree reason => "AST error: " ++ reason.message

/-- Reads a tree, runs the rules on it and writes it again. -/
def runText (config : Config) (text : String) : Except RunError String := do
  let root ← (Root.parse text).mapError .tree
  let finished := run config root
  match finished.failure with
  | some missing => .error (.missingLeadText missing)
  | none => finished.root.render.mapError .tree

end DocTree.Docs
