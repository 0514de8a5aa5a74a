import DocTree.Json.Printer

/-!
# Configuration

The settings of the document rules: the texts they put into a tree, and whether a callout without
text is an error.  Every setting has a default, and each is known to files by the key of its
field.
-/

namespace DocTree.Docs

/-- The settings of the document rules. -/
structure Config where
  /-- The class of a heading with a permalink. -/
  headingClass : String := "relative block flex group"
  /-- The class of a permalink. -/
  permalinkClass : String :=
    "w-4 -ml-5 pl-0.5 sm:pl-0 sm:-ml-6 absolute block group-hover:!text-main !text-zinc-200 shrink-0"
  /-- The accessible label of a permalink. -/
  permalinkLabel : String := "Permalink"
  /-- The visible text of a permalink. -/
  permalinkText : String := "#"
  /-- The class that every callout gets. -/
  calloutBaseClass : String := "bg-default"
  /-- The class of the container around a table. -/
  tableWrapperClass : String := "table-wrapper"
  /-- Whether a callout paragraph without text is an error; else it is passed over. -/
  strictCallouts : Bool := false
  deriving DecidableEq

namespace Config

instance : Inhabited Config := ⟨{}⟩

/-- The fields of a configuration, in the order of their declaration. -/
inductive Field where
  | headingClass
  | permalinkClass
  | permalinkLabel
  | permalinkText
  | calloutBaseClass
  | tableWrapperClass
  | strictCallouts
  deriving DecidableEq

/-- All fields, in the order of their declaration. -/
def Field.all : List Field :=
  [headingClass, permalinkClass, permalinkLabel, permalinkText, calloutBaseClass,
    tableWrapperClass, strictCallouts]

/-- The key of a field. -/
def Field.key : Field → String
  | headingClass => "headingClass"
  | permalinkClass => "permalinkClass"
  | permalinkLabel => "permalinkLabel"
  | permalinkText => "permalinkText"
  | calloutBaseClass => "calloutBaseClass"
  | tableWrapperClass => "tableWrapperClass"
  | strictCallouts => "strictCallouts"

/-- The field with the given key. -/
def Field.ofKey? (key : String) : Option Field := all.find? (·.key = key)

/-- The value of a field in JSON. -/
def get (c : Config) : Field → Json
  | .headingClass => .string c.headingClass
  | .permalinkClass => .string c.permalinkClass
  | .permalinkLabel => .string c.permalinkLabel
  | .permalinkText => .string c.permalinkText
  | .calloutBaseClass => .string c.calloutBaseClass
  | .tableWrapperClass => .string c.tableWrapperClass
  | .strictCallouts => .bool c.strictCallouts

/-- The configuration in JSON: all fields, in the order of their declaration. -/
def toJson (c : Config) : Json := .object (Field.all.map fun field => (field.key, c.get field))

end Config

end DocTree.Docs
