import DocTree.Binary64.Layout
import DocTree.Json.Members
import DocTree.Text.Quoted

/-!
# JSON values

A `Json` value holds what a text says: the members of an object are a list, in the order written and
with repeated keys.  A number is an integer of 64 bits, signed or not, or a finite double; which of
the two depends on how it is written, and the two never are equal.

`Json.canonical` is the value that remains when the order of members does not count and the last of
equal keys wins, at every level; `Json.IsCanonical` says that a value has that form.

The package `serde_json` has values of its own, and this much is assumed of them: they hold numbers as
above, their objects are sorted maps, as without the option to keep the order of members, and two of them
are equal by `Json.same`.  The words for a value of the wrong type (`Json.Head.wrongType`) are the
package's too.
-/

namespace DocTree

/-- An integer that fits 64 bits, signed or unsigned. -/
structure Json.Integer where
  val : Int
  inRange : -2 ^ 63 ≤ val ∧ val < 2 ^ 64
  deriving DecidableEq

/-- The integer with the given value, if it fits. -/
def Json.Integer.ofInt? (val : Int) : Option Json.Integer :=
  if h : -2 ^ 63 ≤ val ∧ val < 2 ^ 64 then some ⟨val, h⟩ else none

/-- The decimal digits of the integer, with its sign if it is negative. -/
def Json.Integer.write (n : Json.Integer) : List Char :=
  if n.val < 0 then '-' :: Nat.toDigits 10 n.val.natAbs else Nat.toDigits 10 n.val.natAbs

/-- A JSON value. -/
inductive Json where
  | null
  | bool (b : Bool)
  | integer (n : Json.Integer)
  | float (x : Binary64.Finite)
  | string (s : String)
  | array (items : List Json)
  /-- An object, its members as written. -/
  | object (members : List (String × Json))

namespace Json

instance : Inhabited Json := ⟨null⟩

/-- The written form of a double: the shortest digits, positional from 10⁻⁵ to below 10¹⁶, and
with a point or an exponent, so that it never looks like an integer.  The package that writes JSON is
assumed to take this form for every finite double. -/
def floatLayout : Layout where
  tie := .toEven
  positional := fun exponent => -5 ≤ exponent && exponent ≤ 15
  wholePoint := true

/-! ### The beginning of a value -/

/-- What the beginning of a value shows: a whole scalar, or that a container opens. -/
inductive Head where
  | null
  | bool (b : Bool)
  | integer (n : Integer)
  | float (x : Binary64.Finite)
  | string (s : String)
  | array
  | object

/-- The beginning of a value. -/
def head : Json → Head
  | null => .null
  | bool b => .bool b
  | integer n => .integer n
  | float x => .float x
  | string s => .string s
  | array _ => .array
  | object _ => .object

/-- The words for what was found where something else was expected. -/
def Head.describe : Head → String
  | .null => "null"
  | .bool b => "boolean `" ++ (if b then "true" else "false") ++ "`"
  | .integer n => "integer `" ++ String.ofList n.write ++ "`"
  | .float x => "floating point `" ++ String.ofList (floatLayout.write x) ++ "`"
  | .string s => "string " ++ Text.quoted s
  | .array => "sequence"
  | .object => "map"

/-- The words for a value of the wrong type. -/
def Head.wrongType (found : Head) (expected : String) : String :=
  "invalid type: " ++ found.describe ++ ", expected " ++ expected

/-! ### Canonical values -/

mutual

/-- The value with the members of every object sorted by key, of equal keys the last one kept. -/
def canonical : Json → Json
  | array items => array (canonicalItems items)
  | object members => object (canonicalMembers members)
  | scalar => scalar

/-- Every item in canonical form. -/
def canonicalItems : List Json → List Json
  | [] => []
  | item :: rest => item.canonical :: canonicalItems rest

/-- The members sorted by key, of equal keys the last one kept, every value in canonical form. -/
def canonicalMembers : List (String × Json) → List (String × Json)
  | [] => []
  | (key, value) :: rest => Members.insertEarlier key value.canonical (canonicalMembers rest)

end

mutual

/-- The keys of every object increase. -/
def IsCanonical : Json → Prop
  | array items => AreCanonical items
  | object members => Members.Increasing members ∧ HaveCanonical members
  | _ => True

/-- Every item is canonical. -/
def AreCanonical : List Json → Prop
  | [] => True
  | item :: rest => item.IsCanonical ∧ AreCanonical rest

/-- Every member has a canonical value. -/
def HaveCanonical : List (String × Json) → Prop
  | [] => True
  | (_, value) :: rest => value.IsCanonical ∧ HaveCanonical rest

end

theorem areCanonical_iff {items : List Json} :
    AreCanonical items ↔ ∀ item ∈ items, item.IsCanonical := by
  induction items with
  | nil => simp [AreCanonical]
  | cons item rest ih => simp [AreCanonical, ih]

theorem haveCanonical_iff {members : List (String × Json)} :
    HaveCanonical members ↔ ∀ m ∈ members, m.2.IsCanonical := by
  induction members with
  | nil => simp [HaveCanonical]
  | cons head rest ih => obtain ⟨k, v⟩ := head; simp [HaveCanonical, ih]

theorem increasing_canonicalMembers (members : List (String × Json)) :
    Members.Increasing (canonicalMembers members) := by
  induction members with
  | nil => simp [canonicalMembers, Members.Increasing]
  | cons head rest ih =>
    obtain ⟨k, v⟩ := head
    simpa [canonicalMembers] using Members.increasing_insertEarlier ih

mutual

theorem isCanonical_canonical : ∀ j : Json, j.canonical.IsCanonical
  | array items => by
    simpa [canonical, IsCanonical] using areCanonical_canonicalItems items
  | object members => by
    simpa [canonical, IsCanonical] using
      ⟨increasing_canonicalMembers members, haveCanonical_canonicalMembers members⟩
  | null | bool _ | integer _ | float _ | string _ => by simp [canonical, IsCanonical]

theorem areCanonical_canonicalItems : ∀ items : List Json, AreCanonical (canonicalItems items)
  | [] => by simp [canonicalItems, AreCanonical]
  | item :: rest => by
    simpa [canonicalItems, AreCanonical] using
      ⟨isCanonical_canonical item, areCanonical_canonicalItems rest⟩

theorem haveCanonical_canonicalMembers :
    ∀ members : List (String × Json), HaveCanonical (canonicalMembers members)
  | [] => by simp [canonicalMembers, HaveCanonical]
  | (key, value) :: rest => by
    have hv := isCanonical_canonical value
    have hr := haveCanonical_iff.1 (haveCanonical_canonicalMembers rest)
    rw [canonicalMembers, haveCanonical_iff]
    intro m hm
    rcases Members.mem_insertEarlier hm with rfl | hm
    · exact hv
    · exact hr m hm

end

theorem isCanonical_object {members : List (String × Json)} :
    (object members).IsCanonical ↔ Members.Increasing members ∧ HaveCanonical members := by
  simp [IsCanonical]

/-! ### Equality -/

mutual

/-- Equality of values: an integer equals no double, the zeros of both signs are equal, and members
are compared in their order, which counts for nothing in canonical values. -/
def same : Json → Json → Bool
  | null, null => true
  | bool a, bool b => a == b
  | integer m, integer n => m == n
  | float x, float y => x.sameNumber y
  | string s, string t => s == t
  | array a, array b => sameItems a b
  | object a, object b => sameMembers a b
  | _, _ => false

/-- Equality item by item. -/
def sameItems : List Json → List Json → Bool
  | [], [] => true
  | a :: as, b :: bs => same a b && sameItems as bs
  | _, _ => false

/-- Equality member by member. -/
def sameMembers : List (String × Json) → List (String × Json) → Bool
  | [], [] => true
  | (k, a) :: as, (l, b) :: bs => k == l && same a b && sameMembers as bs
  | _, _ => false

end

end Json

end DocTree
