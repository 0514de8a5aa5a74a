import DocTree.Node.Basic

/-!
# Editing walk

A walk that changes a tree, depth first, every node before its content.  At a root or an element a
hook may change the node in every way; then the walk goes into the content *as the hook left it*.
Texts and nodes of other kinds have no hook and are left alone with all they hold.

A hook may stop the walk with a value.  The tree then keeps what was changed so far (`Outcome`), and
nothing after the stop is touched.

Hooks may add content under every node they meet, so the walk takes a limit on the depth it goes to.
Deeper nodes are left as they are; below the limit a larger one makes no difference.
-/

namespace DocTree

/-- What a hook or a walk leaves: the state, the value, and why it stopped, if it did. -/
structure Outcome (σ β α : Type) where
  state : σ
  value : α
  stop : Option β

namespace Outcome

variable {σ β α γ : Type}

/-- Nothing is changed, and the walk goes on. -/
def unchanged (state : σ) (value : α) : Outcome σ β α := ⟨state, value, none⟩

/-- Changes the value alone. -/
def map (f : α → γ) (o : Outcome σ β α) : Outcome σ β γ := ⟨o.state, f o.value, o.stop⟩

/-- Goes on with the state and the value, unless it stopped. -/
def andThen (o : Outcome σ β α) (f : σ → α → Outcome σ β α) : Outcome σ β α :=
  match o.stop with
  | none => f o.state o.value
  | some _ => o

/-- Handles the items of a list in order; those behind a stop stay as they are. -/
def inOrder (f : σ → α → Outcome σ β α) (state : σ) : List α → Outcome σ β (List α)
  | [] => unchanged state []
  | item :: rest =>
    let first := f state item
    match first.stop with
    | none => (inOrder f first.state rest).map (first.value :: ·)
    | some reason => ⟨first.state, first.value :: rest, some reason⟩

end Outcome

/-- The hooks of an editing walk, with state `σ` and stopping with a value of `β`. -/
structure Editor (σ β : Type) where
  root : σ → Root → Outcome σ β Root
  element : σ → Element → Outcome σ β Element

namespace Editor

variable {σ β : Type}

/-- The hooks that change nothing. -/
def passive : Editor σ β := ⟨.unchanged, .unchanged⟩

/-- Walks a node, at most `limit` hooked nodes deep. -/
def walk (h : Editor σ β) : Nat → σ → Node → Outcome σ β Node
  | 0, state, node => .unchanged state node
  | limit + 1, state, .root children extra =>
    Outcome.map Root.toNode <|
      (h.root state ⟨children, extra⟩).andThen fun state r =>
        (Outcome.inOrder (h.walk limit) state r.children).map fun children =>
          { r with children }
  | limit + 1, state, .element tag properties children extra =>
    Outcome.map Element.toNode <|
      (h.element state ⟨tag, properties, children, extra⟩).andThen fun state e =>
        (Outcome.inOrder (h.walk limit) state e.children).map fun children =>
          { e with children }
  | _ + 1, state, .text value extra => .unchanged state (.text value extra)
  | _ + 1, state, .other kind value children extra =>
    .unchanged state (.other kind value children extra)

/-- Walks nodes in order. -/
def walkAll (h : Editor σ β) (limit : Nat) : σ → List Node → Outcome σ β (List Node) :=
  Outcome.inOrder (h.walk limit)

/-- Walks a tree from its root; under it, at most `limit` hooked nodes deep. -/
def walkTree (h : Editor σ β) (limit : Nat) (state : σ) (r : Root) : Outcome σ β Root :=
  (h.root state r).andThen fun state r =>
    (h.walkAll limit state r.children).map fun children => { r with children }

end Editor

mutual

/-- The number of roots and elements on the longest path down from a node. -/
def Node.height : Node → Nat
  | .root children _ => Node.heightAll children + 1
  | .element _ _ children _ => Node.heightAll children + 1
  | .text .. => 0
  | .other .. => 0

/-- The greatest height among nodes. -/
def Node.heightAll : List Node → Nat
  | [] => 0
  | node :: rest => max node.height (Node.heightAll rest)

end

end DocTree
