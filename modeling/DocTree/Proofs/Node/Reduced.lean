import DocTree.Proofs.Node.RoundTrip
import DocTree.Proofs.Property.Equality
import DocTree.Proofs.Property.Grammar

/-!
# What equality ignores

The reduced form of a node has the properties of every element in the order of their names, and no
zero with a sign (`Node.reduced`); all else is kept.  Nodes whose properties are finite are equal
exactly if their reduced forms are identical (`Node.same_iff_reduced`), so equality ignores the order of
properties and the signs of zeros, and nothing more.
-/

namespace DocTree

/-! ### Numbers -/

theorem Binary64.Finite.sameNumber_iff_unsignedZero {x y : Finite} :
    x.sameNumber y = true ↔ x.unsignedZero = y.unsignedZero := by
  rw [sameNumber_iff]
  constructor
  · intro h
    unfold unsignedZero
    by_cases hx : x.steps = 0
    · have hy : y.steps = 0 := by
        rw [steps_eq_zero_iff, ← h, ← steps_eq_zero_iff, hx]
      rw [if_pos hx, if_pos hy]
    · rw [eq_of_value_eq h hx]
  · intro h
    rw [← value_unsignedZero x, h, value_unsignedZero]

/-- A finite number is equal to those that are the same without the sign of zero. -/
theorem Binary64.sameNumber_iff_unsignedZero {x y : Binary64} (hx : x.IsFinite) :
    x.sameNumber y = true ↔ x.unsignedZero = y.unsignedZero := by
  obtain ⟨x, rfl⟩ := hx
  cases y with
  | finite y =>
    rw [unsignedZero, unsignedZero, finite.injEq]
    exact Finite.sameNumber_iff_unsignedZero
  | _ => simp [sameNumber, unsignedZero]

/-! ### Extra fields -/

namespace Json

mutual

/-- The value, but every zero without a sign. -/
def unsignedZeros : Json → Json
  | float x => float x.unsignedZero
  | array items => array (unsignedZerosItems items)
  | object members => object (unsignedZerosMembers members)
  | scalar => scalar

/-- Every item without the signs of zeros. -/
def unsignedZerosItems : List Json → List Json
  | [] => []
  | item :: rest => item.unsignedZeros :: unsignedZerosItems rest

/-- Every member without the signs of zeros in its value. -/
def unsignedZerosMembers : List (String × Json) → List (String × Json)
  | [] => []
  | (key, value) :: rest => (key, value.unsignedZeros) :: unsignedZerosMembers rest

end

mutual

/-- Values are equal exactly if they are the same without the signs of zeros. -/
theorem same_iff_unsignedZeros : ∀ j k : Json,
    j.same k = true ↔ j.unsignedZeros = k.unsignedZeros
  | .array items, k => by
    cases k with
    | array others => simpa [same, unsignedZeros] using sameItems_iff_unsignedZeros items others
    | _ => simp [same, unsignedZeros]
  | .object members, k => by
    cases k with
    | object others =>
      simpa [same, unsignedZeros] using sameMembers_iff_unsignedZeros members others
    | _ => simp [same, unsignedZeros]
  | .float x, k => by
    cases k with
    | float y => simpa [same, unsignedZeros] using Binary64.Finite.sameNumber_iff_unsignedZero
    | _ => simp [same, unsignedZeros]
  | .null, k | .bool _, k | .integer _, k | .string _, k => by cases k <;> simp [same, unsignedZeros]

theorem sameItems_iff_unsignedZeros : ∀ items others : List Json,
    sameItems items others = true ↔ unsignedZerosItems items = unsignedZerosItems others
  | [], others => by cases others <;> simp [sameItems, unsignedZerosItems]
  | item :: rest, [] => by simp [sameItems, unsignedZerosItems]
  | item :: rest, other :: others => by
    rw [sameItems, unsignedZerosItems, unsignedZerosItems, Bool.and_eq_true, List.cons.injEq,
      same_iff_unsignedZeros item, sameItems_iff_unsignedZeros rest]

theorem sameMembers_iff_unsignedZeros : ∀ members others : List (String × Json),
    sameMembers members others = true ↔ unsignedZerosMembers members = unsignedZerosMembers others
  | [], others => by cases others <;> simp [sameMembers, unsignedZerosMembers]
  | m :: rest, [] => by simp [sameMembers, unsignedZerosMembers]
  | (k, v) :: rest, (l, w) :: others => by
    rw [sameMembers, unsignedZerosMembers, unsignedZerosMembers, Bool.and_eq_true, Bool.and_eq_true,
      beq_iff_eq, List.cons.injEq, Prod.mk.injEq, same_iff_unsignedZeros v,
      sameMembers_iff_unsignedZeros rest]

end

theorem unsignedZerosItems_eq_map (items : List Json) :
    unsignedZerosItems items = items.map unsignedZeros := by
  induction items with
  | nil => rfl
  | cons item rest ih => rw [unsignedZerosItems, ih, List.map_cons]

theorem unsignedZerosMembers_eq_map (members : List (String × Json)) :
    unsignedZerosMembers members = members.map fun m => (m.1, m.2.unsignedZeros) := by
  induction members with
  | nil => rfl
  | cons m rest ih => rw [unsignedZerosMembers, ih, List.map_cons]

theorem increasing_unsignedZerosMembers {members : List (String × Json)}
    (h : Members.Increasing members) : Members.Increasing (unsignedZerosMembers members) := by
  rw [unsignedZerosMembers_eq_map]
  exact List.pairwise_map.2 h

mutual

theorem isCanonical_unsignedZeros : ∀ j : Json, j.IsCanonical → j.unsignedZeros.IsCanonical
  | .array items, h => by
    rw [IsCanonical] at h
    rw [unsignedZeros, IsCanonical]
    exact areCanonical_unsignedZerosItems items h
  | .object members, h => by
    rw [IsCanonical] at h
    rw [unsignedZeros, IsCanonical]
    exact ⟨increasing_unsignedZerosMembers h.1, haveCanonical_unsignedZerosMembers members h.2⟩
  | .null, _ | .bool _, _ | .integer _, _ | .float _, _ | .string _, _ => by
    simp [unsignedZeros, IsCanonical]

theorem areCanonical_unsignedZerosItems : ∀ items : List Json, AreCanonical items →
    AreCanonical (unsignedZerosItems items)
  | [], _ => trivial
  | item :: rest, h => by
    rw [AreCanonical] at h
    exact ⟨isCanonical_unsignedZeros item h.1, areCanonical_unsignedZerosItems rest h.2⟩

theorem haveCanonical_unsignedZerosMembers : ∀ members : List (String × Json),
    HaveCanonical members → HaveCanonical (unsignedZerosMembers members)
  | [], _ => trivial
  | (_, value) :: rest, h => by
    rw [HaveCanonical] at h
    exact ⟨isCanonical_unsignedZeros value h.1, haveCanonical_unsignedZerosMembers rest h.2⟩

end

end Json

/-- The extra fields, but every zero without a sign. -/
def Extra.unsignedZeros (x : Extra) : Extra where
  members := Json.unsignedZerosMembers x.members
  canonical := by
    have h := Json.isCanonical_unsignedZeros _ x.canonical
    rwa [Json.unsignedZeros] at h

theorem Extra.same_iff_unsignedZeros {x y : Extra} :
    x.same y = true ↔ x.unsignedZeros = y.unsignedZeros := by
  rw [same, Json.sameMembers_iff_unsignedZeros, unsignedZeros, unsignedZeros, mk.injEq]

/-! ### Properties -/

namespace PropertyValue

theorem sameItem_iff_unsignedZeros {a b : PropertyItem} (h : a.IsFinite) :
    sameItem a b = true ↔ a.unsignedZeros = b.unsignedZeros := by
  cases a with
  | number x =>
    cases b with
    | number y =>
      rw [PropertyItem.unsignedZeros, PropertyItem.unsignedZeros, PropertyItem.number.injEq]
      exact Binary64.sameNumber_iff_unsignedZero (h x rfl)
    | string t => simp [sameItem, PropertyItem.unsignedZeros]
  | string s => cases b <;> simp [sameItem, PropertyItem.unsignedZeros]

theorem sameItems_iff_unsignedZeros {as bs : List PropertyItem} (h : ∀ item ∈ as, item.IsFinite) :
    sameItems as bs = true ↔
      as.map PropertyItem.unsignedZeros = bs.map PropertyItem.unsignedZeros := by
  induction as generalizing bs with
  | nil => cases bs <;> simp [sameItems]
  | cons a as ih =>
    obtain ⟨ha, has⟩ := List.forall_mem_cons.1 h
    cases bs with
    | nil => simp [sameItems]
    | cons b bs =>
      rw [sameItems, Bool.and_eq_true, List.map_cons, List.map_cons, List.cons.injEq,
        sameItem_iff_unsignedZeros ha, ih has]

/-- A value with finite numbers is equal to those that are the same without the signs of zeros. -/
theorem same_iff_unsignedZeros {v w : PropertyValue} (h : v.IsFinite) :
    v.same w = true ↔ v.unsignedZeros = w.unsignedZeros := by
  cases v with
  | number x =>
    cases w with
    | number y =>
      rw [unsignedZeros, unsignedZeros, number.injEq]
      exact Binary64.sameNumber_iff_unsignedZero h
    | _ => simp [same, unsignedZeros]
  | list as =>
    cases w with
    | list bs =>
      rw [unsignedZeros, unsignedZeros, list.injEq]
      exact sameItems_iff_unsignedZeros h
    | _ => simp [same, unsignedZeros]
  | boolean | string | null => cases w <;> simp [same, unsignedZeros]

end PropertyValue

namespace Properties

/-- The properties in the order of their names, every zero without a sign.  None is lost, since no name
comes twice. -/
def reduced (p : Properties) : Properties where
  entries := Members.sorted p.unsignedZeros.entries
  nodup :=
    have hperm := Members.sorted_perm p.unsignedZeros.nodup
    (hperm.map (·.1)).nodup_iff.2 p.unsignedZeros.nodup

theorem get?_eq_last? (p : Properties) (name : String) :
    p.get? name = Members.last? name p.entries := by
  refine Option.ext fun value => ?_
  rw [get?_eq_some_iff, Members.last?_eq_some_iff_mem p.nodup]

theorem IsFinite.of_get? {p : Properties} (h : p.IsFinite) {name : String} {value : PropertyValue}
    (hvalue : p.get? name = some value) : value.IsFinite := h _ (get?_eq_some_iff.1 hvalue)

theorem last?_unsignedZeros (p : Properties) (name : String) :
    Members.last? name p.unsignedZeros.entries = (p.get? name).map PropertyValue.unsignedZeros := by
  rw [get?_eq_last?, ← Members.last?_map]
  rfl

/-- Maps are equal exactly if they are the same but for their order and the signs of zeros. -/
theorem same_iff_reduced {p q : Properties} (h : p.IsFinite) :
    p.same q = true ↔ p.reduced = q.reduced := by
  have heach (name : String) : PropertyValue.SameIfAny (p.get? name) (q.get? name) ↔
      Members.last? name p.unsignedZeros.entries = Members.last? name q.unsignedZeros.entries := by
    rw [last?_unsignedZeros, last?_unsignedZeros, ← rel_eq_iff]
    exact rel_congr fun v hv w _ => PropertyValue.same_iff_unsignedZeros (h.of_get? hv)
  simp only [same_iff, heach]
  constructor
  · exact fun heq => ext_entries (Members.sorted_congr heq)
  · intro heq name
    rw [← Members.get?_sorted, ← Members.get?_sorted]
    exact congrArg (fun r => Members.get? name r.entries) heq

end Properties

/-! ### Nodes -/

namespace Node

mutual

/-- The node, but all properties in the order of their names, and every zero without a sign. -/
def reduced : Node → Node
  | root children extra => root (reducedAll children) extra.unsignedZeros
  | element tag properties children extra =>
    element tag (properties.map Properties.reduced) (reducedAll children) extra.unsignedZeros
  | text value extra => text value extra.unsignedZeros
  | other kind value none extra => other kind value none extra.unsignedZeros
  | other kind value (some children) extra =>
    other kind value (some (reducedAll children)) extra.unsignedZeros

/-- The reduced forms of nodes. -/
def reducedAll : List Node → List Node
  | [] => []
  | node :: rest => reduced node :: reducedAll rest

end

theorem sameProperties_iff_reduced {p q : Option Properties} (h : ∀ p' ∈ p, p'.IsFinite) :
    sameProperties p q = true ↔ p.map Properties.reduced = q.map Properties.reduced := by
  cases p with
  | none => cases q <;> simp [sameProperties]
  | some p =>
    cases q with
    | none => simp [sameProperties]
    | some q =>
      rw [Option.map_some, Option.map_some, Option.some.injEq]
      exact Properties.same_iff_reduced (h p rfl)

mutual

/-- **Nodes are equal exactly if they are the same but for the order of properties and the signs of
zeros**, if all their properties are finite. -/
theorem same_iff_reduced : ∀ a b : Node, a.Faithful → (a.same b = true ↔ a.reduced = b.reduced)
  -- reducing keeps the constructor, so nodes of two constructors differ on both sides
  | root cs x, b, h => by
    rw [Faithful] at h
    cases b with
    | root ds y =>
      rw [same, Bool.and_eq_true, reduced, reduced, root.injEq, sameAll_iff_reducedAll cs ds h.1,
        Extra.same_iff_unsignedZeros]
    | other _ _ ds _ => cases ds <;> simp [same, reduced]
    | _ => simp [same, reduced]
  | element t p cs x, b, h => by
    rw [Faithful] at h
    cases b with
    | element u q ds y =>
      simp only [same, Bool.and_eq_true, beq_iff_eq, reduced, element.injEq,
        sameProperties_iff_reduced h.2.1, sameAll_iff_reducedAll cs ds h.2.2.1,
        Extra.same_iff_unsignedZeros, and_assoc]
    | other _ _ ds _ => cases ds <;> simp [same, reduced]
    | _ => simp [same, reduced]
  | text v x, b, _ => by
    cases b with
    | text w y => simp [same, reduced, Extra.same_iff_unsignedZeros]
    | other _ _ ds _ => cases ds <;> simp [same, reduced]
    | _ => simp [same, reduced]
  | other k v none x, b, _ => by
    cases b with
    | other l w ds y => cases ds <;> simp [same, reduced, Extra.same_iff_unsignedZeros, and_assoc]
    | _ => simp [same, reduced]
  | other k v (some cs) x, b, h => by
    rw [Faithful] at h
    cases b with
    | other l w ds y =>
      cases ds with
      | none => simp [same, reduced]
      | some ds =>
        simp [same, reduced, Extra.same_iff_unsignedZeros, and_assoc,
          sameAll_iff_reducedAll cs ds h.2.1]
    | _ => simp [same, reduced]

theorem sameAll_iff_reducedAll : ∀ as bs : List Node, AllFaithful as →
    (sameAll as bs = true ↔ reducedAll as = reducedAll bs)
  | [], bs, _ => by cases bs <;> simp [sameAll, reducedAll]
  | a :: as, [], _ => by simp [sameAll, reducedAll]
  | a :: as, b :: bs, h => by
    rw [AllFaithful] at h
    rw [sameAll, Bool.and_eq_true, reducedAll, reducedAll, List.cons.injEq,
      same_iff_reduced a b h.1, sameAll_iff_reducedAll as bs h.2]

end

end Node

end DocTree
