import DocTree.Json.Embedded
import DocTree.Proofs.Json.Content

/-!
# Values without embedded texts

A value is *plain* if no object in it begins like an embedded text (`Json.Plain`).  Reading leaves a
plain value as it is (`resolve_of_plain`), and no other one: what an embedded text says never begins
like an embedded text itself (`embedded?_of_parseWithin`), so it is not the object that embeds it
(`plain_of_same`).
-/

namespace DocTree

namespace Members

variable {α : Type}

theorem insertEarlier_of_lt {key : String} {value : α} {members : List (String × α)}
    (h : ∀ m ∈ members, key < m.1) : insertEarlier key value members = (key, value) :: members := by
  cases members with
  | nil => rfl
  | cons head rest =>
    obtain ⟨k, v⟩ := head
    rw [insertEarlier, if_pos (h (k, v) List.mem_cons_self)]

theorem mem_keys_insertEarlier {key other : String} {value : α} {members : List (String × α)} :
    other ∈ (insertEarlier key value members).map (·.1) ↔
      other = key ∨ other ∈ members.map (·.1) := by
  induction members with
  | nil => simp [insertEarlier]
  | cons head rest ih =>
    obtain ⟨k, v⟩ := head
    rw [insertEarlier]
    by_cases hlt : key < k
    · simp [hlt]
    · by_cases heq : key = k
      · simp [heq]
      · simp only [hlt, heq, if_false, List.map_cons, List.mem_cons, ih]
        exact or_left_comm

end Members

namespace Json

open Reading

/-! ### Canonical values -/

mutual

theorem canonical_of_isCanonical : ∀ j : Json, j.IsCanonical → j.canonical = j
  | .array items, h => by
    rw [IsCanonical] at h
    rw [canonical, canonicalItems_of_areCanonical items h]
  | .object members, h => by
    rw [IsCanonical] at h
    rw [canonical, canonicalMembers_of_increasing members h.1 h.2]
  | .null, _ | .bool _, _ | .integer _, _ | .float _, _ | .string _, _ => by simp [canonical]

theorem canonicalItems_of_areCanonical : ∀ items : List Json, AreCanonical items →
    canonicalItems items = items
  | [], _ => rfl
  | item :: rest, h => by
    rw [AreCanonical] at h
    rw [canonicalItems, canonical_of_isCanonical item h.1, canonicalItems_of_areCanonical rest h.2]

theorem canonicalMembers_of_increasing : ∀ members : List (String × Json),
    Members.Increasing members → HaveCanonical members → canonicalMembers members = members
  | [], _, _ => rfl
  | (key, value) :: rest, hkeys, h => by
    rw [HaveCanonical] at h
    obtain ⟨hlt, hrest⟩ := List.pairwise_cons.1 hkeys
    rw [canonicalMembers, canonical_of_isCanonical value h.1,
      canonicalMembers_of_increasing rest hrest h.2, Members.insertEarlier_of_lt hlt]

end

theorem mem_keys_canonicalMembers {key : String} {members : List (String × Json)} :
    key ∈ (canonicalMembers members).map (·.1) ↔ key ∈ members.map (·.1) := by
  induction members with
  | nil => rfl
  | cons head rest ih =>
    obtain ⟨k, v⟩ := head
    rw [canonicalMembers, Members.mem_keys_insertEarlier, ih]
    simp

/-! ### Plain values -/

mutual

/-- No object begins like an embedded text. -/
def Plain : Json → Prop
  | array items => ArePlain items
  | object members => embedded? members = none ∧ HavePlain members
  | _ => True

/-- Every item is plain. -/
def ArePlain : List Json → Prop
  | [] => True
  | item :: rest => item.Plain ∧ ArePlain rest

/-- Every member has a plain value. -/
def HavePlain : List (String × Json) → Prop
  | [] => True
  | (_, value) :: rest => value.Plain ∧ HavePlain rest

end

theorem havePlain_iff {members : List (String × Json)} :
    HavePlain members ↔ ∀ m ∈ members, m.2.Plain := by
  induction members with
  | nil => simp [HavePlain]
  | cons m rest ih =>
    obtain ⟨key, value⟩ := m
    rw [HavePlain, ih, List.forall_mem_cons]

mutual

theorem resolve_of_plain : ∀ j : Json, j.Plain → resolve j = .ok j
  | .array items, h => by
    rw [Plain] at h
    rw [resolve, resolveItems_of_plain items h]
    rfl
  | .object members, h => by
    rw [Plain] at h
    rw [resolve, h.1, resolveMembers_of_plain members h.2]
    rfl
  | .null, _ | .bool _, _ | .integer _, _ | .float _, _ | .string _, _ => by
    simp [resolve, pure, Except.pure]

theorem resolveItems_of_plain : ∀ items : List Json, ArePlain items →
    resolveItems items = .ok items
  | [], _ => rfl
  | item :: rest, h => by
    rw [ArePlain] at h
    rw [resolveItems, resolve_of_plain item h.1, resolveItems_of_plain rest h.2]
    rfl

theorem resolveMembers_of_plain : ∀ members : List (String × Json), HavePlain members →
    resolveMembers members = .ok members
  | [], _ => rfl
  | (key, value) :: rest, h => by
    rw [HavePlain] at h
    rw [resolveMembers, resolve_of_plain value h.1, resolveMembers_of_plain rest h.2]
    rfl

end

/-- Reading fails where an embedded text has members beside it. -/
theorem resolve_of_other_members {members : List (String × Json)} {text : String}
    (h : embedded? members = some (.string text)) (hlength : 1 < members.length) :
    ∃ fault, resolve (.object members) = .error fault := by
  rw [resolve, h]
  dsimp only
  cases parseEmbedded text with
  | error fault => exact ⟨fault, rfl⟩
  | ok value => exact ⟨.otherMembers members.length, by simp [bind, Except.bind, hlength]⟩

/-! ### What embedded texts say -/

/-- The members of an object come behind its first one. -/
theorem exists_of_laterMembers {value : Reading EmbeddedFault Json} {text mid rest : List Char}
    {key : String} {first ms : List (String × Json)}
    (hmember : member (collect value) [] key text = .ok (first, mid))
    (hlater : laterMembers (collect value) first mid = .ok (ms, rest)) :
    ∃ j later, ms = (key, j) :: later := by
  obtain ⟨_, j, -, -, hfirst⟩ := (member_eq_ok_iff (collect_decodes value)).1 hmember
  cases hfirst
  obtain ⟨later, -, hms⟩ :=
    (iterateWithin_laterMember?_decodes (collect_decodes value) mid mid rest _ ms).1 hlater
  rw [addAll_concat] at hms
  exact ⟨j, later, (Option.some.inj hms).symm⟩

section Resolved

variable {say : String → Except EmbeddedFault Json} {text rest : List Char}
  {ms : List (String × Json)}

/-- The rest of an object that embeds a text gives what that says. -/
theorem exists_of_embeddedRest {j : Json} (h : embeddedRest say text = .ok (j, rest)) :
    ∃ inner, say inner = .ok j := by
  obtain ⟨_, at_, -, hrest⟩ := bind_eq_ok_iff.1 h
  obtain ⟨head, next, -, hrest⟩ := bind_eq_ok_iff.1 hrest
  cases head with
  | string inner =>
    dsimp only at hrest
    cases hinner : say inner with
    | error fault =>
      rw [hinner] at hrest
      cases hrest
    | ok value =>
      rw [hinner] at hrest
      obtain ⟨_, _, -, hrest⟩ := bind_eq_ok_iff.1 hrest
      obtain ⟨c, last, -, hrest⟩ := bind_eq_ok_iff.1 hrest
      split at hrest
      · obtain ⟨rfl, -⟩ := pure_eq_ok_iff.1 hrest
        exact ⟨inner, hinner⟩
      · cases hrest
      · cases hrest
  | _ => cases hrest

theorem embedded?_of_resolvedRest {value : Reading EmbeddedFault Json}
    (hsay : ∀ text ms, say text = .ok (.object ms) → embedded? ms = none)
    (h : resolvedRest say value text = .ok (.object ms, rest)) : embedded? ms = none := by
  obtain ⟨o, start, -, hrest⟩ := bind_eq_ok_iff.1 h
  cases o with
  | none =>
    cases (pure_eq_ok_iff.1 hrest).1
    rfl
  | some key =>
    dsimp only at hrest
    by_cases hkey : key = embeddedKey
    · rw [if_pos hkey] at hrest
      obtain ⟨inner, hinner⟩ := exists_of_embeddedRest hrest
      exact hsay inner ms hinner
    · -- the first key is another one, and it stays the first
      rw [if_neg hkey] at hrest
      obtain ⟨first, next, hfirst, hrest⟩ := bind_eq_ok_iff.1 hrest
      obtain ⟨ms', last, hlater, hms⟩ := bind_eq_ok_iff.1 hrest
      cases (pure_eq_ok_iff.1 hms).1
      obtain ⟨j, later, rfl⟩ := exists_of_laterMembers hfirst hlater
      rw [embedded?, if_neg hkey]

theorem embedded?_of_resolvedValue
    (hsay : ∀ text ms, say text = .ok (.object ms) → embedded? ms = none) {levels : Nat}
    (h : resolvedValue say levels text = .ok (.object ms, rest)) : embedded? ms = none := by
  cases levels with
  | zero =>
    rw [resolvedValue, valueWith_eq_ok_iff] at h
    rcases h with ⟨h, -⟩ | ⟨_, -, h⟩ | ⟨_, -, h⟩ <;> cases h
  | succ levels =>
    rw [resolvedValue, valueWith_eq_ok_iff] at h
    rcases h with ⟨h, -⟩ | ⟨_, -, h⟩ | ⟨mid, -, h⟩
    · cases h
    · exact absurd h (map_ne_ok (by simp))
    · exact embedded?_of_resolvedRest hsay h

end Resolved

/-- What an embedded text says does not begin like an embedded text. -/
theorem embedded?_of_parseWithin (size : Nat) : ∀ (text : String) (ms : List (String × Json)),
    parseWithin size text = .ok (.object ms) → embedded? ms = none := by
  induction size with
  | zero =>
    intro text ms h
    cases h
  | succ size ih =>
    intro text ms h
    rw [parseWithin] at h
    cases hread : readAll (resolvedValue (parseWithin size) maxNesting) text with
    | error e =>
      rw [hread] at h
      cases h
    | ok value =>
      rw [hread] at h
      cases h
      obtain ⟨rest, hvalue, -⟩ := readAll_eq_ok_iff.1 hread
      exact embedded?_of_resolvedValue ih hvalue

/-! ### Values that are read as themselves -/

mutual

@[simp] theorem same_refl : ∀ j : Json, j.same j = true
  | .array items => by
    rw [same]
    exact sameItems_refl items
  | .object members => by
    rw [same]
    exact sameMembers_refl members
  | .float x => by simp [same, Binary64.Finite.sameNumber]
  | .null | .bool _ | .integer _ | .string _ => by simp [same]

theorem sameItems_refl : ∀ items : List Json, sameItems items items = true
  | [] => rfl
  | item :: rest => by simp [sameItems, same_refl item, sameItems_refl rest]

@[simp] theorem sameMembers_refl :
    ∀ members : List (String × Json), sameMembers members members = true
  | [] => rfl
  | (key, value) :: rest => by simp [sameMembers, same_refl value, sameMembers_refl rest]

end

theorem keys_of_sameMembers : ∀ {members others : List (String × Json)},
    sameMembers members others = true → members.map (·.1) = others.map (·.1)
  | [], [], _ => rfl
  | (k, v) :: rest, (l, w) :: others, h => by
    simp only [sameMembers, Bool.and_eq_true, beq_iff_eq] at h
    rw [List.map_cons, List.map_cons, keys_of_sameMembers h.2, h.1.1]
  | [], _ :: _, h => by simp [sameMembers] at h
  | _ :: _, [], h => by simp [sameMembers] at h

/-- The keys stay when the values of members are resolved. -/
theorem keys_of_resolveMembers : ∀ {members resolved : List (String × Json)},
    resolveMembers members = .ok resolved → resolved.map (·.1) = members.map (·.1)
  | [], _, h => by
    cases h
    rfl
  | (key, value) :: rest, resolved, h => by
    rw [resolveMembers] at h
    obtain ⟨v, hv, h⟩ := exists_of_bind_eq_ok h
    obtain ⟨others, hr, h⟩ := exists_of_bind_eq_ok h
    cases h
    rw [List.map_cons, List.map_cons, keys_of_resolveMembers hr]

/-- A text is embedded under the reserved key. -/
theorem eq_singleton_of_embedded? {members : List (String × Json)} {found : Json}
    (h : embedded? members = some found) (hlength : members.length ≤ 1) :
    members = [(embeddedKey, found)] := by
  match members, h, hlength with
  | [(key, value)], h, _ =>
    rw [embedded?] at h
    split at h
    next hkey =>
      cases h
      rw [hkey]
    next => cases h

/-- An object that embeds a text is not what the text says. -/
theorem not_same_of_embedded {members : List (String × Json)} {text : String} {value : Json}
    (hmembers : embedded? members = some (.string text)) (hlength : members.length ≤ 1)
    (hvalue : parseEmbedded text = .ok value) : value.canonical.same (.object members) = false := by
  obtain rfl := eq_singleton_of_embedded? hmembers hlength
  cases value with
  | object vs =>
    rw [canonical, same, Bool.eq_false_iff]
    intro hsame
    -- it would have the reserved key only, but no value that is read has this key first
    have hkeys := keys_of_sameMembers hsame
    have hplain := embedded?_of_parseWithin _ _ _ hvalue
    cases vs with
    | nil => cases hkeys
    | cons head later =>
      obtain ⟨k, v⟩ := head
      have hk : k ∈ (canonicalMembers ((k, v) :: later)).map (·.1) :=
        mem_keys_canonicalMembers.2 List.mem_cons_self
      rw [hkeys, List.map_cons, List.map_nil, List.mem_singleton] at hk
      rw [embedded?, if_pos hk] at hplain
      cases hplain
  | _ => simp [canonical, same]

mutual

/-- Only a plain value is resolved into an equal one. -/
theorem plain_of_same : ∀ (j v : Json), j.IsCanonical → resolve j = .ok v →
    v.canonical.same j = true → j.Plain
  | .array items, v, hj, hv, hsame => by
    rw [IsCanonical] at hj
    rw [resolve] at hv
    obtain ⟨vs, hvs, hv⟩ := exists_of_bind_eq_ok hv
    cases hv
    rw [canonical, same] at hsame
    rw [Plain]
    exact arePlain_of_same items vs hj hvs hsame
  | .object members, v, hj, hv, hsame => by
    rw [IsCanonical] at hj
    rw [resolve] at hv
    rw [Plain]
    split at hv
    next hnone =>
      obtain ⟨vs, hvs, hv⟩ := exists_of_bind_eq_ok hv
      cases hv
      rw [canonical, same] at hsame
      exact ⟨hnone, havePlain_of_same members vs hj.1 hj.2 hvs hsame⟩
    next text htext =>
      -- the object embeds a text, so it is not plain, and what it is resolved into differs from it
      obtain ⟨value, hvalue, hv⟩ := exists_of_bind_eq_ok hv
      by_cases hlength : 1 < members.length
      · rw [if_pos hlength] at hv
        cases hv
      · rw [if_neg hlength] at hv
        cases hv
        rw [not_same_of_embedded htext (Nat.not_lt.1 hlength) hvalue] at hsame
        cases hsame
    next => cases hv
  | .null, _, _, _, _ | .bool _, _, _, _, _ | .integer _, _, _, _, _ | .float _, _, _, _, _
  | .string _, _, _, _, _ => by simp [Plain]

theorem arePlain_of_same : ∀ items vs : List Json, AreCanonical items →
    resolveItems items = .ok vs → sameItems (canonicalItems vs) items = true → ArePlain items
  | [], _, _, _, _ => by simp [ArePlain]
  | item :: rest, vs, hitems, hvs, hsame => by
    rw [AreCanonical] at hitems
    rw [resolveItems] at hvs
    obtain ⟨v, hv, hvs⟩ := exists_of_bind_eq_ok hvs
    obtain ⟨others, hr, hvs⟩ := exists_of_bind_eq_ok hvs
    cases hvs
    rw [canonicalItems, sameItems, Bool.and_eq_true] at hsame
    rw [ArePlain]
    exact ⟨plain_of_same item v hitems.1 hv hsame.1,
      arePlain_of_same rest others hitems.2 hr hsame.2⟩

theorem havePlain_of_same : ∀ members vs : List (String × Json), Members.Increasing members →
    HaveCanonical members → resolveMembers members = .ok vs →
    sameMembers (canonicalMembers vs) members = true → HavePlain members
  | [], _, _, _, _, _ => by simp [HavePlain]
  | (key, value) :: rest, vs, hkeys, hmembers, hvs, hsame => by
    rw [HaveCanonical] at hmembers
    obtain ⟨hlt, hkeys⟩ := List.pairwise_cons.1 hkeys
    rw [resolveMembers] at hvs
    obtain ⟨v, hv, hvs⟩ := exists_of_bind_eq_ok hvs
    obtain ⟨others, hr, hvs⟩ := exists_of_bind_eq_ok hvs
    cases hvs
    -- resolving changes no key, so the first one is still in front when the members are sorted
    have hfirst : ∀ m ∈ canonicalMembers others, key < m.1 := by
      intro m hm
      have hm := mem_keys_canonicalMembers.1 (List.mem_map_of_mem (f := (·.1)) hm)
      rw [keys_of_resolveMembers hr] at hm
      obtain ⟨m', hm', heq⟩ := List.mem_map.1 hm
      exact heq ▸ hlt m' hm'
    rw [canonicalMembers, Members.insertEarlier_of_lt hfirst, sameMembers, Bool.and_eq_true,
      Bool.and_eq_true] at hsame
    rw [HavePlain]
    exact ⟨plain_of_same value v hmembers.1 hv hsame.1.2,
      havePlain_of_same rest others hkeys hmembers.2 hr hsame.2⟩

end

end Json

end DocTree
