import DocTree.Proofs.Json.RepeatedKeys

/-!
# Values without repeated keys

A value in which no object has a key twice (`Json.KeysDistinct`) says the same in every reading of
JSON, whichever of equal keys counts there.  Canonical values are such values.  Of these values, the
plain ones are just those that reading leaves as they are, but for the order of members
(`Json.plain_of_resolvesToItself`).
-/

namespace DocTree

namespace Json

mutual

/-- No object has a key twice, at any level. -/
def KeysDistinct : Json → Prop
  | array items => AreKeysDistinct items
  | object members => (members.map (·.1)).Nodup ∧ HaveKeysDistinct members
  | _ => True

/-- No item has an object with a key twice. -/
def AreKeysDistinct : List Json → Prop
  | [] => True
  | item :: rest => item.KeysDistinct ∧ AreKeysDistinct rest

/-- No value of a member has an object with a key twice. -/
def HaveKeysDistinct : List (String × Json) → Prop
  | [] => True
  | (_, value) :: rest => value.KeysDistinct ∧ HaveKeysDistinct rest

end

theorem areKeysDistinct_iff {items : List Json} :
    AreKeysDistinct items ↔ ∀ item ∈ items, item.KeysDistinct := by
  induction items with
  | nil => simp [AreKeysDistinct]
  | cons item rest ih => rw [AreKeysDistinct, ih, List.forall_mem_cons]

theorem haveKeysDistinct_iff {members : List (String × Json)} :
    HaveKeysDistinct members ↔ ∀ m ∈ members, m.2.KeysDistinct := by
  induction members with
  | nil => simp [HaveKeysDistinct]
  | cons m rest ih => rw [HaveKeysDistinct, ih, List.forall_mem_cons]

theorem keysDistinct_object {members : List (String × Json)} :
    (object members).KeysDistinct ↔
      (members.map (·.1)).Nodup ∧ ∀ m ∈ members, m.2.KeysDistinct := by
  rw [KeysDistinct, haveKeysDistinct_iff]

mutual

theorem keysDistinct_of_isCanonical : ∀ j : Json, j.IsCanonical → j.KeysDistinct
  | .array items, h => by
    rw [IsCanonical] at h
    rw [KeysDistinct]
    exact areKeysDistinct_of_areCanonical items h
  | .object members, h => by
    rw [IsCanonical] at h
    rw [KeysDistinct]
    exact ⟨Members.nodup_of_increasing h.1, haveKeysDistinct_of_haveCanonical members h.2⟩
  | .null, _ | .bool _, _ | .integer _, _ | .float _, _ | .string _, _ => by simp [KeysDistinct]

theorem areKeysDistinct_of_areCanonical : ∀ items : List Json, AreCanonical items →
    AreKeysDistinct items
  | [], _ => trivial
  | item :: rest, h => by
    rw [AreCanonical] at h
    exact ⟨keysDistinct_of_isCanonical item h.1, areKeysDistinct_of_areCanonical rest h.2⟩

theorem haveKeysDistinct_of_haveCanonical : ∀ members : List (String × Json),
    HaveCanonical members → HaveKeysDistinct members
  | [], _ => trivial
  | (_, value) :: rest, h => by
    rw [HaveCanonical] at h
    exact ⟨keysDistinct_of_isCanonical value h.1, haveKeysDistinct_of_haveCanonical rest h.2⟩

end

/-! ### Values that are read as themselves -/

theorem exists_mem_of_resolveMembers {members vs : List (String × Json)}
    (h : resolveMembers members = .ok vs) {key : String} {value : Json}
    (hmem : (key, value) ∈ members) : ∃ v, resolve value = .ok v ∧ (key, v) ∈ vs := by
  induction members generalizing vs with
  | nil => cases hmem
  | cons head rest ih =>
    obtain ⟨k, j⟩ := head
    rw [resolveMembers] at h
    obtain ⟨v, hv, h⟩ := exists_of_bind_eq_ok h
    obtain ⟨others, hr, h⟩ := exists_of_bind_eq_ok h
    cases h
    rcases List.mem_cons.1 hmem with heq | hmem
    · cases heq
      exact ⟨v, hv, List.mem_cons_self⟩
    · obtain ⟨w, hw, hmem⟩ := ih hr hmem
      exact ⟨w, hw, List.mem_cons_of_mem _ hmem⟩

/-- Reading leaves the value as it is, but for the order of members. -/
def ResolvesToItself (j : Json) : Prop := ∃ v, resolve j = .ok v ∧ v.canonical = j.canonical

/-- Keys that are not repeated tell which values belong together. -/
theorem resolvesToItself_of_mem {members vs : List (String × Json)}
    (hkeys : (members.map (·.1)).Nodup) (hvs : resolveMembers members = .ok vs)
    (heq : canonicalMembers vs = canonicalMembers members) {m : String × Json} (hm : m ∈ members) :
    m.2.ResolvesToItself := by
  obtain ⟨v, hv, hmem⟩ := exists_mem_of_resolveMembers hvs hm
  have hvalue := congrArg (Members.get? m.1) heq
  rw [get?_canonicalMembers, get?_canonicalMembers, (Members.last?_eq_some_iff_mem hkeys).2 hm,
    (Members.last?_eq_some_iff_mem (keys_of_resolveMembers hvs ▸ hkeys)).2 hmem] at hvalue
  exact ⟨v, hv, Option.some.inj hvalue⟩

theorem resolvesToItself_of_mem_items {items vs : List Json} (hvs : resolveItems items = .ok vs)
    (heq : canonicalItems vs = canonicalItems items) : ∀ item ∈ items, item.ResolvesToItself := by
  induction items generalizing vs with
  | nil => exact fun item hitem => nomatch hitem
  | cons item rest ih =>
    rw [resolveItems] at hvs
    obtain ⟨v, hv, hvs⟩ := exists_of_bind_eq_ok hvs
    obtain ⟨others, hr, hvs⟩ := exists_of_bind_eq_ok hvs
    cases hvs
    rw [canonicalItems, canonicalItems, List.cons.injEq] at heq
    exact List.forall_mem_cons.2 ⟨⟨v, hv, heq.1⟩, ih hr heq.2⟩

/-- An object that embeds a text is read as something else, if it can be read. -/
theorem not_resolvesToItself_of_embedded {members : List (String × Json)} {found : Json}
    (h : embedded? members = some found) : ¬ (object members).ResolvesToItself := by
  rintro ⟨v, hv, heq⟩
  rw [resolve, h] at hv
  cases found with
  | string text =>
    obtain ⟨value, hvalue, hv⟩ := exists_of_bind_eq_ok hv
    by_cases hlength : 1 < members.length
    · rw [if_pos hlength] at hv
      cases hv
    · rw [if_neg hlength] at hv
      cases hv
      have hsingle := Nat.not_lt.1 hlength
      have hdiffers := not_same_of_embedded h hsingle hvalue
      obtain rfl := eq_singleton_of_embedded? h hsingle
      have hsorted : (object [(embeddedKey, string text)]).canonical =
          object [(embeddedKey, string text)] := by
        simp [canonical, canonicalMembers, Members.insertEarlier]
      rw [heq, hsorted, same_refl] at hdiffers
      cases hdiffers
  | _ => cases hv

mutual

/-- A value without repeated keys is plain if reading leaves it as it is. -/
theorem plain_of_resolvesToItself : ∀ j : Json, j.KeysDistinct → j.ResolvesToItself → j.Plain
  | .array items, hkeys, ⟨v, hv, heq⟩ => by
    rw [KeysDistinct] at hkeys
    rw [resolve] at hv
    obtain ⟨vs, hvs, hv⟩ := exists_of_bind_eq_ok hv
    cases hv
    rw [canonical, canonical, array.injEq] at heq
    rw [Plain]
    exact arePlain_of_resolvesToItself items hkeys (resolvesToItself_of_mem_items hvs heq)
  | .object members, hkeys, hitself => by
    rw [KeysDistinct] at hkeys
    rw [Plain]
    cases hembedded : embedded? members with
    | some found => exact absurd hitself (not_resolvesToItself_of_embedded hembedded)
    | none =>
      obtain ⟨v, hv, heq⟩ := hitself
      rw [resolve, hembedded] at hv
      obtain ⟨vs, hvs, hv⟩ := exists_of_bind_eq_ok hv
      cases hv
      rw [canonical, canonical, object.injEq] at heq
      exact ⟨rfl, havePlain_of_resolvesToItself members hkeys.2 fun m hm =>
        resolvesToItself_of_mem hkeys.1 hvs heq hm⟩
  | .null, _, _ | .bool _, _, _ | .integer _, _, _ | .float _, _, _ | .string _, _, _ => by
    simp [Plain]

theorem arePlain_of_resolvesToItself : ∀ items : List Json, AreKeysDistinct items →
    (∀ item ∈ items, item.ResolvesToItself) → ArePlain items
  | [], _, _ => trivial
  | item :: rest, hkeys, h => by
    rw [AreKeysDistinct] at hkeys
    exact ⟨plain_of_resolvesToItself item hkeys.1 (h item List.mem_cons_self),
      arePlain_of_resolvesToItself rest hkeys.2 fun other hother =>
        h other (List.mem_cons_of_mem _ hother)⟩

theorem havePlain_of_resolvesToItself : ∀ members : List (String × Json), HaveKeysDistinct members →
    (∀ m ∈ members, m.2.ResolvesToItself) → HavePlain members
  | [], _, _ => trivial
  | (key, value) :: rest, hkeys, h => by
    rw [HaveKeysDistinct] at hkeys
    exact ⟨plain_of_resolvesToItself value hkeys.1 (h (key, value) List.mem_cons_self),
      havePlain_of_resolvesToItself rest hkeys.2 fun m hm => h m (List.mem_cons_of_mem _ hm)⟩

end

end Json

end DocTree
