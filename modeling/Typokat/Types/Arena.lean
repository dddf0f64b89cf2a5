import Typokat.Types.Store

/-!
# Well-Formed Arenas

Every operation of the interner keeps the columns of the arena aligned and every
side-table row the sole owner of its slot.  The specification lemmas below say what
each store operation does to the rows; later modules use only these.

## Main Results

- `Store.WellFormed` : the invariant of the columns
- `Store.appended_push`, `Store.appended_pushEntry` : appending adds one row
- `Store.setEntry_of_suffix` : filling a suffix row changes that row only
- `Store.resealed_freezeAsBase`, `Store.resealed_forkDelta` : sealing and forking change
  no row
-/

namespace Typokat.Types

open LayeredMap Option Function Row

namespace Store

/-! ## §1 The invariant -/

/-- All columns are sealed together and none has overrides. -/
structure Aligned (s : Store) : Prop where
  plain_tag : s.tagColumn.Plain
  plain_flags : s.flagsColumn.Plain
  plain_payload : s.payloadColumn.Plain
  plain_tables : ∀ t, (s.tables t).Plain
  plain_recipes : s.declaredRecipes.Plain
  plain_names : s.typeParamNames.Plain
  plain_constraints : s.typeParamConstraints.Plain
  plain_frozen : s.frozenTypeParams.Plain
  sealed_flags : s.flagsColumn.sealed = s.tagColumn.sealed
  sealed_payload : s.payloadColumn.sealed = s.tagColumn.sealed
  sealed_tables : ∀ t, (s.tables t).sealed = s.tagColumn.sealed
  sealed_recipes : s.declaredRecipes.sealed = s.tagColumn.sealed
  sealed_names : s.typeParamNames.sealed = s.tagColumn.sealed
  sealed_constraints : s.typeParamConstraints.sealed = s.tagColumn.sealed
  sealed_frozen : s.frozenTypeParams.sealed = s.tagColumn.sealed
  flags_len : s.flagsColumn.len = s.tagColumn.len
  payload_len : s.payloadColumn.len = s.tagColumn.len

/-- **Every row owns its slot.** -/
structure WellFormed (s : Store) : Prop extends Aligned s where
  /-- the slot of a row exists -/
  slot_lt : ∀ t id p, s.tag id = some (SideTable.tag t) → s.payload id = some p →
    p < (s.tables t).len
  /-- no other row has the same slot -/
  slot_injective : ∀ t id id' p, s.tag id = some (SideTable.tag t) →
    s.tag id' = some t.tag → s.payload id = some p → s.payload id' = some p → id = id'
  /-- rows of the suffix have slots of the suffix -/
  slot_base : ∀ t id p, s.tag id = some (SideTable.tag t) → s.payload id = some p →
    s.baseLen ≤ id → (s.tables t).baseLen ≤ p
  /-- an inline payload denotes a row -/
  inline_row : ∀ id tag p, s.tag id = some tag → tag.sideTable = none → s.payload id = some p →
    (Row.ofInline tag p).isSome = true

theorem wellFormed_new : WellFormed new where
  plain_tag := LayeredVec.plain_default
  plain_flags := LayeredVec.plain_default
  plain_payload := LayeredVec.plain_default
  plain_tables := fun _ => LayeredVec.plain_default
  plain_recipes := LayeredVec.plain_default
  plain_names := ⟨rfl, rfl, rfl, fun _ => rfl⟩
  plain_constraints := ⟨rfl, rfl, rfl, fun _ => rfl⟩
  plain_frozen := fun _ => rfl
  sealed_flags := rfl
  sealed_payload := rfl
  sealed_tables := fun _ => rfl
  sealed_recipes := rfl
  sealed_names := rfl
  sealed_constraints := rfl
  sealed_frozen := rfl
  flags_len := rfl
  payload_len := rfl
  slot_lt := by
    intro t id p h
    simp [tag, new, LayeredVec.get] at h
  slot_injective := by
    intro t id id' p h
    simp [tag, new, LayeredVec.get] at h
  slot_base := by
    intro t id p h
    simp [tag, new, LayeredVec.get] at h
  inline_row := by
    intro id tag p h
    simp [Store.tag, new, LayeredVec.get] at h

/-! ## §2 Reading rows -/

theorem tag_isSome_iff (s : Store) (id : TypeId) : (s.tag id).isSome = true ↔ id < s.len :=
  s.tagColumn.get_isSome_iff id

theorem baseLen_le_len (s : Store) : s.baseLen ≤ s.len := by
  simp only [baseLen, len, LayeredVec.baseLen, LayeredVec.len]
  omega

theorem tag_eq_none_of_le (s : Store) {id : TypeId} (h : s.len ≤ id) : s.tag id = none :=
  s.tagColumn.get_eq_none_of_le h

theorem row_eq_none_of_le (s : Store) {id : TypeId} (h : s.len ≤ id) : s.row id = none := by
  rw [row, s.tag_eq_none_of_le h]
  rfl

theorem row_of_entry_tag {s : Store} {t : SideTable} {id : TypeId} (h : s.tag id = some t.tag) :
    s.row id = (s.entry t id).map (ofEntry t) := by
  simp only [row, h, bind_some, SideTable.sideTable_tag]

theorem row_of_inline_tag {s : Store} {tag : TypeTag} {id : TypeId} (h : s.tag id = some tag)
    (htag : tag.sideTable = none) : s.row id = (s.payload id).bind (ofInline tag) := by
  simp only [row, h, bind_some, htag]

/-- The tag column agrees with the row. -/
theorem tag_of_row {s : Store} {id : TypeId} {r : Row} (h : s.row id = some r) :
    s.tag id = some r.tag := by
  rw [row] at h
  obtain ⟨tag, htag, h⟩ := bind_eq_some_iff.mp h
  cases ht : tag.sideTable with
  | some t =>
    rw [ht] at h
    obtain ⟨e, _, rfl⟩ := map_eq_some_iff.mp h
    rw [htag, tag_ofEntry, TypeTag.sideTable_eq_some.mp ht]
  | none =>
    rw [ht] at h
    obtain ⟨p, _, hr⟩ := bind_eq_some_iff.mp h
    rw [htag, tag_of_ofInline hr]

/-- A side-table accessor reads the row back. -/
theorem entry_eq_some_iff (s : Store) (t : SideTable) (id : TypeId) (e : t.Entry) :
    s.entry t id = some e ↔ s.row id = some (ofEntry t e) := by
  constructor
  · intro h
    have htag : s.tag id = some t.tag := by
      by_contra hne
      simp [entry, hne] at h
    rw [row_of_entry_tag htag, h]
    rfl
  · intro h
    have htag := tag_of_row h
    rw [tag_ofEntry] at htag
    rw [row_of_entry_tag htag] at h
    obtain ⟨e', he', heq⟩ := map_eq_some_iff.mp h
    rw [he', ofEntry_injective t heq]

theorem tag_of_entry {s : Store} {t : SideTable} {id : TypeId} {e : t.Entry}
    (h : s.entry t id = some e) : s.tag id = some t.tag := by
  have htag := tag_of_row ((s.entry_eq_some_iff t id e).mp h)
  rw [tag_ofEntry] at htag
  exact htag

/-- An id has an entry in one table only. -/
theorem entry_tag_unique {s : Store} {t t' : SideTable} {id : TypeId} {e : t.Entry} {e' : t'.Entry}
    (h : s.entry t id = some e) (h' : s.entry t' id = some e') :
    t'.tag = t.tag := by
  have htag := tag_of_entry h
  rw [tag_of_entry h', some.injEq] at htag
  exact htag

theorem entry_eq_none_of_entry {s : Store} {t t' : SideTable} {id : TypeId} {e : t.Entry}
    (h : s.entry t id = some e) (hne : t'.tag ≠ t.tag) : s.entry t' id = none := by
  rw [eq_none_iff_forall_ne_some]
  intro e' h'
  exact hne (entry_tag_unique h h')

/-- An id with an entry is no inline row. -/
theorem inlinePayload_eq_none_of_entry {s : Store} {t : SideTable} {id : TypeId} {e : t.Entry}
    (h : s.entry t id = some e) {tag : TypeTag} (hne : tag ≠ t.tag) :
    s.inlinePayload tag id = none := by
  unfold inlinePayload
  rw [tag_of_entry h, if_neg (by simpa using hne.symm)]

/-- An inline accessor reads the row back. -/
theorem inlinePayload_eq_some_iff (s : Store) {tag : TypeTag} (htag : tag.sideTable = none)
    {p : Nat} {r : Row} (hr : ∀ q, ofInline tag q = some r ↔ q = p) (id : TypeId) :
    s.inlinePayload tag id = some p ↔ s.row id = some r := by
  have hrtag : r.tag = tag := tag_of_ofInline ((hr p).mpr rfl)
  constructor
  · intro h
    have ht : s.tag id = some tag := by
      by_contra hne
      simp [inlinePayload, hne] at h
    rw [inlinePayload, if_pos ht] at h
    rw [row_of_inline_tag ht htag, h]
    exact (hr p).mpr rfl
  · intro h
    have ht : s.tag id = some tag := by
      rw [tag_of_row h, hrtag]
    rw [row_of_inline_tag ht htag] at h
    obtain ⟨q, hq, hqr⟩ := bind_eq_some_iff.mp h
    rw [inlinePayload, if_pos ht, hq, (hr q).mp hqr]

theorem entry_congr {s s' : Store} {id : TypeId} (h : s'.row id = s.row id) (t : SideTable) :
    s'.entry t id = s.entry t id := by
  cases hs : s.entry t id with
  | some e =>
    rw [entry_eq_some_iff, h]
    exact (s.entry_eq_some_iff t id e).mp hs
  | none =>
    rw [eq_none_iff_forall_ne_some]
    intro e he
    have := (s.entry_eq_some_iff t id e).mpr (h ▸ (s'.entry_eq_some_iff t id e).mp he)
    rw [hs] at this
    cases this

namespace WellFormed

variable {s : Store}

theorem payload_isSome (h : s.WellFormed) {id : TypeId} {tag : TypeTag} (htag : s.tag id = some tag) :
    ∃ p, s.payload id = some p := by
  have hlt : id < s.tagColumn.len := by
    rw [← s.tagColumn.get_isSome_iff]
    exact isSome_iff_exists.mpr ⟨tag, htag⟩
  rw [← h.payload_len] at hlt
  exact isSome_iff_exists.mp (s.payloadColumn.get_isSome_of_lt hlt)

/-- Every id in range denotes a row. -/
theorem row_isSome (h : s.WellFormed) {id : TypeId} (hid : id < s.len) :
    ∃ r, s.row id = some r := by
  obtain ⟨tag, htag⟩ := isSome_iff_exists.mp ((s.tag_isSome_iff id).mpr hid)
  obtain ⟨p, hp⟩ := h.payload_isSome htag
  cases ht : tag.sideTable with
  | some t =>
    have htag' : s.tag id = some t.tag := by rw [htag, TypeTag.sideTable_eq_some.mp ht]
    obtain ⟨e, he⟩ := isSome_iff_exists.mp
      ((s.tables t).get_isSome_of_lt (h.slot_lt t id p htag' hp))
    refine ⟨ofEntry t e, ?_⟩
    rw [row_of_entry_tag htag', entry, if_pos htag', hp, bind_some, he]
    rfl
  | none =>
    obtain ⟨r, hr⟩ := isSome_iff_exists.mp (h.inline_row id tag p htag ht hp)
    exact ⟨r, by rw [row_of_inline_tag htag ht, hp]; exact hr⟩

theorem lt_of_row (_h : s.WellFormed) {id : TypeId} {r : Row} (hr : s.row id = some r) :
    id < s.len := by
  rw [← tag_isSome_iff, tag_of_row hr]
  rfl

end WellFormed

/-- The layers that an arena shares with its forks. -/
structure Layers where
  sealed : Bool
  typeParamIds : FxHashSet TypeParamId
  tags : List TypeTag
  flags : List TypeFlags
  payloads : List Nat
  tables : (t : SideTable) → List t.Entry
  names : FxHashMap TypeParamId String
  recipes : List DeclaredTypeRecipe
  constraints : FxHashMap TypeParamId TypeId
  frozen : FxHashSet TypeParamId

/-- The shared layers of an arena. -/
def layers (s : Store) : Layers where
  sealed := s.tagColumn.sealed
  typeParamIds := s.sealedTypeParamIds
  tags := s.tagColumn.base
  flags := s.flagsColumn.base
  payloads := s.payloadColumn.base
  tables := fun t => (s.tables t).base
  names := s.typeParamNames.base
  recipes := s.declaredRecipes.base
  constraints := s.typeParamConstraints.base
  frozen := s.frozenTypeParams.base

/-! ## §3 Appending a row -/

/-- `s'` is `s` with one more row `r`. -/
structure Appended (s s' : Store) (r : Row) : Prop where
  len_eq : s'.len = s.len + 1
  baseLen_eq : s'.baseLen = s.baseLen
  row_new : s'.row s.len = some r
  row_old : ∀ id, id ≠ s.len → s'.row id = s.row id
  recipes_eq : s'.declaredRecipes = s.declaredRecipes
  constraints_eq : s'.typeParamConstraints = s.typeParamConstraints
  names_eq : r.tag ≠ .typeParam → s'.typeParamNames = s.typeParamNames
  identity_eq : s'.semanticGraphIdentity = s.semanticGraphIdentity
  sealed_eq : s'.tagColumn.sealed = s.tagColumn.sealed
  layers_eq : s'.layers = s.layers
  wellFormed : s'.WellFormed

section Push

variable {s : Store} {tag : TypeTag} {flags : TypeFlags} {payload : Nat}

theorem tag_push_self : (s.push tag flags payload).2.tag s.len = some tag :=
  s.tagColumn.get_pushLocal_self tag

theorem tag_push_of_ne {id : TypeId} (h : id ≠ s.len) :
    (s.push tag flags payload).2.tag id = s.tag id :=
  s.tagColumn.get_pushLocal_of_ne tag h

theorem payload_push_self (hs : s.Aligned) :
    (s.push tag flags payload).2.payload s.len = some payload := by
  have h := s.payloadColumn.get_pushLocal_self payload
  rw [hs.payload_len] at h
  exact h

theorem payload_push_of_ne (hs : s.Aligned) {id : TypeId} (h : id ≠ s.len) :
    (s.push tag flags payload).2.payload id = s.payload id := by
  refine s.payloadColumn.get_pushLocal_of_ne payload ?_
  rw [hs.payload_len]
  exact h

theorem aligned_push (hs : s.Aligned) : (s.push tag flags payload).2.Aligned :=
  { hs with
    plain_tag := hs.plain_tag
    plain_flags := hs.plain_flags
    plain_payload := hs.plain_payload
    flags_len := by
      have := hs.flags_len
      simp only [push, LayeredVec.len_pushLocal]
      omega
    payload_len := by
      have := hs.payload_len
      simp only [push, LayeredVec.len_pushLocal]
      omega }

/-- Old rows read the same after a push, as long as their side table does. -/
theorem row_push_of_ne (hs : s.Aligned) {id : TypeId} (h : id ≠ s.len) :
    (s.push tag flags payload).2.row id = s.row id := by
  have hentry : ∀ t, (s.push tag flags payload).2.entry t id = s.entry t id := by
    intro t
    simp only [entry, tag_push_of_ne h, payload_push_of_ne hs h]
    rfl
  simp only [row, tag_push_of_ne h, payload_push_of_ne hs h, hentry]

/-- Appending a row whose data is inline. -/
theorem appended_push (hs : s.WellFormed) (htag : tag.sideTable = none) {r : Row}
    (hr : ofInline tag payload = some r) : Appended s (s.push tag flags payload).2 r where
  len_eq := s.tagColumn.len_pushLocal tag
  baseLen_eq := rfl
  row_new := by
    rw [row_of_inline_tag tag_push_self htag, payload_push_self hs.toAligned]
    exact hr
  row_old := fun id h => row_push_of_ne hs.toAligned h
  recipes_eq := rfl
  constraints_eq := rfl
  names_eq := fun _ => rfl
  identity_eq := rfl
  sealed_eq := rfl
  layers_eq := rfl
  wellFormed :=
    -- the new row has no side table, so a slot is one of an old row
    { aligned_push hs.toAligned with
      slot_lt := by
        intro t id p ht hp
        by_cases hid : id = s.len
        · rw [hid, tag_push_self, some.injEq] at ht
          rw [ht, SideTable.sideTable_tag] at htag
          cases htag
        · rw [tag_push_of_ne hid] at ht
          rw [payload_push_of_ne hs.toAligned hid] at hp
          exact hs.slot_lt t id p ht hp
      slot_injective := by
        intro t id id' p ht ht' hp hp'
        by_cases hid : id = s.len
        · rw [hid, tag_push_self, some.injEq] at ht
          rw [ht, SideTable.sideTable_tag] at htag
          cases htag
        · by_cases hid' : id' = s.len
          · rw [hid', tag_push_self, some.injEq] at ht'
            rw [ht', SideTable.sideTable_tag] at htag
            cases htag
          · rw [tag_push_of_ne hid] at ht
            rw [tag_push_of_ne hid'] at ht'
            rw [payload_push_of_ne hs.toAligned hid] at hp
            rw [payload_push_of_ne hs.toAligned hid'] at hp'
            exact hs.slot_injective t id id' p ht ht' hp hp'
      slot_base := by
        intro t id p ht hp hbase
        by_cases hid : id = s.len
        · rw [hid, tag_push_self, some.injEq] at ht
          rw [ht, SideTable.sideTable_tag] at htag
          cases htag
        · rw [tag_push_of_ne hid] at ht
          rw [payload_push_of_ne hs.toAligned hid] at hp
          exact hs.slot_base t id p ht hp hbase
      inline_row := by
        intro id tag' p ht hnone hp
        by_cases hid : id = s.len
        · rw [hid, tag_push_self, some.injEq] at ht
          rw [hid, payload_push_self hs.toAligned, some.injEq] at hp
          rw [← ht, ← hp, hr]
          rfl
        · rw [tag_push_of_ne hid] at ht
          rw [payload_push_of_ne hs.toAligned hid] at hp
          exact hs.inline_row id tag' p ht hnone hp }

end Push

/-! ### Rows with a side-table entry -/

/-- The store with one more entry in a side table, before the row is pushed. -/
def withEntry (s : Store) (t : SideTable) (value : t.Entry) : Store :=
  { s with tables := Function.update s.tables t ((s.tables t).pushLocal value).2 }

section PushEntry

variable {s : Store} {t : SideTable} {value : t.Entry} {flags : TypeFlags}

theorem pushEntry_eq : s.pushEntry t value flags
    = (s.withEntry t value).push t.tag flags (s.tables t).len := rfl

theorem aligned_withEntry (hs : s.Aligned) : (s.withEntry t value).Aligned :=
  { hs with
    plain_tables := by
      intro t'
      by_cases h : t' = t
      · subst h
        simp only [withEntry, update_self]
        exact LayeredVec.plain_pushLocal (hs.plain_tables t') value
      · simp only [withEntry, update_of_ne h]
        exact hs.plain_tables t'
    sealed_tables := by
      intro t'
      by_cases h : t' = t
      · subst h
        simp only [withEntry, update_self]
        exact hs.sealed_tables t'
      · simp only [withEntry, update_of_ne h]
        exact hs.sealed_tables t' }

theorem len_withEntry (t' : SideTable) :
    ((s.withEntry t value).tables t').len
      = if t' = t then (s.tables t).len + 1 else (s.tables t').len := by
  by_cases h : t' = t
  · subst h
    simp [withEntry]
  · simp [withEntry, h]

theorem baseLen_withEntry (t' : SideTable) :
    ((s.withEntry t value).tables t').baseLen = (s.tables t').baseLen := by
  by_cases h : t' = t
  · subst h
    simp [withEntry]
  · simp [withEntry, h]

theorem get_withEntry_of_lt {t' : SideTable} {p : Nat} (h : p < (s.tables t').len) :
    ((s.withEntry t value).tables t').get p = (s.tables t').get p := by
  by_cases ht : t' = t
  · subst ht
    simp only [withEntry, update_self]
    exact (s.tables t').get_pushLocal_of_lt value h
  · simp only [withEntry, update_of_ne ht]

/-- Old rows do not see the new entry. -/
theorem layers_withEntry : (s.withEntry t value).layers = s.layers := by
  have htables : (fun t' => ((s.withEntry t value).tables t').base) = fun t' =>
    (s.tables t').base := by
    funext t'
    by_cases h : t' = t
    · subst h
      simp [withEntry, LayeredVec.pushLocal]
    · simp [withEntry, update_of_ne h]
  unfold layers
  rw [htables]
  rfl

theorem row_withEntry (hs : s.WellFormed) (id : TypeId) :
    (s.withEntry t value).row id = s.row id := by
  have hentry : ∀ t', (s.withEntry t value).entry t' id = s.entry t' id := by
    intro t'
    show (if s.tag id = some t'.tag then
        (s.payload id).bind ((s.withEntry t value).tables t').get else none)
      = s.entry t' id
    by_cases htag : s.tag id = some t'.tag
    · obtain ⟨p, hp⟩ := hs.payload_isSome htag
      rw [entry, if_pos htag, if_pos htag, hp]
      exact get_withEntry_of_lt (hs.slot_lt t' id p htag hp)
    · rw [entry, if_neg htag, if_neg htag]
  show (s.tag id).bind _ = (s.tag id).bind _
  congr 1
  funext tag
  cases tag.sideTable with
  | some t' => exact congrArg (Option.map (ofEntry t')) (hentry t')
  | none => rfl

/-- **Appending a row with a side-table entry.** -/
theorem appended_pushEntry (hs : s.WellFormed) :
    Appended s (s.pushEntry t value flags).2 (ofEntry t value) where
  len_eq := s.tagColumn.len_pushLocal t.tag
  baseLen_eq := rfl
  row_new := by
    have haligned : (s.withEntry t value).Aligned := aligned_withEntry hs.toAligned
    have htag : (s.pushEntry t value flags).2.tag s.len = some t.tag := tag_push_self
    have hpayload : (s.pushEntry t value flags).2.payload s.len = some (s.tables t).len :=
      payload_push_self haligned
    rw [row_of_entry_tag htag, entry, if_pos htag, hpayload, bind_some]
    have hget : ((s.pushEntry t value flags).2.tables t).get (s.tables t).len = some value := by
      show ((s.withEntry t value).tables t).get (s.tables t).len = some value
      simp only [withEntry, update_self]
      exact (s.tables t).get_pushLocal_self value
    rw [hget]
    rfl
  row_old := by
    intro id h
    rw [pushEntry_eq, row_push_of_ne (aligned_withEntry hs.toAligned) h, row_withEntry hs]
  recipes_eq := rfl
  constraints_eq := rfl
  names_eq := fun _ => rfl
  identity_eq := rfl
  sealed_eq := rfl
  layers_eq := layers_withEntry
  wellFormed := by
    have haligned : (s.withEntry t value).Aligned := aligned_withEntry hs.toAligned
    -- an old row with a slot, seen from the extended arena
    have hold : ∀ {t' : SideTable} {id p},
        id ≠ s.len → (s.pushEntry t value flags).2.tag id = some t'.tag →
        (s.pushEntry t value flags).2.payload id = some p →
        s.tag id = some t'.tag ∧ s.payload id = some p := by
      intro t' id p hid ht hp
      have htag : (s.pushEntry t value flags).2.tag id = s.tag id := tag_push_of_ne hid
      have hpayload : (s.pushEntry t value flags).2.payload id = s.payload id :=
        payload_push_of_ne haligned hid
      exact ⟨htag ▸ ht, hpayload ▸ hp⟩
    -- the new row is in the last slot of its table
    have hnew : ∀ {t' : SideTable} {p}, (s.pushEntry t value flags).2.tag s.len = some t'.tag →
        (s.pushEntry t value flags).2.payload s.len = some p →
        t' = t ∧ p = (s.tables t').len := by
      intro t' p ht hp
      have ht' : some t.tag = some t'.tag := tag_push_self.symm.trans ht
      have hp' : some (s.tables t).len = some p := (payload_push_self haligned).symm.trans hp
      have := SideTable.tag_injective (some.inj ht')
      subst this
      exact ⟨rfl, (some.inj hp').symm⟩
    have hlen : ∀ t', ((s.pushEntry t value flags).2.tables t').len
        = if t' = t then (s.tables t).len + 1 else (s.tables t').len := len_withEntry
    exact
      { aligned_push haligned with
        slot_lt := by
          intro t' id p ht hp
          rw [show ((s.pushEntry t value flags).2.tables t').len = _ from hlen t']
          by_cases hid : id = s.len
          · subst hid
            obtain ⟨rfl, rfl⟩ := hnew ht hp
            simp
          · obtain ⟨ht, hp⟩ := hold hid ht hp
            have := hs.slot_lt t' id p ht hp
            split
            · rename_i h
              subst h
              omega
            · exact this
        slot_injective := by
          intro t' id id' p ht ht' hp hp'
          by_cases hid : id = s.len
          · by_cases hid' : id' = s.len
            · rw [hid, hid']
            · subst hid
              obtain ⟨rfl, rfl⟩ := hnew ht hp
              obtain ⟨ht', hp'⟩ := hold hid' ht' hp'
              exact absurd (hs.slot_lt _ id' _ ht' hp') (lt_irrefl _)
          · by_cases hid' : id' = s.len
            · subst hid'
              obtain ⟨rfl, rfl⟩ := hnew ht' hp'
              obtain ⟨ht, hp⟩ := hold hid ht hp
              exact absurd (hs.slot_lt _ id _ ht hp) (lt_irrefl _)
            · obtain ⟨ht, hp⟩ := hold hid ht hp
              obtain ⟨ht', hp'⟩ := hold hid' ht' hp'
              exact hs.slot_injective t' id id' p ht ht' hp hp'
        slot_base := by
          intro t' id p ht hp hbase
          rw [show ((s.pushEntry t value flags).2.tables t').baseLen = _ from baseLen_withEntry t']
          by_cases hid : id = s.len
          · subst hid
            obtain ⟨rfl, rfl⟩ := hnew ht hp
            unfold LayeredVec.baseLen LayeredVec.len
            omega
          · obtain ⟨ht, hp⟩ := hold hid ht hp
            exact hs.slot_base t' id p ht hp hbase
        inline_row := by
          intro id tag p ht hnone hp
          by_cases hid : id = s.len
          · subst hid
            have ht' : some t.tag = some tag := tag_push_self.symm.trans ht
            rw [← some.inj ht', SideTable.sideTable_tag] at hnone
            cases hnone
          · rw [show (s.pushEntry t value flags).2.tag id = _ from tag_push_of_ne hid] at ht
            rw [show (s.pushEntry t value flags).2.payload id = _ from
              payload_push_of_ne haligned hid] at hp
            exact hs.inline_row id tag p ht hnone hp }

theorem appended_pushTypeParam (hs : s.WellFormed) (param : TypeParamType) :
    Appended s (s.pushTypeParam param flags).2
      (.typeParam ⟨param.id, (s.typeParamNames.get param.id).getD param.name⟩) := by
  -- the name index is updated before the row is pushed
  let names := s.typeParamNames.insertAppendOnly param.id param.name
  let renamed := { s with typeParamNames := names.2 }
  have hplain := plain_insertAppendOnly hs.plain_names param.id param.name
  have hretained := (insertAppendOnly_of_plain hs.plain_names param.id param.name).1
  have hwf : renamed.WellFormed :=
    { hs with
      plain_names := hplain.1
      sealed_names := hplain.2.trans hs.sealed_names }
  have happ : Appended renamed (s.pushTypeParam param flags).2
      (.typeParam ⟨param.id, names.1.getD param.name⟩) :=
    appended_pushEntry (t := .typeParams) hwf
  rw [← hretained]
  exact
    { happ with
      names_eq := fun hne => absurd rfl hne
      layers_eq := by
        have hbase := base_insertAppendOnly s.typeParamNames param.id param.name
        refine happ.layers_eq.trans ?_
        show ({ s with typeParamNames := names.2 } : Store).layers = s.layers
        unfold Store.layers
        rw [hbase] }

/-- The name index after a parameter row is pushed. -/
theorem names_pushTypeParam (hs : s.WellFormed) (param : TypeParamType) (id : TypeParamId) :
    (s.pushTypeParam param flags).2.typeParamNames.get id
      = if id = param.id then some ((s.typeParamNames.get param.id).getD param.name)
        else s.typeParamNames.get id :=
  (insertAppendOnly_of_plain hs.plain_names param.id param.name).2 id

end PushEntry

/-! ## §4 Filling a row -/

/-- `s'` is `s` with the body of the row `id` replaced by `r`. -/
structure Replaced (s s' : Store) (id : TypeId) (r : Row) : Prop where
  len_eq : s'.len = s.len
  baseLen_eq : s'.baseLen = s.baseLen
  row_new : s'.row id = some r
  row_old : ∀ id', id' ≠ id → s'.row id' = s.row id'
  tag_eq : ∀ id', s'.tag id' = s.tag id'
  recipes_eq : s'.declaredRecipes = s.declaredRecipes
  constraints_eq : s'.typeParamConstraints = s.typeParamConstraints
  names_eq : s'.typeParamNames = s.typeParamNames
  identity_eq : s'.semanticGraphIdentity = s.semanticGraphIdentity
  sealed_eq : s'.tagColumn.sealed = s.tagColumn.sealed
  layers_eq : s'.layers = s.layers
  wellFormed : s'.WellFormed

/-- **Filling a suffix row succeeds and changes that row only.** -/
theorem setEntry_of_suffix {s : Store} (hs : s.WellFormed) {t : SideTable} {id : TypeId}
    (value : t.Entry) (htag : s.tag id = some t.tag) (hid : s.baseLen ≤ id) :
    ∃ s', s.setEntry t id value = some s' ∧ Replaced s s' id (ofEntry t value) := by
  obtain ⟨p, hp⟩ := hs.payload_isSome htag
  obtain ⟨table, hset, hlen, hbaseLen, hself, hother, hplain⟩ :=
    (s.tables t).setLocal_of_baseLen_le value (hs.slot_base t id p htag hp hid)
      (hs.slot_lt t id p htag hp)
  refine ⟨{ s with tables := update s.tables t table }, ?_, ?_⟩
  · simp only [setEntry, if_pos htag, hp, bind_eq_bind, bind_some, hset]
  generalize hs' : ({ s with tables := update s.tables t table } : Store) = s'
  have htag' : ∀ id', s'.tag id' = s.tag id' := by
    intro id'
    rw [← hs']
    rfl
  have hpayload' : ∀ id', s'.payload id' = s.payload id' := by
    intro id'
    rw [← hs']
    rfl
  have htable : s'.tables t = table := by
    rw [← hs']
    exact update_self t table s.tables
  have htables : ∀ t', t' ≠ t → s'.tables t' = s.tables t' := by
    intro t' h
    rw [← hs']
    exact update_of_ne h table s.tables
  have hlens : ∀ t', (s'.tables t').len = (s.tables t').len := by
    intro t'
    by_cases h : t' = t
    · subst h
      rw [htable, hlen]
    · rw [htables t' h]
  have hbaseLens : ∀ t', (s'.tables t').baseLen = (s.tables t').baseLen := by
    intro t'
    by_cases h : t' = t
    · subst h
      rw [htable, hbaseLen]
    · rw [htables t' h]
  -- another row reads another slot, or another table
  have hentry : ∀ id', id' ≠ id → ∀ t', s'.entry t' id' = s.entry t' id' := by
    intro id' hne t'
    simp only [entry, htag', hpayload']
    by_cases hte : s.tag id' = some t'.tag
    · rw [if_pos hte, if_pos hte]
      obtain ⟨p', hp'⟩ := hs.payload_isSome hte
      rw [hp', bind_some, bind_some]
      by_cases h : t' = t
      · subst h
        rw [htable]
        refine hother p' (fun hpp => hne ?_)
        subst hpp
        exact hs.slot_injective t' id' id p' hte htag hp' hp
      · rw [htables t' h]
    · rw [if_neg hte, if_neg hte]
  exact
    { len_eq := by rw [← hs']; rfl
      baseLen_eq := by rw [← hs']; rfl
      row_new := by
        have htagid : s'.tag id = some t.tag := (htag' id).trans htag
        rw [row_of_entry_tag htagid, entry, if_pos htagid, hpayload', hp, bind_some, htable, hself]
        rfl
      row_old := by
        intro id' hne
        simp only [row, htag', hpayload', hentry id' hne]
      tag_eq := htag'
      recipes_eq := by rw [← hs']
      constraints_eq := by rw [← hs']
      names_eq := by rw [← hs']
      identity_eq := by rw [← hs']
      sealed_eq := by rw [← hs']
      layers_eq := by
        have htableBase : (fun t' => (s'.tables t').base) = fun t' => (s.tables t').base := by
          funext t'
          by_cases h : t' = t
          · subst h
            rw [htable]
            exact LayeredVec.base_of_setLocal hset
          · rw [htables t' h]
        unfold layers
        rw [htableBase, ← hs']
      wellFormed :=
        { plain_tag := by rw [← hs']; exact hs.plain_tag
          plain_flags := by rw [← hs']; exact hs.plain_flags
          plain_payload := by rw [← hs']; exact hs.plain_payload
          plain_tables := by
            intro t'
            by_cases h : t' = t
            · subst h
              rw [htable]
              exact hplain (hs.plain_tables t')
            · rw [htables t' h]
              exact hs.plain_tables t'
          plain_recipes := by rw [← hs']; exact hs.plain_recipes
          plain_names := by rw [← hs']; exact hs.plain_names
          plain_constraints := by rw [← hs']; exact hs.plain_constraints
          plain_frozen := by rw [← hs']; exact hs.plain_frozen
          sealed_flags := by rw [← hs']; exact hs.sealed_flags
          sealed_payload := by rw [← hs']; exact hs.sealed_payload
          sealed_tables := by
            intro t'
            have hsealed : table.sealed = (s.tables t).sealed :=
              LayeredVec.sealed_of_setLocal hset
            have htagSealed : s'.tagColumn.sealed = s.tagColumn.sealed := by rw [← hs']
            by_cases h : t' = t
            · subst h
              rw [htable, hsealed, htagSealed]
              exact hs.sealed_tables t'
            · rw [htables t' h, htagSealed]
              exact hs.sealed_tables t'
          sealed_recipes := by rw [← hs']; exact hs.sealed_recipes
          sealed_names := by rw [← hs']; exact hs.sealed_names
          sealed_constraints := by rw [← hs']; exact hs.sealed_constraints
          sealed_frozen := by rw [← hs']; exact hs.sealed_frozen
          flags_len := by rw [← hs']; exact hs.flags_len
          payload_len := by rw [← hs']; exact hs.payload_len
          slot_lt := by
            intro t' id' p' ht hp'
            rw [hlens]
            exact hs.slot_lt t' id' p' (htag' id' ▸ ht) (hpayload' id' ▸ hp')
          slot_injective := by
            intro t' a b q hta htb hpa hpb
            exact hs.slot_injective t' a b q (htag' a ▸ hta) (htag' b ▸ htb)
              (hpayload' a ▸ hpa) (hpayload' b ▸ hpb)
          slot_base := by
            intro t' id' p' ht hp' hb
            rw [hbaseLens]
            refine hs.slot_base t' id' p' (htag' id' ▸ ht) (hpayload' id' ▸ hp') ?_
            rw [← hs'] at hb
            exact hb
          inline_row := by
            intro id' tag' p' ht hnone hp'
            exact hs.inline_row id' tag' p' (htag' id' ▸ ht) hnone (hpayload' id' ▸ hp') } }

/-! ## §5 Sealing and forking -/

theorem bind_eq_ok {α β : Type} {x : Except String α} {f : α → Except String β} {b : β}
    (h : (x >>= f) = .ok b) : ∃ a, x = .ok a ∧ f a = .ok b := by
  cases x with
  | error e => cases h
  | ok a => exact ⟨a, rfl, h⟩

variable {f : {T : Type} → LayeredVec T → Except String (LayeredVec T)}

theorem mapTables_eq_ok {tables tables' : (t : SideTable) → LayeredVec t.Entry}
    (h : mapTables f tables = .ok tables') : ∀ t, f (tables t) = .ok (tables' t) := by
  unfold mapTables at h
  obtain ⟨_, h₁, h⟩ := bind_eq_ok h
  obtain ⟨_, h₂, h⟩ := bind_eq_ok h
  obtain ⟨_, h₃, h⟩ := bind_eq_ok h
  obtain ⟨_, h₄, h⟩ := bind_eq_ok h
  obtain ⟨_, h₅, h⟩ := bind_eq_ok h
  obtain ⟨_, h₆, h⟩ := bind_eq_ok h
  obtain ⟨_, h₇, h⟩ := bind_eq_ok h
  obtain ⟨_, h₈, h⟩ := bind_eq_ok h
  obtain ⟨_, h₉, h⟩ := bind_eq_ok h
  obtain ⟨_, h₁₀, h⟩ := bind_eq_ok h
  obtain ⟨_, h₁₁, h⟩ := bind_eq_ok h
  obtain ⟨_, h₁₂, h⟩ := bind_eq_ok h
  obtain ⟨_, h₁₃, h⟩ := bind_eq_ok h
  obtain ⟨_, h₁₄, h⟩ := bind_eq_ok h
  obtain ⟨_, h₁₅, h⟩ := bind_eq_ok h
  cases h
  intro t
  cases t <;> assumption

theorem mapTables_ok {tables : (t : SideTable) → LayeredVec t.Entry}
    (h : ∀ t, ∃ v, f (tables t) = .ok v) : ∃ tables', mapTables f tables = .ok tables' := by
  choose g hg using h
  refine ⟨g, ?_⟩
  unfold mapTables
  simp only [hg, bind, Except.bind, pure, Except.pure]
  congr 1
  funext t
  cases t <;> rfl

/-- `s'` shows the same arena as `s`, with every row below the sealed prefix. -/
structure Resealed (s s' : Store) : Prop where
  len_eq : s'.len = s.len
  baseLen_eq : s'.baseLen = s.len
  row_eq : ∀ id, s'.row id = s.row id
  tag_eq : ∀ id, s'.tag id = s.tag id
  recipes_eq : ∀ id, s'.declaredRecipe id = s.declaredRecipe id
  recipesLen_eq : s'.declaredRecipes.len = s.declaredRecipes.len
  constraints_eq : ∀ id, s'.typeParamConstraint id = s.typeParamConstraint id
  names_eq : ∀ id, s'.typeParamNames.get id = s.typeParamNames.get id
  layers_eq : s.tagColumn.sealed = true → s'.layers = s.layers
  sealed_eq : s'.tagColumn.sealed = true
  wellFormed : s'.WellFormed

/-- Rows depend on the columns only through their lookups. -/
theorem row_congr {s s' : Store} (htag : ∀ id, s'.tag id = s.tag id)
    (hpayload : ∀ id, s'.payload id = s.payload id)
    (htables : ∀ t p, (s'.tables t).get p = (s.tables t).get p) (id : TypeId) :
    s'.row id = s.row id := by
  have hget : ∀ t, (s'.tables t).get = (s.tables t).get := fun t => funext (htables t)
  simp only [row, entry, htag, hpayload, hget]

theorem wellFormed_of_resealed {s s' : Store} (hs : s.WellFormed) (haligned : s'.Aligned)
    (htag : ∀ id, s'.tag id = s.tag id) (hpayload : ∀ id, s'.payload id = s.payload id)
    (hlen : ∀ t, (s'.tables t).len = (s.tables t).len) (hbaseLen : s'.baseLen = s.len) :
    s'.WellFormed :=
  { haligned with
    slot_lt := by
      intro t id p ht hp
      rw [hlen]
      exact hs.slot_lt t id p (htag id ▸ ht) (hpayload id ▸ hp)
    slot_injective := by
      intro t a b q hta htb hpa hpb
      exact hs.slot_injective t a b q (htag a ▸ hta) (htag b ▸ htb)
        (hpayload a ▸ hpa) (hpayload b ▸ hpb)
    slot_base := by
      intro t id p ht hp hb
      rw [hbaseLen] at hb
      rw [htag, s.tag_eq_none_of_le hb] at ht
      cases ht
    inline_row := by
      intro id tag' p ht hnone hp
      exact hs.inline_row id tag' p (htag id ▸ ht) hnone (hpayload id ▸ hp) }

/-- An arena whose columns show the same and are sealed. -/
theorem resealed_of_columns {s s' : Store} (hs : s.WellFormed)
    (htag : s.tagColumn.Reseals s'.tagColumn) (hflags : s.flagsColumn.Reseals s'.flagsColumn)
    (hpayload : s.payloadColumn.Reseals s'.payloadColumn)
    (htables : ∀ t, (s.tables t).Reseals (s'.tables t))
    (hrecipes : s.declaredRecipes.Reseals s'.declaredRecipes)
    (hnames : s.typeParamNames.Reseals s'.typeParamNames)
    (hconstraints : s.typeParamConstraints.Reseals s'.typeParamConstraints)
    (hfrozen : s'.frozenTypeParams.Plain ∧ s'.frozenTypeParams.sealed = true)
    (hlayers : s.tagColumn.sealed = true → s'.layers = s.layers) : Resealed s s' where
  len_eq := htag.len_eq
  baseLen_eq := htag.baseLen_eq
  row_eq := row_congr htag.get_eq hpayload.get_eq (fun t => (htables t).get_eq)
  tag_eq := htag.get_eq
  recipes_eq := hrecipes.get_eq
  recipesLen_eq := hrecipes.len_eq
  constraints_eq := hconstraints.get_eq
  names_eq := hnames.get_eq
  layers_eq := hlayers
  sealed_eq := htag.sealed_eq
  wellFormed := by
    have hsealed := htag.sealed_eq.symm
    refine wellFormed_of_resealed hs ?_ htag.get_eq hpayload.get_eq (fun t => (htables t).len_eq)
      htag.baseLen_eq
    exact
      { plain_tag := htag.plain
        plain_flags := hflags.plain
        plain_payload := hpayload.plain
        plain_tables := fun t => (htables t).plain
        plain_recipes := hrecipes.plain
        plain_names := hnames.plain
        plain_constraints := hconstraints.plain
        plain_frozen := hfrozen.1
        sealed_flags := hflags.sealed_eq.trans hsealed
        sealed_payload := hpayload.sealed_eq.trans hsealed
        sealed_tables := fun t => (htables t).sealed_eq.trans hsealed
        sealed_recipes := hrecipes.sealed_eq.trans hsealed
        sealed_names := hnames.sealed_eq.trans hsealed
        sealed_constraints := hconstraints.sealed_eq.trans hsealed
        sealed_frozen := hfrozen.2.trans hsealed
        flags_len := hflags.len_eq.trans (hs.flags_len.trans htag.len_eq.symm)
        payload_len := hpayload.len_eq.trans (hs.payload_len.trans htag.len_eq.symm) }

/-- **Sealing changes no row.** -/
theorem resealed_freezeAsBase {s s' : Store} (hs : s.WellFormed) (h : s.freezeAsBase = .ok s') :
    Resealed s s' ∧ s'.semanticGraphIdentity = s.semanticGraphIdentity ∧
      s'.tagColumn.sealed = true := by
  unfold freezeAsBase at h
  split at h
  · cases h
  rename_i hopen
  obtain ⟨tagColumn, htag, h⟩ := bind_eq_ok h
  obtain ⟨flagsColumn, hflags, h⟩ := bind_eq_ok h
  obtain ⟨payloadColumn, hpayload, h⟩ := bind_eq_ok h
  obtain ⟨tables, htables, h⟩ := bind_eq_ok h
  obtain ⟨names, hnames, h⟩ := bind_eq_ok h
  obtain ⟨recipes, hrecipes, h⟩ := bind_eq_ok h
  obtain ⟨constraints, hconstraints, h⟩ := bind_eq_ok h
  obtain ⟨frozen, hfrozen, h⟩ := bind_eq_ok h
  obtain ⟨htag, -⟩ := LayeredVec.of_freezeAsBase htag
  obtain ⟨hplain, hsealed, -⟩ := LayeredSet.of_freezeAsBase hfrozen
  cases h
  refine ⟨?_, rfl, htag.sealed_eq⟩
  exact resealed_of_columns hs htag (LayeredVec.of_freezeAsBase hflags).1
    (LayeredVec.of_freezeAsBase hpayload).1
    (fun t => (LayeredVec.of_freezeAsBase (mapTables_eq_ok htables t)).1)
    (LayeredVec.of_freezeAsBase hrecipes).1 (of_freezeAsBase hnames).1
    (of_freezeAsBase hconstraints).1 ⟨hplain, hsealed⟩ (fun hclosed => absurd hclosed hopen)

/-- **Forking changes no row.** -/
theorem resealed_forkDelta {s s' : Store} (hs : s.WellFormed) (h : s.forkDelta = .ok s') :
    Resealed s s' ∧ s'.semanticGraphIdentity = s.semanticGraphIdentity + 1 ∧
      s'.tagColumn.sealed = true ∧ s.baseLen = s.len := by
  unfold forkDelta at h
  obtain ⟨tagColumn, htag, h⟩ := bind_eq_ok h
  obtain ⟨flagsColumn, hflags, h⟩ := bind_eq_ok h
  obtain ⟨payloadColumn, hpayload, h⟩ := bind_eq_ok h
  obtain ⟨tables, htables, h⟩ := bind_eq_ok h
  obtain ⟨names, hnames, h⟩ := bind_eq_ok h
  obtain ⟨recipes, hrecipes, h⟩ := bind_eq_ok h
  obtain ⟨constraints, hconstraints, h⟩ := bind_eq_ok h
  obtain ⟨frozen, hfrozen, h⟩ := bind_eq_ok h
  obtain ⟨htag, hbase, hsealed₀, hsuffix⟩ := LayeredVec.of_forkDelta htag
  obtain ⟨hflags, hfbase, -⟩ := LayeredVec.of_forkDelta hflags
  obtain ⟨hpayload, hpbase, -⟩ := LayeredVec.of_forkDelta hpayload
  have htable := fun t => LayeredVec.of_forkDelta (mapTables_eq_ok htables t)
  obtain ⟨hrecipes, hrbase, -⟩ := LayeredVec.of_forkDelta hrecipes
  obtain ⟨hnames, hnbase, -⟩ := of_forkDelta hnames
  obtain ⟨hconstraints, hcbase, -⟩ := of_forkDelta hconstraints
  obtain ⟨hplain, hsealed, hfrbase⟩ := LayeredSet.of_forkDelta hfrozen
  cases h
  refine ⟨?_, rfl, htag.sealed_eq,
    by simp [baseLen, len, LayeredVec.baseLen, LayeredVec.len, hsuffix]⟩
  apply resealed_of_columns hs htag hflags hpayload (fun t => (htable t).1) hrecipes hnames
    hconstraints ⟨hplain, hsealed⟩
  intro _
  have htableBase : (fun t => (tables t).base) = fun t => (s.tables t).base :=
    funext (fun t => (htable t).2.1)
  unfold layers
  rw [htableBase, htag.sealed_eq, hsealed₀, hbase, hfbase, hpbase, hrbase, hnbase, hcbase, hfrbase]

end Store

end Typokat.Types
