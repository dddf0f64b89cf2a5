import Typokat.Diagnostics.RenderType

/-!
# Runs of the Printers (`diagnostics/render_type.rs`)

Whatever a printer does between, it leaves the stacks of the context as it found them, and it
stops only at an id that is out of range.  What happens to the display is a parameter: a
relation between the display before and after that every append of a text of the store keeps.

## Main Results

- `nodePrint_fromStore` : the printers append texts of the store and texts without a control
  character
- `renderBinding_spec` : what every call leaves behind
-/

namespace Typokat.Diagnostics

open Types Lib List

/-! ## §1 Texts of a store -/

/-- The texts of a store that are displayed as they are. -/
inductive RenderStore.HoldsText (rs : RenderStore) : String → Prop
  | key {id : TypeId} {obj : ObjectType} {property : PropertyType} {name : String} :
      rs.store.objectType id = some obj → property ∈ obj.properties →
      property.key = .string name → HoldsText rs name
  | parameter {id : TypeId} {func : FunctionType} {param : ParameterType} :
      rs.store.functionType id = some func → param ∈ func.params → HoldsText rs param.name
  | typeParam {id : TypeId} {param : TypeParamType} :
      rs.store.typeParam id = some param → HoldsText rs param.name
  | typeParamName {id : TypeParamId} {name : String} :
      rs.store.typeParamNames.get id = some name → HoldsText rs name
  | template {id : TypeId} {template : TemplateType} {text : String} :
      rs.store.templateType id = some template → text ∈ template.texts → HoldsText rs text
  | templateName {id : TypeId} {name : String} :
      rs.templateName id = some name → HoldsText rs name

/-- A displayed character is no control character, or it is copied from a text of the store. -/
def RenderStore.Sourced (rs : RenderStore) (glyph : Glyph) : Prop :=
  (glyph.source = none ∧ ¬ IsControl glyph.char) ∨
    ∃ text, glyph.source = some text ∧ rs.HoldsText text ∧ glyph.char ∈ text.toList

/-- The printer appends such characters only, and it reads no row that is out of range but
    where it says so. -/
def Print.FromStore (rs : RenderStore) : Print → Prop
  | .append text => ∀ glyph ∈ text, rs.Sourced glyph
  | .seq first second => first.FromStore rs ∧ second.FromStore rs
  | .unlessTruncated body => body.FromStore rs
  | .guarded _ body => body.FromStore rs
  | .pushed _ body => body.FromStore rs
  | .overlaid _ body => body.FromStore rs
  | .bound _ otherwise => otherwise.FromStore rs
  | .missing id => rs.store.tag id = none
  | .done => True
  | .render _ => True
  | .parenthesized _ _ => True

/-- A text of the renderer's own without a control character. -/
def isPlain (chars : List Char) : Bool := chars.all (fun c => decide (¬ IsControl c))

section FromStore

variable {rs : RenderStore}

theorem sourced_of_written {text : Text} (h : Written text) :
    ∀ glyph ∈ text, rs.Sourced glyph :=
  fun glyph hglyph => .inl (h glyph hglyph)

theorem sourced_of_isPlain {chars : List Char} (h : isPlain chars = true) :
    ∀ glyph ∈ made chars, rs.Sourced glyph := by
  refine sourced_of_written (written_made.mpr ?_)
  simpa [isPlain] using h

theorem sourced_copied {text : String} (h : rs.HoldsText text) :
    ∀ glyph ∈ copied text, rs.Sourced glyph := by
  intro glyph hglyph
  obtain ⟨c, hc, rfl⟩ := mem_map.mp hglyph
  exact .inr ⟨text, rfl, h, hc⟩

namespace Print

theorem fromStore_write {s : String} (h : isPlain s.toList = true) : (write s).FromStore rs :=
  sourced_of_isPlain h

theorem fromStore_copy {s : String} (h : rs.HoldsText s) : (copy s).FromStore rs :=
  sourced_copied h

@[simp] theorem fromStore_type {id : TypeId} : (type id).FromStore rs := trivial

@[simp] theorem fromStore_recipe {id : DeclaredRecipeId} : (recipe id).FromStore rs := trivial

@[simp] theorem fromStore_unsupported : unsupported.FromStore rs :=
  fromStore_write (by decide)

@[simp] theorem fromStore_all_nil : (all []).FromStore rs := trivial

@[simp] theorem fromStore_all_cons {p : Print} {parts : List Print} :
    (all (p :: parts)).FromStore rs ↔ p.FromStore rs ∧ (all parts).FromStore rs := Iff.rfl

theorem fromStore_when {condition : Bool} {body : Print} (h : body.FromStore rs) :
    (when condition body).FromStore rs := by
  cases condition
  · trivial
  · exact h

theorem fromStore_optional {A : Type} {value : Option A} {body : A → Print}
    (h : ∀ a, (body a).FromStore rs) : (optional value body).FromStore rs := by
  cases value
  · trivial
  · exact h _

theorem fromStore_entry {A : Type} {value : Option A} {body : A → Print}
    (h : ∀ a, value = some a → (body a).FromStore rs) : (entry value body).FromStore rs := by
  cases value
  · exact fromStore_unsupported
  · exact h _ rfl

theorem fromStore_reading {id : TypeId} {body : Print} (h : body.FromStore rs) :
    (reading rs id body).FromStore rs := by
  unfold reading
  split_ifs with htag
  · exact htag
  · exact h

theorem fromStore_each {A : Type} {body : A → Print} {xs : List A}
    (h : ∀ x ∈ xs, (body x).FromStore rs) : (each body xs).FromStore rs := by
  induction xs with
  | nil => trivial
  | cons x xs ih =>
    exact ⟨h x mem_cons_self, ih (fun y hy => h y (mem_cons_of_mem x hy))⟩

theorem fromStore_separated {A : Type} {separator : String} {body : A → Print}
    {needsSeparator : Bool} {xs : List A} (hseparator : isPlain separator.toList = true)
    (h : ∀ x ∈ xs, (body x).FromStore rs) :
    (separated separator body needsSeparator xs).FromStore rs := by
  induction xs generalizing needsSeparator with
  | nil => trivial
  | cons x xs ih =>
    have hrest := @ih true (fun y hy => h y (mem_cons_of_mem x hy))
    exact ⟨fromStore_when (fromStore_write hseparator), h x mem_cons_self, hrest, trivial⟩

end Print

/-! ## §2 The printers of the rows -/

open Print

theorem renderLiteral_fromStore (value : LiteralValue) : (renderLiteral value).FromStore rs := by
  cases value with
  | string s =>
    refine ⟨fromStore_write (by decide), fromStore_each (fun c _ => ?_),
      fromStore_write (by decide), trivial⟩
    exact sourced_of_written (written_escapedChar c)
  | boolean b =>
    cases b
    all_goals exact fromStore_write (by decide)
  | number n => exact sourced_of_written (written_numberChars n)
  | wellKnownSymbol symbol =>
    refine ⟨fromStore_write (by decide), ?_, trivial⟩
    exact sourced_of_written (written_made.mpr (not_isControl_symbolName symbol))

theorem renderGenericTypeParams_fromStore (func : FunctionType) :
    (renderGenericTypeParams rs func).FromStore rs := by
  refine fromStore_when ⟨fromStore_write (by decide),
    fromStore_separated (by decide) (fun param _ => ⟨?_, ?_, ?_, trivial⟩),
    fromStore_write (by decide), trivial⟩
  · split
    · next name hname => exact fromStore_copy (.typeParamName hname)
    · exact fromStore_write (by decide)
  · exact fromStore_optional (fun _ => ⟨fromStore_write (by decide), trivial, trivial⟩)
  · exact fromStore_optional (fun _ => ⟨fromStore_write (by decide), trivial, trivial⟩)

theorem renderFunctionParams_fromStore {id : TypeId} {func : FunctionType}
    (hfunc : rs.store.functionType id = some func) :
    (renderFunctionParams func).FromStore rs := by
  refine ⟨?_, fromStore_separated (by decide) (fun param hparam => ?_), trivial⟩
  · exact fromStore_optional (fun _ => ⟨fromStore_write (by decide), trivial, trivial⟩)
  · have hname : (renderParameterName param).FromStore rs :=
      ⟨fromStore_when (fromStore_write (by decide)), fromStore_copy (.parameter hfunc hparam),
        fromStore_when (fromStore_write (by decide)), trivial⟩
    exact ⟨hname, fromStore_write (by decide), trivial, trivial⟩

theorem renderSignature_fromStore {id : TypeId} {func : FunctionType} {arrow : String}
    (hfunc : rs.store.functionType id = some func) (harrow : isPlain arrow.toList = true) :
    (renderSignature rs func arrow).FromStore rs :=
  ⟨renderGenericTypeParams_fromStore func, fromStore_write (by decide),
    renderFunctionParams_fromStore hfunc, fromStore_write harrow, trivial, trivial⟩

theorem renderCallSignature_fromStore (id : TypeId) :
    (renderCallSignature rs id).FromStore rs := by
  apply fromStore_reading
  exact fromStore_entry (fun func hfunc => renderSignature_fromStore hfunc (by decide))

theorem renderConstructSignature_fromStore (id : TypeId) :
    (renderConstructSignature rs id).FromStore rs := by
  apply fromStore_reading
  exact fromStore_entry (fun func hfunc =>
    ⟨fromStore_write (by decide), renderSignature_fromStore hfunc (by decide), trivial⟩)

section Objects

variable {id : TypeId} {obj : ObjectType} (hobj : rs.store.objectType id = some obj)
include hobj

theorem sourced_propertyKeyText {property : PropertyType} (hproperty : property ∈ obj.properties) :
    ∀ glyph ∈ propertyKeyText property.key, rs.Sourced glyph := by
  cases hkey : property.key with
  | string name => exact sourced_copied (.key hobj hproperty hkey)
  | wellKnownSymbol symbol =>
    refine sourced_of_written (written_made.mpr ?_)
    exact forall_mem_append.mpr
      ⟨forall_mem_append.mpr ⟨by decide, not_isControl_symbolName symbol⟩, by decide⟩

theorem renderObjectMembers_fromStore :
    (renderObjectMembers rs obj).FromStore rs := by
  refine ⟨?_, ?_,
    fromStore_separated (by decide) (fun signature _ => renderCallSignature_fromStore signature),
    fromStore_separated (by decide)
      (fun signature _ => renderConstructSignature_fromStore signature),
    fromStore_separated (by decide) (fun property hproperty => ?_), trivial⟩
  · exact fromStore_optional (fun _ => ⟨fromStore_write (by decide), trivial, trivial⟩)
  · exact fromStore_optional (fun _ => ⟨fromStore_when (fromStore_write (by decide)),
      fromStore_write (by decide), trivial, trivial⟩)
  · exact ⟨sourced_propertyKeyText hobj hproperty, fromStore_write (by decide), trivial, trivial⟩

theorem renderObject_fromStore : (renderObject rs id obj).FromStore rs := by
  unfold renderObject
  split_ifs
  · exact fromStore_write (by decide)
  · exact ⟨⟨fromStore_write (by decide), renderObjectMembers_fromStore hobj, trivial⟩,
      fromStore_write (by decide), trivial⟩

end Objects

theorem renderUnionMembers_fromStore (members : List TypeId) :
    (renderUnionMembers members).FromStore rs :=
  fromStore_separated (by decide) (fun _ _ => trivial)

/-- Only an id that is out of range keeps the members from being read. -/
theorem tag_of_stringMembers {members : List TypeId} {id : TypeId}
    (h : stringMembers rs members = .error id) : rs.store.tag id = none := by
  induction members with
  | nil => simp [stringMembers] at h
  | cons member members ih =>
    simp only [stringMembers] at h
    split_ifs at h with htag
    · cases h
      exact htag
    · split at h
      · cases hrest : stringMembers rs members with
        | error other =>
          rw [hrest] at h
          cases h
          exact ih hrest
        | ok rest =>
          rw [hrest] at h
          cases h
      · cases h

theorem renderUnion_fromStore (members : List TypeId) : (renderUnion rs members).FromStore rs := by
  unfold renderUnion
  split
  · next id hid => exact tag_of_stringMembers hid
  · exact renderUnionMembers_fromStore _
  · exact renderUnionMembers_fromStore _

theorem renderTupleElements_fromStore (rest : Option TupleRestType) (needsSeparator : Bool)
    (index : Nat) (elements : List TypeId) :
    (renderTupleElements rest needsSeparator index elements).FromStore rs := by
  have hcomma : (write ", ").FromStore rs := fromStore_write (by decide)
  have hdots : (write "...").FromStore rs := fromStore_write (by decide)
  induction elements generalizing needsSeparator index with
  | nil => trivial
  | cons element elements ih =>
    refine ⟨?_, trivial, ih true (index + 1), trivial⟩
    split
    · split_ifs
      · exact ⟨fromStore_when hcomma, ⟨hdots, trivial, trivial⟩, hcomma, trivial⟩
      · exact fromStore_when hcomma
    · exact fromStore_when hcomma

theorem renderTupleParts_fromStore (tuple : TupleType) :
    (renderTupleParts tuple).FromStore rs := by
  refine ⟨renderTupleElements_fromStore _ _ _ _, ?_, trivial⟩
  exact fromStore_optional (fun rest => fromStore_when
    ⟨fromStore_when (fromStore_write (by decide)), ⟨fromStore_write (by decide), trivial, trivial⟩,
      trivial⟩)

theorem isPlain_renderModifier {op : ModifierOp} {token trimmed : String}
    (htoken : isPlain token.toList = true) (htrimmed : isPlain trimmed.toList = true) :
    isPlain (renderModifier op token trimmed).toList = true := by
  cases op with
  | keep => rfl
  | add => exact htoken
  | remove =>
    simp only [renderModifier, String.toList_append, isPlain, all_append, Bool.and_eq_true]
    exact ⟨by decide, htrimmed⟩

theorem renderMapped_fromStore (id : TypeId) (mapped : MappedType) :
    (renderMapped id mapped).FromStore rs := by
  have hreadonly := @isPlain_renderModifier mapped.readonlyModifier "readonly " "readonly"
    (by decide) (by decide)
  have hoptional := @isPlain_renderModifier mapped.optionalModifier "?" "?"
    (by decide) (by decide)
  exact ⟨⟨fromStore_write (by decide), fromStore_write hreadonly, fromStore_write (by decide),
    fromStore_when (fromStore_write (by decide)), trivial, fromStore_write (by decide),
    fromStore_write hoptional, fromStore_write (by decide), trivial, trivial⟩,
    fromStore_write (by decide), trivial⟩

section Holes

variable {id : TypeId} {template : TemplateType}
  (htemplate : rs.store.templateType id = some template) (index : Nat)
include htemplate index

theorem fromStore_templateText :
    (copy ((template.texts[index]?).getD "")).FromStore rs := by
  cases htext : template.texts[index]? with
  | none =>
    -- the fallback is empty
    exact forall_mem_nil _
  | some text => exact fromStore_copy (.template htemplate (mem_of_getElem? htext))

theorem renderTemplateHoles_fromStore (holes : List TypeId) :
    (renderTemplateHoles template index holes).FromStore rs := by
  induction holes generalizing index with
  | nil => trivial
  | cons hole holes ih =>
    exact ⟨fromStore_templateText htemplate index, fromStore_write (by decide), trivial,
      fromStore_write (by decide), ih (index + 1), trivial⟩

end Holes

theorem renderInstantiation_fromStore (id : TypeId) (inst : InstantiationType) :
    (renderInstantiation rs id inst).FromStore rs := by
  refine ⟨⟨?_, fromStore_write (by decide), fromStore_separated (by decide) (fun _ _ => trivial),
    trivial⟩, fromStore_write (by decide), trivial⟩
  split
  · next name hname => exact fromStore_copy (.templateName hname)
  · trivial

/-- A number behind a text of the renderer's own. -/
theorem sourced_numbered {chars : List Char} (hchars : isPlain chars = true) (n : Nat) :
    ∀ glyph ∈ made (chars ++ Nat.toDigits 10 n), rs.Sourced glyph := by
  apply sourced_of_isPlain
  simp only [isPlain, all_append, Bool.and_eq_true]
  refine ⟨hchars, all_eq_true.mpr (fun c hc => ?_)⟩
  exact decide_eq_true (not_isControl_toDigits c hc)

theorem renderClassInstance_fromStore (id : TypeId) (classInstance : ClassInstanceType) :
    (renderClassInstance id classInstance).FromStore rs :=
  ⟨sourced_numbered (by decide) _,
    fromStore_when ⟨fromStore_write (by decide),
      fromStore_separated (by decide) (fun _ _ => trivial), fromStore_write (by decide), trivial⟩,
    trivial⟩

theorem renderRow_fromStore (id : TypeId) (widen : Bool) :
    (renderRow rs id widen).FromStore rs := by
  unfold renderRow
  cases htag : rs.store.tag id with
  | none => exact htag
  | some tag =>
    cases tag with
    | intrinsic =>
      simp only
      split
      · exact sourced_of_written (written_displayName _)
      · exact fromStore_write (by decide)
    | literal =>
      simp only
      split
      · split_ifs
        · exact sourced_of_written (written_displayName _)
        · exact renderLiteral_fromStore _
      · exact fromStore_write (by decide)
    | object => exact fromStore_entry (fun obj hobj => renderObject_fromStore hobj)
    | union => exact fromStore_entry (fun members _ => renderUnion_fromStore members)
    | intersection =>
      exact fromStore_entry (fun _ _ => fromStore_separated (by decide) (fun _ _ => trivial))
    | function =>
      exact fromStore_entry (fun func hfunc => renderSignature_fromStore hfunc (by decide))
    | typeParam =>
      simp only
      split
      · next param hparam => exact fromStore_copy (.typeParam hparam)
      · exact fromStore_write (by decide)
    | array => exact fromStore_entry (fun _ _ => ⟨trivial, fromStore_write (by decide), trivial⟩)
    | tuple =>
      exact fromStore_entry (fun tuple _ => ⟨fromStore_write (by decide),
        renderTupleParts_fromStore tuple, fromStore_write (by decide), trivial⟩)
    | readonly =>
      exact fromStore_entry (fun _ _ => ⟨fromStore_write (by decide), trivial, trivial⟩)
    | conditional =>
      exact fromStore_entry (fun _ _ => ⟨trivial, fromStore_write (by decide), trivial,
        fromStore_write (by decide), trivial, fromStore_write (by decide), trivial, trivial⟩)
    | instantiation =>
      exact fromStore_entry (fun inst _ => renderInstantiation_fromStore id inst)
    | infer => exact fromStore_entry (fun index _ => sourced_numbered (by decide) index)
    | mapped => exact fromStore_entry (fun mapped _ => renderMapped_fromStore id mapped)
    | mappedValue => exact fromStore_write (by decide)
    | template =>
      exact fromStore_entry (fun template htemplate =>
        ⟨fromStore_write (by decide), renderTemplateHoles_fromStore htemplate _ _,
          fromStore_templateText htemplate _, fromStore_write (by decide), trivial⟩)
    | keyof =>
      exact fromStore_entry (fun _ _ => ⟨fromStore_write (by decide), trivial, trivial⟩)
    | classInstance =>
      exact fromStore_entry (fun classInstance _ => renderClassInstance_fromStore id classInstance)
    | deferredIndexedAccess =>
      exact fromStore_entry (fun _ _ =>
        ⟨⟨trivial, fromStore_write (by decide), trivial, trivial⟩, fromStore_write (by decide),
          trivial⟩)
    | declared => exact fromStore_entry (fun _ _ => trivial)

theorem renderRecipeElements_fromStore (rest : Option (Nat × DeclaredRecipeId)) (index : Nat)
    (elements : List DeclaredRecipeId) : (renderRecipeElements rest index elements).FromStore rs := by
  induction elements generalizing index with
  | nil => trivial
  | cons element elements ih =>
    exact ⟨fromStore_when (fromStore_write (by decide)),
      fromStore_optional (fun _ => fromStore_when
        ⟨fromStore_write (by decide), trivial, fromStore_write (by decide), trivial⟩),
      trivial, ih (index + 1), trivial⟩

theorem renderDeclaredRecipeNode_fromStore (id : DeclaredRecipeId) :
    (renderDeclaredRecipeNode rs id).FromStore rs := by
  unfold renderDeclaredRecipeNode
  split
  · exact fromStore_unsupported
  · trivial
  · exact ⟨trivial, fromStore_write (by decide), trivial⟩
  · exact ⟨fromStore_write (by decide), renderRecipeElements_fromStore _ _ _,
      fromStore_optional (fun _ => fromStore_when
        ⟨fromStore_when (fromStore_write (by decide)), fromStore_write (by decide), trivial,
          trivial⟩),
      fromStore_write (by decide), trivial⟩
  · exact ⟨fromStore_write (by decide), trivial, trivial⟩
  · trivial

/-- **The printers append texts of the store and texts without a control character.** -/
theorem nodePrint_fromStore (widen : Bool) (binding : RenderBinding) :
    (nodePrint rs widen binding).FromStore rs := by
  cases binding with
  | type id =>
    show (renderTypeNode rs id widen).FromStore rs
    unfold renderTypeNode
    split
    · exact renderRow_fromStore id widen
    · exact renderRow_fromStore id widen
  | recipe id => exact renderDeclaredRecipeNode_fromStore id

end FromStore

/-! ## §3 What a run leaves behind -/

/-- The stacks and the depth are what they were. -/
structure Restored (c c' : RenderContext) : Prop where
  rendering : c'.rendering = c.rendering
  overlays : c'.overlays = c.overlays
  overlayLimit : c'.overlayLimit = c.overlayLimit
  depth : c'.depth = c.depth

theorem Restored.refl (c : RenderContext) : Restored c c := ⟨rfl, rfl, rfl, rfl⟩

theorem Restored.trans {c₁ c₂ c₃ : RenderContext} (h₁₂ : Restored c₁ c₂) (h₂₃ : Restored c₂ c₃) :
    Restored c₁ c₃ :=
  ⟨h₂₃.rendering.trans h₁₂.rendering, h₂₃.overlays.trans h₁₂.overlays,
    h₂₃.overlayLimit.trans h₁₂.overlayLimit, h₂₃.depth.trans h₁₂.depth⟩

/-- The visible overlays are on the stack. -/
def RenderContext.InRange (c : RenderContext) : Prop := c.overlayLimit ≤ c.overlays.length

theorem Restored.inRange {c c' : RenderContext} (h : Restored c c') (hc : c.InRange) :
    c'.InRange := by
  unfold RenderContext.InRange
  rw [h.overlayLimit, h.overlays]
  exact hc

/-- A display stops at an id that is out of range, and without the limits also where the
    levels run out. -/
def StopsAt (rs : RenderStore) (limits : Limits) (stop : RenderStop) : Prop :=
  (∃ id, stop = .dangling id ∧ rs.store.tag id = none) ∨
    (limits = .unlimited ∧ stop = .outOfLevels)

/-- A relation between the displays before and after that every step of a printer keeps. -/
structure DisplayRule (rs : RenderStore) (limits : Limits)
    (later : Buffer Glyph → Buffer Glyph → Prop) : Prop where
  refl : ∀ b, later b b
  trans : ∀ b₁ b₂ b₃, later b₁ b₂ → later b₂ b₃ → later b₁ b₃
  append : ∀ (c : RenderContext) (text : Text), (∀ glyph ∈ text, rs.Sourced glyph) →
    later c.display (c.append limits text).display
  collapse : limits ≠ .unlimited → ∀ c : RenderContext,
    later c.display (c.stopAtDepthLimit limits).display

section Runs

variable (rs : RenderStore) (limits : Limits) (later : Buffer Glyph → Buffer Glyph → Prop)

/-- What is left behind in a context: the stacks are restored and the display is a later one,
    unless the display stops. -/
def Outcome (c : RenderContext) : Except RenderStop RenderContext → Prop
  | .ok c' => Restored c c' ∧ later c.display c'.display
  | .error stop => StopsAt rs limits stop

variable {rs limits later} {c : RenderContext}

section Rules

variable (rule : DisplayRule rs limits later)
include rule

theorem outcome_append {text : Text} (htext : ∀ glyph ∈ text, rs.Sourced glyph) :
    Outcome rs limits later c (.ok (c.append limits text)) :=
  ⟨⟨rfl, rfl, rfl, rfl⟩, rule.append c text htext⟩

variable {result : Except RenderStop RenderContext}

/-- A run behind a step that left the stacks alone. -/
theorem Outcome.behind {c₁ : RenderContext} (hrestored : Restored c c₁)
    (hlater : later c.display c₁.display)
    (h : Outcome rs limits later c₁ result) :
    Outcome rs limits later c result := by
  cases result with
  | error stop => exact h
  | ok c' => exact ⟨hrestored.trans h.1, rule.trans _ _ _ hlater h.2⟩

theorem Outcome.bind {next : RenderContext → Except RenderStop RenderContext}
    (h : Outcome rs limits later c result)
    (hnext : ∀ c', Restored c c' → Outcome rs limits later c' (next c')) :
    Outcome rs limits later c (result.bind next) := by
  cases result with
  | error stop => exact h
  | ok c' => exact Outcome.behind rule h.1 h.2 (hnext c' h.1)

theorem Outcome.map_append (h : Outcome rs limits later c result) {text : Text}
    (htext : ∀ glyph ∈ text, rs.Sourced glyph) :
    Outcome rs limits later c (result.map (fun c => c.append limits text)) := by
  cases result with
  | error stop => exact h
  | ok c' => exact Outcome.behind rule h.1 h.2 (outcome_append rule htext)

end Rules

/-- A run in a changed context whose changes are taken back afterwards. -/
theorem Outcome.scoped (inner : RenderContext) {result : Except RenderStop RenderContext}
    {back : RenderContext → RenderContext} (hdisplay : inner.display = c.display)
    (h : Outcome rs limits later inner result)
    (hback : ∀ c', Restored inner c' →
      Restored c (back c') ∧ (back c').display = c'.display) :
    Outcome rs limits later c (result.map back) := by
  cases result with
  | error stop => exact h
  | ok c' =>
    obtain ⟨hrestored, hlater⟩ := h
    obtain ⟨hstacks, hsame⟩ := hback c' hrestored
    refine ⟨hstacks, ?_⟩
    show later c.display (back c').display
    rw [hsame, ← hdisplay]
    exact hlater

/-- A lookup within the stack returns, and what it finds lies below. -/
theorem overlayBinding_eq_ok {parameter : TypeParamId} {limit : Nat} (h : limit ≤ c.overlays.length) :
    ∃ found, c.overlayBinding parameter limit = .ok found ∧
      ∀ layer binding, found = some (layer, binding) → layer < limit := by
  refine ⟨_, if_neg (Nat.not_lt.mpr h), fun layer binding hfound => ?_⟩
  obtain ⟨⟨overlay, position⟩, hmem, hlookup⟩ := exists_of_findSome?_eq_some hfound
  obtain ⟨_, _, heq⟩ := Option.map_eq_some_iff.mp hlookup
  have hposition := snd_lt_of_mem_zipIdx (mem_reverse.mp hmem)
  rw [length_take] at hposition
  cases heq
  omega

/-- Pushing an overlay succeeds and shows it on top of the visible ones; popping it brings the
    hidden ones back. -/
theorem pushOverlay_eq_ok (hc : c.InRange) (overlay : Overlay) :
    ∃ frame inner, c.pushOverlay overlay = .ok (frame, inner) ∧ inner.InRange ∧
      inner.display = c.display ∧ inner.depth = c.depth ∧
      ∀ c', Restored inner c' →
        ∃ after, c'.popOverlay frame = .ok after ∧ Restored c after ∧
          after.display = c'.display := by
  refine ⟨_, _, if_neg (Nat.not_lt.mpr hc), Nat.le_refl _, rfl, rfl, fun c' hrestored => ?_⟩
  have hoverlays : c'.overlays = c.overlays.take c.overlayLimit ++ [overlay] :=
    hrestored.overlays
  have hne : c'.overlays ≠ [] := by simp [hoverlays]
  refine ⟨_, if_neg hne, ⟨hrestored.rendering, ?_, rfl, hrestored.depth⟩, rfl⟩
  simp [hoverlays]

theorem sourced_ellipsis : ∀ glyph ∈ ellipsis, rs.Sourced glyph :=
  sourced_of_isPlain (by decide)

/-! ## §4 Printers -/

section Printers

variable {call : RenderBinding → RenderContext → Except RenderStop RenderContext}
  {tagOf : RenderBinding → RenderContext → Except RenderStop TypeTag} {depth : Nat}

/-- What the printers leave behind, given what the calls below them do. -/
theorem Print.run_spec (rule : DisplayRule rs limits later)
    (hcall : ∀ binding c, c.InRange → c.depth = depth →
      Outcome rs limits later c (call binding c))
    (htag : ∀ binding c stop, c.InRange → c.depth = depth → tagOf binding c = .error stop →
      StopsAt rs limits stop)
    {p : Print} (hp : p.FromStore rs) (hc : c.InRange) (hdepth : c.depth = depth) :
    Outcome rs limits later c (p.run limits call tagOf c) := by
  induction p generalizing c with
  | done => exact ⟨.refl c, rule.refl _⟩
  | append text => exact outcome_append rule hp
  | render binding => exact hcall binding c hc hdepth
  | seq first second ihFirst ihSecond =>
    apply Outcome.bind rule (ihFirst hp.1 hc hdepth)
    intro c' hrestored
    exact ihSecond hp.2 (hrestored.inRange hc) (hrestored.depth.trans hdepth)
  | unlessTruncated body ih =>
    unfold Print.run
    split_ifs
    · exact ⟨.refl c, rule.refl _⟩
    · exact ih hp hc hdepth
  | parenthesized tags binding =>
    unfold Print.run
    cases hresult : tagOf binding c with
    | error stop => exact htag binding c stop hc hdepth hresult
    | ok tag =>
      show Outcome rs limits later c (if tag ∈ tags then _ else _)
      -- the call starts after the bracket, and restores what it found there
      split_ifs
      · have hopen : Outcome rs limits later c (.ok (c.append limits (made ['(']))) :=
          outcome_append rule (sourced_of_isPlain (by decide))
        have hinner := hcall binding (c.append limits (made ['('])) hc hdepth
        apply Outcome.behind rule hopen.1 hopen.2
        exact Outcome.map_append rule hinner (sourced_of_isPlain (by decide))
      · exact hcall binding c hc hdepth
  | guarded id body ih =>
    unfold Print.run
    split_ifs
    · exact outcome_append rule sourced_ellipsis
    · exact ih hp hc hdepth
  | pushed id body ih =>
    refine Outcome.scoped { c with rendering := id :: c.rendering } rfl (ih hp hc hdepth) ?_
    intro c' hrestored
    refine ⟨⟨?_, hrestored.overlays, hrestored.overlayLimit, hrestored.depth⟩, rfl⟩
    simp [hrestored.rendering]
  | overlaid overlay body ih =>
    obtain ⟨frame, inner, hpush, hinner, hdisplay, hsame, hpop⟩ := pushOverlay_eq_ok hc overlay
    have hbody := ih hp hinner (hsame.trans hdepth)
    unfold Print.run
    rw [hpush]
    show Outcome rs limits later c ((body.run limits call tagOf inner).bind _)
    cases hresult : body.run limits call tagOf inner with
    | error stop =>
      rw [hresult] at hbody
      exact hbody
    | ok c' =>
      rw [hresult] at hbody
      -- the frame is still the last one, so it can be popped
      obtain ⟨after, hafter, hrestored, hkept⟩ := hpop c' hbody.1
      show Outcome rs limits later c (c'.popOverlay frame)
      rw [hafter]
      refine ⟨hrestored, ?_⟩
      show later c.display after.display
      rw [hkept, ← hdisplay]
      exact hbody.2
  | bound parameter otherwise ih =>
    obtain ⟨found, hfound, hbelow⟩ := @overlayBinding_eq_ok c parameter _ hc
    unfold Print.run
    rw [hfound]
    cases found with
    | none => exact ih hp hc hdepth
    | some entry =>
      obtain ⟨layer, binding⟩ := entry
      have hlayer : layer < c.overlayLimit := hbelow layer binding rfl
      refine Outcome.scoped { c with overlayLimit := layer } rfl
        (hcall binding _ (le_trans hlayer.le hc) hdepth) ?_
      intro c' hrestored
      exact ⟨⟨hrestored.rendering, hrestored.overlays, rfl, hrestored.depth⟩, rfl⟩
  | missing id => exact .inl ⟨id, rfl, hp⟩

end Printers

end Runs

/-! ## §5 Levels -/

section Levels

variable {rs : RenderStore} {limits : Limits}

/-- Within the limits there are enough levels for every call that they let through; `slack`
    says how far behind the depth limit the call may be. -/
def Fuelled (limits : Limits) (slack levels depth : Nat) : Prop :=
  limits ≠ .unlimited → depth ≤ displayDepthLimit + slack ∧ displayDepthLimit + 2 ≤ depth + levels

/-- A call that the limits let through can go one level further. -/
theorem Fuelled.next {slack levels depth : Nat} (h : Fuelled limits slack (levels + 1) depth)
    (hopen : limits.reached depth = false) : Fuelled limits 0 levels (depth + 1) := by
  intro hlimits
  obtain ⟨_, hlevels⟩ := h hlimits
  have hbelow : depth < displayDepthLimit := by
    cases limits with
    | unlimited => exact absurd rfl hlimits
    | display => simpa [Limits.reached] using hopen
    | depthOnly => simpa [Limits.reached] using hopen
  omega

/-- A recipe goes on to a type wherever it is. -/
theorem Fuelled.recipe {levels depth : Nat} (h : Fuelled limits 0 (levels + 1) depth) :
    Fuelled limits 1 levels (depth + 1) := by
  intro hlimits
  obtain ⟨hdepth, hlevels⟩ := h hlimits
  omega

theorem Fuelled.weaken {levels depth : Nat} (h : Fuelled limits 0 levels depth) :
    Fuelled limits 1 levels depth := by
  intro hlimits
  obtain ⟨hdepth, hlevels⟩ := h hlimits
  omega

/-- Only a traversal without the limits can be out of levels. -/
theorem Fuelled.stopsAt_zero {slack depth : Nat} (hslack : slack ≤ 1)
    (h : Fuelled limits slack 0 depth) : StopsAt rs limits .outOfLevels := by
  by_cases hlimits : limits = .unlimited
  · exact .inr ⟨hlimits, rfl⟩
  · obtain ⟨hdepth, hlevels⟩ := h hlimits
    omega

theorem rowTag_stopsAt {id : TypeId} {stop : RenderStop} (h : rowTag rs id = .error stop) :
    StopsAt rs limits stop := by
  unfold rowTag at h
  split at h
  · cases h
  · next htag =>
    cases h
    exact .inl ⟨id, rfl, htag⟩

/-- The walk to a displayed tag looks up visible overlays only, and it stops like the display
    does. -/
theorem displayedTag_stopsAt (c : RenderContext) (levels : Nat) :
    (∀ id limit depth stop, limit ≤ c.overlays.length → Fuelled limits 1 levels depth →
      renderTagWithLimit rs limits c levels id limit depth = .error stop →
      StopsAt rs limits stop) ∧
    (∀ recipe mapper limit depth stop, limit ≤ c.overlays.length →
      Fuelled limits 0 levels depth →
      declaredRecipeTagWithMapper rs limits c levels recipe mapper limit depth = .error stop →
      StopsAt rs limits stop) := by
  induction levels with
  | zero =>
    constructor
    · intro id limit depth stop _ hfuel h
      rw [renderTagWithLimit] at h
      cases h
      exact hfuel.stopsAt_zero (Nat.le_refl 1)
    · intro recipe mapper limit depth stop _ hfuel h
      rw [declaredRecipeTagWithMapper] at h
      cases h
      exact hfuel.stopsAt_zero (Nat.zero_le 1)
  | succ levels ih =>
    obtain ⟨ihType, ihRecipe⟩ := ih
    constructor
    · intro id limit depth stop hlimit hfuel h
      unfold renderTagWithLimit at h
      cases hreached : limits.reached depth
      · rw [hreached] at h
        have hnext := hfuel.next hreached
        simp only [Bool.false_eq_true, if_false] at h
        split at h
        · -- a parameter: its binding lies in a lower layer
          next parameter _ =>
          obtain ⟨found, hfound, hbelow⟩ := @overlayBinding_eq_ok c parameter.id _ hlimit
          rw [hfound] at h
          dsimp only [bind, Except.bind] at h
          split at h
          · next layer ty =>
            have hlayer : layer < limit := hbelow layer _ rfl
            exact ihType ty layer _ stop (by omega) hnext.weaken h
          · next layer recipe =>
            have hlayer : layer < limit := hbelow layer _ rfl
            exact ihRecipe recipe [] layer _ stop (by omega) hnext h
          · exact rowTag_stopsAt h
        · split at h
          · next declared _ => exact ihRecipe _ _ _ _ stop hlimit hnext h
          · exact rowTag_stopsAt h
      · rw [hreached] at h
        exact rowTag_stopsAt h
    · intro recipe mapper limit depth stop hlimit hfuel h
      unfold declaredRecipeTagWithMapper at h
      have hnext := hfuel.recipe
      split at h
      · cases h
      · simp only at h
        split at h
        · exact ihType _ _ _ stop hlimit hnext h
        · exact ihType _ _ _ stop hlimit hnext h
      · cases h
      · cases h
      · cases h
      · exact ihType _ _ _ stop hlimit hnext h

theorem renderTag_stopsAt {levels : Nat} {binding : RenderBinding} {c : RenderContext}
    {stop : RenderStop} (hc : c.InRange) (hfuel : Fuelled limits 0 levels c.depth)
    (h : renderTag rs limits levels binding c = .error stop) : StopsAt rs limits stop := by
  obtain ⟨htype, hrecipe⟩ := @displayedTag_stopsAt rs limits c levels
  cases binding with
  | type id => exact htype id _ _ stop hc hfuel.weaken h
  | recipe recipe => exact hrecipe recipe _ _ _ stop hc hfuel h

variable {later : Buffer Glyph → Buffer Glyph → Prop}

theorem enterLevel_spec (rule : DisplayRule rs limits later) {c : RenderContext}
    {node : RenderContext → Except RenderStop RenderContext}
    (hnode : limits.reached c.depth = false →
      Outcome rs limits later { c with depth := c.depth + 1 }
        (node { c with depth := c.depth + 1 })) :
    Outcome rs limits later c (enterLevel limits node c) := by
  unfold enterLevel
  split_ifs with htruncated hreached
  · exact ⟨.refl c, rule.refl _⟩
  · have hlimits : limits ≠ .unlimited := by
      rintro rfl
      cases hreached
    exact ⟨⟨rfl, rfl, rfl, rfl⟩, rule.collapse hlimits c⟩
  · refine Outcome.scoped { c with depth := c.depth + 1 } rfl
      (hnode (by simpa using hreached)) ?_
    intro c' hrestored
    refine ⟨⟨hrestored.rendering, hrestored.overlays, hrestored.overlayLimit, ?_⟩, rfl⟩
    simp [hrestored.depth]

/-- **What every call leaves behind.** -/
theorem renderBinding_spec (rule : DisplayRule rs limits later) (levels : Nat) (widen : Bool)
    (binding : RenderBinding) (c : RenderContext) (hc : c.InRange)
    (hfuel : Fuelled limits 0 levels c.depth) :
    Outcome rs limits later c (renderBinding rs limits levels widen binding c) := by
  induction levels generalizing widen binding c with
  | zero =>
    exact enterLevel_spec rule (fun _ => hfuel.stopsAt_zero (Nat.zero_le 1))
  | succ levels ih =>
    apply enterLevel_spec rule
    intro hopen
    have hnext := hfuel.next hopen
    refine Print.run_spec rule ?_ ?_ (nodePrint_fromStore widen binding) hc rfl
    · intro below c' hc' hdepth
      exact ih false below c' hc' (hdepth ▸ hnext)
    · intro below c' stop hc' hdepth htag
      exact renderTag_stopsAt hc' (hdepth ▸ hnext) htag

end Levels

end Typokat.Diagnostics
