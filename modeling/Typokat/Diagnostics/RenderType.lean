import Typokat.Lib.Buffer
import Typokat.Diagnostics.Texts

/-!
# Type Rendering (`diagnostics/render_type.rs`)

The printers of the single rows are programs of a small language, `Print`: they append texts,
render other types and recipes, and push and pop what the context keeps.  Running such a
program is one definition for all of them, and so is the guard in front of every type and
recipe.

A call nests at most as deep as the number of levels it is given.  The display limits stop
every call before the levels run out; without the limits they are the only bound.

## Main Definitions

- `RenderContext` : the text so far and the stacks
- `Print` : what a printer does
- `renderTypeNode`, `renderDeclaredRecipeNode` : the printers of the rows and recipes
- `renderType` : the display of a type
-/

namespace Typokat.Diagnostics

open Types Lib

/-! ## §1 The context -/

/-- The arena with its rendering-only `template_names` column. -/
structure RenderStore where
  store : Store
  templateNames : LayeredMap TypeId String := {}

/-- `Store::template_name`. -/
def RenderStore.templateName (rs : RenderStore) (id : TypeId) : Option String :=
  rs.templateNames.get id

/-- `DISPLAY_CHAR_LIMIT`. -/
def displayCharLimit : Nat := 320

/-- `DISPLAY_DEPTH_LIMIT`. -/
def displayDepthLimit : Nat := 64

/-- Which limits of the display apply: both, the depth limit alone or none.  Without the
    character limit a display that stops at the depth limit keeps what is written so far. -/
inductive Limits
  | display | depthOnly | unlimited
  deriving DecidableEq, Repr

/-- `depth >= DISPLAY_DEPTH_LIMIT`. -/
def Limits.reached : Limits → Nat → Bool
  | .unlimited, _ => false
  | _, depth => decide (displayDepthLimit ≤ depth)

/-- What a bound parameter stands for. -/
inductive RenderBinding
  | type (ty : TypeId)
  | recipe (recipe : DeclaredRecipeId)
  deriving DecidableEq, Repr

abbrev Overlay := FxHashMap TypeParamId RenderBinding

/-- `collect` into a map: a later entry replaces an earlier one. -/
def collectOverlay (entries : List (TypeParamId × RenderBinding)) : Overlay :=
  entries.foldl (fun overlay (parameter, binding) => overlay.insert parameter binding) ∅

/-- The output, the ids being expanded (newest first) and the overlays (oldest first), of
    which the first `overlayLimit` are visible. -/
structure RenderContext where
  display : Buffer Glyph := { remaining := displayCharLimit }
  rendering : List TypeId := []
  overlays : List Overlay := []
  overlayLimit : Nat := 0
  depth : Nat := 0

structure OverlayFrame where
  previousLimit : Nat
  hidden : List Overlay

/-- Why there is no display: the levels ran out, an id was out of range, or the overlay stack
    was left. -/
inductive RenderStop
  | outOfLevels
  | dangling (id : TypeId)
  | overlayRange
  deriving DecidableEq, Repr

namespace RenderContext

def append (limits : Limits) (c : RenderContext) (text : Text) : RenderContext :=
  { c with
    display :=
      match limits with
      | .display => c.display.append displayCharLimit ellipsis text
      | _ =>
        if c.display.truncated then c.display
        else { c.display with output := c.display.output ++ text } }

def stopAtDepthLimit (limits : Limits) (c : RenderContext) : RenderContext :=
  { c with
    display :=
      match limits with
      | .display => Buffer.collapse displayCharLimit ellipsis
      | _ => { c.display with truncated := true } }

/-- The newest visible binding of a parameter and its layer; slicing the stack behind its end
    panics. -/
def overlayBinding (c : RenderContext) (parameter : TypeParamId) (limit : Nat) :
    Except RenderStop (Option (Nat × RenderBinding)) :=
  if c.overlays.length < limit then .error .overlayRange
  else
    .ok ((c.overlays.take limit).zipIdx.reverse.findSome? (fun (overlay, layer) =>
      (overlay.lookup parameter).map (fun binding => (layer, binding))))

/-- Splitting off the hidden overlays panics behind the end of the stack. -/
def pushOverlay (c : RenderContext) (overlay : Overlay) :
    Except RenderStop (OverlayFrame × RenderContext) :=
  if c.overlays.length < c.overlayLimit then .error .overlayRange
  else
    let visible := c.overlays.take c.overlayLimit
    let hidden := c.overlays.drop c.overlayLimit
    let overlays := visible ++ [overlay]
    .ok ({ previousLimit := c.overlayLimit, hidden },
      { c with overlays, overlayLimit := overlays.length })

/-- The source would not notice that there is nothing to pop. -/
def popOverlay (c : RenderContext) (frame : OverlayFrame) : Except RenderStop RenderContext :=
  if c.overlays = [] then .error .overlayRange
  else
    .ok { c with
      overlays := c.overlays.dropLast ++ frame.hidden
      overlayLimit := frame.previousLimit }

end RenderContext

/-! ## §2 Printers -/

/-- What a printer does with the context. -/
inductive Print
  | done
  /-- `context.append`. -/
  | append (text : Text)
  /-- `render_type_inner` or `render_declared_recipe`. -/
  | render (binding : RenderBinding)
  | seq (first second : Print)
  /-- A loop leaves here once the output is truncated. -/
  | unlessTruncated (body : Print)
  /-- Parentheses around a type or recipe that displays as one of the tags. -/
  | parenthesized (tags : List TypeTag) (binding : RenderBinding)
  /-- A type that is being expanded already is displayed as dots. -/
  | guarded (id : TypeId) (body : Print)
  /-- `rendering.push` and `rendering.pop`. -/
  | pushed (id : TypeId) (body : Print)
  /-- `push_overlay` and `pop_overlay`. -/
  | overlaid (overlay : Overlay) (body : Print)
  /-- `render_overlay_binding`: a bound parameter is displayed by its binding, in the scope
      outside of its overlay. -/
  | bound (parameter : TypeParamId) (otherwise : Print)
  /-- Reading a row that is out of range panics. -/
  | missing (id : TypeId)

namespace Print

def write (s : String) : Print := .append (made s.toList)

def copy (s : String) : Print := .append (copied s)

def type (id : TypeId) : Print := .render (.type id)

def recipe (id : DeclaredRecipeId) : Print := .render (.recipe id)

/-- One printer after the other. -/
def all (parts : List Print) : Print := parts.foldr .seq .done

def when (condition : Bool) (body : Print) : Print := if condition then body else .done

def optional {A : Type} (value : Option A) (body : A → Print) : Print := value.elim .done body

def unsupported : Print := write "<unsupported>"

/-- The fallback of a row without a side-table entry. -/
def entry {A : Type} (value : Option A) (body : A → Print) : Print :=
  value.elim unsupported body

/-- A loop with a separator in front of every element but the first one. -/
def separated {A : Type} (separator : String) (body : A → Print) : Bool → List A → Print
  | _, [] => .done
  | needsSeparator, x :: xs =>
    .unlessTruncated (all [when needsSeparator (write separator), body x,
      separated separator body true xs])

/-- A loop without a separator. -/
def each {A : Type} (body : A → Print) : List A → Print
  | [] => .done
  | x :: xs => .unlessTruncated (.seq (body x) (each body xs))

/-- Reading a row before it is printed. -/
def reading (rs : RenderStore) (id : TypeId) (body : Print) : Print :=
  if rs.store.tag id = none then .missing id else body

section Run

variable (limits : Limits) (call : RenderBinding → RenderContext → Except RenderStop RenderContext)
  (tagOf : RenderBinding → RenderContext → Except RenderStop TypeTag)

/-- Run a printer, given how the types and recipes below it are rendered and which tags they
    display as. -/
def run : Print → RenderContext → Except RenderStop RenderContext
  | .done, c => .ok c
  | .append text, c => .ok (c.append limits text)
  | .render binding, c => call binding c
  | .seq first second, c => (run first c).bind (run second)
  | .unlessTruncated body, c => if c.display.truncated then .ok c else run body c
  | .parenthesized tags binding, c =>
    (tagOf binding c).bind (fun tag =>
      if tag ∈ tags then
        (call binding (c.append limits (made ['(']))).map
          (fun c => c.append limits (made [')']))
      else call binding c)
  | .guarded id body, c =>
    if id ∈ c.rendering then .ok (c.append limits ellipsis) else run body c
  | .pushed id body, c =>
    (run body { c with rendering := id :: c.rendering }).map
      (fun c => { c with rendering := c.rendering.tail })
  | .overlaid overlay body, c =>
    (c.pushOverlay overlay).bind (fun (frame, c) =>
      (run body c).bind (fun c => c.popOverlay frame))
  | .bound parameter otherwise, c =>
    (c.overlayBinding parameter c.overlayLimit).bind (fun
      | some (layer, binding) =>
        (call binding { c with overlayLimit := layer }).map
          (fun after => { after with overlayLimit := c.overlayLimit })
      | none => run otherwise c)
  | .missing id, _ => .error (.dangling id)

end Run

end Print

/-! ## §3 The printers of the rows -/

section Nodes

open Print

/-- `render_literal`. -/
def renderLiteral : LiteralValue → Print
  | .string s =>
    all [write "\"", each (fun c => .append (made (escapedChar c))) s.toList, write "\""]
  | .boolean b => write (if b then "true" else "false")
  | .number n => .append (made (numberChars n))
  | .wellKnownSymbol symbol => all [write "typeof Symbol.", write (symbolName symbol)]

variable (rs : RenderStore)

/-- `render_generic_type_params`. -/
def renderGenericTypeParams (func : FunctionType) : Print :=
  when (!func.typeParams.isEmpty)
    (all [write "<",
      separated ", " (fun param =>
        all [
          match rs.store.typeParamNames.get param.id with
          | some name => copy name
          | none => write "T",
          optional param.constraint (fun constraint => all [write " extends ", type constraint]),
          optional param.default (fun default => all [write " = ", type default])])
        false func.typeParams,
      write ">"])

/-- `render_parameter_name`. -/
def renderParameterName (param : ParameterType) : Print :=
  all [when param.rest (write "..."), copy param.name,
    when (param.optional && !param.rest) (write "?")]

/-- `render_function_params`. -/
def renderFunctionParams (func : FunctionType) : Print :=
  all [
    optional func.receiver (fun receiver => all [write "this: ", type receiver]),
    separated ", " (fun param => all [renderParameterName param, write ": ", type param.ty])
      func.receiver.isSome func.params]

/-- The parameters and the return type behind a given text. -/
def renderSignature (func : FunctionType) (arrow : String) : Print :=
  all [renderGenericTypeParams rs func, write "(", renderFunctionParams func, write arrow,
    type func.ret]

variable (id : TypeId)

/-- `render_call_signature`. -/
def renderCallSignature : Print :=
  reading rs id (entry (rs.store.functionType id) (fun func => renderSignature rs func "): "))

/-- `render_construct_signature`. -/
def renderConstructSignature : Print :=
  reading rs id
    (entry (rs.store.functionType id) (fun func =>
      all [write "new ", renderSignature rs func "): "]))

/-- The members of an object, separated whichever kinds of them there are. -/
def renderObjectMembers (obj : ObjectType) : Print :=
  let afterString := obj.stringIndex.isSome
  let afterNumber := afterString || obj.numberIndex.isSome
  let afterCalls := afterNumber || !obj.callSignatures.isEmpty
  let afterConstructs := afterCalls || !obj.constructSignatures.isEmpty
  all [
    optional obj.stringIndex (fun value => all [write "[x: string]: ", type value]),
    .unlessTruncated (optional obj.numberIndex (fun value =>
      all [when afterString (write "; "), write "[x: number]: ", type value])),
    separated "; " (renderCallSignature rs) afterNumber obj.callSignatures,
    separated "; " (renderConstructSignature rs) afterCalls obj.constructSignatures,
    separated "; " (fun property =>
      all [.append (propertyKeyText property.key), write ": ", type property.ty])
      afterConstructs obj.properties]

def renderObject (obj : ObjectType) : Print :=
  if obj.properties.isEmpty && obj.stringIndex.isNone && obj.numberIndex.isNone &&
      obj.callSignatures.isEmpty && obj.constructSignatures.isEmpty then
    write "\x7b\x7d"
  else
    all [.pushed id (all [write "\x7b ", renderObjectMembers rs obj]), write " \x7d"]

/-- The payloads of the members, if all of them are string literals.  The members are read up
    to the first one that is not; an id that is out of range is an error. -/
def stringMembers (rs : RenderStore) :
    List TypeId → Except TypeId (Option (List (String × TypeId)))
  | [] => .ok (some [])
  | member :: members =>
    if rs.store.tag member = none then .error member
    else
      match rs.store.literalValue member with
      | some (.string value) =>
        (stringMembers rs members).map
          (fun rest => rest.map (fun rest => (value, member) :: rest))
      | _ => .ok none

/-- `render_union_members`. -/
def renderUnionMembers (members : List TypeId) : Print :=
  separated " | " (fun member => .parenthesized [.intersection] (.type member)) false members

/-- A union of string literals only is displayed in the order of the payloads. -/
def renderUnion (members : List TypeId) : Print :=
  match stringMembers rs members with
  | .error id => .missing id
  | .ok (some strings) =>
    renderUnionMembers
      ((strings.insertionSort (fun left right => (compare left.1 right.1).isLE = true)).map
        (fun entry => entry.2))
  | .ok none => renderUnionMembers members

/-- `render_tuple_rest`. -/
def renderTupleRest (rest : TupleRestType) : Print := all [write "...", type rest.ty]

/-- The fixed elements of a tuple from a position on, with the rest segment in front of its
    position. -/
def renderTupleElements (rest : Option TupleRestType) : Bool → Nat → List TypeId → Print
  | _, _, [] => .done
  | needsSeparator, index, element :: elements =>
    .unlessTruncated (all [
      match rest with
      | some rest =>
        if rest.position = index then
          all [when needsSeparator (write ", "), renderTupleRest rest, write ", "]
        else when needsSeparator (write ", ")
      | none => when needsSeparator (write ", "),
      type element,
      renderTupleElements rest true (index + 1) elements])

/-- `render_tuple_parts`. -/
def renderTupleParts (tuple : TupleType) : Print :=
  all [renderTupleElements tuple.rest false 0 tuple.elements,
    .unlessTruncated (optional tuple.rest (fun rest =>
      when (decide (tuple.elements.length ≤ rest.position))
        (all [when (!tuple.elements.isEmpty) (write ", "), renderTupleRest rest])))]

/-- `render_modifier`; a removed modifier is trimmed. -/
def renderModifier (op : ModifierOp) (token trimmed : String) : String :=
  match op with
  | .keep => ""
  | .add => token
  | .remove => "-" ++ trimmed

def renderMapped (mapped : MappedType) : Print :=
  all [
    .pushed id (all [
      write "\x7b ",
      write (renderModifier mapped.readonlyModifier "readonly " "readonly"),
      write "[K in ",
      when mapped.homomorphic (write "keyof "),
      type mapped.keySource,
      write "]",
      write (renderModifier mapped.optionalModifier "?" "?"),
      write ": ",
      type mapped.valueTemplate]),
    write " \x7d"]

/-- The texts and holes of a template literal, from the first hole on. -/
def renderTemplateHoles (template : TemplateType) : Nat → List TypeId → Print
  | _, [] => .done
  | index, hole :: holes =>
    .unlessTruncated (all [copy ((template.texts[index]?).getD ""), write "$\x7b", type hole,
      write "\x7d", renderTemplateHoles template (index + 1) holes])

def renderTemplate (template : TemplateType) : Print :=
  .pushed id (all [write "`", renderTemplateHoles template 0 template.holes,
    copy ((template.texts[template.holes.length]?).getD ""), write "`"])

def renderInstantiation (inst : InstantiationType) : Print :=
  all [
    .pushed id (all [
      match rs.templateName inst.base with
      | some name => copy name
      | none => type inst.base,
      write "<",
      separated ", " type false (inst.args.map (fun entry => entry.2))]),
    write ">"]

def renderClassInstance (classInstance : ClassInstanceType) : Print :=
  .pushed id (all [
    .append (made ("class#".toList ++ Nat.toDigits 10 classInstance.classId)),
    when (!classInstance.args.isEmpty)
      (all [write "<", separated ", " type false classInstance.args, write ">"])])

/-- The printer of a row, without the overlay bindings. -/
def renderRow (widen : Bool) : Print :=
  match rs.store.tag id with
  | none => .missing id
  | some .intrinsic =>
    match rs.store.intrinsicKind id with
    | some kind => write (displayName kind)
    | none => write "unknown"
  | some .literal =>
    match rs.store.literalValue id with
    | some lit => if widen then write (displayName lit.baseKind) else renderLiteral lit
    | none => write "unknown"
  | some .object => .guarded id (entry (rs.store.objectType id) (renderObject rs id))
  | some .function =>
    entry (rs.store.functionType id) (fun func => renderSignature rs func ") => ")
  | some .union => entry (rs.store.unionMembers id) (renderUnion rs)
  | some .intersection =>
    entry (rs.store.intersectionMembers id) (separated " & "
      (fun member => .parenthesized [.union, .function] (.type member)) false)
  | some .typeParam =>
    match rs.store.typeParam id with
    | some param => copy param.name
    | none => write "unknown"
  | some .array =>
    entry (rs.store.arrayType id) (fun element =>
      all [.parenthesized [.union, .function, .intersection, .readonly] (.type element),
        write "[]"])
  | some .tuple =>
    entry (rs.store.tupleType id) (fun tuple =>
      all [write "[", renderTupleParts tuple, write "]"])
  | some .readonly =>
    entry (rs.store.readonlyOperand id) (fun operand => all [write "readonly ", type operand])
  | some .conditional =>
    entry (rs.store.conditionalType id) (fun cond =>
      .guarded id (.pushed id (all [type cond.check, write " extends ", type cond.extendsTy,
        write " ? ", type cond.trueBranch, write " : ", type cond.falseBranch])))
  | some .instantiation =>
    entry (rs.store.instantiationType id) (fun inst =>
      .guarded id (renderInstantiation rs id inst))
  | some .classInstance =>
    entry (rs.store.classInstanceType id) (fun classInstance =>
      .guarded id (renderClassInstance id classInstance))
  | some .infer =>
    entry (rs.store.inferIndex id) (fun index =>
      .append (made ("infer#".toList ++ Nat.toDigits 10 index)))
  | some .mapped =>
    entry (rs.store.mappedType id) (fun mapped => .guarded id (renderMapped id mapped))
  | some .mappedValue => write "T[K]"
  | some .keyof =>
    entry (rs.store.keyofOperand id) (fun operand =>
      .guarded id (.pushed id (all [write "keyof ", type operand])))
  | some .deferredIndexedAccess =>
    entry (rs.store.deferredIndexedAccessType id) (fun access =>
      .guarded id (all [
        .pushed id (all [
          .parenthesized [.union, .intersection, .function, .conditional, .readonly, .keyof]
            (.type access.object),
          write "[",
          type access.index]),
        write "]"]))
  | some .template =>
    entry (rs.store.templateType id) (fun template => .guarded id (renderTemplate id template))
  | some .declared =>
    entry (rs.store.declaredType id) (fun declared =>
      .guarded id (.pushed id (.overlaid
        (collectOverlay (declared.mapper.map (fun (parameter, ty) => (parameter, .type ty))))
        (recipe declared.recipe))))

/-- `render_type_node`. -/
def renderTypeNode (widen : Bool) : Print :=
  match rs.store.typeParam id with
  | some parameter => .bound parameter.id (renderRow rs id widen)
  | none => renderRow rs id widen

/-- The elements of a tuple recipe from a position on. -/
def renderRecipeElements (rest : Option (Nat × DeclaredRecipeId)) :
    Nat → List DeclaredRecipeId → Print
  | _, [] => .done
  | index, element :: elements =>
    all [when (decide (0 < index)) (write ", "),
      optional rest (fun (position, rest) =>
        when (position == index) (all [write "...", recipe rest, write ", "])),
      recipe element,
      renderRecipeElements rest (index + 1) elements]

/-- `render_declared_recipe_node`. -/
def renderDeclaredRecipeNode (id : DeclaredRecipeId) : Print :=
  match (rs.store.declaredRecipe id).map DeclaredTypeRecipe.node with
  | none => unsupported
  | some (.type ty) => type ty
  | some (.array element) =>
    all [.parenthesized [.union, .function, .intersection, .readonly] (.recipe element),
      write "[]"]
  | some (.tuple elements rest) =>
    all [write "[", renderRecipeElements rest 0 elements,
      optional rest (fun (position, rest) =>
        when (position == elements.length)
          (all [when (!elements.isEmpty) (write ", "), write "...", recipe rest])),
      write "]"]
  | some (.readonly operand) => all [write "readonly ", recipe operand]
  | some (.application template parameters arguments) =>
    .overlaid
      (collectOverlay ((parameters.zip arguments).map
        (fun (parameter, argument) => (parameter, .recipe argument))))
      (type template)

end Nodes

/-! ## §4 Displayed tags -/

section Tags

variable (rs : RenderStore) (limits : Limits) (c : RenderContext)

/-- `Store::tag`; an id that is out of range panics. -/
def rowTag (id : TypeId) : Except RenderStop TypeTag :=
  match rs.store.tag id with
  | some tag => .ok tag
  | none => .error (.dangling id)

mutual

/-- `render_tag_with_limit`: the tag a type displays as, through bindings and recipes.  The
    walk counts the display depth on by hand. -/
def renderTagWithLimit : Nat → TypeId → Nat → Nat → Except RenderStop TypeTag
  | 0, _, _, _ => .error .outOfLevels
  | levels + 1, id, limit, depth =>
    if limits.reached depth then rowTag rs id
    else
      match rs.store.typeParam id with
      | some parameter =>
        (c.overlayBinding parameter.id limit).bind (fun
          | some (layer, .type ty) => renderTagWithLimit levels ty layer (depth + 1)
          | some (layer, .recipe recipe) =>
            declaredRecipeTagWithMapper levels recipe [] layer (depth + 1)
          | none => rowTag rs id)
      | none =>
        match rs.store.declaredType id with
        | some declared =>
          declaredRecipeTagWithMapper levels declared.recipe declared.mapper limit (depth + 1)
        | none => rowTag rs id

/-- `declared_recipe_tag_with_mapper`. -/
def declaredRecipeTagWithMapper :
    Nat → DeclaredRecipeId → List (TypeParamId × TypeId) → Nat → Nat →
      Except RenderStop TypeTag
  | 0, _, _, _, _ => .error .outOfLevels
  | levels + 1, recipe, mapper, limit, depth =>
    match (rs.store.declaredRecipe recipe).map DeclaredTypeRecipe.node with
    | none => .ok .intrinsic
    | some (.type ty) =>
      let mapped := (rs.store.typeParam ty).bind (fun parameter =>
        mapper.find? (fun entry => entry.1 == parameter.id))
      match mapped with
      | some (_, mapped) => renderTagWithLimit levels mapped limit (depth + 1)
      | none => renderTagWithLimit levels ty limit (depth + 1)
    | some (.array _) => .ok .array
    | some (.tuple _ _) => .ok .tuple
    | some (.readonly _) => .ok .readonly
    | some (.application template _ _) => renderTagWithLimit levels template limit (depth + 1)

end

end Tags

/-- `render_tag` and `declared_recipe_tag` in the current scope. -/
def renderTag (rs : RenderStore) (limits : Limits) (levels : Nat) (binding : RenderBinding)
    (c : RenderContext) : Except RenderStop TypeTag :=
  match binding with
  | .type id => renderTagWithLimit rs limits c levels id c.overlayLimit c.depth
  | .recipe recipe =>
    declaredRecipeTagWithMapper rs limits c levels recipe [] c.overlayLimit c.depth

/-! ## §5 Rendering -/

/-- The guard of `render_type_inner` and `render_declared_recipe`. -/
def enterLevel (limits : Limits) (node : RenderContext → Except RenderStop RenderContext)
    (c : RenderContext) :
    Except RenderStop RenderContext :=
  if c.display.truncated then .ok c
  else if limits.reached c.depth then .ok (c.stopAtDepthLimit limits)
  else
    (node { c with depth := c.depth + 1 }).map (fun c => { c with depth := c.depth - 1 })

/-- The printer of a type or recipe. -/
def nodePrint (rs : RenderStore) (widen : Bool) : RenderBinding → Print
  | .type id => renderTypeNode rs id widen
  | .recipe recipe => renderDeclaredRecipeNode rs recipe

/-- Render a type or recipe with a number of levels to nest calls in. -/
def renderBinding (rs : RenderStore) (limits : Limits) :
    Nat → Bool → RenderBinding → RenderContext → Except RenderStop RenderContext
  | 0, _, _ => enterLevel limits (fun _ => .error .outOfLevels)
  | levels + 1, widen, binding =>
    enterLevel limits ((nodePrint rs widen binding).run limits
      (renderBinding rs limits levels false) (renderTag rs limits levels))

/-- `render_type_inner`. -/
def renderTypeInner (rs : RenderStore) (limits : Limits) (levels : Nat) (id : TypeId) (widen : Bool) :
    RenderContext → Except RenderStop RenderContext :=
  renderBinding rs limits levels widen (.type id)

/-- `render_type`.  A call at the depth limit stops, and the walk to a displayed tag goes at
    most one level further, so two levels more than the limit are as many as a display can
    nest. -/
def renderType (rs : RenderStore) (id : TypeId) (widen : Bool) : Except RenderStop Text :=
  (renderTypeInner rs .display (displayDepthLimit + 2) id widen {}).map
    (fun c => c.display.output)

/-- The same traversal without the character and depth limits, as far as it nests no deeper
    than the levels. -/
def renderUnlimited (rs : RenderStore) (levels : Nat) (id : TypeId) (widen : Bool) :
    Except RenderStop Text :=
  (renderTypeInner rs .unlimited levels id widen {}).map (fun c => c.display.output)

/-- What the traversal reaches under the depth limit alone: the text it writes, and whether it
    stops at a nesting that is too deep. -/
def renderReached (rs : RenderStore) (id : TypeId) (widen : Bool) :
    Except RenderStop (Text × Bool) :=
  (renderTypeInner rs .depthOnly (displayDepthLimit + 2) id widen {}).map
    (fun c => (c.display.output, c.display.truncated))

end Typokat.Diagnostics
