import Typokat.Frontend.Order
import Std.Data.TreeMap.Lemmas
import Mathlib.Data.List.Permutation
import Mathlib.Data.Prod.Lex

/-!
# Namespace Provenance of Source Re-exports (`typokat-frontend/src/frontend.rs`)

A re-exported name may be imported as a type only when no namespace stands behind it.  The
modules are processed in dependency order; every module gets a table of the names that it
exports, each `ProvenAbsent` or `PresentOrUnknown`, and a flag that says whether the table
lists all its exports.

The statements carry what the pass reads of them: the names that a declaration binds and the
form of an export.  The resolver's outcomes are in the import and re-export tables.

## Main Results

- `Project.Step.absent` : in the final tables, a step of a chain from a name that is
  proven absent leads to such a name
- `provenance_sound` : so no chain from it ends at a namespace declaration
-/

namespace Typokat.Frontend

open Lib Option List Relation

/-! ## §1 Statements -/

/-- The name in an import or export specifier. -/
inductive ModuleExportName
  | identifierName (name : String)
  | identifierReference (name : String)
  | stringLiteral (value : String)
  deriving DecidableEq, Repr

/-- `module_export_name`. -/
def ModuleExportName.moduleExportName : ModuleExportName → Option String
  | identifierName name | identifierReference name => some name
  | stringLiteral _ => none

/-- The text of a name in either spelling. -/
def ModuleExportName.text : ModuleExportName → String
  | identifierName name | identifierReference name | stringLiteral name => name

/-- A declarator's target: one identifier, or a pattern with the names that it binds. -/
inductive BindingPattern
  | bindingIdentifier (name : String)
  | pattern (names : List String)
  deriving DecidableEq, Repr

inductive TSModuleDeclarationName
  | identifier (name : String)
  | stringLiteral (value : String)
  deriving DecidableEq, Repr

inductive Declaration
  | variableDeclaration (declarations : List BindingPattern)
  | functionDeclaration (id : Option String)
  | classDeclaration (id : Option String)
  | tsTypeAliasDeclaration (id : String)
  | tsInterfaceDeclaration (id : String)
  | tsEnumDeclaration (id : String)
  | tsModuleDeclaration (id : TSModuleDeclarationName)
  | tsGlobalDeclaration
  | tsImportEqualsDeclaration (id : String)
  deriving DecidableEq, Repr

structure ExportSpecifier where
  localName : ModuleExportName
  exported : ModuleExportName
  deriving DecidableEq, Repr

/-- `export <declaration>`, `export { .. }` or `export { .. } from "source"`. -/
structure ExportNamedDeclaration where
  declaration : Option Declaration := none
  specifiers : List ExportSpecifier := []
  source : Option String := none
  spanStart : Nat := 0
  deriving DecidableEq, Repr

inductive Statement
  | declaration (declaration : Declaration)
  | exportNamedDeclaration (declaration : ExportNamedDeclaration)
  | exportAllDeclaration
  | exportDefaultDeclaration
  | tsExportAssignment
  | tsNamespaceExportDeclaration
  | other
  deriving DecidableEq, Repr

/-- The declaration that a statement makes, exported or not. -/
def Statement.declaration? : Statement → Option Declaration
  | .declaration made => some made
  | .exportNamedDeclaration named => named.declaration
  | _ => none

structure RawSourceReexportMember where
  imported : String
  exported : String
  deriving DecidableEq, Repr

/-- One admitted `export { .. } from "source"`. -/
structure RawSourceReexportDeclaration where
  ownerModule : Nat
  source : RawImportSource
  ownerStart : Nat
  members : List RawSourceReexportMember
  deriving DecidableEq, Repr

/-! ## §2 The pass -/

inductive NamespaceProvenance
  | provenAbsent
  | presentOrUnknown
  deriving DecidableEq, Repr

open NamespaceProvenance

/-- Names with their provenance. -/
abbrev Provenances := Std.TreeMap String NamespaceProvenance

/-- `join_namespace`. -/
def joinNamespace (names : Provenances) (name : String) (incoming : NamespaceProvenance) :
    Provenances :=
  names.alter name (fun
    | some current => if incoming = presentOrUnknown then presentOrUnknown else current
    | none => incoming)

/-- Join names one after the other. -/
def joinAll (names : Provenances) (entries : List (String × NamespaceProvenance)) : Provenances :=
  entries.foldl (fun names entry => joinNamespace names entry.1 entry.2) names

/-- `declaration_namespace_names`: what is recorded, and whether that is every name of the
    declaration. -/
def declarationNamespaceNames : Declaration → List (String × NamespaceProvenance) × Bool
  | .variableDeclaration declarations =>
    (declarations.filterMap (fun
      | .bindingIdentifier name => some (name, provenAbsent)
      | .pattern _ => none),
      declarations.all (fun
      | .bindingIdentifier _ => true
      | .pattern _ => false))
  | .functionDeclaration id | .classDeclaration id =>
    match id with
    | some name => ([(name, provenAbsent)], true)
    | none => ([], false)
  | .tsTypeAliasDeclaration name | .tsInterfaceDeclaration name | .tsEnumDeclaration name =>
    ([(name, provenAbsent)], true)
  | .tsModuleDeclaration (.identifier name) => ([(name, presentOrUnknown)], true)
  | .tsModuleDeclaration (.stringLiteral _) => ([], false)
  | .tsGlobalDeclaration | .tsImportEqualsDeclaration _ => ([], false)

/-- The exports of each module, and whether they are all of them. -/
structure Table where
  moduleExports : List Provenances
  moduleComplete : List Bool

/-- The lookup that `namespace_from_dependency` and the end of the pass share: a name that is
    not listed is absent only where the list is complete. -/
def Table.lookup (table : Table) (module : Nat) (name : String) : NamespaceProvenance :=
  match (table.moduleExports[module]?).bind (fun exports => exports[name]?) with
  | some provenance => provenance
  | none => if (table.moduleComplete[module]?).getD false then provenAbsent else presentOrUnknown

/-- `namespace_from_dependency`. -/
def namespaceFromDependency (source : RawImportSource) (name : String) (table : Table) :
    NamespaceProvenance :=
  match source with
  | .resolved target => table.lookup target name
  | .missing => presentOrUnknown

/-- The local names of a module: its imports and its declarations. -/
def moduleLocals (program : List Statement) (imports : List RawImport) (table : Table) :
    Provenances :=
  let imported := joinAll ∅ (imports.map (fun raw =>
    (raw.localName, namespaceFromDependency raw.source raw.imported table)))
  program.foldl (fun locals statement =>
    match statement.declaration? with
    | some declaration => joinAll locals (declarationNamespaceNames declaration).1
    | none => locals) imported

/-- What an export takes from the local names. -/
def localProvenance (locals : Provenances) (name : String) : NamespaceProvenance :=
  (locals[name]?).getD presentOrUnknown

/-- The exports of a statement, and whether they are all of its exports.  `listed` says where
    the admitted source re-exports start. -/
def statementExports (locals : Provenances) (listed : Nat → Bool) :
    Statement → List (String × NamespaceProvenance) × Bool
  | .exportNamedDeclaration named =>
    match named.declaration with
    | some declaration =>
      let (names, enumerable) := declarationNamespaceNames declaration
      (names.map (fun entry => (entry.1, localProvenance locals entry.1)), enumerable)
    | none =>
      if named.source.isNone then
        (named.specifiers.filterMap (fun specifier =>
          match specifier.localName.moduleExportName, specifier.exported.moduleExportName with
          | some name, some exported => some (exported, localProvenance locals name)
          | _, _ => none),
          named.specifiers.all (fun specifier =>
            specifier.localName.moduleExportName.isSome &&
              specifier.exported.moduleExportName.isSome))
      else ([], named.specifiers.isEmpty || listed named.spanStart)
  | .exportAllDeclaration | .exportDefaultDeclaration | .tsExportAssignment
  | .tsNamespaceExportDeclaration => ([], false)
  | .declaration _ | .other => ([], true)

/-- One turn of the loop over the modules. -/
def processModule (programs : List (List Statement)) (rawImports : List (List RawImport))
    (sourceReexports : List RawSourceReexportDeclaration) (table : Table) (module : Nat) : Table :=
  match programs[module]? with
  | none => table
  | some program =>
    let locals := moduleLocals program (rawImports[module]?.getD []) table
    let owned := sourceReexports.filter (fun declaration => declaration.ownerModule = module)
    let exported := program.map (statementExports locals (fun start =>
      owned.any (fun declaration => declaration.ownerStart = start)))
    let exports := exported.foldl (fun exports entry => joinAll exports entry.1) ∅
    let complete := (table.moduleComplete[module]?).getD false && exported.all (fun entry => entry.2)
    let table := { table with moduleComplete := table.moduleComplete.set module complete }
    let exports := owned.foldl (fun exports declaration =>
      joinAll exports (declaration.members.map (fun member =>
        (member.exported, namespaceFromDependency declaration.source member.imported table)))) exports
    let exports := if complete then exports else exports.map (fun _ _ => presentOrUnknown)
    { table with moduleExports := table.moduleExports.set module exports }

/-- The names that the re-exports ask for. -/
def requestedNames (sourceReexports : List RawSourceReexportDeclaration) : List (Nat × String) :=
  sourceReexports.flatMap (fun declaration =>
    match declaration.source with
    | .resolved target => declaration.members.map (fun member => (target, member.imported))
    | .missing => [])

/-- Is the declaration of an ambient module with a quoted name? -/
def isQuotedModule : Declaration → Bool
  | .tsModuleDeclaration (.stringLiteral _) => true
  | _ => false

/-- The tables after the loop. -/
def finalTable (programs : List (List Statement)) (rawImports : List (List RawImport))
    (sourceReexports : List RawSourceReexportDeclaration)
    (reexportEdges : List (Std.TreeSet Nat)) : Table :=
  (dependencyOrderWithReexports rawImports reexportEdges).foldl
    (processModule programs rawImports sourceReexports)
    ⟨List.replicate programs.length ∅, List.replicate programs.length true⟩

/-- The answers to the requested names. -/
def answers (requested : List (Nat × String)) (answer : Nat → String → NamespaceProvenance) :
    Std.TreeMap (Nat ×ₗ String) NamespaceProvenance :=
  requested.foldl (fun found key => found.insert (toLex key) (answer key.1 key.2)) ∅

/-- `source_reexport_namespace_provenance`. -/
def sourceReexportNamespaceProvenance (programs : List (List Statement))
    (rawImports : List (List RawImport)) (sourceReexports : List RawSourceReexportDeclaration)
    (reexportEdges : List (Std.TreeSet Nat)) (hasCycle : Bool) :
    Std.TreeMap (Nat ×ₗ String) NamespaceProvenance :=
  let requested := requestedNames sourceReexports
  let globallyOpen := hasCycle || programs.any (fun program => program.any (fun statement =>
    statement.declaration?.any isQuotedModule))
  if globallyOpen then answers requested (fun _ _ => presentOrUnknown)
  else answers requested (finalTable programs rawImports sourceReexports reexportEdges).lookup

/-- The edges that the caller searches for a cycle: the resolved imports and the
    re-exports. -/
def combinedEdges (rawImports : List (List RawImport)) (reexportEdges : List (Std.TreeSet Nat)) :
    List (Std.TreeSet Nat) :=
  rawImports.mapIdx (fun index imports =>
    (targetsOf reexportEdges index).foldl (fun edges target => edges.insert target)
      (Std.TreeSet.ofList (imports.filterMap (fun raw => raw.source.target?))))

/-! ## §3 Chains -/

/-- The names that a declaration binds. -/
def Declaration.boundNames : Declaration → List String
  | .variableDeclaration declarations => declarations.flatMap (fun
    | .bindingIdentifier name => [name]
    | .pattern names => names)
  | .functionDeclaration id | .classDeclaration id => id.toList
  | .tsTypeAliasDeclaration name | .tsInterfaceDeclaration name | .tsEnumDeclaration name
  | .tsImportEqualsDeclaration name | .tsModuleDeclaration (.identifier name) => [name]
  | .tsModuleDeclaration (.stringLiteral _) | .tsGlobalDeclaration => []

/-- A name at the edge of a module, or inside. -/
inductive Site
  | exported (module : Nat) (name : String)
  | inside (module : Nat) (name : String)

/-- A project: its programs, and the imports and re-exports as they were resolved. -/
structure Project where
  programs : List (List Statement)
  rawImports : List (List RawImport)
  sourceReexports : List RawSourceReexportDeclaration
  reexportEdges : List (Std.TreeSet Nat)

/-- The step from a name to what it stands for.  A source re-export that is not in the table
    and an `export *` have no recorded target, so they may lead to any module. -/
inductive Project.Step (project : Project) : Site → Site → Prop
  | declaration {module program named made name} :
    project.programs[module]? = some program →
    Statement.exportNamedDeclaration named ∈ program → named.declaration = some made →
    name ∈ made.boundNames →
    Project.Step project (.exported module name) (.inside module name)
  | exportList {module program named specifier} :
    project.programs[module]? = some program →
    Statement.exportNamedDeclaration named ∈ program → named.declaration = none →
    named.source = none → specifier ∈ named.specifiers →
    Project.Step project (.exported module specifier.exported.text)
      (.inside module specifier.localName.text)
  | reexport {declaration target member} :
    declaration ∈ project.sourceReexports → declaration.source = .resolved target →
    member ∈ declaration.members →
    Project.Step project (.exported declaration.ownerModule member.exported)
      (.exported target member.imported)
  | unlistedReexport {module program named specifier} (target : Nat) :
    project.programs[module]? = some program →
    Statement.exportNamedDeclaration named ∈ program → named.declaration = none →
    named.source.isSome → specifier ∈ named.specifiers →
    (∀ declaration ∈ project.sourceReexports, declaration.ownerModule = module →
      declaration.ownerStart ≠ named.spanStart) →
    Project.Step project (.exported module specifier.exported.text)
      (.exported target specifier.localName.text)
  | exportAll {module program name} (target : Nat) :
    project.programs[module]? = some program → Statement.exportAllDeclaration ∈ program →
    Project.Step project (.exported module name) (.exported target name)
  | import {module imports raw target} :
    project.rawImports[module]? = some imports → raw ∈ imports →
    raw.source = .resolved target →
    Project.Step project (.inside module raw.localName) (.exported target raw.imported)

/-- A namespace declaration of a module, exported or not, has the name. -/
def Project.DeclaresNamespace (project : Project) (module : Nat) (name : String) : Prop :=
  ∃ program, project.programs[module]? = some program ∧ ∃ statement ∈ program,
    statement.declaration? = some (.tsModuleDeclaration (.identifier name))

/-- What the scan in front of the pass guarantees of its tables. -/
structure Project.Scanned (project : Project) : Prop where
  imports_length : project.rawImports.length = project.programs.length
  edges_length : project.reexportEdges.length = project.programs.length
  import_lt : ∀ owner target, ImportEdge project.rawImports project.reexportEdges owner target →
    target < project.programs.length
  /-- the target of a listed re-export is among the edges of its module -/
  reexport_edge : ∀ declaration ∈ project.sourceReexports, ∀ target,
    declaration.source = .resolved target →
    ModuleEdge project.reexportEdges declaration.ownerModule target

/-! ## §4 Joining names -/

theorem getElem?_joinNamespace {names : Provenances} {name other : String}
    {incoming : NamespaceProvenance} : (joinNamespace names name incoming)[other]? =
      if name = other then
        some (if incoming = presentOrUnknown then incoming else (names[name]?).getD incoming)
      else names[other]? := by
  unfold joinNamespace
  rw [Std.TreeMap.getElem?_alter]
  simp only [Std.LawfulEqCmp.compare_eq_iff_eq]
  split
  · rename_i heq
    subst heq
    cases names[name]? <;> cases incoming <;> rfl
  · rfl

variable {name : String}

/-- A joined name is absent only if everything that was joined under it is. -/
theorem absent_of_joinAll {names : Provenances} {entries : List (String × NamespaceProvenance)}
    (h : (joinAll names entries)[name]? = some provenAbsent) :
    names[name]? ≠ some presentOrUnknown ∧
      ∀ provenance, (name, provenance) ∈ entries → provenance = provenAbsent := by
  induction entries generalizing names with
  | nil =>
    change names[name]? = _ at h
    simp [h]
  | cons entry entries ih =>
    change (joinAll (joinNamespace names entry.1 entry.2) entries)[name]? = _ at h
    obtain ⟨hjoined, hrest⟩ := ih h
    rw [getElem?_joinNamespace] at hjoined
    obtain ⟨other, incoming⟩ := entry
    by_cases heq : other = name
    · subst heq
      simp only [if_true] at hjoined
      constructor
      · intro hname
        rw [hname] at hjoined
        cases incoming <;> simp at hjoined
      · intro provenance hmem
        rcases mem_cons.mp hmem with hmem | hmem
        · cases hmem
          cases incoming with
          | provenAbsent => rfl
          | presentOrUnknown => simp at hjoined
        · exact hrest provenance hmem
    · simp only [heq, if_false] at hjoined
      refine ⟨hjoined, fun provenance hmem => ?_⟩
      rcases mem_cons.mp hmem with hmem | hmem
      · cases hmem
        exact absurd rfl heq
      · exact hrest provenance hmem

/-- What is joined is listed. -/
theorem isSome_joinAll {names : Provenances} {entries : List (String × NamespaceProvenance)}
    (h : (names[name]?).isSome ∨ ∃ provenance, (name, provenance) ∈ entries) :
    ((joinAll names entries)[name]?).isSome := by
  induction entries generalizing names with
  | nil => simpa [joinAll] using h
  | cons entry entries ih =>
    change ((joinAll (joinNamespace names entry.1 entry.2) entries)[name]?).isSome
    apply ih
    rw [getElem?_joinNamespace]
    by_cases heq : entry.1 = name
    · simp [heq]
    · simp only [heq, if_false]
      rcases h with h | ⟨provenance, hmem⟩
      · exact .inl h
      · rcases mem_cons.mp hmem with hmem | hmem
        · cases hmem
          exact absurd rfl heq
        · exact .inr ⟨provenance, hmem⟩

theorem foldl_joinAll {A : Type} (entriesOf : A → List (String × NamespaceProvenance))
    (items : List A) (names : Provenances) :
    items.foldl (fun names item => joinAll names (entriesOf item)) names =
      joinAll names (items.flatMap entriesOf) := by
  unfold joinAll
  rw [foldl_flatMap]

/-- The names of a declaration are recorded, when all of them are. -/
theorem exists_recorded {declaration : Declaration}
    (henumerable : (declarationNamespaceNames declaration).2 = true)
    (h : name ∈ declaration.boundNames) :
    ∃ provenance, (name, provenance) ∈ (declarationNamespaceNames declaration).1 := by
  cases declaration with
  | variableDeclaration declarations =>
    obtain ⟨pattern, hpattern, hname⟩ := mem_flatMap.mp h
    have hidentifier := all_eq_true.mp henumerable pattern hpattern
    cases pattern with
    | bindingIdentifier bound =>
      rw [mem_singleton] at hname
      exact ⟨provenAbsent, mem_filterMap.mpr ⟨_, hpattern, by rw [hname]⟩⟩
    | pattern names => cases hidentifier
  | functionDeclaration id =>
    cases id <;> simp_all [Declaration.boundNames, declarationNamespaceNames]
  | classDeclaration id =>
    cases id <;> simp_all [Declaration.boundNames, declarationNamespaceNames]
  | tsModuleDeclaration id =>
    cases id <;> simp_all [Declaration.boundNames, declarationNamespaceNames]
  | _ => simp_all [Declaration.boundNames, declarationNamespaceNames]

/-! ## §5 The final tables -/

variable {project : Project} {table : Table} {module : Nat} {program : List Statement}

/-- The row of a module. -/
def Table.row (table : Table) (module : Nat) : Option Provenances × Option Bool :=
  (table.moduleExports[module]?, table.moduleComplete[module]?)

theorem Table.lookup_congr {table table' : Table} (h : table.row module = table'.row module)
    (name : String) : table.lookup module name = table'.lookup module name := by
  obtain ⟨hexports, hcomplete⟩ := Prod.mk.inj h
  unfold Table.lookup
  rw [hexports, hcomplete]

/-- The row of a processed module, written over the row as it was. -/
theorem row_processModule_ne {programs : List (List Statement)} {rawImports : List (List RawImport)}
    {sourceReexports : List RawSourceReexportDeclaration} {other : Nat} (hne : other ≠ module) :
    (processModule programs rawImports sourceReexports table module).row other =
      table.row other := by
  unfold processModule
  cases programs[module]? with
  | none => rfl
  | some program => simp [Table.row, getElem?_set_ne (Ne.symm hne)]

namespace Project

/-- The listed re-exports of a module. -/
def owned (project : Project) (module : Nat) : List RawSourceReexportDeclaration :=
  project.sourceReexports.filter (fun declaration => declaration.ownerModule = module)

/-- The local names of a module over a table. -/
def locals (project : Project) (table : Table) (module : Nat) (program : List Statement) :
    Provenances :=
  moduleLocals program (project.rawImports[module]?.getD []) table

/-- What a statement of a module exports. -/
def exportsOf (project : Project) (table : Table) (module : Nat) (program : List Statement)
    (statement : Statement) : List (String × NamespaceProvenance) × Bool :=
  statementExports (project.locals table module program) (fun start =>
    (project.owned module).any (fun declaration => declaration.ownerStart = start)) statement

/-- What the listed re-exports of a module export. -/
def reexportsOf (project : Project) (table : Table) (module : Nat) :
    List (String × NamespaceProvenance) :=
  (project.owned module).flatMap (fun declaration => declaration.members.map (fun member =>
    (member.exported, namespaceFromDependency declaration.source member.imported table)))

/-- The exports of a module, joined: those of its statements over one table, and those of its
listed re-exports over another. -/
def joined (project : Project) (table later : Table) (module : Nat) (program : List Statement) :
    Provenances :=
  joinAll (joinAll ∅ (program.flatMap (fun statement =>
    (project.exportsOf table module program statement).1))) (project.reexportsOf later module)

/-- Whether the statements of a module list all its exports. -/
def complete (project : Project) (table : Table) (module : Nat) (program : List Statement) : Bool :=
  program.all (fun statement => (project.exportsOf table module program statement).2)

/-- The loop of the pass, and its tables at the end. -/
def process (project : Project) (table : Table) (module : Nat) : Table :=
  processModule project.programs project.rawImports project.sourceReexports table module

def final (project : Project) : Table :=
  finalTable project.programs project.rawImports project.sourceReexports project.reexportEdges

/-- The edges along which the pass looks up names. -/
def Edge (project : Project) : Nat → Nat → Prop :=
  ImportEdge project.rawImports project.reexportEdges

end Project

/-- The names of a module as they are filed: widened when they are not all its exports. -/
def filed (exports : Provenances) (complete : Bool) : Provenances :=
  if complete then exports else exports.map (fun _ _ => presentOrUnknown)

/-- The row that a turn of the loop writes.  The re-exports are looked up when the flag of the
module itself is set already. -/
theorem row_process_self (hprogram : project.programs[module]? = some program)
    {before : Provenances} (hrow : table.row module = (some before, some true)) :
    ∃ later : Table, (∀ other, other ≠ module → later.row other = table.row other) ∧
      (project.process table module).row module =
        (some (filed (project.joined table later module program)
            (project.complete table module program)),
          some (project.complete table module program)) := by
  obtain ⟨hexports, hcomplete⟩ := Prod.mk.inj hrow
  have hlength : module < table.moduleExports.length := (List.getElem?_eq_some_iff.mp hexports).1
  have hlength' : module < table.moduleComplete.length := (List.getElem?_eq_some_iff.mp hcomplete).1
  refine ⟨{ table with moduleComplete :=
    table.moduleComplete.set module (project.complete table module program) }, ?_, ?_⟩
  · intro other hne
    simp [Table.row, List.getElem?_set_ne (Ne.symm hne)]
  · unfold Project.process processModule
    simp only [hprogram, hcomplete, getD_some, Bool.true_and, List.all_map,
      List.foldl_map, foldl_joinAll]
    simp [Table.row, hlength, hlength', Project.complete, Project.exportsOf, Project.locals,
      Project.owned, Project.reexportsOf, Project.joined, filed, Function.comp_def]

variable {table' : Table}

theorem namespaceFromDependency_congr {source : RawImportSource}
    (h : ∀ target, source = .resolved target → table.row target = table'.row target) :
    namespaceFromDependency source name table = namespaceFromDependency source name table' := by
  cases source with
  | missing => rfl
  | resolved target => exact Table.lookup_congr (h target rfl) name

theorem Project.locals_congr
    (h : ∀ target, project.Edge module target → table.row target = table'.row target) :
    project.locals table module program = project.locals table' module program := by
  unfold Project.locals moduleLocals
  have himports : ∀ raw ∈ project.rawImports[module]?.getD [],
      (raw.localName, namespaceFromDependency raw.source raw.imported table) =
        (raw.localName, namespaceFromDependency raw.source raw.imported table') := by
    intro raw hraw
    rw [namespaceFromDependency_congr (fun target hsource => h target ?_)]
    apply mem_append_left
    exact mem_filterMap.mpr ⟨raw, hraw, by rw [hsource]; rfl⟩
  rw [map_congr_left himports]

theorem Project.exportsOf_congr
    (h : ∀ target, project.Edge module target → table.row target = table'.row target) :
    project.exportsOf table module program = project.exportsOf table' module program := by
  unfold Project.exportsOf
  rw [Project.locals_congr h]

/-- The re-exports of a module look up targets of the module. -/
theorem Project.Scanned.edge (hscanned : project.Scanned)
    {declaration : RawSourceReexportDeclaration} (hmem : declaration ∈ project.sourceReexports)
    {target : Nat} (hsource : declaration.source = .resolved target) :
    project.Edge declaration.ownerModule target :=
  mem_append_right _ (mem_targetsOf.mpr (hscanned.reexport_edge declaration hmem target hsource))

theorem Project.reexportsOf_congr (hscanned : project.Scanned)
    (h : ∀ target, project.Edge module target → table.row target = table'.row target) :
    project.reexportsOf table module = project.reexportsOf table' module := by
  unfold Project.reexportsOf
  apply flatMap_congr
  intro declaration hdeclaration
  obtain ⟨hmem, howner⟩ := mem_filter.mp hdeclaration
  have howner : declaration.ownerModule = module := of_decide_eq_true howner
  apply map_congr_left
  intro member _
  rw [namespaceFromDependency_congr (fun target hsource => h target ?_)]
  exact howner ▸ hscanned.edge hmem hsource

/-- **The final row of a module** is computed from the final table. -/
theorem row_final (hscanned : project.Scanned) (hacyclic : Acyclic project.Edge)
    (hprogram : project.programs[module]? = some program) :
    project.final.row module =
      (some (filed (project.joined project.final project.final module program)
          (project.complete project.final module program)),
        some (project.complete project.final module program)) := by
  have hlt : module < project.programs.length := (List.getElem?_eq_some_iff.mp hprogram).1
  have hrange : ∀ owner target, ImportEdge project.rawImports project.reexportEdges owner target →
      target < project.rawImports.length := by
    intro owner target hedge
    rw [hscanned.imports_length]
    exact hscanned.import_lt owner target hedge
  obtain ⟨hperm, hfirst⟩ := dependencyOrder_spec hrange
  have hmem : module ∈ dependencyOrderWithReexports project.rawImports project.reexportEdges := by
    rw [hperm.mem_iff, hscanned.imports_length]
    exact mem_range.mpr hlt
  have hframe : ∀ (table : Table) (module other : Nat), other ≠ module →
      (project.process table module).row other = table.row other :=
    fun _ _ _ hne => row_processModule_ne hne
  obtain ⟨before, hwritten, hstart, htargets⟩ := (hfirst hacyclic).foldl_spec
    (hperm.nodup_iff.mpr nodup_range) hframe
    ⟨replicate project.programs.length ∅, replicate project.programs.length true⟩ hmem
  have hinit : before.row module = (some ∅, some true) := by
    rw [hstart]
    simp [Table.row, hlt]
  obtain ⟨later, hlater, hself⟩ := row_process_self hprogram hinit
  have hsame : ∀ target, project.Edge module target →
      before.row target = project.final.row target := htargets
  have hsame' : ∀ target, project.Edge module target →
      later.row target = project.final.row target := by
    intro target hedge
    have hne : target ≠ module := by
      intro heq
      subst heq
      exact hacyclic target (.single hedge)
    rw [hlater target hne, hsame target hedge]
  change project.final.row module = _ at hwritten
  rw [hwritten, hself]
  unfold Project.joined Project.complete
  rw [Project.exportsOf_congr hsame, Project.reexportsOf_congr hscanned hsame']

/-! ## §6 Soundness -/

section Absent

variable {names : Provenances} {entries : List (String × NamespaceProvenance)} {name : String}
  (h : (joinAll names entries)[name]? ≠ some presentOrUnknown)
include h

/-- Where nothing unknown was joined under a name, every entry under it is absent. -/
theorem absent_of_entry {provenance : NamespaceProvenance} (hentry : (name, provenance) ∈ entries) :
    provenance = provenAbsent := by
  have hlisted : ((joinAll names entries)[name]?).isSome :=
    isSome_joinAll (.inr ⟨provenance, hentry⟩)
  obtain ⟨joined, hjoined⟩ := isSome_iff_exists.mp hlisted
  cases joined with
  | provenAbsent => exact (absent_of_joinAll hjoined).2 provenance hentry
  | presentOrUnknown => exact absurd hjoined h

/-- A name that was unknown before a join is unknown after it. -/
theorem not_unknown_before :
    names[name]? ≠ some presentOrUnknown := by
  intro hunknown
  have hlisted : ((joinAll names entries)[name]?).isSome :=
    isSome_joinAll (.inl (by rw [hunknown]; rfl))
  obtain ⟨joined, hjoined⟩ := isSome_iff_exists.mp hlisted
  cases joined with
  | provenAbsent => exact (absent_of_joinAll hjoined).1 hunknown
  | presentOrUnknown => exact h hjoined

end Absent

theorem locals_eq : project.locals table module program =
    joinAll (joinAll ∅ ((project.rawImports[module]?.getD []).map (fun raw =>
      (raw.localName, namespaceFromDependency raw.source raw.imported table))))
      (program.flatMap (fun statement => (statement.declaration?.map (fun declaration =>
        (declarationNamespaceNames declaration).1)).getD [])) := by
  unfold Project.locals moduleLocals
  rw [← foldl_joinAll]
  dsimp only
  congr 1
  funext locals statement
  cases statement.declaration? <;> rfl

/-- The answers of the pass that are proven absent, and the local names behind them. -/
def Project.Absent (project : Project) : Site → Prop
  | .exported module name => project.final.lookup module name = provenAbsent
  | .inside module name => ∃ program, project.programs[module]? = some program ∧
    (project.locals project.final module program)[name]? = some provenAbsent

/-- A name is proven absent only where all exports are listed and nothing unknown was joined
under it. -/
theorem of_lookup_absent (hscanned : project.Scanned) (hacyclic : Acyclic project.Edge)
    (hprogram : project.programs[module]? = some program)
    (h : project.final.lookup module name = provenAbsent) :
    project.complete project.final module program = true ∧
      (project.joined project.final project.final module program)[name]? ≠
        some presentOrUnknown := by
  obtain ⟨hexports, hcomplete⟩ := Prod.mk.inj (row_final hscanned hacyclic hprogram)
  unfold Table.lookup at h
  rw [hexports, hcomplete] at h
  simp only [bind_some, getD_some] at h
  cases hall : project.complete project.final module program with
  | true =>
    refine ⟨rfl, fun hunknown => ?_⟩
    simp [hall, filed, hunknown] at h
  | false =>
    -- an incomplete module answers nothing else
    simp only [hall, filed, Bool.false_eq_true, if_false, Std.TreeMap.getElem?_map] at h
    cases hjoined : (project.joined project.final project.final module program)[name]? <;>
      simp [hjoined] at h

/-- The exports of a statement are joined first, the listed re-exports after them. -/
theorem absent_of_export {statement : Statement} (hstatement : statement ∈ program)
    {provenance : NamespaceProvenance}
    (h : (project.joined project.final project.final module program)[name]? ≠
      some presentOrUnknown)
    (hentry : (name, provenance) ∈
      (project.exportsOf project.final module program statement).1) :
    provenance = provenAbsent :=
  absent_of_entry (not_unknown_before h) (mem_flatMap.mpr ⟨statement, hstatement, hentry⟩)

theorem locals_absent
    (h : localProvenance (project.locals project.final module program) name = provenAbsent) :
    (project.locals project.final module program)[name]? = some provenAbsent := by
  unfold localProvenance at h
  cases hname : (project.locals project.final module program)[name]? with
  | none => simp [hname] at h
  | some provenance =>
    rw [hname] at h
    exact congrArg some h

/-- **One step of a chain** from a name that is proven absent leads to such a name. -/
theorem Project.Step.absent (hscanned : project.Scanned) (hacyclic : Acyclic project.Edge)
    {site next : Site} (hstep : project.Step site next) (h : project.Absent site) :
    project.Absent next := by
  cases hstep with
  | @declaration module program named made name hprogram hstatement hmade hname =>
    obtain ⟨hcomplete, hjoined⟩ := of_lookup_absent hscanned hacyclic hprogram h
    have hlisted := all_eq_true.mp hcomplete _ hstatement
    simp only [Project.exportsOf, statementExports, hmade] at hlisted
    obtain ⟨provenance, hrecorded⟩ := exists_recorded hlisted hname
    refine ⟨program, hprogram, locals_absent (absent_of_export hstatement hjoined ?_)⟩
    simp only [Project.exportsOf, statementExports, hmade]
    exact mem_map.mpr ⟨_, hrecorded, rfl⟩
  | @exportList module program named specifier hprogram hstatement hmade hsource hspecifier =>
    obtain ⟨hcomplete, hjoined⟩ := of_lookup_absent hscanned hacyclic hprogram h
    have hlisted := List.all_eq_true.mp hcomplete _ hstatement
    simp only [Project.exportsOf, statementExports, hmade, hsource, isNone_none, if_true,
      List.all_eq_true] at hlisted
    have hnames := hlisted specifier hspecifier
    refine ⟨program, hprogram, locals_absent (absent_of_export hstatement hjoined ?_)⟩
    simp only [Project.exportsOf, statementExports, hmade, hsource, isNone_none, if_true]
    refine mem_filterMap.mpr ⟨specifier, hspecifier, ?_⟩
    -- a quoted name would have made the module incomplete
    obtain ⟨localName, exported⟩ := specifier
    cases localName <;> cases exported <;>
      simp_all [ModuleExportName.moduleExportName, ModuleExportName.text]
  | @reexport declaration target member hmem hsource hmember =>
    have hlt := (hscanned.reexport_edge declaration hmem target hsource).owner_lt
    rw [hscanned.edges_length] at hlt
    obtain ⟨_, hjoined⟩ := of_lookup_absent hscanned hacyclic (getElem?_eq_getElem hlt) h
    apply absent_of_entry hjoined
    refine mem_flatMap.mpr ⟨declaration, ?_, mem_map.mpr ⟨member, hmember, ?_⟩⟩
    · exact mem_filter.mpr ⟨hmem, decide_eq_true rfl⟩
    · rw [hsource]
      rfl
  | @unlistedReexport module program named specifier target hprogram hstatement hmade hsource
      hspecifier hunlisted =>
    obtain ⟨hcomplete, _⟩ := of_lookup_absent hscanned hacyclic hprogram h
    have hlisted := List.all_eq_true.mp hcomplete _ hstatement
    have hnone : named.source.isNone = false := by simpa [isSome_iff_ne_none] using hsource
    simp only [Project.exportsOf, statementExports, hmade, hnone, Bool.false_eq_true, if_false,
      Bool.or_eq_true, List.isEmpty_iff, List.any_eq_true, decide_eq_true_eq] at hlisted
    rcases hlisted with hempty | ⟨declaration, hdeclaration, hstart⟩
    · rw [hempty] at hspecifier
      cases hspecifier
    · obtain ⟨hmem, howner⟩ := mem_filter.mp hdeclaration
      exact absurd hstart (hunlisted declaration hmem (of_decide_eq_true howner))
  | @exportAll module program name target hprogram hstatement =>
    obtain ⟨hcomplete, _⟩ := of_lookup_absent hscanned hacyclic hprogram h
    have hlisted := all_eq_true.mp hcomplete _ hstatement
    cases hlisted
  | @«import» module imports raw target himports hraw hsource =>
    obtain ⟨program, hprogram, habsent⟩ := h
    rw [locals_eq, himports, getD_some] at habsent
    have hknown := not_unknown_before (by rw [habsent]; simp)
    apply absent_of_entry hknown
    refine mem_map.mpr ⟨raw, hraw, ?_⟩
    rw [hsource]
    rfl

/-- A name that a namespace declares is not proven absent. -/
theorem Project.DeclaresNamespace.not_absent (h : project.DeclaresNamespace module name) :
    ¬ project.Absent (.inside module name) := by
  intro habsent
  obtain ⟨program, hprogram, statement, hstatement, hdeclaration⟩ := h
  obtain ⟨program', hprogram', habsent⟩ := habsent
  rw [hprogram] at hprogram'
  cases hprogram'
  rw [locals_eq] at habsent
  have hentry := (absent_of_joinAll habsent).2 presentOrUnknown
    (mem_flatMap.mpr ⟨statement, hstatement, by simp [hdeclaration, declarationNamespaceNames]⟩)
  cases hentry

theorem mem_foldl_insert_target {targets : List Nat} {edges : Std.TreeSet Nat} {target : Nat} :
    target ∈ targets.foldl (fun edges target => edges.insert target) edges ↔
      target ∈ edges ∨ target ∈ targets := by
  induction targets generalizing edges with
  | nil => simp
  | cons first targets ih =>
    rw [foldl_cons, ih, Std.TreeSet.mem_insert, mem_cons]
    simp only [Std.LawfulEqCmp.compare_eq_iff_eq]
    constructor
    · rintro ((h | h) | h)
      · exact .inr (.inl h.symm)
      · exact .inl h
      · exact .inr (.inr h)
    · rintro (h | h | h)
      · exact .inl (.inr h)
      · exact .inl (.inl h.symm)
      · exact .inr h

/-- The caller's edges are those along which the pass looks up names. -/
theorem moduleEdge_combinedEdges {rawImports : List (List RawImport)}
    {reexportEdges : List (Std.TreeSet Nat)} {owner target : Nat} :
    ModuleEdge (combinedEdges rawImports reexportEdges) owner target ↔
      owner < rawImports.length ∧ ImportEdge rawImports reexportEdges owner target := by
  unfold ModuleEdge combinedEdges ImportEdge importTargets
  rw [getElem?_mapIdx]
  by_cases hlt : owner < rawImports.length
  · simp [hlt, mem_foldl_insert_target, Std.TreeSet.mem_ofList]
  · simp [hlt]

theorem acyclic_of_no_cycle (hscanned : project.Scanned) {inputs : List FileInput}
    (hinputs : inputs.length = project.programs.length)
    (h : firstModuleCycle inputs (combinedEdges project.rawImports project.reexportEdges) = none) :
    Acyclic project.Edge := by
  have hrange : EdgesInRange inputs.length
      (combinedEdges project.rawImports project.reexportEdges) := by
    refine ⟨by simp [combinedEdges, hinputs, hscanned.imports_length], ?_⟩
    intro owner target hedge
    rw [hinputs]
    exact hscanned.import_lt owner target (moduleEdge_combinedEdges.mp hedge).2
  rcases firstModuleCycle_spec hrange with ⟨path, hpath, _⟩ | ⟨_, hacyclic⟩
  · rw [hpath] at h
    cases h
  · intro node hcycle
    apply hacyclic node
    -- every node of a cycle is a target, so it is in range
    have hlift : ∀ {first last}, first < project.programs.length →
        TransGen project.Edge first last →
        TransGen (ModuleEdge (combinedEdges project.rawImports project.reexportEdges))
          first last := by
      intro first last hfirst hpath
      induction hpath with
      | single hedge =>
        exact .single (moduleEdge_combinedEdges.mpr ⟨hscanned.imports_length ▸ hfirst, hedge⟩)
      | tail hinit hedge ih =>
        apply ih.tail
        obtain ⟨before, _, hbefore⟩ := TransGen.tail'_iff.mp hinit
        exact moduleEdge_combinedEdges.mpr
          ⟨hscanned.imports_length ▸ hscanned.import_lt _ _ hbefore, hedge⟩
    obtain ⟨before, _, hbefore⟩ := TransGen.tail'_iff.mp hcycle
    exact hlift (hscanned.import_lt _ _ hbefore) hcycle

/-- An answer is the answer to a requested name. -/
theorem of_answers {requested : List (Nat × String)} {answer : Nat → String → NamespaceProvenance}
    {module : Nat} {provenance : NamespaceProvenance}
    (h : (answers requested answer)[toLex (module, name)]? = some provenance) :
    answer module name = provenance := by
  have hfold : ∀ found : Std.TreeMap (Nat ×ₗ String) NamespaceProvenance,
      (found[toLex (module, name)]? = some provenance → answer module name = provenance) →
      (requested.foldl (fun found key => found.insert (toLex key) (answer key.1 key.2))
        found)[toLex (module, name)]? = some provenance → answer module name = provenance := by
    clear h
    induction requested with
    | nil => exact fun found hfound h => hfound h
    | cons key requested ih =>
      intro found hfound h
      apply ih (found.insert (toLex key) (answer key.1 key.2)) _ h
      rw [Std.TreeMap.getElem?_insert]
      split
      · rename_i heq
        cases toLex_inj.mp (compare_eq_iff_eq.mp heq)
        exact fun hanswer => some.inj hanswer
      · exact hfound
  exact hfold ∅ (by simp) h

/-- **Namespace provenance is sound.** When the pass reports a name of a module as proven
absent, no chain of exports, re-exports and imports from that export ends at a name that a
namespace declaration of its module declares. -/
theorem provenance_sound (project : Project) (inputs : List FileInput)
    (hinputs : inputs.length = project.programs.length) (hscanned : project.Scanned)
    (module : Nat) (name : String)
    (h : (sourceReexportNamespaceProvenance project.programs project.rawImports
      project.sourceReexports project.reexportEdges (firstModuleCycle inputs
        (combinedEdges project.rawImports project.reexportEdges)).isSome)[toLex (module, name)]? =
      some provenAbsent) (last : Nat) (reached : String)
    (hchain : Relation.ReflTransGen project.Step (.exported module name) (.inside last reached)) :
    ¬ project.DeclaresNamespace last reached := by
  unfold sourceReexportNamespaceProvenance at h
  dsimp only at h
  split at h
  · -- a pass that is open everywhere proves nothing absent
    cases of_answers h
  · rename_i hopen
    simp only [Bool.or_eq_true, not_or, Bool.not_eq_true, isSome_eq_false_iff,
      isNone_iff_eq_none] at hopen
    have hacyclic := acyclic_of_no_cycle hscanned hinputs hopen.1
    have hstart : project.Absent (.exported module name) := of_answers h
    have habsent : ∀ site, ReflTransGen project.Step (.exported module name) site →
        project.Absent site := by
      intro site hpath
      induction hpath with
      | refl => exact hstart
      | tail _ hstep ih => exact hstep.absent hscanned hacyclic ih
    exact fun hdeclares => hdeclares.not_absent (habsent _ hchain)

/-! ### A class re-exported from a module with a namespace -/

/-- `a.ts` has `export { Point as P } from "./b"`; `b.ts` has `class Point {}`,
    `namespace Inner {}` and `export { Point, Inner }`. -/
def twoPrograms : Project where
  programs := [
    [.exportNamedDeclaration {
      specifiers := [⟨.identifierName "Point", .identifierName "P"⟩], source := some "./b" }],
    [.declaration (.classDeclaration (some "Point")),
      .declaration (.tsModuleDeclaration (.identifier "Inner")),
      .exportNamedDeclaration { specifiers := [
        ⟨.identifierReference "Point", .identifierName "Point"⟩,
        ⟨.identifierReference "Inner", .identifierName "Inner"⟩] }]]
  rawImports := [[], []]
  sourceReexports := [⟨0, .resolved 1, 0, [⟨"Point", "P"⟩]⟩]
  reexportEdges := [Std.TreeSet.ofList [1], ∅]

theorem importEdge_twoPrograms {owner target : Nat}
    (h : ImportEdge twoPrograms.rawImports twoPrograms.reexportEdges owner target) :
    owner = 0 ∧ target = 1 := by
  unfold ImportEdge importTargets at h
  rw [mem_append, mem_targetsOf] at h
  rcases h with h | ⟨targets, htargets, hmem⟩
  · rcases owner with _ | _ | owner <;> simp [twoPrograms] at h
  · rcases owner with _ | _ | owner <;> simp [twoPrograms] at htargets
    · subst htargets
      exact ⟨rfl, (by simpa using hmem : 1 = target).symm⟩
    · subst htargets
      exact absurd hmem Std.TreeSet.not_mem_emptyc

theorem scanned_twoPrograms : twoPrograms.Scanned where
  imports_length := rfl
  edges_length := rfl
  import_lt owner target hedge := by
    obtain ⟨_, rfl⟩ := importEdge_twoPrograms hedge
    decide
  reexport_edge declaration hmem target hsource := by
    cases mem_singleton.mp hmem
    cases hsource
    exact ⟨_, rfl, by decide +kernel⟩

theorem acyclic_of_one_edge {edge : Nat → Nat → Prop}
    (hedge : ∀ owner target, edge owner target → owner = 0 ∧ target = 1) : Acyclic edge := by
  intro node hcycle
  obtain ⟨next, hfirst, _⟩ := TransGen.head'_iff.mp hcycle
  obtain ⟨last, _, hlast⟩ := TransGen.tail'_iff.mp hcycle
  have hzero := (hedge _ _ hfirst).1
  have hone := (hedge _ _ hlast).2
  omega

theorem order_twoPrograms :
    dependencyOrderWithReexports twoPrograms.rawImports twoPrograms.reexportEdges = [1, 0] := by
  obtain ⟨hperm, hfirst⟩ := dependencyOrder_spec scanned_twoPrograms.import_lt
  rcases perm_pair.mp hperm with heq | heq
  · have htarget : 1 ∈ importTargets twoPrograms.rawImports twoPrograms.reexportEdges 0 := by
      decide +kernel
    have hmem := hfirst (acyclic_of_one_edge fun _ _ => importEdge_twoPrograms) [] 0 [1] heq 1
      htarget
    cases hmem
  · exact heq

theorem firstModuleCycle_twoPrograms (inputs : List FileInput) (hinputs : inputs.length = 2) :
    firstModuleCycle inputs
      (combinedEdges twoPrograms.rawImports twoPrograms.reexportEdges) = none := by
  have hedge : ∀ owner target, ModuleEdge (combinedEdges twoPrograms.rawImports
      twoPrograms.reexportEdges) owner target → owner = 0 ∧ target = 1 :=
    fun _ _ h => importEdge_twoPrograms (moduleEdge_combinedEdges.mp h).2
  have hrange : EdgesInRange inputs.length
      (combinedEdges twoPrograms.rawImports twoPrograms.reexportEdges) := by
    refine ⟨by rw [hinputs]; rfl, fun owner target h => ?_⟩
    rw [(hedge owner target h).2, hinputs]
    decide
  rcases firstModuleCycle_spec hrange with ⟨path, _, hcycle⟩ | ⟨hnone, _⟩
  · exact absurd (acyclic_of_one_edge hedge) hcycle.not_acyclic
  · exact hnone

/-- The class is proven absent, and the chain from its export ends at a class. -/
theorem provenance_sound_point :
    Relation.ReflTransGen twoPrograms.Step (.exported 1 "Point") (.inside 1 "Point") ∧
      ¬ twoPrograms.DeclaresNamespace 1 "Point" := by
  have hchain : ReflTransGen twoPrograms.Step (.exported 1 "Point")
      (.inside 1 "Point") := by
    apply ReflTransGen.single
    exact @Project.Step.exportList twoPrograms 1 _ { specifiers := [
        ⟨.identifierReference "Point", .identifierName "Point"⟩,
        ⟨.identifierReference "Inner", .identifierName "Inner"⟩] }
      ⟨.identifierReference "Point", .identifierName "Point"⟩
      rfl (by decide) rfl rfl (by decide)
  refine ⟨hchain, ?_⟩
  apply provenance_sound twoPrograms [⟨"a.ts", ""⟩, ⟨"b.ts", ""⟩] rfl scanned_twoPrograms 1 "Point"
    _ 1 "Point" hchain
  rw [firstModuleCycle_twoPrograms _ rfl]
  simp only [sourceReexportNamespaceProvenance, finalTable, order_twoPrograms]
  decide +kernel

end Typokat.Frontend
