import Typokat.Lib.Wire
import Typokat.Replay.Tables

/-!
# Plan and Index Identities (`checker/replay_index.rs`)

Two byte formats identify replay tables.  `admission_digest` feeds the fields of a plan to a
hash, with numbers in little-endian order; `encode` writes an index as a manifest, with
numbers in big-endian order.  Neither has a decoder.

## Main Results

- `admissionBytes_injective`, `manifestBytes_injective` : each format determines its table
- `identities_injective` : equal byte strings come from equal tables
-/

namespace Typokat.Replay

open Lib List

/-! ## §1 Rows as bytes -/

/-- `u8::from(bool)`. -/
def boolByte (value : Bool) : UInt8 := if value then 1 else 0

def boolBytes (value : Bool) : List UInt8 := [boolByte value]

/-- The UTF-8 bytes of a string. -/
def stringBytes (value : String) : List UInt8 := value.toByteArray.data.toList

section Rows

-- the bytes of a number of the given width
variable (number : Nat → Nat → List UInt8)

def u32Bytes (value : UInt32) : List UInt8 := number 4 value.toNat

def u64Bytes (value : UInt64) : List UInt8 := number 8 value.toNat

/-- A `usize`, with `u64::try_from(value).unwrap_or(u64::MAX)`. -/
def usizeBytes (value : Nat) : List UInt8 := number 8 (min value (2 ^ 64 - 1))

def nameBytes (value : String) : List UInt8 :=
  usizeBytes number (stringBytes value).length ++ stringBytes value

def optionalU32Bytes (value : Option UInt32) : List UInt8 :=
  boolByte value.isSome :: value.elim [] (u32Bytes number)

def keyBytes (key : LibraryEventKey) : List UInt8 :=
  usizeBytes number key.fileOrdinal.toNat ++ u32Bytes number key.sourceStart
    ++ usizeBytes number key.eventOrdinal.toNat ++ usizeBytes number key.recordOrdinal.toNat

def ownerBytes (owner : ReplayOwner) : List UInt8 :=
  owner.tag :: match owner with
    | .typeGroup id => u32Bytes number id
    | .value id => u32Bytes number id
    | .namespace id => u32Bytes number id
    | .class id => u32Bytes number id
    | .globalObject => []
    | .statement key => keyBytes number key

def rootSlotBytes (root : ReplayRootSlot) : List UInt8 :=
  nameBytes number root.name ++ optionalU32Bytes number root.value
    ++ optionalU32Bytes number root.ty ++ optionalU32Bytes number root.namespaceId
    ++ boolBytes root.globalObjectContributor ++ boolBytes root.explicitGlobalThis

def edgeBytes (edge : ReplayReverseEdge) : List UInt8 :=
  ownerBytes number edge.dependency ++ ownerBytes number edge.consumer

def consumerBytes (consumer : ReplayRootConsumer) : List UInt8 :=
  nameBytes number consumer.name ++ consumer.slot.tag :: ownerBytes number consumer.consumer

def baselineBytes (record : ReplayBaselineRecord) : List UInt8 :=
  ownerBytes number record.owner ++ u64Bytes number record.recordCount ++ record.digest.bytes

/-- A table: its length, then its rows. -/
def rowsBytes {A : Type} (rowBytes : A → List UInt8) (rows : List A) : List UInt8 :=
  usizeBytes number rows.length ++ rows.flatMap rowBytes

end Rows

/-! ## §2 The bytes that are fed to the hash -/

def digestBool (value : Bool) : List UInt8 := boolBytes value

/-- `value.to_le_bytes()` of a `u32`. -/
def digestU32 (value : UInt32) : List UInt8 := u32Bytes leBytes value

/-- `value.to_le_bytes()` of a `u64`. -/
def digestU64 (value : UInt64) : List UInt8 := u64Bytes leBytes value

def digestUsize (value : Nat) : List UInt8 := usizeBytes leBytes value

def digestString (value : String) : List UInt8 := nameBytes leBytes value

def digestOptionalU32 (value : Option UInt32) : List UInt8 := optionalU32Bytes leBytes value

def digestLibraryEventKey (key : LibraryEventKey) : List UInt8 := keyBytes leBytes key

def digestReplayOwner (owner : ReplayOwner) : List UInt8 := ownerBytes leBytes owner

def declarationOwnerTag : DeclarationOwner → UInt8
  | .lexical _ => 0
  | .namespacePublic _ => 1
  | .namespacePrivate _ => 2
  | .compilationGlobal => 3
  | .deferredAmbientModule _ => 4

def digestDeclarationOwner (owner : DeclarationOwner) : List UInt8 :=
  declarationOwnerTag owner :: match owner with
    | .lexical id => digestU32 id
    | .namespacePublic id => digestU32 id
    | .namespacePrivate id => digestU32 id
    | .compilationGlobal => []
    | .deferredAmbientModule id => digestU32 id

def declarationKindTag : DeclarationKind → UInt8
  | .variable => 0
  | .function => 1
  | .class => 2
  | .parameter => 3
  | .catchParameter => 4
  | .import => 5
  | .typeAlias => 6
  | .interface => 7
  | .enum => 8
  | .namespace => 9
  | .importEquals => 10
  | .namespaceExport => 11
  | .global => 12
  | .defaultExportExpression => 13

def eventPhaseTag : CollisionReplayEventPhase → UInt8
  | .immediate => 0
  | .deferred => 1
  | .incomplete => 2
  | .body => 3

def globalContributorKindTag : SourceGlobalContributorKind → UInt8
  | .ordinary => 0
  | .namespace => 1

def provenanceTag : CollisionReplaySiteProvenance → UInt8
  | .declaration .. => 0
  | .event _ => 1
  | .globalContributor .. => 2
  | .explicitGlobalThis _ => 3

/-- `digest_site_provenance`. -/
def digestSiteProvenance (provenance : CollisionReplaySiteProvenance) : List UInt8 :=
  provenanceTag provenance :: match provenance with
    | .declaration declaration kind binderOwner containingNamespace =>
      declarationKindTag kind :: (digestU32 declaration ++ digestDeclarationOwner binderOwner
        ++ digestOptionalU32 containingNamespace)
    | .event phase => [eventPhaseTag phase]
    | .globalContributor name kind binderOwner =>
      globalContributorKindTag kind :: (digestString name ++ digestDeclarationOwner binderOwner)
    | .explicitGlobalThis binderOwner => digestDeclarationOwner binderOwner

def digestRootSlot (root : ReplayRootSlot) : List UInt8 := rootSlotBytes leBytes root

def digestOwnerSite (site : CollisionReplayOwnerSite) : List UInt8 :=
  digestReplayOwner site.owner ++ digestUsize site.fileOrdinal.toNat ++ digestU32 site.span.start
    ++ digestU32 site.span.stop ++ digestSiteProvenance site.provenance

def digestReverseEdge (edge : ReplayReverseEdge) : List UInt8 := edgeBytes leBytes edge

def digestRootConsumer (consumer : ReplayRootConsumer) : List UInt8 :=
  consumerBytes leBytes consumer

def digestNamespaceOwner (row : NamespaceId × ReplayOwner) : List UInt8 :=
  digestU32 row.1 ++ digestReplayOwner row.2

variable (row : LibraryEventKey × ReplayOwner)

def digestStatementOwner : List UInt8 :=
  digestLibraryEventKey row.1 ++ digestReplayOwner row.2

def digestBaselineRecord (record : ReplayBaselineRecord) : List UInt8 :=
  baselineBytes leBytes record

def digestBoundary (boundary : CollisionReplayPrefixBoundary) : List UInt8 :=
  digestUsize boundary.cardinality.toNat ++ digestBool boundary.exact

def digestRows {A : Type} (digestRow : A → List UInt8) (rows : List A) : List UInt8 :=
  rowsBytes leBytes digestRow rows

/-- The counters at the end of the digest, in their order. -/
def CollisionReplayPlan.counters (plan : CollisionReplayPlan) : List UInt64 :=
  [plan.health.missingActiveOwnerDemands, plan.health.unmatchedOwnerSites,
    plan.health.unownedTypedReferences, plan.health.rawSemanticAccesses,
    plan.construction.librarySourceCompiles, plan.construction.binderSourceCensuses,
    plan.construction.canonicalSourceUnits, plan.construction.secondSourceCensuses,
    plan.construction.canonicalManifestBytes, plan.construction.renderedRecordDigestBytes,
    plan.construction.transitiveTerminalOwnerEntries,
    plan.construction.eagerAllOwnerSccMemberships, plan.construction.namespaceSnapshotRows,
    plan.construction.runtimeSnapshotRows, plan.construction.canonicalTerminalRows,
    plan.construction.fullSemanticProjectionRows, plan.construction.ticketSlots,
    plan.construction.ticketOwnerOrderedMapInserts,
    plan.construction.ownerSiteInnerHeapAllocations, plan.construction.ownerSiteDenseSlotWrites,
    plan.construction.ownerSiteOrderedMapInserts]

/-- `b"typokat-collision-replay-plan-admission-v1"`. -/
def planDomain : List UInt8 := stringBytes "typokat-collision-replay-plan-admission-v1"

/-- The bytes that `admission_digest` feeds to the hash. -/
def CollisionReplayPlan.admissionBytes (plan : CollisionReplayPlan) (profileIdentity : String) :
    List UInt8 :=
  planDomain ++ digestString profileIdentity
    ++ digestRows digestString plan.rootNames
    ++ digestRows digestRootSlot plan.rootSlots
    ++ digestRows digestOwnerSite plan.ownerSites
    ++ digestRows digestReverseEdge plan.reverseEdges
    ++ digestRows digestRootConsumer plan.rootSlotConsumers
    ++ digestRows digestReplayOwner plan.rootSlotOwners
    ++ digestRows digestNamespaceOwner plan.namespaceDirectOwners
    ++ digestRows digestStatementOwner plan.statementOwners
    ++ digestRows digestBaselineRecord plan.baselineRecords
    ++ plan.prefixBoundaries.toList.flatMap digestBoundary
    ++ plan.counters.flatMap digestU64
    ++ digestBool plan.construction.traceDomainSealedAfterBinderReporting

/-- `admission_digest`, over the hash function. -/
def CollisionReplayPlan.admissionDigest (sha256 : List UInt8 → Digest) (plan : CollisionReplayPlan)
    (profileIdentity : String) : Digest :=
  sha256 (plan.admissionBytes profileIdentity)

/-! ## §3 The manifest -/

/-- The manifest of an index counts rows in `u64`. -/
def manifestUsize (value : Nat) : Except ReplayIndexGenerationError (List UInt8) :=
  if value < 2 ^ 64 then .ok (beBytes 8 value) else .error .integerOverflow

def manifestU32 (value : UInt32) : List UInt8 := beBytes 4 value.toNat

def manifestU64 (value : UInt64) : List UInt8 := beBytes 8 value.toNat

def manifestOptionalU32 (value : Option UInt32) : List UInt8 :=
  boolByte value.isSome :: value.elim [] manifestU32

def manifestString (value : String) : Except ReplayIndexGenerationError (List UInt8) := do
  return (← manifestUsize (stringBytes value).length) ++ stringBytes value

/-- `ReplayOwner::encode`. -/
def ReplayOwner.encode (owner : ReplayOwner) : Except ReplayIndexGenerationError (List UInt8) := do
  match owner with
  | .typeGroup id => return owner.tag :: manifestU32 id
  | .value id => return owner.tag :: manifestU32 id
  | .namespace id => return owner.tag :: manifestU32 id
  | .class id => return owner.tag :: manifestU32 id
  | .globalObject => return [owner.tag]
  | .statement key =>
    return owner.tag :: ((← manifestUsize key.fileOrdinal.toNat) ++ manifestU32 key.sourceStart
      ++ (← manifestUsize key.eventOrdinal.toNat) ++ (← manifestUsize key.recordOrdinal.toNat))

/-- A table: its length, then its rows. -/
def manifestRows {A : Type} (encodeRow : A → Except ReplayIndexGenerationError (List UInt8))
    (rows : List A) : Except ReplayIndexGenerationError (List UInt8) := do
  return (← manifestUsize rows.length) ++ (← rows.mapM encodeRow).flatten

def ReplayRootSlot.encode (root : ReplayRootSlot) :
    Except ReplayIndexGenerationError (List UInt8) := do
  return (← manifestString root.name) ++ manifestOptionalU32 root.value
    ++ manifestOptionalU32 root.ty ++ manifestOptionalU32 root.namespaceId
    ++ boolBytes root.globalObjectContributor ++ boolBytes root.explicitGlobalThis

def ReplayOwnerSite.encode (site : ReplayOwnerSite) :
    Except ReplayIndexGenerationError (List UInt8) := do
  return (← site.owner.encode) ++ (← manifestUsize site.fileOrdinal.toNat)
    ++ manifestU32 site.span.start ++ manifestU32 site.span.stop

def ReplayReverseEdge.encode (edge : ReplayReverseEdge) :
    Except ReplayIndexGenerationError (List UInt8) := do
  return (← edge.dependency.encode) ++ (← edge.consumer.encode)

def ReplayRootConsumer.encode (dependency : ReplayRootConsumer) :
    Except ReplayIndexGenerationError (List UInt8) := do
  return (← manifestString dependency.name) ++ dependency.slot.tag
    :: (← dependency.consumer.encode)

def ReplayScc.encode (component : ReplayScc) :
    Except ReplayIndexGenerationError (List UInt8) := do
  return manifestU32 component.replayOrdinal
    ++ (← manifestRows ReplayOwner.encode component.owners)

/-- A row of `statement_owners`; its key is written as an owner. -/
def encodeStatementOwner :
    Except ReplayIndexGenerationError (List UInt8) := do
  return (← (ReplayOwner.statement row.1).encode) ++ (← row.2.encode)

def ReplayBaselineRecord.encode (baseline : ReplayBaselineRecord) :
    Except ReplayIndexGenerationError (List UInt8) := do
  return (← baseline.owner.encode) ++ manifestU64 baseline.recordCount ++ baseline.digest.bytes

/-- `COLLISION_REPLAY_MANIFEST_DOMAIN`. -/
def manifestDomain : List UInt8 := stringBytes "typokat-collision-replay-index-v1"

/-- `CollisionReplayIndex::encode`. -/
def CollisionReplayIndex.encode (index : CollisionReplayIndex) :
    Except ReplayIndexGenerationError (List UInt8) := do
  return manifestDomain ++ manifestU32 index.schema
    ++ (← manifestRows ReplayOwner.encode index.ownerPartition)
    ++ (← manifestRows ReplayRootSlot.encode index.rootSlots)
    ++ (← manifestRows ReplayOwnerSite.encode index.ownerSites)
    ++ (← manifestRows ReplayReverseEdge.encode index.reverseEdges)
    ++ (← manifestRows ReplayRootConsumer.encode index.rootSlotConsumers)
    ++ (← manifestRows ReplayScc.encode index.sccMembership)
    ++ (← manifestRows encodeStatementOwner index.statementOwners)
    ++ (← manifestRows ReplayBaselineRecord.encode index.baselineRecords)
    ++ manifestU64 index.unownedDemandCount ++ manifestU64 index.invalidOwnerSiteCount
    ++ manifestU64 index.noncanonicalEdgeCount ++ manifestU64 index.typedReferenceCoverageMisses

/-! ## §4 Rows are self-delimiting -/

/-- What `String` guarantees: the bytes fit the address space. -/
def StringFits (value : String) : Prop := (stringBytes value).length < 2 ^ 64

/-- What `Vec` guarantees for a table, and its rows for themselves. -/
def RowsFit {A : Type} (valid : A → Prop) (rows : List A) : Prop :=
  rows.length < 2 ^ 64 ∧ ∀ row ∈ rows, valid row

theorem boolByte_injective : Function.Injective boolByte := by
  intro first second h
  cases first <;> cases second <;> first
    | rfl
    | simp [boolByte] at h

theorem stringBytes_injective : Function.Injective stringBytes := by
  intro first second h
  exact String.toByteArray_inj.mp (ByteArray.ext (Array.toList_inj.mp h))

theorem selfDelimiting_boolBytes : SelfDelimiting (fun _ => True) boolBytes :=
  .fixed (fun _ _ => rfl) (fun _ _ _ _ h => boolByte_injective (singleton_inj.mp h))

theorem selfDelimiting_digest : SelfDelimiting (fun _ => True) Digest.bytes :=
  .fixed (fun digest _ => digest.length) (fun first second _ _ h => by
    cases first
    cases second
    cases h
    rfl)

section Rows

variable {number : Nat → Nat → List UInt8}
  (hnumber : ∀ width, SelfDelimiting (· < 256 ^ width) (number width))

include hnumber

theorem selfDelimiting_u32Bytes : SelfDelimiting (fun _ => True) (u32Bytes number) := by
  refine ⟨fun {a b rest rest'} _ _ h => ?_⟩
  obtain ⟨heq, hrest⟩ := (hnumber 4).split
    (lt_of_lt_of_eq a.toNat_lt (by decide)) (lt_of_lt_of_eq b.toNat_lt (by decide)) h
  exact ⟨UInt32.toNat_inj.mp heq, hrest⟩

theorem selfDelimiting_u64Bytes : SelfDelimiting (fun _ => True) (u64Bytes number) := by
  refine ⟨fun {a b rest rest'} _ _ h => ?_⟩
  obtain ⟨heq, hrest⟩ := (hnumber 8).split
    (lt_of_lt_of_eq a.toNat_lt (by decide)) (lt_of_lt_of_eq b.toNat_lt (by decide)) h
  exact ⟨UInt64.toNat_inj.mp heq, hrest⟩

theorem selfDelimiting_usizeBytes : SelfDelimiting (· < 2 ^ 64) (usizeBytes number) := by
  refine ⟨fun {a b rest rest'} ha hb h => ?_⟩
  have hwidth : ∀ value, min value (2 ^ 64 - 1) < 256 ^ 8 := by
    intro value
    omega
  obtain ⟨heq, hrest⟩ := (hnumber 8).split (hwidth a) (hwidth b) h
  exact ⟨by omega, hrest⟩

/-- A `usize` field. -/
theorem usizeBytes_split {a b : UInt64} {rest rest' : List UInt8}
    (h : usizeBytes number a.toNat ++ rest = usizeBytes number b.toNat ++ rest') :
    a = b ∧ rest = rest' := by
  obtain ⟨heq, hrest⟩ := (selfDelimiting_usizeBytes hnumber).split a.toNat_lt b.toNat_lt h
  exact ⟨UInt64.toNat_inj.mp heq, hrest⟩

theorem selfDelimiting_nameBytes : SelfDelimiting StringFits (nameBytes number) := by
  refine ⟨fun {a b rest rest'} ha hb h => ?_⟩
  simp only [nameBytes, append_assoc] at h
  obtain ⟨hlength, h⟩ := (selfDelimiting_usizeBytes hnumber).split ha hb h
  obtain ⟨heq, hrest⟩ := append_inj h hlength
  exact ⟨stringBytes_injective heq, hrest⟩

/-- An optional `u32` field. -/
theorem optionalU32Bytes_split {a b : Option UInt32} {rest rest' : List UInt8}
    (h : optionalU32Bytes number a ++ rest = optionalU32Bytes number b ++ rest') :
    a = b ∧ rest = rest' :=
  ((selfDelimiting_u32Bytes hnumber).optional (by decide : boolByte true ≠ boolByte false)).split
    (fun _ _ => trivial) (fun _ _ => trivial) h

theorem selfDelimiting_keyBytes : SelfDelimiting (fun _ => True) (keyBytes number) := by
  constructor
  rintro ⟨file, start, event, record⟩ ⟨file', start', event', record'⟩ rest rest' _ _ h
  simp only [keyBytes, append_assoc] at h
  obtain ⟨hfile, h⟩ := usizeBytes_split hnumber h
  obtain ⟨hstart, h⟩ := (selfDelimiting_u32Bytes hnumber).split trivial trivial h
  obtain ⟨hevent, h⟩ := usizeBytes_split hnumber h
  obtain ⟨hrecord, h⟩ := usizeBytes_split hnumber h
  exact ⟨by rw [hfile, hstart, hevent, hrecord], h⟩

theorem selfDelimiting_ownerBytes : SelfDelimiting (fun _ => True) (ownerBytes number) := by
  have hid := selfDelimiting_u32Bytes hnumber
  have hkey := selfDelimiting_keyBytes hnumber
  refine .tagged (fun {a b rest rest'} _ _ htag h => ?_)
  cases a <;> cases b <;> first
    | (simp [ReplayOwner.tag] at htag; done)
    | exact ⟨rfl, h⟩
    | exact (hid.split trivial trivial h).imp_left (congrArg _)
    | exact (hkey.split trivial trivial h).imp_left (congrArg _)

theorem selfDelimiting_rootSlotBytes :
    SelfDelimiting (fun root => StringFits root.name) (rootSlotBytes number) := by
  constructor
  rintro ⟨name, value, ty, ns, contributor, explicit⟩
    ⟨name', value', ty', ns', contributor', explicit'⟩ rest rest' ha hb h
  simp only [rootSlotBytes, append_assoc] at ha hb h
  obtain ⟨hname, h⟩ := (selfDelimiting_nameBytes hnumber).split ha hb h
  obtain ⟨hvalue, h⟩ := optionalU32Bytes_split hnumber h
  obtain ⟨hty, h⟩ := optionalU32Bytes_split hnumber h
  obtain ⟨hns, h⟩ := optionalU32Bytes_split hnumber h
  obtain ⟨hcontributor, h⟩ := selfDelimiting_boolBytes.split trivial trivial h
  obtain ⟨hexplicit, h⟩ := selfDelimiting_boolBytes.split trivial trivial h
  exact ⟨by rw [hname, hvalue, hty, hns, hcontributor, hexplicit], h⟩

theorem selfDelimiting_edgeBytes : SelfDelimiting (fun _ => True) (edgeBytes number) := by
  constructor
  rintro ⟨dependency, consumer⟩ ⟨dependency', consumer'⟩ rest rest' _ _ h
  simp only [edgeBytes, append_assoc] at h
  obtain ⟨hdependency, h⟩ := (selfDelimiting_ownerBytes hnumber).split trivial trivial h
  obtain ⟨hconsumer, h⟩ := (selfDelimiting_ownerBytes hnumber).split trivial trivial h
  exact ⟨by rw [hdependency, hconsumer], h⟩

theorem selfDelimiting_consumerBytes :
    SelfDelimiting (fun consumer => StringFits consumer.name) (consumerBytes number) := by
  constructor
  rintro ⟨name, slot, consumer⟩ ⟨name', slot', consumer'⟩ rest rest' ha hb h
  simp only [consumerBytes, append_assoc, cons_append] at ha hb h
  obtain ⟨hname, h⟩ := (selfDelimiting_nameBytes hnumber).split ha hb h
  obtain ⟨hslot, h⟩ := cons.inj h
  obtain ⟨hconsumer, h⟩ := (selfDelimiting_ownerBytes hnumber).split trivial trivial h
  exact ⟨by rw [hname, RootSlotKind.tag_injective hslot, hconsumer], h⟩

theorem selfDelimiting_baselineBytes : SelfDelimiting (fun _ => True) (baselineBytes number) := by
  constructor
  rintro ⟨owner, count, digest⟩ ⟨owner', count', digest'⟩ rest rest' _ _ h
  simp only [baselineBytes, append_assoc] at h
  obtain ⟨howner, h⟩ := (selfDelimiting_ownerBytes hnumber).split trivial trivial h
  obtain ⟨hcount, h⟩ := (selfDelimiting_u64Bytes hnumber).split trivial trivial h
  obtain ⟨hdigest, h⟩ := selfDelimiting_digest.split trivial trivial h
  exact ⟨by rw [howner, hcount, hdigest], h⟩

/-- A table fits when its length does and each of its rows. -/
theorem selfDelimiting_rowsBytes {A : Type} {valid : A → Prop} {rowBytes : A → List UInt8}
    (h : SelfDelimiting valid rowBytes) :
    SelfDelimiting (RowsFit valid) (rowsBytes number rowBytes) :=
  (selfDelimiting_usizeBytes hnumber).counted h

end Rows

/-! ## §5 The digest determines the plan -/

theorem selfDelimiting_digestDeclarationOwner :
    SelfDelimiting (fun _ => True) digestDeclarationOwner := by
  refine .tagged (fun {a b rest rest'} _ _ htag h => ?_)
  cases a <;> cases b <;> first
    | (simp [declarationOwnerTag] at htag; done)
    | exact ⟨rfl, h⟩
    | exact ((selfDelimiting_u32Bytes selfDelimiting_leBytes).split trivial trivial h).imp_left
        (congrArg _)

theorem declarationKindTag_injective : Function.Injective declarationKindTag := by
  intro first second h
  cases first <;> cases second <;> first
    | rfl
    | simp [declarationKindTag] at h

theorem eventPhaseTag_injective : Function.Injective eventPhaseTag := by
  intro first second h
  cases first <;> cases second <;> first
    | rfl
    | simp [eventPhaseTag] at h

theorem globalContributorKindTag_injective : Function.Injective globalContributorKindTag := by
  intro first second h
  cases first <;> cases second <;> first
    | rfl
    | simp [globalContributorKindTag] at h

/-- The name of a provenance fits the address space. -/
def CollisionReplaySiteProvenance.Fits : CollisionReplaySiteProvenance → Prop
  | .globalContributor name _ _ => StringFits name
  | _ => True

theorem selfDelimiting_digestSiteProvenance :
    SelfDelimiting CollisionReplaySiteProvenance.Fits digestSiteProvenance := by
  refine .tagged (fun {a b rest rest'} ha hb htag h => ?_)
  cases a <;> cases b <;> first
    | (simp [provenanceTag] at htag; done)
    | skip
  case declaration.declaration =>
    obtain ⟨hkind, h⟩ := cons.inj h
    have hkind := declarationKindTag_injective hkind
    simp only [append_eq, append_assoc] at h
    obtain ⟨hid, h⟩ := (selfDelimiting_u32Bytes selfDelimiting_leBytes).split trivial trivial h
    obtain ⟨howner, h⟩ := selfDelimiting_digestDeclarationOwner.split trivial trivial h
    obtain ⟨hnamespace, h⟩ := optionalU32Bytes_split selfDelimiting_leBytes h
    exact ⟨by rw [hid, hkind, howner, hnamespace], h⟩
  case event.event =>
    obtain ⟨hphase, h⟩ := cons.inj h
    exact ⟨by rw [eventPhaseTag_injective hphase], h⟩
  case globalContributor.globalContributor =>
    obtain ⟨hkind, h⟩ := cons.inj h
    have hkind := globalContributorKindTag_injective hkind
    simp only [append_eq, append_assoc] at h
    obtain ⟨hname, h⟩ := (selfDelimiting_nameBytes selfDelimiting_leBytes).split ha hb h
    obtain ⟨howner, h⟩ := selfDelimiting_digestDeclarationOwner.split trivial trivial h
    exact ⟨by rw [hname, hkind, howner], h⟩
  case explicitGlobalThis.explicitGlobalThis =>
    obtain ⟨howner, h⟩ := selfDelimiting_digestDeclarationOwner.split trivial trivial h
    exact ⟨congrArg _ howner, h⟩

theorem selfDelimiting_digestOwnerSite :
    SelfDelimiting (fun site => site.provenance.Fits) digestOwnerSite := by
  constructor
  rintro ⟨owner, file, ⟨start, stop⟩, provenance⟩ ⟨owner', file', ⟨start', stop'⟩, provenance'⟩
    rest rest' ha hb h
  simp only [digestOwnerSite, append_assoc] at ha hb h
  obtain ⟨howner, h⟩ := (selfDelimiting_ownerBytes selfDelimiting_leBytes).split trivial trivial h
  obtain ⟨hfile, h⟩ := usizeBytes_split selfDelimiting_leBytes h
  obtain ⟨hstart, h⟩ := (selfDelimiting_u32Bytes selfDelimiting_leBytes).split trivial trivial h
  obtain ⟨hstop, h⟩ := (selfDelimiting_u32Bytes selfDelimiting_leBytes).split trivial trivial h
  obtain ⟨hprovenance, h⟩ := selfDelimiting_digestSiteProvenance.split ha hb h
  exact ⟨by rw [howner, hfile, hstart, hstop, hprovenance], h⟩

theorem selfDelimiting_digestNamespaceOwner :
    SelfDelimiting (fun _ => True) digestNamespaceOwner := by
  constructor
  rintro ⟨id, owner⟩ ⟨id', owner'⟩ rest rest' _ _ h
  simp only [digestNamespaceOwner, append_assoc] at h
  obtain ⟨hid, h⟩ := (selfDelimiting_u32Bytes selfDelimiting_leBytes).split trivial trivial h
  obtain ⟨howner, h⟩ := (selfDelimiting_ownerBytes selfDelimiting_leBytes).split trivial trivial h
  exact ⟨by rw [hid, howner], h⟩

theorem selfDelimiting_digestStatementOwner :
    SelfDelimiting (fun _ => True) digestStatementOwner := by
  constructor
  rintro ⟨key, owner⟩ ⟨key', owner'⟩ rest rest' _ _ h
  simp only [digestStatementOwner, append_assoc] at h
  obtain ⟨hkey, h⟩ := (selfDelimiting_keyBytes selfDelimiting_leBytes).split trivial trivial h
  obtain ⟨howner, h⟩ := (selfDelimiting_ownerBytes selfDelimiting_leBytes).split trivial trivial h
  exact ⟨by rw [hkey, howner], h⟩

theorem selfDelimiting_digestBoundary : SelfDelimiting (fun _ => True) digestBoundary := by
  constructor
  rintro ⟨cardinality, exact⟩ ⟨cardinality', exact'⟩ rest rest' _ _ h
  simp only [digestBoundary, append_assoc] at h
  obtain ⟨hcardinality, h⟩ := usizeBytes_split selfDelimiting_leBytes h
  obtain ⟨hexact, h⟩ := selfDelimiting_boolBytes.split trivial trivial h
  exact ⟨by rw [hcardinality, hexact], h⟩

/-- A plan is held in memory: its tables and names fit the address space. -/
structure CollisionReplayPlan.Fits (plan : CollisionReplayPlan) : Prop where
  rootNames : RowsFit StringFits plan.rootNames
  rootSlots : RowsFit (fun root => StringFits root.name) plan.rootSlots
  ownerSites : RowsFit (fun site => site.provenance.Fits) plan.ownerSites
  reverseEdges : RowsFit (fun _ => True) plan.reverseEdges
  rootSlotConsumers : RowsFit (fun consumer => StringFits consumer.name) plan.rootSlotConsumers
  rootSlotOwners : RowsFit (fun _ => True) plan.rootSlotOwners
  namespaceDirectOwners : RowsFit (fun _ => True) plan.namespaceDirectOwners
  statementOwners : RowsFit (fun _ => True) plan.statementOwners
  baselineRecords : RowsFit (fun _ => True) plan.baselineRecords

/-- Equal counters come from equal health and construction evidence. -/
theorem evidence_eq_of_counters {plan other : CollisionReplayPlan}
    (h : plan.counters = other.counters)
    (hsealed : plan.construction.traceDomainSealedAfterBinderReporting =
      other.construction.traceDomainSealedAfterBinderReporting) :
    plan.health = other.health ∧ plan.construction = other.construction := by
  simp only [CollisionReplayPlan.counters, cons.injEq, and_true] at h
  obtain ⟨h1, h2, h3, h4, h5, h6, h7, h8, h9, h10, h11, h12, h13, h14, h15, h16, h17, h18, h19,
    h20, h21⟩ := h
  constructor
  · rcases hplan : plan.health with ⟨a1, a2, a3, a4⟩
    rcases hother : other.health with ⟨b1, b2, b3, b4⟩
    simp only [hplan, hother] at h1 h2 h3 h4
    rw [h1, h2, h3, h4]
  · rcases hplan : plan.construction
    rcases hother : other.construction
    simp only [hplan, hother] at *
    simp_all

/-- **The digest determines the plan**: equal byte strings come from equal identities and from
plans that differ in their seal at most. -/
theorem admissionBytes_injective {plan other : CollisionReplayPlan} {profile profile' : String}
    (hplan : plan.Fits) (hother : other.Fits) (hprofile : StringFits profile)
    (hprofile' : StringFits profile')
    (h : plan.admissionBytes profile = other.admissionBytes profile') :
    profile = profile' ∧ { plan with sealedDigest := none } = { other with sealedDigest := none } := by
  have hle := selfDelimiting_leBytes
  have howner := selfDelimiting_ownerBytes hle
  simp only [CollisionReplayPlan.admissionBytes, append_assoc] at h
  have h := append_cancel_left h
  obtain ⟨hidentity, h⟩ := (selfDelimiting_nameBytes hle).split hprofile hprofile' h
  obtain ⟨hnames, h⟩ := (selfDelimiting_rowsBytes hle (selfDelimiting_nameBytes hle)).split
    hplan.rootNames hother.rootNames h
  obtain ⟨hroots, h⟩ := (selfDelimiting_rowsBytes hle (selfDelimiting_rootSlotBytes hle)).split
    hplan.rootSlots hother.rootSlots h
  obtain ⟨hsites, h⟩ := (selfDelimiting_rowsBytes hle selfDelimiting_digestOwnerSite).split
    hplan.ownerSites hother.ownerSites h
  obtain ⟨hedges, h⟩ := (selfDelimiting_rowsBytes hle (selfDelimiting_edgeBytes hle)).split
    hplan.reverseEdges hother.reverseEdges h
  obtain ⟨hconsumers, h⟩ := (selfDelimiting_rowsBytes hle (selfDelimiting_consumerBytes hle)).split
    hplan.rootSlotConsumers hother.rootSlotConsumers h
  obtain ⟨hslots, h⟩ := (selfDelimiting_rowsBytes hle howner).split
    hplan.rootSlotOwners hother.rootSlotOwners h
  obtain ⟨hnamespaces, h⟩ := (selfDelimiting_rowsBytes hle selfDelimiting_digestNamespaceOwner).split
    hplan.namespaceDirectOwners hother.namespaceDirectOwners h
  obtain ⟨hstatements, h⟩ := (selfDelimiting_rowsBytes hle selfDelimiting_digestStatementOwner).split
    hplan.statementOwners hother.statementOwners h
  obtain ⟨hbaselines, h⟩ := (selfDelimiting_rowsBytes hle (selfDelimiting_baselineBytes hle)).split
    hplan.baselineRecords hother.baselineRecords h
  obtain ⟨hboundaries, h⟩ := selfDelimiting_digestBoundary.flatMap (fun _ _ => trivial)
    (fun _ _ => trivial) (by simp) h
  have hlength : plan.counters.length = other.counters.length := rfl
  obtain ⟨hcounters, h⟩ := (selfDelimiting_u64Bytes hle).flatMap (fun _ _ => trivial)
    (fun _ _ => trivial) hlength h
  have hsealed := boolByte_injective (singleton_inj.mp h)
  obtain ⟨hhealth, hconstruction⟩ := evidence_eq_of_counters hcounters hsealed
  refine ⟨hidentity, ?_⟩
  rw [hnames, hroots, hsites, hedges, hconsumers, hslots, hnamespaces, hstatements, hbaselines,
    Vector.toList_inj.mp hboundaries, hhealth, hconstruction]

/-! ## §6 The manifest determines the index -/

/-- An index is held in memory: its tables and names fit the address space. -/
structure CollisionReplayIndex.Fits (index : CollisionReplayIndex) : Prop where
  ownerPartition : RowsFit (fun _ => True) index.ownerPartition
  rootSlots : RowsFit (fun root => StringFits root.name) index.rootSlots
  ownerSites : RowsFit (fun _ => True) index.ownerSites
  reverseEdges : RowsFit (fun _ => True) index.reverseEdges
  rootSlotConsumers : RowsFit (fun consumer => StringFits consumer.name) index.rootSlotConsumers
  sccMembership : RowsFit (fun component => RowsFit (fun _ => True) component.owners)
    index.sccMembership
  statementOwners : RowsFit (fun _ => True) index.statementOwners
  baselineRecords : RowsFit (fun _ => True) index.baselineRecords

def siteBytes (site : ReplayOwnerSite) : List UInt8 :=
  ownerBytes beBytes site.owner ++ usizeBytes beBytes site.fileOrdinal.toNat
    ++ u32Bytes beBytes site.span.start ++ u32Bytes beBytes site.span.stop

def sccBytes (component : ReplayScc) : List UInt8 :=
  u32Bytes beBytes component.replayOrdinal
    ++ rowsBytes beBytes (ownerBytes beBytes) component.owners

def statementBytes : List UInt8 :=
  ownerBytes beBytes (.statement row.1) ++ ownerBytes beBytes row.2

/-- The manifest of an index that is held in memory. -/
def CollisionReplayIndex.manifestBytes (index : CollisionReplayIndex) : List UInt8 :=
  manifestDomain ++ u32Bytes beBytes index.schema
    ++ rowsBytes beBytes (ownerBytes beBytes) index.ownerPartition
    ++ rowsBytes beBytes (rootSlotBytes beBytes) index.rootSlots
    ++ rowsBytes beBytes siteBytes index.ownerSites
    ++ rowsBytes beBytes (edgeBytes beBytes) index.reverseEdges
    ++ rowsBytes beBytes (consumerBytes beBytes) index.rootSlotConsumers
    ++ rowsBytes beBytes sccBytes index.sccMembership
    ++ rowsBytes beBytes statementBytes index.statementOwners
    ++ rowsBytes beBytes (baselineBytes beBytes) index.baselineRecords
    ++ u64Bytes beBytes index.unownedDemandCount ++ u64Bytes beBytes index.invalidOwnerSiteCount
    ++ u64Bytes beBytes index.noncanonicalEdgeCount
    ++ u64Bytes beBytes index.typedReferenceCoverageMisses

theorem manifestUsize_eq_ok {value : Nat} (h : value < 2 ^ 64) :
    manifestUsize value = .ok (usizeBytes beBytes value) := by
  have hmin : min value (2 ^ 64 - 1) = value := by omega
  rw [manifestUsize, if_pos h, usizeBytes, hmin]

theorem manifestString_eq_ok {value : String} (h : StringFits value) :
    manifestString value = .ok (nameBytes beBytes value) := by
  unfold manifestString
  rw [manifestUsize_eq_ok h]
  rfl

theorem encode_owner_eq_ok (owner : ReplayOwner) :
    owner.encode = .ok (ownerBytes beBytes owner) := by
  cases owner with
  | statement key =>
    simp only [ReplayOwner.encode]
    rw [manifestUsize_eq_ok key.fileOrdinal.toNat_lt, manifestUsize_eq_ok key.eventOrdinal.toNat_lt,
      manifestUsize_eq_ok key.recordOrdinal.toNat_lt]
    rfl
  | _ => rfl

theorem mapM_eq_ok {A B E : Type} {f : A → Except E B} {g : A → B} {rows : List A}
    (h : ∀ row ∈ rows, f row = .ok (g row)) : rows.mapM f = .ok (rows.map g) := by
  induction rows with
  | nil => rfl
  | cons row rows ih =>
    obtain ⟨hrow, hrows⟩ := forall_mem_cons.mp h
    rw [mapM_cons, hrow, ih hrows]
    rfl

theorem manifestRows_eq_ok {A : Type} {valid : A → Prop} {rows : List A}
    {encodeRow : A → Except ReplayIndexGenerationError (List UInt8)} (rowBytes : A → List UInt8)
    (hrow : ∀ row, valid row → encodeRow row = .ok (rowBytes row)) (h : RowsFit valid rows) :
    manifestRows encodeRow rows = .ok (rowsBytes beBytes rowBytes rows) := by
  unfold manifestRows
  rw [manifestUsize_eq_ok h.1, mapM_eq_ok (fun row hmem => hrow row (h.2 row hmem))]
  simp only [rowsBytes, flatMap_def]
  rfl

/-- An index that is held in memory has a manifest. -/
theorem encode_eq_ok {index : CollisionReplayIndex} (h : index.Fits) :
    index.encode = .ok index.manifestBytes := by
  have howners : ∀ {owners : List ReplayOwner}, RowsFit (fun _ => True) owners →
      manifestRows ReplayOwner.encode owners =
        .ok (rowsBytes beBytes (ownerBytes beBytes) owners) :=
    manifestRows_eq_ok _ (fun owner _ => encode_owner_eq_ok owner)
  unfold CollisionReplayIndex.encode
  rw [howners h.ownerPartition,
    manifestRows_eq_ok (rootSlotBytes beBytes) (fun root hroot => by
      simp only [ReplayRootSlot.encode, manifestString_eq_ok hroot]; rfl) h.rootSlots,
    manifestRows_eq_ok siteBytes (fun site _ => by
      simp only [ReplayOwnerSite.encode, encode_owner_eq_ok,
        manifestUsize_eq_ok site.fileOrdinal.toNat_lt]; rfl) h.ownerSites,
    manifestRows_eq_ok (edgeBytes beBytes) (fun edge _ => by
      simp only [ReplayReverseEdge.encode, encode_owner_eq_ok]; rfl) h.reverseEdges,
    manifestRows_eq_ok (consumerBytes beBytes) (fun consumer hname => by
      simp only [ReplayRootConsumer.encode, manifestString_eq_ok hname, encode_owner_eq_ok]
      rfl) h.rootSlotConsumers,
    manifestRows_eq_ok sccBytes (fun component hcomponent => by
      simp only [ReplayScc.encode, howners hcomponent]; rfl) h.sccMembership,
    manifestRows_eq_ok statementBytes (fun row _ => by
      simp only [encodeStatementOwner, encode_owner_eq_ok]; rfl) h.statementOwners,
    manifestRows_eq_ok (baselineBytes beBytes) (fun record _ => by
      simp only [ReplayBaselineRecord.encode, encode_owner_eq_ok]; rfl) h.baselineRecords]
  rfl

theorem selfDelimiting_siteBytes : SelfDelimiting (fun _ => True) siteBytes := by
  have hbe := selfDelimiting_beBytes
  constructor
  rintro ⟨owner, file, ⟨start, stop⟩⟩ ⟨owner', file', ⟨start', stop'⟩⟩ rest rest' _ _ h
  simp only [siteBytes, append_assoc] at h
  obtain ⟨howner, h⟩ := (selfDelimiting_ownerBytes hbe).split trivial trivial h
  obtain ⟨hfile, h⟩ := usizeBytes_split hbe h
  obtain ⟨hstart, h⟩ := (selfDelimiting_u32Bytes hbe).split trivial trivial h
  obtain ⟨hstop, h⟩ := (selfDelimiting_u32Bytes hbe).split trivial trivial h
  exact ⟨by rw [howner, hfile, hstart, hstop], h⟩

theorem selfDelimiting_sccBytes :
    SelfDelimiting (fun component => RowsFit (fun _ => True) component.owners) sccBytes := by
  have hbe := selfDelimiting_beBytes
  constructor
  rintro ⟨ordinal, owners⟩ ⟨ordinal', owners'⟩ rest rest' ha hb h
  simp only [sccBytes, append_assoc] at ha hb h
  obtain ⟨hordinal, h⟩ := (selfDelimiting_u32Bytes hbe).split trivial trivial h
  obtain ⟨howners, h⟩ :=
    (selfDelimiting_rowsBytes hbe (selfDelimiting_ownerBytes hbe)).split ha hb h
  exact ⟨by rw [hordinal, howners], h⟩

theorem selfDelimiting_statementBytes : SelfDelimiting (fun _ => True) statementBytes := by
  have howner := selfDelimiting_ownerBytes selfDelimiting_beBytes
  constructor
  rintro ⟨key, owner⟩ ⟨key', owner'⟩ rest rest' _ _ h
  simp only [statementBytes, append_assoc] at h
  obtain ⟨hkey, h⟩ := howner.split trivial trivial h
  obtain ⟨hvalue, h⟩ := howner.split trivial trivial h
  exact ⟨by rw [ReplayOwner.statement.inj hkey, hvalue], h⟩

/-- **The manifest determines the index**, up to the manifest that the index carries itself. -/
theorem manifestBytes_injective {index other : CollisionReplayIndex} (hindex : index.Fits)
    (hother : other.Fits) (h : index.manifestBytes = other.manifestBytes) :
    { index with
      canonicalManifestBytes := other.canonicalManifestBytes
      canonicalManifestSha256 := other.canonicalManifestSha256 } = other := by
  have hbe := selfDelimiting_beBytes
  have hcount := selfDelimiting_u64Bytes hbe
  simp only [CollisionReplayIndex.manifestBytes, append_assoc] at h
  have h := append_cancel_left h
  obtain ⟨hschema, h⟩ := (selfDelimiting_u32Bytes hbe).split trivial trivial h
  obtain ⟨hpartition, h⟩ := (selfDelimiting_rowsBytes hbe (selfDelimiting_ownerBytes hbe)).split
    hindex.ownerPartition hother.ownerPartition h
  obtain ⟨hroots, h⟩ := (selfDelimiting_rowsBytes hbe (selfDelimiting_rootSlotBytes hbe)).split
    hindex.rootSlots hother.rootSlots h
  obtain ⟨hsites, h⟩ := (selfDelimiting_rowsBytes hbe selfDelimiting_siteBytes).split
    hindex.ownerSites hother.ownerSites h
  obtain ⟨hedges, h⟩ := (selfDelimiting_rowsBytes hbe (selfDelimiting_edgeBytes hbe)).split
    hindex.reverseEdges hother.reverseEdges h
  obtain ⟨hconsumers, h⟩ := (selfDelimiting_rowsBytes hbe (selfDelimiting_consumerBytes hbe)).split
    hindex.rootSlotConsumers hother.rootSlotConsumers h
  obtain ⟨hcomponents, h⟩ := (selfDelimiting_rowsBytes hbe selfDelimiting_sccBytes).split
    hindex.sccMembership hother.sccMembership h
  obtain ⟨hstatements, h⟩ := (selfDelimiting_rowsBytes hbe selfDelimiting_statementBytes).split
    hindex.statementOwners hother.statementOwners h
  obtain ⟨hbaselines, h⟩ := (selfDelimiting_rowsBytes hbe (selfDelimiting_baselineBytes hbe)).split
    hindex.baselineRecords hother.baselineRecords h
  obtain ⟨hunowned, h⟩ := hcount.split trivial trivial h
  obtain ⟨hinvalid, h⟩ := hcount.split trivial trivial h
  obtain ⟨hnoncanonical, h⟩ := hcount.split trivial trivial h
  have hmisses := hcount.eq_of_encode_eq trivial trivial h
  rw [hschema, hpartition, hroots, hsites, hedges, hconsumers, hcomponents, hstatements,
    hbaselines, hunowned, hinvalid, hnoncanonical, hmisses]

/-- **Identities are injective**: equal bytes fed to the hash come from equal profile identities
and equal digested fields, and equal manifests from equal fields of the indexes. -/
theorem identities_injective :
    (∀ (plan other : CollisionReplayPlan) (profile profile' : String), plan.Fits → other.Fits →
      StringFits profile → StringFits profile' →
      plan.admissionBytes profile = other.admissionBytes profile' →
        profile = profile' ∧
          { plan with sealedDigest := none } = { other with sealedDigest := none }) ∧
    ∀ index other : CollisionReplayIndex, index.Fits → other.Fits →
      index.encode = other.encode →
        { index with
          canonicalManifestBytes := other.canonicalManifestBytes
          canonicalManifestSha256 := other.canonicalManifestSha256 } = other := by
  refine ⟨fun plan other profile profile' hplan hother hprofile hprofile' h =>
    admissionBytes_injective hplan hother hprofile hprofile' h, ?_⟩
  intro index other hindex hother h
  rw [encode_eq_ok hindex, encode_eq_ok hother] at h
  exact manifestBytes_injective hindex hother (Except.ok.inj h)

/-- A plan with one root name, one root slot and one edge. -/
def smallPlan : CollisionReplayPlan where
  rootNames := ["Array"]
  rootSlots := [{ name := "Array", value := some 0 }]
  ownerSites := []
  reverseEdges := [⟨.value 0, .typeGroup 1⟩]
  rootSlotConsumers := []
  rootSlotOwners := [.value 0]
  namespaceDirectOwners := []
  statementOwners := []
  baselineRecords := []
  prefixBoundaries := Vector.replicate 9 ⟨0, true⟩
  health := {}
  construction := {}
  sealedDigest := none

/-- An index with one owner and one component. -/
def smallIndex : CollisionReplayIndex where
  schema := 1
  ownerPartition := [.globalObject]
  rootSlots := [{ name := "Array" }]
  ownerSites := [⟨.globalObject, 0, ⟨0, 1⟩⟩]
  reverseEdges := []
  rootSlotConsumers := [⟨"Array", .value, .globalObject⟩]
  sccMembership := [⟨0, [.globalObject]⟩]
  statementOwners := []
  baselineRecords := []
  unownedDemandCount := 0
  invalidOwnerSiteCount := 0
  noncanonicalEdgeCount := 0
  typedReferenceCoverageMisses := 0
  canonicalManifestBytes := []
  canonicalManifestSha256 := ⟨List.replicate 32 0, length_zeroBytes⟩

theorem stringFits_small : StringFits "Array" ∧ StringFits "es5" := by
  unfold StringFits
  decide +kernel

theorem smallPlan_fits : smallPlan.Fits := by
  refine ⟨⟨by decide, ?_⟩, ⟨by decide, ?_⟩, ⟨by decide, ?_⟩, ⟨by decide, ?_⟩, ⟨by decide, ?_⟩,
    ⟨by decide, ?_⟩, ⟨by decide, ?_⟩, ⟨by decide, ?_⟩, ⟨by decide, ?_⟩⟩ <;>
    simp [smallPlan, stringFits_small.1]

theorem smallIndex_fits : smallIndex.Fits := by
  refine ⟨⟨by decide, ?_⟩, ⟨by decide, ?_⟩, ⟨by decide, ?_⟩, ⟨by decide, ?_⟩, ⟨by decide, ?_⟩,
    ⟨by decide, ?_⟩, ⟨by decide, ?_⟩, ⟨by decide, ?_⟩⟩ <;>
    simp [smallIndex, stringFits_small.1, RowsFit]

/-- The identities of the small plan, sealed or not, and of the small index. -/
theorem identities_injective_small :
    ("es5" = "es5" ∧ { smallPlan with sealedDigest := none } =
      { { smallPlan with sealedDigest := some smallIndex.canonicalManifestSha256 } with
        sealedDigest := none }) ∧
    { smallIndex with
      canonicalManifestBytes := [0]
      canonicalManifestSha256 := smallIndex.canonicalManifestSha256 } =
        { smallIndex with canonicalManifestBytes := [0] } :=
  ⟨identities_injective.1 smallPlan
      { smallPlan with sealedDigest := some smallIndex.canonicalManifestSha256 } "es5" "es5"
      smallPlan_fits { smallPlan_fits with } stringFits_small.2 stringFits_small.2 rfl,
    identities_injective.2 smallIndex { smallIndex with canonicalManifestBytes := [0] }
      smallIndex_fits { smallIndex_fits with } rfl⟩

end Typokat.Replay
