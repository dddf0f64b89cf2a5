import Typokat.Lib.Runs
import Typokat.Replay.Admission
import Typokat.Replay.Finished

/-!
# What the Checks Say (`checker/replay_index.rs`)

Each check of the admission with the condition under which it passes and the table it derives.

## Main Results

- `ownerSiteRanges_ok`, `ownerSiteRanges_succeeds` : the ranges split the sites by owner
- `sccTables_ok`, `sccTables_succeeds` : the components partition the owners
- `reverseSccTables_ok`, `reverseSccTables_succeeds` : the offsets list the consumers
- `mem_reachesComponent` : what a component reaches
-/

namespace Typokat.Replay

open Check Lib ReplayOwnerSite SccTables ReplayRowRange Option List

/-! ## §1 Ranges -/

theorem checkedU32_eq_ok {error : ReplayIndexAdmissionError} {value result : Nat} :
    checkedU32 error value = .ok result ↔ value < 2 ^ 32 ∧ result = value := by
  unfold checkedU32
  split <;> simp_all [eq_comm]

theorem ReplayRowRange.checked_eq_ok {error : ReplayIndexAdmissionError} {start stop : Nat}
    {range : ReplayRowRange} :
    checked error start stop = .ok range ↔
      (start < 2 ^ 32 ∧ stop < 2 ^ 32) ∧ range = ⟨start, stop⟩ := by
  unfold checked
  split <;> simp_all [eq_comm]

/-- The ranges of consecutive groups. -/
def rangesFrom {A : Type} (start : Nat) (runs : List (List A)) : List ReplayRowRange :=
  List.zipWith ReplayRowRange.mk (offsetsFrom start runs) (offsetsFrom start runs).tail

theorem rangesFrom_cons {A : Type} (start : Nat) (run : List A) (runs : List (List A)) :
    rangesFrom start (run :: runs) =
      ⟨start, start + run.length⟩ :: rangesFrom (start + run.length) runs := by
  cases runs <;> rfl

@[simp]
theorem length_rangesFrom {A : Type} (start : Nat) (runs : List (List A)) :
    (rangesFrom start runs).length = runs.length := by
  simp [rangesFrom]

theorem rangesFrom_append {A : Type} (start : Nat) (runs : List (List A)) (run : List A) :
    rangesFrom start (runs ++ [run]) = rangesFrom start runs ++
      [⟨start + runs.flatten.length, start + runs.flatten.length + run.length⟩] := by
  induction runs generalizing start with
  | nil => rfl
  | cons first runs ih =>
    rw [cons_append, rangesFrom_cons, ih, rangesFrom_cons, flatten_cons, length_append, cons_append]
    simp only [Nat.add_assoc]

/-- A range cuts out its group. -/
theorem rows_rangesFrom {A : Type} (runs : List (List A)) {index : Nat} {run : List A}
    {range : ReplayRowRange} (hrange : (rangesFrom 0 runs)[index]? = some range)
    (hrun : runs[index]? = some run) : range.rows runs.flatten = run := by
  obtain ⟨start, stop, hstart, hstop, rfl⟩ := getElem?_zipWith_eq_some.mp hrange
  rw [getElem?_tail] at hstop
  have hslice := slice_offsetsFrom runs hrun
  rwa [getD_eq_getElem?_getD, getD_eq_getElem?_getD, hstart, hstop, getD_some,
    getD_some] at hslice

/-! ## §2 Owner sites -/

section Sites

variable {limits : ReplayIndexAdmissionLimits}

/-- The ranges split the sites exactly by owner. -/
structure SplitsByOwner (partition : List ReplayOwner) (sites : List ReplayOwnerSite)
    (ranges : List ReplayRowRange) : Prop where
  length : ranges.length = partition.length
  rows : ∀ (index : Nat) owner range, partition[index]? = some owner →
    ranges[index]? = some range →
    range.rows sites = sites.filter (fun site => site.owner = owner)
  flatten : (ranges.map (fun range => range.rows sites)).flatten = sites

theorem owner_le_of_sortKey {first second : ReplayOwnerSite} (h : first.sortKey ≤ second.sortKey) :
    first.owner ≤ second.owner :=
  Prod.Lex.monotone_fst _ _ h

variable {sites : List ReplayOwnerSite}

theorem takeOwnerSites_ok {owner : ReplayOwner} {index : Nat}
    {previous : Option (ReplayOwner ×ₗ Nat ×ₗ Nat ×ₗ Nat)} {next : SiteCursor}
    (h : takeOwnerSites limits owner index previous sites = .ok next) :
    next.rest = sites.dropWhile (fun site => site.owner = owner) ∧
      next.index = index + (sites.takeWhile (fun site => site.owner = owner)).length := by
  induction sites generalizing index previous with
  | nil =>
    cases h
    exact ⟨rfl, rfl⟩
  | cons site sites ih =>
    unfold takeOwnerSites at h
    split at h
    · cases h
      simp_all
    · split at h
      · cases h
      · obtain ⟨hrest, hindex⟩ := ih h
        simp_all
        omega

theorem takeSiteRanges_ok {owners : List ReplayOwner} {cursor last : SiteCursor}
    {ranges : List ReplayRowRange}
    (h : takeSiteRanges limits cursor owners = .ok (ranges, last)) :
    last.rest = afterRuns owner owners cursor.rest ∧
      last.index = cursor.index
        + (runsOf owner owners cursor.rest).flatten.length ∧
      ranges = rangesFrom cursor.index (runsOf owner owners cursor.rest) := by
  induction owners generalizing cursor ranges with
  | nil =>
    cases h
    exact ⟨rfl, rfl, rfl⟩
  | cons owner owners ih =>
    unfold takeSiteRanges at h
    obtain ⟨next, hnext, h⟩ := bind_eq_ok.mp h
    obtain ⟨_, h⟩ := rejectIf_bind_eq_ok.mp h
    obtain ⟨range, hrange, h⟩ := bind_eq_ok.mp h
    obtain ⟨⟨ranges', last'⟩, htail, h⟩ := bind_eq_ok.mp h
    cases h
    obtain ⟨hrest, hindex⟩ := takeOwnerSites_ok hnext
    obtain ⟨_, rfl⟩ := checked_eq_ok.mp hrange
    obtain ⟨hlast, hend, hranges⟩ := ih htail
    rw [hrest] at hlast hend hranges
    refine ⟨hlast, ?_, ?_⟩
    · rw [hend, hindex, runsOf, flatten_cons, length_append, Nat.add_assoc]
    · rw [runsOf, rangesFrom_cons, ← hindex, hranges]

theorem ownerSiteRanges_ok {partition : List ReplayOwner} {ranges : List ReplayRowRange}
    (h : ownerSiteRanges limits partition sites = .ok ranges) (hnodup : partition.Nodup) :
    SplitsByOwner partition sites ranges := by
  unfold ownerSiteRanges at h
  obtain ⟨⟨ranges', last⟩, htake, h⟩ := bind_eq_ok.mp h
  obtain ⟨hlength, h⟩ := rejectIf_bind_eq_ok.mp h
  cases h
  obtain ⟨_, hindex, rfl⟩ := takeSiteRanges_ok htake
  simp only [Nat.zero_add, ne_eq, Decidable.not_not] at hindex hlength
  rw [hindex] at hlength
  -- as many sites as the groups have: nothing is behind the last group
  have hall : afterRuns owner partition sites = [] := by
    have happend := congrArg length
      (flatten_runsOf_append owner partition sites)
    rw [length_append] at happend
    exact eq_nil_of_length_eq_zero (by omega)
  have hflatten := flatten_runsOf hall
  refine ⟨by simp, fun index owner range howner hrange => ?_, ?_⟩
  · have hrows := rows_rangesFrom _ hrange (getElem?_runsOf hnodup hall howner)
    rwa [hflatten] at hrows
  · have hsame : (rangesFrom 0 (runsOf owner partition sites)).map
        (fun range => range.rows sites) = runsOf owner partition sites := by
      refine ext_getElem? (fun index => ?_)
      rw [getElem?_map]
      cases hrange : (rangesFrom 0 (runsOf owner partition sites))[index]? with
      | none =>
        rw [List.getElem?_eq_none_iff, length_rangesFrom] at hrange
        rw [map_none, List.getElem?_eq_none hrange]
      | some range =>
        obtain ⟨hlt, _⟩ := List.getElem?_eq_some_iff.mp hrange
        rw [length_rangesFrom] at hlt
        have hrun := getElem?_eq_getElem hlt
        have hrows := rows_rangesFrom _ hrange hrun
        rw [hflatten] at hrows
        rw [map_some, hrows, hrun]
    rw [hsame, hflatten]

/-- A run of sorted sites within the limits is taken. -/
theorem takeOwnerSites_succeeds (owner : ReplayOwner) (index : Nat)
    (previous : Option (ReplayOwner ×ₗ Nat ×ₗ Nat ×ₗ Nat))
    (hvalid : ∀ site ∈ sites, site.fileOrdinal.toNat < limits.sourceFiles.toNat ∧
      site.span.start.toNat ≤ site.span.stop.toNat)
    (hsorted : sites.Pairwise (fun first second => first.sortKey < second.sortKey))
    (hprevious : ∀ key ∈ previous, ∀ site ∈ sites, key < site.sortKey) :
    ∃ next, takeOwnerSites limits owner index previous sites = .ok next ∧
      ∀ key ∈ next.previous, ∀ site ∈ next.rest, key < site.sortKey := by
  induction sites generalizing index previous with
  | nil => exact ⟨_, rfl, hprevious⟩
  | cons site sites ih =>
    obtain ⟨hfirst, hsorted⟩ := pairwise_cons.mp hsorted
    obtain ⟨hfile, hspan⟩ := hvalid site mem_cons_self
    unfold takeOwnerSites
    by_cases howner : site.owner = owner
    · have hpass : ¬ ((∃ key ∈ previous, site.sortKey ≤ key)
          ∨ limits.sourceFiles.toNat ≤ site.fileOrdinal.toNat
          ∨ site.span.stop.toNat < site.span.start.toNat) := by
        rintro (⟨key, hkey, hle⟩ | hle | hlt)
        · exact absurd hle (not_le.mpr (hprevious key hkey site mem_cons_self))
        · omega
        · omega
      rw [if_neg (not_not.mpr howner), if_neg hpass]
      refine ih (index + 1) (some site.sortKey)
        (fun other hother => hvalid other (mem_cons_of_mem _ hother)) hsorted ?_
      intro key hkey other hother
      cases hkey
      exact hfirst other hother
    · rw [if_pos howner]
      exact ⟨_, rfl, hprevious⟩

theorem takeSiteRanges_succeeds {owners : List ReplayOwner} (cursor : SiteCursor)
    (howners : owners.Pairwise (· < ·))
    (hvalid : ∀ site ∈ cursor.rest, site.fileOrdinal.toNat < limits.sourceFiles.toNat ∧
      site.span.start.toNat ≤ site.span.stop.toNat)
    (hsorted : cursor.rest.Pairwise (fun first second => first.sortKey < second.sortKey))
    (hprevious : ∀ key ∈ cursor.previous, ∀ site ∈ cursor.rest, key < site.sortKey)
    (hmem : ∀ site ∈ cursor.rest, site.owner ∈ owners)
    (hsite : ∀ owner ∈ owners, ∃ site ∈ cursor.rest, site.owner = owner)
    (hlength : cursor.index + cursor.rest.length < 2 ^ 32) :
    ∃ result, takeSiteRanges limits cursor owners = .ok result := by
  induction owners generalizing cursor with
  | nil => exact ⟨_, rfl⟩
  | cons owner owners ih =>
    obtain ⟨hleast, howners⟩ := pairwise_cons.mp howners
    obtain ⟨next, hnext, hafter⟩ := takeOwnerSites_succeeds owner cursor.index cursor.previous
      hvalid hsorted hprevious
    obtain ⟨hrest, hindex⟩ := takeOwnerSites_ok hnext
    have hkeys : cursor.rest.Pairwise (fun first second => first.owner ≤ second.owner) :=
      hsorted.imp (fun h => owner_le_of_sortKey h.le)
    have hge : ∀ site ∈ cursor.rest, owner ≤ site.owner := by
      intro site hin
      rcases mem_cons.mp (hmem site hin) with heq | hin
      · exact heq.ge
      · exact (hleast _ hin).le
    have hlater : ∀ site ∈ next.rest, owner < site.owner := by
      intro site hin
      rw [hrest] at hin
      exact lt_of_mem_dropWhile hkeys hge hin
    have hsplit : cursor.rest =
        cursor.rest.takeWhile (fun site => site.owner = owner) ++ next.rest := by
      rw [hrest, takeWhile_append_dropWhile]
    have hsub : ∀ site ∈ next.rest, site ∈ cursor.rest := by
      intro site hin
      rw [hsplit]
      exact mem_append_right _ hin
    have hsum := congrArg length hsplit
    rw [length_append] at hsum
    -- the first owner has a site, which is in the run in front
    have hmoved : next.index ≠ cursor.index := by
      obtain ⟨site, hin, heq⟩ := hsite owner mem_cons_self
      rw [hsplit, mem_append] at hin
      have htaken := hin.resolve_right (fun hin => (hlater site hin).ne' heq)
      have hpos := length_pos_of_mem htaken
      omega
    obtain ⟨⟨ranges, last⟩, htail⟩ := ih next howners
      (fun site hin => hvalid site (hsub site hin))
      (by rw [hrest]; exact hsorted.sublist (dropWhile_sublist _))
      hafter
      (fun site hin =>
        (mem_cons.mp (hmem site (hsub site hin))).resolve_left (hlater site hin).ne')
      (fun other hother => by
        obtain ⟨site, hin, heq⟩ := hsite other (mem_cons_of_mem _ hother)
        refine ⟨site, ?_, heq⟩
        rw [hsplit, mem_append] at hin
        refine hin.resolve_left (fun htaken => (hleast other hother).ne ?_)
        have howner : site.owner = owner := by simpa using mem_takeWhile_imp htaken
        rw [← heq, howner])
      (by omega)
    refine ⟨(⟨cursor.index, next.index⟩ :: ranges, last), ?_⟩
    have hchecked : checked .invalidOwnerSites cursor.index next.index =
        .ok ⟨cursor.index, next.index⟩ := checked_eq_ok.mpr
      ⟨⟨by omega, by omega⟩, rfl⟩
    rw [takeSiteRanges, hnext, ok_bind, rejectIf_pass hmoved, ok_bind, hchecked, ok_bind, htail]
    rfl

/-- **Sorted sites pass**: each owner has sites, they are within the limits and sorted. -/
theorem ownerSiteRanges_succeeds {partition : List ReplayOwner}
    (hpartition : partition.Pairwise (· < ·))
    (hvalid : ∀ site ∈ sites, site.fileOrdinal.toNat < limits.sourceFiles.toNat ∧
      site.span.start.toNat ≤ site.span.stop.toNat)
    (hsorted : sites.Pairwise (fun first second => first.sortKey < second.sortKey))
    (hmem : ∀ site ∈ sites, site.owner ∈ partition)
    (hsite : ∀ owner ∈ partition, ∃ site ∈ sites, site.owner = owner)
    (hlength : sites.length < 2 ^ 32) :
    ∃ ranges, ownerSiteRanges limits partition sites = .ok ranges := by
  obtain ⟨⟨ranges, last⟩, htake⟩ := takeSiteRanges_succeeds ⟨sites, 0, none⟩
    hpartition hvalid hsorted (by simp) hmem hsite (by simpa using hlength)
  obtain ⟨_, hindex, _⟩ := takeSiteRanges_ok htake
  have hall : afterRuns owner partition sites = [] :=
    afterRuns_eq_nil hpartition (hsorted.imp (fun h => owner_le_of_sortKey (le_of_lt h))) hmem
  rw [flatten_runsOf hall, Nat.zero_add] at hindex
  refine ⟨ranges, ?_⟩
  rw [ownerSiteRanges, htake, ok_bind]
  simp only []
  rw [rejectIf_pass (not_not.mpr hindex)]
  rfl

end Sites

/-! ## §3 Component tables -/

section Components

variable {partition : List ReplayOwner} {owner : ReplayOwner}

theorem idxOf?_of_mem (h : owner ∈ partition) :
    partition.idxOf? owner = some (partition.idxOf owner) := by
  induction partition with
  | nil => exact absurd h not_mem_nil
  | cons first partition ih =>
    rw [idxOf?_cons, idxOf_cons]
    by_cases heq : first = owner
    · simp [heq]
    · have hrest := (mem_cons.mp h).resolve_left (Ne.symm heq)
      have hbeq : (first == owner) = false := beq_eq_false_iff_ne.mpr heq
      simp [hbeq, ih hrest]

/-- `done` are the components that are in the tables. -/
structure Assigned (partition : List ReplayOwner) (done : List (List ReplayOwner))
    (tables : SccTables) : Prop where
  length : tables.ownerToScc.length = partition.length
  owners : tables.sccOwners = done.flatten
  nodup : done.flatten.Nodup
  mem : ∀ owner ∈ done.flatten, owner ∈ partition
  scc : ∀ (index : Nat) component, done[index]? = some component → ∀ owner ∈ component,
    sccOf partition tables.ownerToScc owner = index
  rest : ∀ owner ∈ partition, owner ∉ done.flatten →
    sccOf partition tables.ownerToScc owner = unassigned

variable {done : List (List ReplayOwner)}

theorem Assigned.entry {tables : SccTables} (h : Assigned partition done tables)
    (howner : owner ∈ partition) :
    tables.ownerToScc[partition.idxOf owner]? =
      some (sccOf partition tables.ownerToScc owner) := by
  have hlt : partition.idxOf owner < tables.ownerToScc.length := by
    rw [h.length]
    exact idxOf_lt_length_of_mem howner
  rw [sccOf, getD_eq_getElem?_getD, getElem?_eq_getElem hlt, getD_some]

theorem sccOf_set {table : List Nat} (hlength : table.length = partition.length)
    (howner : owner ∈ partition) (ordinal : Nat) (other : ReplayOwner) :
    sccOf partition (table.set (partition.idxOf owner) ordinal) other =
      if other = owner then ordinal else sccOf partition table other := by
  have hlt : partition.idxOf owner < table.length := by
    rw [hlength]
    exact idxOf_lt_length_of_mem howner
  unfold sccOf
  rw [getD_eq_getElem?_getD, getD_eq_getElem?_getD]
  by_cases heq : other = owner
  · rw [if_pos heq, heq, getElem?_set_self hlt, getD_some]
  · have hne : partition.idxOf owner ≠ partition.idxOf other := fun h =>
      heq ((idxOf_inj howner).mp h).symm
    rw [if_neg heq, getElem?_set_ne hne]

theorem SccTables.assign_eq_ok {ordinal : Nat} {tables next : SccTables} :
    assign partition ordinal tables owner = .ok next ↔
      owner ∈ partition ∧ tables.ownerToScc[partition.idxOf owner]? = some unassigned ∧
        next = { tables with
          ownerToScc := tables.ownerToScc.set (partition.idxOf owner) ordinal
          sccOwners := tables.sccOwners ++ [owner] } := by
  unfold assign
  by_cases howner : owner ∈ partition
  · rw [idxOf?_of_mem howner]
    dsimp only
    split <;> simp_all [eq_comm]
  · rw [idxOf?_eq_none_iff.mpr howner]
    simp [howner]

section Assigning

variable {done : List (List ReplayOwner)} {tables : SccTables}

/-- A component grows by one owner. -/
theorem Assigned.assign {taken : List ReplayOwner} (h : Assigned partition (done ++ [taken]) tables)
    {owner : ReplayOwner} (howner : owner ∈ partition) (hout : owner ∉ (done ++ [taken]).flatten) :
    Assigned partition (done ++ [taken ++ [owner]])
      { tables with
        ownerToScc := tables.ownerToScc.set (partition.idxOf owner) done.length
        sccOwners := tables.sccOwners ++ [owner] } := by
  have hflatten : (done ++ [taken ++ [owner]]).flatten = (done ++ [taken]).flatten ++ [owner] := by
    simp
  refine ⟨?_, ?_, ?_, ?_, ?_, ?_⟩
  · rw [length_set]
    exact h.length
  · rw [hflatten, h.owners]
  · rw [hflatten, nodup_append]
    refine ⟨h.nodup, nodup_singleton _, ?_⟩
    rintro other hother _ hmem rfl
    rw [mem_singleton.mp hmem] at hother
    exact hout hother
  · intro other hother
    rw [hflatten, mem_append, mem_singleton] at hother
    rcases hother with hother | rfl
    · exact h.mem other hother
    · exact howner
  · intro index component hcomponent other hother
    rw [sccOf_set h.length howner]
    by_cases heq : other = owner
    · rw [if_pos heq]
      -- only the last component has the new owner
      by_contra hne
      have hlt : index < done.length := by
        have hbound := (List.getElem?_eq_some_iff.mp hcomponent).1
        rw [List.length_append, List.length_singleton] at hbound
        omega
      rw [getElem?_append_left hlt] at hcomponent
      refine hout (mem_flatten.mpr ⟨component, ?_, heq ▸ hother⟩)
      exact mem_append_left _ (mem_of_getElem? hcomponent)
    · rw [if_neg heq]
      rcases Nat.lt_or_ge index done.length with hlt | hge
      · rw [getElem?_append_left hlt] at hcomponent
        refine h.scc index component ?_ other hother
        rw [getElem?_append_left hlt]
        exact hcomponent
      · rw [List.getElem?_append_right hge] at hcomponent
        have hzero : index - done.length = 0 := by
          have hbound := (List.getElem?_eq_some_iff.mp hcomponent).1
          rw [List.length_singleton] at hbound
          omega
        rw [hzero] at hcomponent
        obtain rfl : taken ++ [owner] = component := some.inj hcomponent
        refine h.scc index taken ?_ other ?_
        · rw [getElem?_append_right hge, hzero]
          rfl
        · rcases mem_append.mp hother with hin | hin
          · exact hin
          · exact absurd (mem_singleton.mp hin) heq
  · intro other hother hrest
    rw [hflatten, mem_append, mem_singleton, not_or] at hrest
    rw [sccOf_set h.length howner, if_neg hrest.2]
    exact h.rest other hother hrest.1

/-- An owner that is in the tables has another mark than an open one. -/
theorem Assigned.not_mem_of_unassigned (h : Assigned partition done tables)
    {owner : ReplayOwner} (hentry : sccOf partition tables.ownerToScc owner = unassigned)
    (hbound : ∀ index component, done[index]? = some component → owner ∈ component →
      index < unassigned) : owner ∉ done.flatten := by
  intro hin
  obtain ⟨component, hcomponent, howner⟩ := mem_flatten.mp hin
  obtain ⟨index, hindex⟩ := mem_iff_getElem?.mp hcomponent
  have hscc := h.scc index component hindex owner howner
  have hlt := hbound index component hindex howner
  omega

theorem Assigned.opened (h : Assigned partition done tables) :
    Assigned partition (done ++ [[]]) tables := by
  have hflatten : (done ++ [[]]).flatten = done.flatten := by simp
  refine ⟨h.length, ?_, ?_, ?_, ?_, ?_⟩
  · rw [hflatten]
    exact h.owners
  · rw [hflatten]
    exact h.nodup
  · rw [hflatten]
    exact h.mem
  · intro index component hcomponent owner howner
    rcases Nat.lt_or_ge index done.length with hlt | hge
    · rw [getElem?_append_left hlt] at hcomponent
      exact h.scc index component hcomponent owner howner
    · rw [getElem?_append_right hge] at hcomponent
      obtain rfl := mem_singleton.mp (mem_of_getElem? hcomponent)
      exact absurd howner not_mem_nil
  · rw [hflatten]
    exact h.rest

/-- The owners of a component are new to the tables and to each other. -/
theorem assignAll_ok {tables next : SccTables} {owners : List ReplayOwner}
    (h : Assigned partition done tables) (hbound : done.length < 2 ^ 32) (hnodup : owners.Nodup)
    (hok : owners.foldlM (assign partition done.length) tables = .ok next) :
    Assigned partition (done ++ [owners]) next ∧
      next.sccOwnerRanges = tables.sccOwnerRanges := by
  refine foldlM_ok (fun taken state => Assigned partition (done ++ [taken]) state ∧
    state.sccOwnerRanges = tables.sccOwnerRanges) hok [] ⟨h.opened, rfl⟩ ?_
  rintro front owner back state after hsplit ⟨hstate, hranges⟩ hassign
  obtain ⟨howner, hentry, rfl⟩ := assign_eq_ok.mp hassign
  rw [hstate.entry howner] at hentry
  rw [hsplit] at hnodup
  refine ⟨hstate.assign howner (hstate.not_mem_of_unassigned (some.inj hentry) ?_), hranges⟩
  intro index component hcomponent hin
  rcases Nat.lt_or_ge index done.length with hlt | hge
  · unfold unassigned
    omega
  · rw [getElem?_append_right hge] at hcomponent
    obtain rfl := mem_singleton.mp (mem_of_getElem? hcomponent)
    exact absurd mem_cons_self (disjoint_of_nodup_append hnodup hin)

theorem assignAll_succeeds {owners : List ReplayOwner} (h : Assigned partition done tables)
    (hmem : ∀ owner ∈ owners, owner ∈ partition) (hnodup : (done ++ [owners]).flatten.Nodup) :
    ∃ next, owners.foldlM (assign partition done.length) tables = .ok next ∧
      Assigned partition (done ++ [owners]) next ∧
        next.sccOwnerRanges = tables.sccOwnerRanges := by
  refine foldlM_succeeds (fun taken state => Assigned partition (done ++ [taken]) state ∧
    state.sccOwnerRanges = tables.sccOwnerRanges) owners [] ⟨h.opened, rfl⟩ ?_
  rintro front owner back state hsplit ⟨hstate, hranges⟩
  have howner : owner ∈ partition := by
    refine hmem owner ?_
    rw [hsplit]
    exact mem_append_right _ mem_cons_self
  have hout : owner ∉ (done ++ [front]).flatten := by
    have hflatten : (done ++ [owners]).flatten = (done ++ [front]).flatten ++ owner :: back := by
      simp [hsplit]
    rw [hflatten] at hnodup
    intro hin
    exact disjoint_of_nodup_append hnodup hin mem_cons_self
  refine ⟨_, assign_eq_ok.mpr ⟨howner, ?_, rfl⟩, hstate.assign howner hout, hranges⟩
  rw [hstate.entry howner]
  exact congrArg some (hstate.rest owner howner hout)

end Assigning

/-- What the components of an index have to be. -/
structure ReplayScc.Valid (component : ReplayScc) (position : Nat) : Prop where
  ordinal : component.replayOrdinal.toNat = position
  nonempty : component.owners ≠ []
  sorted : component.owners.Pairwise (· < ·)

theorem addComponent_ok {tables next : SccTables} {component : ReplayScc}
    (h : Assigned partition done tables) (hranges : tables.sccOwnerRanges = rangesFrom 0 done)
    (hok : addComponent partition tables (component, done.length) = .ok next) :
    component.Valid done.length ∧ Assigned partition (done ++ [component.owners]) next ∧
      next.sccOwnerRanges = rangesFrom 0 (done ++ [component.owners]) := by
  unfold addComponent at hok
  obtain ⟨ordinal, hordinal, hok⟩ := bind_eq_ok.mp hok
  obtain ⟨hbound, rfl⟩ := checkedU32_eq_ok.mp hordinal
  obtain ⟨hcheck, hok⟩ := rejectIf_bind_eq_ok.mp hok
  obtain ⟨after, hassign, hok⟩ := bind_eq_ok.mp hok
  obtain ⟨range, hrange, hok⟩ := bind_eq_ok.mp hok
  obtain ⟨_, rfl⟩ := checked_eq_ok.mp hrange
  cases hok
  simp only [not_or, ne_eq, Decidable.not_not] at hcheck
  obtain ⟨hposition, hnonempty, hchain⟩ := hcheck
  have hsorted : component.owners.Pairwise (· < ·) := isChain_iff_pairwise.mp hchain
  obtain ⟨hafter, hsame⟩ := assignAll_ok h hbound (hsorted.imp ne_of_lt) hassign
  refine ⟨⟨hposition, hnonempty, hsorted⟩,
    ⟨hafter.1, hafter.2, hafter.3, hafter.4, hafter.5, hafter.6⟩, ?_⟩
  rw [rangesFrom_append, hsame, hranges, h.owners, hafter.owners]
  simp

theorem addComponent_succeeds {tables : SccTables} (component : ReplayScc)
    (h : Assigned partition done tables) (hranges : tables.sccOwnerRanges = rangesFrom 0 done)
    (hbound : done.length < 2 ^ 32) (hvalid : component.Valid done.length)
    (hmem : ∀ owner ∈ component.owners, owner ∈ partition)
    (hnodup : (done ++ [component.owners]).flatten.Nodup)
    (hlength : (done ++ [component.owners]).flatten.length < 2 ^ 32) :
    ∃ next, addComponent partition tables (component, done.length) = .ok next ∧
      Assigned partition (done ++ [component.owners]) next ∧
      next.sccOwnerRanges = rangesFrom 0 (done ++ [component.owners]) := by
  obtain ⟨next, hnext, hafter, hsame⟩ := assignAll_succeeds h hmem hnodup
  have hpass : ¬ (component.replayOrdinal.toNat ≠ done.length ∨ component.owners = []
      ∨ ¬ component.owners.IsChain (· < ·)) := by
    simp only [not_or, ne_eq, Decidable.not_not]
    exact ⟨hvalid.ordinal, hvalid.nonempty, isChain_iff_pairwise.mpr hvalid.sorted⟩
  have hfront : tables.sccOwners.length ≤ next.sccOwners.length := by
    rw [h.owners, hafter.owners]
    simp
  have hrange : checked .invalidSccPartition tables.sccOwners.length
      next.sccOwners.length = .ok ⟨tables.sccOwners.length, next.sccOwners.length⟩ := by
    rw [hafter.owners] at hfront ⊢
    exact checked_eq_ok.mpr ⟨⟨by omega, by omega⟩, rfl⟩
  have hok : addComponent partition tables (component, done.length) =
      .ok { next with sccOwnerRanges := next.sccOwnerRanges ++
        [⟨tables.sccOwners.length, next.sccOwners.length⟩] } := by
    unfold addComponent
    dsimp only
    rw [checkedU32_eq_ok.mpr ⟨hbound, rfl⟩, ok_bind, rejectIf_pass hpass, ok_bind, hnext, ok_bind,
      hrange]
    rfl
  refine ⟨_, hok, ⟨hafter.1, hafter.2, hafter.3, hafter.4, hafter.5, hafter.6⟩, ?_⟩
  rw [rangesFrom_append, hsame, hranges, h.owners, hafter.owners]
  simp

theorem zipIdx_split {A : Type} {rows : List A} {front back : List (A × Nat)} {entry : A × Nat}
    (h : rows.zipIdx = front ++ entry :: back) :
    entry.2 = front.length ∧ rows[front.length]? = some entry.1 := by
  have hget : (rows.zipIdx)[front.length]? = some entry := by
    rw [h, getElem?_append_right (Nat.le_refl _), Nat.sub_self]
    rfl
  rw [getElem?_zipIdx, map_eq_some_iff] at hget
  obtain ⟨row, hrow, heq⟩ := hget
  cases heq
  exact ⟨by simp, hrow⟩

/-- The lists of owners of components. -/
abbrev memberLists (sccs : List ReplayScc) : List (List ReplayOwner) :=
  sccs.map (fun component => component.owners)

theorem map_fst_front {sccs : List ReplayScc} {front back : List (ReplayScc × Nat)}
    {entry : ReplayScc × Nat} (h : sccs.zipIdx = front ++ entry :: back) :
    (front.map (fun entry => entry.1.owners)) ++ entry.1.owners ::
      back.map (fun entry => entry.1.owners) = memberLists sccs := by
  have hmap := congrArg (List.map (fun entry => entry.1.owners)) h
  rw [List.map_append, List.map_cons] at hmap
  rw [← hmap, memberLists, ← List.zipIdx_map_fst 0 sccs, List.map_map, List.zipIdx_map_fst]
  rfl

/-- The components partition the owners, and the tables describe them. -/
structure SccPartition (partition : List ReplayOwner) (sccs : List ReplayScc)
    (tables : SccTables) : Prop where
  length : tables.ownerToScc.length = partition.length
  valid : ∀ (index : Nat) component, sccs[index]? = some component → component.Valid index
  nodup : (memberLists sccs).flatten.Nodup
  mem_iff : ∀ owner, owner ∈ (memberLists sccs).flatten ↔ owner ∈ partition
  scc : ∀ (index : Nat) component, sccs[index]? = some component → ∀ owner ∈ component.owners,
    sccOf partition tables.ownerToScc owner = index
  owners : tables.sccOwners = (memberLists sccs).flatten
  ranges : tables.sccOwnerRanges = rangesFrom 0 (memberLists sccs)

theorem getElem?_ownerToScc (hnodup : partition.Nodup) {table : List Nat}
    (hlength : table.length = partition.length) {index : Nat}
    (howner : partition[index]? = some owner) :
    table[index]? = some (sccOf partition table owner) := by
  obtain ⟨hlt, rfl⟩ := List.getElem?_eq_some_iff.mp howner
  have hidx : partition.idxOf partition[index] = index := hnodup.idxOf_getElem index hlt
  have hlt' : index < table.length := hlength ▸ hlt
  rw [sccOf, hidx, getD_eq_getElem?_getD, getElem?_eq_getElem hlt', getD_some]

theorem assigned_start : Assigned partition []
    ⟨replicate partition.length unassigned, [], []⟩ := by
  refine ⟨by simp, rfl, nodup_nil, by simp, by simp, fun owner howner _ => ?_⟩
  have hlt := idxOf_lt_length_of_mem howner
  rw [sccOf, getD_eq_getElem?_getD, getElem?_replicate, if_pos hlt, getD_some]

/-- **Accepted components** partition the owners. -/
theorem sccTables_ok (hnodup : partition.Nodup) {sccs : List ReplayScc} {tables : SccTables}
    (h : sccTables partition sccs = .ok tables) : SccPartition partition sccs tables := by
  unfold sccTables at h
  obtain ⟨last, hfold, h⟩ := bind_eq_ok.mp h
  obtain ⟨hopen, h⟩ := rejectIf_bind_eq_ok.mp h
  cases h
  have hinv := foldlM_ok (fun front state =>
    Assigned partition (front.map (fun entry => entry.1.owners)) state ∧
      state.sccOwnerRanges = rangesFrom 0 (front.map (fun entry => entry.1.owners)) ∧
      ∀ entry ∈ front, entry.1.Valid entry.2) hfold [] ⟨assigned_start, rfl, by simp⟩ (by
    rintro front ⟨component, position⟩ back state next hsplit ⟨hstate, hranges, hvalid⟩ hadd
    obtain ⟨rfl, _⟩ := zipIdx_split hsplit
    rw [nil_append] at hstate hranges hvalid ⊢
    have hlength : front.length = (front.map (fun entry => entry.1.owners)).length := by simp
    rw [hlength] at hadd
    obtain ⟨hcomponent, hnext, hnextRanges⟩ := addComponent_ok hstate hranges hadd
    rw [← hlength] at hcomponent
    rw [map_append, map_singleton]
    refine ⟨hnext, hnextRanges, forall_mem_append.mpr ⟨hvalid, ?_⟩⟩
    intro entry hentry
    rw [List.mem_singleton.mp hentry]
    exact hcomponent)
  have hlists : (sccs.zipIdx.map (fun entry => entry.1.owners)) = memberLists sccs := by
    conv_rhs => rw [memberLists, ← List.zipIdx_map_fst 0 sccs, List.map_map]
    rfl
  rw [nil_append, hlists] at hinv
  obtain ⟨hassigned, hranges, hvalid⟩ := hinv
  refine ⟨hassigned.length, ?_, hassigned.nodup, fun owner => ⟨hassigned.mem owner, ?_⟩, ?_,
    hassigned.owners, hranges⟩
  · intro index component hcomponent
    refine hvalid (component, index) (mem_of_getElem? (i := index) ?_)
    rw [getElem?_zipIdx, hcomponent]
    simp
  · intro howner
    by_contra hout
    obtain ⟨index, hindex⟩ := mem_iff_getElem?.mp howner
    have hentry := getElem?_ownerToScc hnodup hassigned.length hindex
    rw [hassigned.rest owner howner hout] at hentry
    exact hopen (mem_of_getElem? hentry)
  · intro index component hcomponent owner howner
    refine hassigned.scc index component.owners ?_ owner howner
    rw [getElem?_map, hcomponent]
    rfl

/-- **A partition into components is accepted** when the tables are small enough. -/
theorem sccTables_succeeds (hnodup : partition.Nodup) {sccs : List ReplayScc}
    (hvalid : ∀ (index : Nat) component, sccs[index]? = some component → component.Valid index)
    (hlists : (memberLists sccs).flatten.Nodup)
    (hmem : ∀ owner, owner ∈ (memberLists sccs).flatten ↔ owner ∈ partition)
    (hsccs : sccs.length < 2 ^ 32) (hpartition : partition.length < 2 ^ 32) :
    ∃ tables, sccTables partition sccs = .ok tables := by
  have hsize : (memberLists sccs).flatten.length < 2 ^ 32 := by
    have hsub := subperm_of_subset hlists (fun owner howner => (hmem owner).mp howner)
    exact lt_of_le_of_lt hsub.length_le hpartition
  obtain ⟨last, hfold, hassigned, hranges⟩ := foldlM_succeeds
    (f := addComponent partition) (fun front state =>
      Assigned partition (front.map (fun entry => entry.1.owners)) state ∧
        state.sccOwnerRanges = rangesFrom 0 (front.map (fun entry => entry.1.owners)))
    sccs.zipIdx [] ⟨assigned_start, rfl⟩ (by
      rintro front ⟨component, position⟩ back state hsplit ⟨hstate, hstateRanges⟩
      obtain ⟨rfl, hget⟩ := zipIdx_split hsplit
      have hfront := map_fst_front hsplit
      rw [nil_append] at hstate hstateRanges ⊢
      have hlength : front.length = (front.map (fun entry => entry.1.owners)).length := by simp
      have hwhole : (memberLists sccs).flatten =
          (front.map (fun entry => entry.1.owners) ++ [component.owners]).flatten ++
            (back.map (fun entry => entry.1.owners)).flatten := by
        rw [← hfront]
        simp
      have hbound : front.length < sccs.length := (List.getElem?_eq_some_iff.mp hget).1
      have hnext := addComponent_succeeds component hstate hstateRanges
        (by rw [← hlength]; exact hbound.trans hsccs)
        (by rw [← hlength]; exact hvalid _ _ hget)
        (fun owner howner => (hmem owner).mp (mem_flatten.mpr
          ⟨component.owners, mem_map_of_mem (mem_of_getElem? hget), howner⟩))
        (by rw [hwhole] at hlists; exact (nodup_append.mp hlists).1)
        (by rw [hwhole, length_append] at hsize; omega)
      rw [← hlength] at hnext
      rwa [List.map_append, List.map_singleton])
  have hzip : (sccs.zipIdx.map (fun entry => entry.1.owners)) = memberLists sccs := by
    conv_rhs => rw [memberLists, ← List.zipIdx_map_fst 0 sccs, List.map_map]
    rfl
  rw [nil_append, hzip] at hassigned
  -- every owner lies in a component, and no position is the mark
  have hclosed : unassigned ∉ last.ownerToScc := by
    intro hin
    obtain ⟨index, hindex⟩ := List.mem_iff_getElem?.mp hin
    have hlt := (List.getElem?_eq_some_iff.mp hindex).1
    rw [hassigned.length] at hlt
    have hentry := getElem?_ownerToScc hnodup hassigned.length (getElem?_eq_getElem hlt)
    rw [hindex, some.injEq] at hentry
    obtain ⟨component, hcomponent, howner⟩ :=
      List.mem_flatten.mp ((hmem partition[index]).mpr (List.getElem_mem hlt))
    obtain ⟨position, hposition⟩ := List.mem_iff_getElem?.mp hcomponent
    have hscc := hassigned.scc position component hposition _ howner
    have hbound := (List.getElem?_eq_some_iff.mp hposition).1
    rw [List.length_map] at hbound
    rw [hscc] at hentry
    unfold unassigned at hentry
    omega
  refine ⟨last, ?_⟩
  rw [sccTables, hfold, ok_bind, rejectIf_pass hclosed]
  rfl

end Components

/-! ## §4 Offsets of the consumers -/

section Offsets

/-- The consumers of components in sorted rows, one group per component. -/
def consumerRuns (components : List Nat) (rows : List (Nat ×ₗ Nat)) : List (List Nat) :=
  (runsOf (fun row => (ofLex row).1) components rows).map (List.map (fun row => (ofLex row).2))

theorem fillOffsets_ok {components : List Nat} {rows : List (Nat ×ₗ Nat)} {filled : Nat}
    {tables : ReverseSccTables} (h : fillOffsets rows filled components = .ok tables) :
    tables.offsets = offsetsFrom filled (consumerRuns components rows) ∧
      tables.edges = (consumerRuns components rows).flatten ∧
      tables.rest = afterRuns (fun row => (ofLex row).1) components rows := by
  induction components generalizing rows filled tables with
  | nil =>
    rw [fillOffsets] at h
    obtain ⟨offset, hoffset, hlast⟩ := bind_eq_ok.mp h
    obtain ⟨_, rfl⟩ := checkedU32_eq_ok.mp hoffset
    cases hlast
    exact ⟨rfl, rfl, rfl⟩
  | cons component components ih =>
    rw [fillOffsets] at h
    obtain ⟨offset, hoffset, hbody⟩ := bind_eq_ok.mp h
    obtain ⟨dependency, hdependency, htail⟩ := bind_eq_ok.mp hbody
    obtain ⟨_, rfl⟩ := checkedU32_eq_ok.mp hoffset
    obtain ⟨_, rfl⟩ := checkedU32_eq_ok.mp hdependency
    obtain ⟨after, hafter, hlast⟩ := bind_eq_ok.mp htail
    cases hlast
    obtain ⟨hoffsets, hedges, hrest⟩ := ih hafter
    refine ⟨?_, ?_, hrest⟩
    · rw [consumerRuns, runsOf, map_cons, offsetsFrom, hoffsets]
      rfl
    · rw [consumerRuns, runsOf, map_cons, flatten_cons, hedges]
      rfl

theorem fillOffsets_succeeds (components : List Nat) (rows : List (Nat ×ₗ Nat)) (filled : Nat)
    (hlength : filled + rows.length < 2 ^ 32) (hcomponents : ∀ c ∈ components, c < 2 ^ 32) :
    ∃ tables, fillOffsets rows filled components = .ok tables := by
  induction components generalizing rows filled with
  | nil =>
    rw [fillOffsets, checkedU32_eq_ok.mpr ⟨by omega, rfl⟩, ok_bind]
    exact ⟨_, rfl⟩
  | cons component components ih =>
    have hsum := congrArg length
      (takeWhile_append_dropWhile (p := fun row : Nat ×ₗ Nat => (ofLex row).1 = component)
        (l := rows))
    rw [length_append] at hsum
    obtain ⟨tables, htables⟩ := ih (rows.dropWhile (fun row => (ofLex row).1 = component))
      (filled + ((rows.takeWhile (fun row => (ofLex row).1 = component)).map
        (fun row => (ofLex row).2)).length)
      (by rw [length_map]; omega)
      (fun c hc => hcomponents c (mem_cons_of_mem _ hc))
    rw [fillOffsets, checkedU32_eq_ok.mpr ⟨by omega, rfl⟩, ok_bind,
      checkedU32_eq_ok.mpr ⟨hcomponents component mem_cons_self, rfl⟩, ok_bind]
    dsimp only
    rw [htables, ok_bind]
    exact ⟨_, rfl⟩

/-- The tables list the rows group by group. -/
structure ListsConsumers (rows : List (Nat ×ₗ Nat)) (components : Nat)
    (tables : ReverseSccTables) : Prop where
  offsets : tables.offsets = offsetsFrom 0 (consumerRuns (List.range components) rows)
  flatten : tables.edges = (consumerRuns (List.range components) rows).flatten
  edges : tables.edges = rows.map (fun row => (ofLex row).2)
  consumers : ∀ component < components, tables.consumers component =
    (rows.filter (fun row => (ofLex row).1 = component)).map (fun row => (ofLex row).2)

theorem reverseSccTables_ok {rows : List (Nat ×ₗ Nat)} {components : Nat}
    {tables : ReverseSccTables} (h : reverseSccTables rows components = .ok tables) :
    ListsConsumers rows components tables := by
  obtain ⟨filled, hfill, h⟩ := bind_eq_ok.mp h
  obtain ⟨hrest, h⟩ := rejectIf_bind_eq_ok.mp h
  cases h
  obtain ⟨hoffsets, hedges, hafter⟩ := fillOffsets_ok hfill
  have hall : afterRuns (fun row : Nat ×ₗ Nat => (ofLex row).1) (range components) rows = [] := by
    rw [← hafter]
    exact not_not.mp hrest
  refine ⟨hoffsets, hedges, ?_, fun component hcomponent => ?_⟩
  · rw [hedges, consumerRuns, ← map_flatten, flatten_runsOf hall]
  · rw [ReverseSccTables.consumers, hoffsets, hedges]
    refine slice_offsetsFrom _ ?_
    have hget := getElem?_runsOf nodup_range hall
      (getElem?_range hcomponent : (range components)[component]? = some component)
    rw [consumerRuns, getElem?_map, hget]
    rfl

theorem reverseSccTables_succeeds {rows : List (Nat ×ₗ Nat)} {components : Nat}
    (hsorted : rows.Pairwise (· < ·)) (hmem : ∀ row ∈ rows, (ofLex row).1 < components)
    (hlength : rows.length < 2 ^ 32) (hcomponents : components < 2 ^ 32) :
    ∃ tables, reverseSccTables rows components = .ok tables := by
  obtain ⟨tables, htables⟩ := fillOffsets_succeeds (range components) rows 0
    (by omega) (fun c hc => (mem_range.mp hc).trans hcomponents)
  obtain ⟨_, _, hafter⟩ := fillOffsets_ok htables
  have hall : tables.rest = [] := by
    rw [hafter]
    exact afterRuns_eq_nil pairwise_lt_range
      (hsorted.imp (fun h => Prod.Lex.monotone_fst _ _ (le_of_lt h)))
      (fun row hrow => mem_range.mpr (hmem row hrow))
  refine ⟨tables, ?_⟩
  rw [reverseSccTables, htables, ok_bind, rejectIf_pass (not_not.mpr hall)]
  rfl

end Offsets

/-! ## §5 Reaching a component -/

variable {rows : List (ReplayOwner × ReplayOwner)}

theorem mem_adjacent {owner target : ReplayOwner} :
    target ∈ adjacent rows owner ↔ (owner, target) ∈ rows := by
  rw [adjacent, List.mem_map]
  constructor
  · rintro ⟨⟨source, other⟩, hrow, rfl⟩
    obtain ⟨hrow, heq⟩ := mem_filter.mp hrow
    rw [← of_decide_eq_true heq]
    exact hrow
  · exact fun hrow => ⟨(owner, target), mem_filter.mpr ⟨hrow, by simp⟩, rfl⟩

/-- The loop of `reaches_component` keeps a worklist. -/
theorem worklist_reachesComponent {start : ReplayOwner → Prop} (pending : List ReplayOwner)
    (reached : Finset ReplayOwner)
    (h : Worklist (fun owner target => (owner, target) ∈ rows) start (· ∈ pending) (· ∈ reached)) :
    Worklist (fun owner target => (owner, target) ∈ rows) start (fun _ => False)
      (· ∈ reachesComponent rows pending reached) := by
  fun_induction reachesComponent rows pending reached with
  | case1 reached => simpa using h
  | case2 reached owner pending hin ih => exact ih (h.skip hin (by simp))
  | case3 reached owner pending hin ih =>
    refine ih (h.expand (mem_cons_self : owner ∈ owner :: pending) ?_ ?_)
    · intro other
      rw [Finset.mem_insert, or_comm]
    · intro other
      rw [Finset.mem_insert, mem_append, mem_reverse, mem_adjacent, mem_cons]
      tauto

/-- **`reaches_component` finds what the start reaches.** -/
theorem mem_reachesComponent {first owner : ReplayOwner} :
    owner ∈ reachesComponent rows [first] ∅ ↔
      Relation.ReflTransGen (fun owner target => (owner, target) ∈ rows) first owner := by
  have hstart : Worklist (fun owner target => (owner, target) ∈ rows) (· = first) (· ∈ [first])
      (· ∈ (∅ : Finset ReplayOwner)) := by
    simpa using Worklist.initial (fun owner : ReplayOwner => mem_singleton.symm)
  rw [(worklist_reachesComponent [first] ∅ hstart).finish owner]
  constructor
  · rintro ⟨_, rfl, hpath⟩
    exact hpath
  · exact fun hpath => ⟨first, rfl, hpath⟩

end Typokat.Replay
