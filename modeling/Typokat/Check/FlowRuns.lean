import Typokat.Check.FlowPaths

/-!
# The Flow Graph Has a Path for Every Execution: Statements

A loop is run any number of times but built once; the builder threads break targets, label
frames with late-bound continue targets and the fall-through edges of `switch` clauses
through the statements.  An execution of a statement is matched by induction on the
execution: where it ends, the graph goes on.

## Main Results

- `Runs.simulated` : executions of statements are matched
-/

namespace Typokat.Check

open Types Builder List

/-! ## §1 Frames around a construct -/

section Frames

variable {rel : SymbolId → Bool} {nodes : List FlowNode} {refs : List (Span × FlowNodeId)}
  {b b₁ b₂ b' : Builder} {origin : FlowNodeId} {events : List Event} {outcome : Outcome}

@[simp] theorem Builder.joinAt_breakTargets (antecedents : List FlowNodeId) :
    (b.joinAt antecedents).breakTargets = b.breakTargets := by
  show (b.flowJoin antecedents).2.breakTargets = b.breakTargets
  unfold flowJoin
  split <;> rfl

@[simp] theorem Builder.joinAt_labelTargets (antecedents : List FlowNodeId) :
    (b.joinAt antecedents).labelTargets = b.labelTargets := by
  show (b.flowJoin antecedents).2.labelTargets = b.labelTargets
  unfold flowJoin
  split <;> rfl

@[simp] theorem Builder.addBackEdge_breakTargets (label edge : FlowNodeId) :
    (b.addBackEdge label edge).breakTargets = b.breakTargets := by
  unfold addBackEdge
  split <;> rfl

@[simp] theorem Builder.addBackEdge_labelTargets (label edge : FlowNodeId) :
    (b.addBackEdge label edge).labelTargets = b.labelTargets := by
  unfold addBackEdge
  split <;> rfl

/-- An outcome that is about neither frame passes through a construct that pushes frames
and pops them. -/
theorem Exits.reframe (h : Exits rel nodes refs b₁ b₂ origin events outcome)
    (hnormal : outcome ≠ .normal) (hbreak : outcome ≠ .broke none)
    (hlabels : ∀ label, outcome = .broke (some label) →
      b'.labelTargets.find? (fun frame => frame.name = label) =
        b₂.labelTargets.find? (fun frame => frame.name = label))
    (hloops : outcome = .continued none → b₁.loops = b.loops)
    (hcontinue : ∀ label target, outcome = .continued (some label) →
      b.labeledContinueTarget label = some target → b₁.labeledContinueTarget label = some target)
    (hnodes : NodesExtend b.nodes b₁.nodes) :
    Exits rel nodes refs b b' origin events outcome := by
  refine ⟨?_, h.references⟩
  have hleaves := h.leaves
  cases outcome with
  | normal => exact absurd rfl hnormal
  | exited => trivial
  | broke label =>
    cases label with
    | none => exact absurd rfl hbreak
    | some label =>
      intro frame hframe
      exact hleaves frame (hlabels label rfl ▸ hframe)
  | continued label =>
    cases label with
    | none =>
      intro target htarget hloop
      exact hleaves target (hloops rfl ▸ htarget) (hloop.mono hnodes)
    | some label =>
      intro target htarget hloop
      exact hleaves target (hcontinue label target rfl htarget) (hloop.mono hnodes)

/-- A break frame that was pushed is still there. -/
theorem exists_topBreaks {rest : List (List FlowNodeId)} (hgrown : Grown b b')
    (hpushed : b.breakTargets = [] :: rest) :
    ∃ rest', b'.breakTargets = b'.topBreaks :: rest' := by
  have hbreaks := hgrown.breaks
  rw [hpushed] at hbreaks
  cases htargets : b'.breakTargets with
  | nil => simp [htargets] at hbreaks
  | cons target rest' => exact ⟨rest', by simp [topBreaks, htargets]⟩

end Frames

/-! ## §2 Labels -/

/-- The labels that stand directly on a loop have their frames on top, without a continue
target yet. -/
def FreshLabels (labels : List Name) (b : Builder) : Prop :=
  ∃ frames rest, b.labelTargets = frames ++ rest ∧ frames.map LabelFrame.name = labels ∧
    ∀ frame ∈ frames, frame.allowsContinue = true ∧ frame.continueTarget = none

/-- Opening the loop makes it the continue target of its labels. -/
theorem find_setContinueTargets {label : FlowNodeId} {name : Name} {frames rest : List LabelFrame}
    (hname : name ∈ frames.map LabelFrame.name)
    (hfresh : ∀ frame ∈ frames, frame.allowsContinue = true ∧ frame.continueTarget = none) :
    ((setContinueTargets label (frames ++ rest)).find? (fun frame => frame.name = name)).bind
      LabelFrame.continueTarget = some label := by
  induction frames with
  | nil => cases hname
  | cons frame frames ih =>
    obtain ⟨hallows, htarget⟩ := hfresh frame mem_cons_self
    rw [cons_append, setContinueTargets, if_pos hallows]
    by_cases heq : frame.name = name
    · rw [find?_cons_of_pos (by simpa using heq)]
      simp [htarget]
    · rw [find?_cons_of_neg (by simpa using heq)]
      refine ih ?_ (fun frame' hframe => hfresh frame' (mem_cons_of_mem _ hframe))
      rcases mem_cons.mp hname with rfl | hname
      · exact absurd rfl heq
      · exact hname

theorem continueTarget_openLoop {b : Builder} {labels : List Name} (hfresh : FreshLabels labels b)
    {name : Name} (hname : name ∈ labels) :
    b.openLoop.labeledContinueTarget name = some b.nodes.length := by
  obtain ⟨frames, rest, hframes, rfl, hfresh⟩ := hfresh
  have h := @find_setContinueTargets b.nodes.length name frames rest hname hfresh
  rw [← hframes] at h
  exact h

theorem freshLabels_pushLabel {b : Builder} {labels : List Name} (hfresh : FreshLabels labels b)
    (label : Name) : FreshLabels (label :: labels) (b.pushLabel label true) := by
  obtain ⟨frames, rest, hframes, rfl, hfresh⟩ := hfresh
  refine ⟨⟨label, [], none, true⟩ :: frames, rest, ?_, rfl, ?_⟩
  · show _ :: b.labelTargets = _
    rw [hframes, cons_append]
  · intro frame hframe
    rcases mem_cons.mp hframe with rfl | hframe
    · exact ⟨rfl, rfl⟩
    · exact hfresh frame hframe

theorem freshLabels_nil (b : Builder) : FreshLabels [] b :=
  ⟨[], b.labelTargets, rfl, rfl, fun _ h => absurd h not_mem_nil⟩

/-! ## §3 Loops -/

section Loops

variable {rel : SymbolId → Bool} {nodes : List FlowNode} {refs : List (Span × FlowNodeId)}
  {test : Modes} {body : Builder → Builder} {b : Builder}

/-- The builder at the start of the body of a loop. -/
def Builder.loopBody (test : Modes) (b : Builder) : Builder :=
  (test.condition b.openLoop).2.pushLoop b.nodes.length (test.condition b.openLoop).1.1

/-- The builder when the body is built and its end flows back to the label. -/
def Builder.loopEnd (test : Modes) (body : Builder → Builder) (b : Builder) : Builder :=
  (body (b.loopBody test)).addBackEdge b.nodes.length (body (b.loopBody test)).cursor

theorem buildFlowWhile_eq (hne : b.cursor ≠ .unreachable) :
    buildFlowWhile test body b = (b.loopEnd test body).popLoop.joinAt
      ((test.condition b.openLoop).1.2 :: (b.loopEnd test body).topBreaks) := by
  unfold buildFlowWhile
  rw [if_neg hne]
  rfl

/-- A loop in a builder from which flow comes, and a later point of the pre-pass. -/
structure LoopSetting (test : Modes) (body : Builder → Builder) (b : Builder)
    (nodes : List FlowNode) (refs : List (Span × FlowNodeId)) : Prop where
  testGrows : GrownModes test
  bodyGrows : GrowsAll body
  ranked : b.Ranked
  reachable : b.cursor ≠ .unreachable
  within : Within (buildFlowWhile test body b) nodes refs

namespace LoopSetting

variable (h : LoopSetting test body b nodes refs)

include h

theorem opened : Grown b b.openLoop := grown_openLoop h.ranked h.reachable

theorem condition : Grown b.openLoop (test.condition b.openLoop).2 :=
  h.testGrows.condition _ h.opened.ranked

theorem rankedBody : (b.loopBody test).Ranked :=
  h.condition.ranked.pushLoop b.nodes.length (h.testGrows.edges _ h.opened.ranked).1

theorem grownBody : Grown (b.loopBody test) (body (b.loopBody test)) :=
  h.bodyGrows _ h.rankedBody

theorem grownEnd : Grown (body (b.loopBody test)) (b.loopEnd test body) :=
  grown_addBackEdge h.grownBody.ranked b.nodes.length h.grownBody.ranked.cursor

theorem popped : Grown (test.condition b.openLoop).2 (b.loopEnd test body).popLoop :=
  (h.grownBody.trans h.grownEnd).popLoop

theorem joined : Grown (b.loopEnd test body).popLoop (buildFlowWhile test body b) := by
  rw [buildFlowWhile_eq h.reachable]
  refine grown_joinAt h.popped.ranked ?_
  intro a ha
  rcases mem_cons.mp ha with rfl | ha
  · exact (h.testGrows.edges _ h.opened.ranked).2.trans_le h.popped.length_le
  · exact h.grownEnd.ranked.topBreaks_lt ha

theorem withinEnd : Within (b.loopEnd test body) nodes refs := by
  have hwithin := h.within.earlier h.joined
  exact ⟨hwithin.nodes, hwithin.refs⟩

theorem withinBody : Within (body (b.loopBody test)) nodes refs := h.withinEnd.earlier h.grownEnd

theorem withinCondition : Within (test.condition b.openLoop).2 nodes refs :=
  (h.within.earlier h.joined).earlier h.popped

theorem label_ne : b.nodes.length ≠ FlowNodeId.unreachable := h.ranked.length_ne_unreachable

omit h in
theorem row_openLoop : b.openLoop.nodes[b.nodes.length]? = some (.loopLabel [b.cursor] []) := by
  simp [openLoop, newFlow]

theorem isLoop : IsLoop (b.loopBody test).nodes b.nodes.length :=
  IsLoop.mono h.condition.nodes ⟨_, _, row_openLoop⟩

/-- The loop is entered. -/
theorem enter : Follows rel nodes refs b.cursor b.nodes.length [] := by
  obtain ⟨row, hrow, hext⟩ :=
    (h.condition.nodes.trans h.withinCondition.nodes) _ _ row_openLoop
  have hedge : b.cursor ∈ row.antecedents := hext.antecedents (by simp [FlowNode.antecedents])
  have hflows : Flows rel nodes b.cursor b.nodes.length row.event.toList := .edge hrow hedge
  rw [hext.event] at hflows
  exact ⟨h.label_ne, hflows, reached_nil⟩

/-- The end of the body flows back to the label. -/
theorem back (hne : (body (b.loopBody test)).cursor ≠ .unreachable) :
    Flows rel nodes (body (b.loopBody test)).cursor b.nodes.length [] := by
  obtain ⟨pre, edges, hrow⟩ := h.isLoop.mono h.grownBody.nodes
  have hend : (b.loopEnd test body).nodes[b.nodes.length]? =
      some (.loopLabel pre (edges ++ [(body (b.loopBody test)).cursor])) := by
    simp [loopEnd, addBackEdge, hne, hrow, withBackEdge]
  obtain ⟨row, hrow', hext⟩ := h.withinEnd.nodes _ _ hend
  have hflows : Flows rel nodes (body (b.loopBody test)).cursor b.nodes.length
      row.event.toList :=
    .edge hrow' (hext.antecedents (by simp [FlowNode.antecedents]))
  rw [hext.event] at hflows
  exact hflows

/-- The false edge and the breaks flow out of the loop. -/
theorem leave {a : FlowNodeId}
    (ha : a = (test.condition b.openLoop).1.2 ∨ a ∈ (body (b.loopBody test)).topBreaks)
    (hne : a ≠ .unreachable) :
    Follows rel nodes refs a (buildFlowWhile test body b).cursor [] := by
  have hwithin := h.within
  rw [buildFlowWhile_eq h.reachable] at hwithin ⊢
  refine follows_joinAt h.popped.ranked ?_ hne hwithin
  rcases ha with rfl | ha
  · exact mem_cons_self
  · refine mem_cons_of_mem _ ?_
    simpa [topBreaks, loopEnd] using ha

theorem labelTargets :
    (buildFlowWhile test body b).labelTargets = (body (b.loopBody test)).labelTargets := by
  rw [buildFlowWhile_eq h.reachable]
  simp [popLoop, loopEnd]

/-- The test, from the label. -/
theorem follows_test {result : Bool} {events : List Event} (htest : SimTest rel test result events) :
    Follows rel nodes refs b.nodes.length (test.edge b.openLoop result) events :=
  htest b.openLoop h.opened.ranked h.label_ne nodes refs h.withinCondition

/-- A pass through the body that goes on leads back to the label. -/
theorem pass {labels : List Name} (hfresh : FreshLabels labels b) {passed : Outcome}
    {events : List Event}
    (hbody : Exits rel nodes refs (b.loopBody test) (body (b.loopBody test))
      (b.loopBody test).cursor events passed)
    (hgoes : passed.goesOn labels = true) :
    Follows rel nodes refs (b.loopBody test).cursor b.nodes.length events := by
  refine ⟨h.label_ne, ?_, hbody.references⟩
  have hleaves := hbody.leaves
  cases passed with
  | normal =>
    have := hleaves.2.trans (h.back hleaves.1)
    rwa [append_nil] at this
  | exited => cases hgoes
  | broke label => cases hgoes
  | continued label =>
    cases label with
    | none => exact hleaves _ rfl h.isLoop
    | some name =>
      refine hleaves _ ?_ h.isLoop
      have hopen := continueTarget_openLoop hfresh (contains_iff_mem.mp hgoes)
      exact continueTarget_grown h.condition.labels hopen

/-- A pass through the body that leaves the loop. -/
theorem leaveBody {labels : List Name} {left : Outcome} {events : List Event}
    (hbody : Exits rel nodes refs (b.loopBody test) (body (b.loopBody test))
      (b.loopBody test).cursor events left)
    (hgoes : left.goesOn labels = false) :
    Exits rel nodes refs b (buildFlowWhile test body b) (b.loopBody test).cursor events
      left.atBreakable := by
  by_cases hbreak : left = .broke none
  · subst hbreak
    obtain ⟨rest, hrest⟩ := exists_topBreaks h.grownBody rfl
    obtain ⟨a, ha, hne, hflows⟩ := hbody.leaves _ _ hrest
    have hfollows : Follows rel nodes refs (b.loopBody test).cursor a events :=
      ⟨hne, hflows, hbody.references⟩
    exact (hfollows.extend (h.leave (.inr ha) hne)).exits
  · have hsame : left.atBreakable = left := if_neg hbreak
    rw [hsame]
    refine hbody.reframe ?_ hbreak ?_ ?_ ?_ (h.opened.nodes.trans h.condition.nodes)
    · rintro rfl
      cases hgoes
    · intro label _
      rw [h.labelTargets]
    · rintro rfl
      cases hgoes
    · intro label target _ htarget
      exact continueTarget_grown
        (h.opened.trans h.condition).labels htarget

end LoopSetting

end Loops

/-! ## §4 Labels, breaks and continues -/

section Jumps

variable {rel : SymbolId → Bool} {nodes : List FlowNode} {refs : List (Span × FlowNodeId)}
  {b : Builder} {events : List Event} {outcome : Outcome}

theorem exits_buildFlowLabeled {body : Builder → Builder} (hgbody : GrowsAll body) (hb : b.Ranked)
    (label : Name) (allowsContinue : Bool) (houtcome : outcome ≠ .continued (some label))
    (hwithin : Within (buildFlowLabeled label allowsContinue body b) nodes refs)
    (hbody : Within (body (b.pushLabel label allowsContinue)) nodes refs →
      Exits rel nodes refs (b.pushLabel label allowsContinue)
        (body (b.pushLabel label allowsContinue)) b.cursor events outcome) :
    Exits rel nodes refs b (buildFlowLabeled label allowsContinue body b) b.cursor events
      (outcome.atLabel label) := by
  have hgrown := hgbody _ (hb.pushLabel label allowsContinue)
  obtain ⟨frame, rest, hlast, hname, hbreaks, -⟩ := hgrown.topLabel
  have hjoined : Grown (body (b.pushLabel label allowsContinue)).popLabel
      (buildFlowLabeled label allowsContinue body b) := by
    refine grown_joinAt hgrown.popLabel.ranked ?_
    intro a ha
    rcases mem_cons.mp ha with rfl | ha
    · exact hgrown.ranked.cursor
    · rw [hbreaks] at ha
      exact hgrown.ranked.labels frame (by simp [hlast]) a ha
  have hwithin₁ := hwithin.earlier hjoined
  have hbody := hbody ⟨hwithin₁.nodes, hwithin₁.refs⟩
  have hjoin : ∀ a, a = (body (b.pushLabel label allowsContinue)).cursor ∨ a ∈ frame.breaks →
      a ≠ .unreachable → Follows rel nodes refs a
        (buildFlowLabeled label allowsContinue body b).cursor [] := by
    intro a ha hne
    refine follows_joinAt hgrown.popLabel.ranked ?_ hne hwithin
    rw [hbreaks, mem_cons]
    exact ha
  have htargets : (buildFlowLabeled label allowsContinue body b).labelTargets = rest := by
    show ((body (b.pushLabel label allowsContinue)).popLabel.joinAt _).labelTargets = rest
    rw [joinAt_labelTargets, popLabel, hlast, tail_cons]
  have hbreakTargets : (buildFlowLabeled label allowsContinue body b).breakTargets =
      (body (b.pushLabel label allowsContinue)).breakTargets :=
    joinAt_breakTargets _
  -- a frame of another name is looked for below
  have hother : ∀ other, other ≠ label → (frame :: rest).find? (fun frame => frame.name = other) =
      rest.find? (fun frame => frame.name = other) := by
    intro other hne
    rw [find?_cons_of_neg]
    simpa [hname] using Ne.symm hne
  by_cases hbroke : outcome = .broke (some label)
  · subst hbroke
    obtain ⟨a, ha, hne, hflows⟩ := hbody.leaves frame (by
      rw [hlast, find?_cons_of_pos (by simpa using hname)])
    have hfollows : Follows rel nodes refs b.cursor a events := ⟨hne, hflows, hbody.references⟩
    rw [Outcome.atLabel, if_pos rfl]
    exact (hfollows.extend (hjoin a (.inr ha) hne)).exits
  rw [Outcome.atLabel, if_neg hbroke]
  by_cases hnormal : outcome = .normal
  · subst hnormal
    exact (hbody.follows.extend (hjoin _ (.inl rfl) hbody.leaves.1)).exits
  by_cases hbreak : outcome = .broke none
  · subst hbreak
    refine ⟨?_, hbody.references⟩
    intro target rest' htarget
    exact hbody.leaves target rest' (hbreakTargets ▸ htarget)
  refine hbody.reframe hnormal hbreak ?_ (fun _ => rfl) ?_ (.refl _)
  · rintro other rfl
    rw [htargets, hlast, hother other (fun h => hbroke (h ▸ rfl))]
  · rintro other target rfl htarget
    have hne : other ≠ label := fun h => houtcome (h ▸ rfl)
    unfold labeledContinueTarget at htarget ⊢
    rw [pushLabel, find?_cons_of_neg (by simpa using Ne.symm hne)]
    exact htarget

/-- The edge of a labeled `break` is collected in the frame of the label. -/
theorem find_addBreak {frames : List LabelFrame} {name : Name} {cursor : FlowNodeId}
    {frame : LabelFrame}
    (h : (addBreak name cursor frames).find? (fun frame => frame.name = name) = some frame) :
    cursor ∈ frame.breaks := by
  induction frames with
  | nil => cases h
  | cons first rest ih =>
    unfold addBreak at h
    split at h
    · rename_i heq
      rw [find?_cons_of_pos (by simpa using heq), Option.some.injEq] at h
      subst h
      simp
    · rename_i heq
      rw [find?_cons_of_neg (by simpa using heq)] at h
      exact ih h

theorem exits_buildFlowBreak (hne : b.cursor ≠ .unreachable) (label : Option Name) :
    Exits rel nodes refs b (buildFlowBreak label b) b.cursor [] (.broke label) := by
  refine ⟨?_, reached_nil⟩
  cases label with
  | none =>
    intro target rest htarget
    have hpush : (b.pushBreak b.cursor).breakTargets = target :: rest := htarget
    unfold pushBreak at hpush
    split at hpush
    · rename_i hnil
      simp [hnil] at hpush
    · simp only [cons.injEq] at hpush
      exact ⟨b.cursor, hpush.1 ▸ mem_append_right _ mem_cons_self, hne, .refl⟩
  | some name =>
    intro frame hframe
    exact ⟨b.cursor, find_addBreak hframe, hne, .refl⟩

/-- A back edge leads to its label. -/
theorem flows_addBackEdge {label : FlowNodeId} (hloop : IsLoop b.nodes label)
    (hne : b.cursor ≠ .unreachable)
    (hnodes : NodesExtend (b.addBackEdge label b.cursor).nodes nodes) :
    Flows rel nodes b.cursor label [] := by
  obtain ⟨pre, back, hrow⟩ := hloop
  have hrow' : (b.addBackEdge label b.cursor).nodes[label]? =
      some (.loopLabel pre (back ++ [b.cursor])) := by
    simp [addBackEdge, hne, hrow, withBackEdge]
  obtain ⟨row, hrow'', hext⟩ := hnodes _ _ hrow'
  have hflows : Flows rel nodes b.cursor label row.event.toList :=
    .edge hrow'' (hext.antecedents (by simp [FlowNode.antecedents]))
  rw [hext.event] at hflows
  exact hflows

theorem exits_buildFlowContinue (hne : b.cursor ≠ .unreachable) (label : Option Name)
    (hwithin : Within (buildFlowContinue label b) nodes refs) :
    Exits rel nodes refs b (buildFlowContinue label b) b.cursor [] (.continued label) := by
  refine ⟨?_, reached_nil⟩
  have hnodes := hwithin.nodes
  cases label with
  | none =>
    intro target htarget hloop
    refine flows_addBackEdge hloop hne ?_
    simpa [buildFlowContinue, htarget, moveTo] using hnodes
  | some name =>
    intro target htarget hloop
    refine flows_addBackEdge hloop hne ?_
    simpa [buildFlowContinue, htarget, moveTo] using hnodes

end Jumps

/-! ## §5 Clauses -/

section Clauses

variable {env : FlowEnv} {rel : SymbolId → Bool} {scope scope' : Scope} {nodes : List FlowNode}
  {refs : List (Span × FlowNodeId)} {b : Builder}

/-- A clause that terminates syntactically does not end normally. -/
theorem clauseTerminates_of_normal {stmts : List Stmt} {events : List Event} {outcome : Outcome}
    (h : Runs env scope (.stmts stmts) events outcome) (hterminates : clauseTerminates stmts = true) :
    outcome ≠ .normal := by
  induction stmts using clauseTerminates.induct generalizing scope events outcome with
  | case1 => simp [clauseTerminates] at hterminates
  | case2 argument =>
    cases h with
    | stop h hne => exact hne
    | cons h => cases h
  | case3 label =>
    cases h with
    | stop h hne => exact hne
    | cons h => cases h
  | case4 argument =>
    cases h with
    | stop h hne => exact hne
    | cons h => cases h
  | case5 inner body ih =>
    cases h with
    | stop h hne => exact hne
    | cons h =>
      cases h with
      | block _ h => exact absurd rfl (ih h (by simpa [clauseTerminates] using hterminates))
  | case6 stmt h₁ h₂ h₃ h₄ =>
    unfold clauseTerminates at hterminates
    split at hterminates <;> simp_all
  | case7 first next rest ih =>
    rw [clauseTerminates] at hterminates
    cases h with
    | stop h hne => exact hne
    | cons _ h' => exact ih h' hterminates

/-- The negated labels of `default`. -/
theorem follows_negations (symbol : SymbolId) (property : Name) (occurrence : Occurrence)
    (labels : List TypeId) (entry : FlowNodeId × Builder) (hranked : entry.2.Ranked)
    (hne : entry.1 ≠ .unreachable) (hlt : entry.1 < entry.2.nodes.length)
    (hwithin : Within (labels.foldl (fun entry literal => entry.2.newFlowFor
      (.condition symbol (.discriminant property literal) false entry.1) occurrence) entry).2
      nodes refs) :
    Follows rel nodes refs entry.1 (labels.foldl (fun entry literal => entry.2.newFlowFor
      (.condition symbol (.discriminant property literal) false entry.1) occurrence) entry).1
      (labels.map (fun literal => .guard symbol (.discriminant property literal) false)) := by
  induction labels generalizing entry with
  | nil => exact .refl hne
  | cons literal labels ih =>
    have hrow : RowRanked entry.2.nodes.length entry.2.nodes.length
        (.condition symbol (.discriminant property literal) false entry.1) :=
      rowRanked_single rfl hne hlt
    have hgrown := grownTo_newFlowFor hranked occurrence hrow
    have hchain := grownTo_negations symbol property occurrence labels _
      hranked.length_ne_unreachable ⟨.refl hgrown.grown.ranked, hgrown.lt⟩
    have hfirst : Follows rel nodes refs entry.1 _ _ := follows_newFlowFor hranked
      (.condition symbol (.discriminant property literal) false entry.1) occurrence
      mem_cons_self (by simp) (hwithin.earlier hchain.grown)
    exact hfirst.trans
      (ih _ hgrown.grown.ranked hranked.length_ne_unreachable hgrown.lt hwithin)

/-- A clause is entered by a match. -/
theorem follows_switchCaseEntry (hb : b.Ranked) {pre : FlowNodeId} (hne : pre ≠ .unreachable)
    (hpre : pre < b.nodes.length) (discriminant : Option (SymbolId × Name × Occurrence))
    (labels : List TypeId) (clause : Clause)
    (hwithin : Within (switchCaseEntry env pre discriminant labels clause b).2 nodes refs) :
    Follows rel nodes refs pre (switchCaseEntry env pre discriminant labels clause b).1
      (entryEvents env discriminant labels clause) := by
  unfold switchCaseEntry at hwithin ⊢
  rw [if_neg hne] at hwithin ⊢
  cases discriminant with
  | none => cases clause <;> exact .refl hne
  | some found =>
    obtain ⟨symbol, property, occurrence⟩ := found
    cases clause with
    | case test consequent =>
      dsimp only at hwithin ⊢
      cases hliteral : literalExprType env test with
      | none =>
        simp only [entryEvents, hliteral]
        exact .refl hne
      | some literal =>
        simp only [entryEvents, hliteral] at hwithin ⊢
        exact follows_newFlowFor hb _ _ mem_cons_self (by simp) hwithin
    | «default» consequent =>
      exact follows_negations symbol property occurrence labels (pre, b) hb hne hpre hwithin

theorem filter_entryEvents_agree (hagree : Agree rel scope scope') (discriminant : Expr)
    (labels : List TypeId) (clause : Clause) :
    (entryEvents env (memberDiscriminant scope' discriminant) labels clause).filter
        (Event.about rel) =
      (entryEvents env (memberDiscriminant scope discriminant) labels clause).filter
        (Event.about rel) := by
  rcases memberDiscriminant_cases discriminant with
    hnone | ⟨object, property, optional, span, name, rfl, hsome⟩
  · rw [hnone scope, hnone scope']
  rw [hsome scope, hsome scope']
  refine hagree.filter_eq name (fun symbol => entryEvents env (symbol.map
    (fun symbol => (symbol, property, ⟨span, name⟩))) labels clause) ?_ ?_
  · cases clause <;> rfl
  · intro symbol hrel
    cases clause with
    | case test consequent =>
      cases hliteral : literalExprType env test <;> simp [entryEvents, hliteral, Event.about, hrel]
    | «default» consequent => simp [entryEvents, Event.about, hrel, filter_map]

theorem diverges_entryEvents (discriminant : Option (SymbolId × Name × Occurrence))
    (labels : List TypeId) (clause : Clause) :
    ∀ event ∈ entryEvents env discriminant labels clause, event.diverges rel = false := by
  unfold entryEvents
  split <;> split <;> simp [Event.diverges]

theorem reference_not_mem_entryEvents (discriminant : Option (SymbolId × Name × Occurrence))
    (labels : List TypeId) (clause : Clause) (span : Span) :
    .reference span ∉ entryEvents env discriminant labels clause := by
  unfold entryEvents
  split <;> split <;> simp

/-- Both ways into a clause lead to its first statement. -/
theorem follows_enterClause (hb : b.Ranked) {fellThrough : Option FlowNodeId}
    {direct origin : FlowNodeId} (horigin : origin = direct ∨ fellThrough = some origin)
    (hne : origin ≠ .unreachable) (hwithin : Within (enterClause fellThrough direct b) nodes refs) :
    Follows rel nodes refs origin (enterClause fellThrough direct b).cursor [] := by
  cases fellThrough with
  | none =>
    rcases horigin with rfl | h
    · exact .refl hne
    · cases h
  | some prevEnd =>
    refine follows_joinAt hb ?_ hne hwithin
    rcases horigin with rfl | h
    · simp
    · cases h
      simp

/-- The builder when one clause is built. -/
def clauseEnd (env : FlowEnv) (scope : Scope) (pre : FlowNodeId)
    (discriminant : Option (SymbolId × Name × Occurrence)) (labels : List TypeId)
    (fellThrough : Option FlowNodeId) (clause : Clause) (b : Builder) : Builder :=
  buildStmts env scope clause.consequent (enterClause fellThrough
    (switchCaseEntry env pre discriminant labels clause b).1
    (switchCaseEntry env pre discriminant labels clause b).2)

/-- The edge from one clause to the next. -/
def fallThrough (clause : Clause) (b : Builder) : Option FlowNodeId :=
  if clauseTerminates clause.consequent then none else some b.cursor

theorem buildClauses_cons (pre : FlowNodeId) (discriminant : Option (SymbolId × Name × Occurrence))
    (labels : List TypeId) (fellThrough : Option FlowNodeId) (clause : Clause) (rest : List Clause) :
    buildClauses env scope pre discriminant labels (clause :: rest) fellThrough b =
      buildClauses env scope pre discriminant labels rest
        (fallThrough clause (clauseEnd env scope pre discriminant labels fellThrough clause b))
        (clauseEnd env scope pre discriminant labels fellThrough clause b) := by
  cases clause <;> rw [buildClauses] <;> rfl

/-- The state of the clause loop: the flow before the `switch` and the fall-through edge
exist. -/
structure ClauseReady (pre : FlowNodeId) (fellThrough : Option FlowNodeId) (b : Builder) : Prop where
  ranked : b.Ranked
  pre : pre < b.nodes.length
  fell : ∀ prevEnd, fellThrough = some prevEnd → prevEnd < b.nodes.length

section Ready

variable {pre : FlowNodeId} {fellThrough : Option FlowNodeId} (h : ClauseReady pre fellThrough b)
include h

theorem ClauseReady.grown (env : FlowEnv) (scope : Scope)
    (discriminant : Option (SymbolId × Name × Occurrence)) (labels : List TypeId) (clause : Clause) :
    Grown b (clauseEnd env scope pre discriminant labels fellThrough clause b) :=
  grown_clause env discriminant labels clause (grown_stmts clause.consequent) h.ranked
    h.pre h.fell

theorem ClauseReady.enter (env : FlowEnv) (discriminant : Option (SymbolId × Name × Occurrence))
    (labels : List TypeId) (clause : Clause) :
    (enterClause fellThrough (switchCaseEntry env pre discriminant labels clause b).1
      (switchCaseEntry env pre discriminant labels clause b).2).Ranked := by
  have hentry := grownTo_switchCaseEntry env discriminant labels clause h.ranked h.pre
  exact (grown_enterClause hentry.grown.ranked hentry.lt
    (fun prevEnd hprev => (h.fell prevEnd hprev).trans_le hentry.grown.length_le)).ranked

theorem ClauseReady.next (env : FlowEnv) (scope : Scope)
    (discriminant : Option (SymbolId × Name × Occurrence)) (labels : List TypeId) (clause : Clause) :
    ClauseReady pre
      (fallThrough clause (clauseEnd env scope pre discriminant labels fellThrough clause b))
      (clauseEnd env scope pre discriminant labels fellThrough clause b) := by
  have hgrown := h.grown env scope discriminant labels clause
  exact ⟨hgrown.ranked, h.pre.trans_le hgrown.length_le, fun _ => lt_of_fellThrough hgrown.ranked⟩

theorem ClauseReady.grownAll (env : FlowEnv) (scope : Scope)
    (discriminant : Option (SymbolId × Name × Occurrence)) (labels : List TypeId)
    (clauses : List Clause) :
    Grown b (buildClauses env scope pre discriminant labels clauses fellThrough b) :=
  grown_clauses pre discriminant labels clauses fellThrough b h.ranked h.pre h.fell

end Ready

/-- The clauses before the one that is entered. -/
theorem exists_afterSkipped (env : FlowEnv) (scope : Scope) (pre : FlowNodeId)
    (discriminant : Option (SymbolId × Name × Occurrence)) (labels : List TypeId)
    (skipped rest : List Clause) {fellThrough : Option FlowNodeId}
    (h : ClauseReady pre fellThrough b) :
    ∃ fellThrough' b', buildClauses env scope pre discriminant labels (skipped ++ rest) fellThrough b =
        buildClauses env scope pre discriminant labels rest fellThrough' b' ∧
      Grown b b' ∧ ClauseReady pre fellThrough' b' := by
  induction skipped generalizing fellThrough b with
  | nil => exact ⟨fellThrough, b, rfl, .refl h.ranked, h⟩
  | cons clause skipped ih =>
    obtain ⟨fellThrough', b', hbuild, hgrown, hready⟩ :=
      ih (h.next env scope discriminant labels clause)
    refine ⟨fellThrough', b', ?_, (h.grown env scope discriminant labels clause).trans hgrown, hready⟩
    rw [cons_append, buildClauses_cons]
    exact hbuild

/-- The clauses from one on match an execution, whether it falls into the first or enters it
by a match. -/
def SimClauses (env : FlowEnv) (rel : SymbolId → Bool) (scope : Scope) (clauses : List Clause)
    (events : List Event) (outcome : Outcome) : Prop :=
  ∀ pre discriminant labels fellThrough b, ClauseReady pre fellThrough b →
    ∀ nodes refs,
      Within (buildClauses env scope pre discriminant labels clauses fellThrough b) nodes refs →
      (fellThrough = some b.cursor → b.cursor ≠ .unreachable →
        Exits rel nodes refs b
          (buildClauses env scope pre discriminant labels clauses fellThrough b) b.cursor events
          outcome) ∧
      ∀ clause rest, clauses = clause :: rest → pre ≠ .unreachable →
        ∀ entry : List Event, (entryEvents env discriminant labels clause).filter (Event.about rel) =
          entry.filter (Event.about rel) → (∀ span, .reference span ∉ entry) →
          Exits rel nodes refs b
            (buildClauses env scope pre discriminant labels clauses fellThrough b) pre
            (entry ++ events) outcome

theorem simClauses_nil : SimClauses env rel scope [] [] .normal := by
  intro pre discriminant labels fellThrough b hready nodes refs hwithin
  refine ⟨?_, ?_⟩
  · intro _ hne
    exact (Follows.refl hne).exits
  · intro clause rest h
    cases h

/-- From the first statement of a clause, however it was entered. -/
theorem simClauses_cons {clause : Clause} {rest : List Clause} {events : List Event}
    {outcome : Outcome}
    (h : ∀ pre discriminant labels fellThrough b, ClauseReady pre fellThrough b →
      ∀ nodes refs, Within (buildClauses env scope pre discriminant labels (clause :: rest)
        fellThrough b) nodes refs →
      (enterClause fellThrough (switchCaseEntry env pre discriminant labels clause b).1
        (switchCaseEntry env pre discriminant labels clause b).2).cursor ≠ .unreachable →
      Exits rel nodes refs
        (enterClause fellThrough (switchCaseEntry env pre discriminant labels clause b).1
          (switchCaseEntry env pre discriminant labels clause b).2)
        (buildClauses env scope pre discriminant labels (clause :: rest) fellThrough b)
        (enterClause fellThrough (switchCaseEntry env pre discriminant labels clause b).1
          (switchCaseEntry env pre discriminant labels clause b).2).cursor events outcome) :
    SimClauses env rel scope (clause :: rest) events outcome := by
  intro pre discriminant labels fellThrough b hready nodes refs hwithin
  have hentry := grownTo_switchCaseEntry env discriminant labels clause hready.ranked hready.pre
  have henter := grown_enterClause hentry.grown.ranked hentry.lt
    (fun prevEnd hprev => (hready.fell prevEnd hprev).trans_le hentry.grown.length_le)
  have hlater : Grown (enterClause fellThrough (switchCaseEntry env pre discriminant labels clause b).1
      (switchCaseEntry env pre discriminant labels clause b).2)
      (buildClauses env scope pre discriminant labels (clause :: rest) fellThrough b) := by
    rw [buildClauses_cons]
    exact (grown_stmts clause.consequent _ henter.ranked).trans
      ((hready.next env scope discriminant labels clause).grownAll env scope discriminant labels rest)
  have hwithin₁ := hwithin.earlier hlater
  have hgrown := hentry.grown.trans henter
  have hrest := h pre discriminant labels fellThrough b hready nodes refs hwithin
  refine ⟨?_, ?_⟩
  · intro hfell hne
    have hfollows : Follows rel nodes refs b.cursor _ [] :=
      follows_enterClause hentry.grown.ranked (.inr hfell) hne hwithin₁
    exact (hrest hfollows.reachable).before hgrown hfollows
  · intro clause' rest' heq hne entry hfilter hrefs
    cases heq
    have hdirect : Follows rel nodes refs pre _ entry :=
      (follows_switchCaseEntry hready.ranked hne hready.pre discriminant labels clause
        (hwithin₁.earlier henter)).congr hfilter (diverges_entryEvents _ _ _) hrefs
    have hfollows := hdirect.extend
      (follows_enterClause hentry.grown.ranked (.inl rfl) hdirect.reachable hwithin₁)
    exact (hrest hfollows.reachable).before hgrown hfollows

/-- The break frame of a `switch` is popped and joined. -/
theorem exits_popSwitch {last : Builder} {extra : List FlowNodeId} {origin : FlowNodeId}
    {events : List Event} {outcome : Outcome} (hgrown : Grown b.pushSwitch last)
    (hwithin : Within (last.popSwitch.joinAt (last.cursor :: last.topBreaks ++ extra)) nodes refs)
    (h : Exits rel nodes refs b.pushSwitch last origin events outcome) :
    Exits rel nodes refs b (last.popSwitch.joinAt (last.cursor :: last.topBreaks ++ extra)) origin
      events outcome.atBreakable := by
  have hjoin : ∀ a, a = last.cursor ∨ a ∈ last.topBreaks → a ≠ .unreachable →
      Follows rel nodes refs a
        (last.popSwitch.joinAt (last.cursor :: last.topBreaks ++ extra)).cursor [] := by
    intro a ha hne
    refine follows_joinAt hgrown.popSwitch.ranked ?_ hne hwithin
    rcases ha with rfl | ha
    · exact mem_cons_self
    · exact mem_cons_of_mem _ (mem_append_left _ ha)
  by_cases hbreak : outcome = .broke none
  · subst hbreak
    obtain ⟨rest, hrest⟩ := exists_topBreaks hgrown rfl
    obtain ⟨a, ha, hne, hflows⟩ := h.leaves _ _ hrest
    have hfollows : Follows rel nodes refs origin a events := ⟨hne, hflows, h.references⟩
    exact (hfollows.extend (hjoin a (.inr ha) hne)).exits
  have hsame : outcome.atBreakable = outcome := if_neg hbreak
  rw [hsame]
  by_cases hnormal : outcome = .normal
  · subst hnormal
    exact (h.follows.extend (hjoin _ (.inl rfl) h.leaves.1)).exits
  · refine h.reframe hnormal hbreak ?_ (fun _ => rfl) (fun _ _ _ htarget => htarget) (.refl _)
    intro label _
    rw [joinAt_labelTargets]
    rfl

end Clauses

/-! ## §6 Statements -/

/-- Building the task matches the execution. -/
def Simulated (env : FlowEnv) (rel : SymbolId → Bool) (scope : Scope) (events : List Event)
    (outcome : Outcome) : RunTask → Prop
  | .stmt labels stmt => ∀ scope', Agree rel scope scope' → TrackedStmt rel scope stmt →
      ∀ b : Builder, b.Ranked → b.cursor ≠ .unreachable →
      (labeledStatementAllowsContinue stmt = true → FreshLabels labels b) →
      ∀ nodes refs, Within (buildStmt env scope' stmt b) nodes refs →
        Exits rel nodes refs b (buildStmt env scope' stmt b) b.cursor events outcome
  | .stmts stmts => ∀ scope', Agree rel scope scope' → TrackedStmts rel scope stmts →
      SimRun rel (buildStmts env scope' stmts) events outcome
  | .loop labels test body => ∀ scope', Agree rel scope scope' → TrackedStmt rel scope body →
      ∀ b : Builder, FreshLabels labels b → ∀ nodes refs,
      LoopSetting (buildModes env scope' test) (buildStmt env scope' body) b nodes refs →
        Exits rel nodes refs b
          (buildFlowWhile (buildModes env scope' test) (buildStmt env scope' body) b)
          b.nodes.length events outcome
  | .clauses clauses => ∀ scope', Agree rel scope scope' → TrackedClauses rel scope clauses →
      SimClauses env rel scope' clauses events outcome

section Statements

variable {env : FlowEnv} {rel : SymbolId → Bool} {scope : Scope}

/-- A statement whose build does not look at labels. -/
theorem simulated_stmt {stmt : Stmt} {labels : List Name} {events : List Event} {outcome : Outcome}
    (h : ∀ scope', Agree rel scope scope' → TrackedStmt rel scope stmt →
      SimRun rel (buildStmt env scope' stmt) events outcome) :
    Simulated env rel scope events outcome (.stmt labels stmt) :=
  fun scope' hagree htracked b hb hne _ nodes refs hwithin =>
    h scope' hagree htracked b hb hne nodes refs hwithin

/-- The clauses that are tracked are tracked one by one. -/
theorem TrackedClauses.clause {clause : Clause} {rest : List Clause}
    (h : TrackedClauses rel scope (clause :: rest)) :
    TrackedStmts rel scope clause.consequent ∧ TrackedClauses rel scope rest := by
  cases clause with
  | case test consequent => exact h
  | «default» consequent => exact h

theorem TrackedClauses.after {skipped rest : List Clause}
    (h : TrackedClauses rel scope (skipped ++ rest)) : TrackedClauses rel scope rest := by
  induction skipped with
  | nil => exact h
  | cons clause skipped ih => exact ih h.clause.2

theorem writes_declareEvents (isVar : Bool) (names : List Name) :
    Writes (names.filterMap scope.resolveValue) (declareEvents scope isVar names) := by
  intro event hevent
  unfold declareEvents at hevent
  split at hevent
  · obtain ⟨symbol, hsymbol, rfl⟩ := mem_map.mp hevent
    exact ⟨symbol, hsymbol, rfl⟩
  · cases hevent

/-- An expression and then hidden assignments. -/
theorem SimRun.hidden {build : Builder → Builder} {first second : List Event}
    {symbols : List SymbolId} (h : SimRun rel build first .normal) (hwrites : Writes symbols second) :
    SimRun rel build (first ++ second) .normal := by
  intro b hb hne nodes refs hwithin
  have hfirst := (h b hb hne nodes refs hwithin).follows
  exact (hfirst.trans (.hidden hfirst.reachable hwrites)).exits

theorem simRun_exit {build : Builder → Builder} {events : List Event}
    (h : SimRun rel build events .normal) :
    SimRun rel (fun b => (build b).moveTo .unreachable) events .exited := by
  intro b hb hne nodes refs hwithin
  exact ⟨trivial, (h b hb hne nodes refs ⟨hwithin.nodes, hwithin.refs⟩).references⟩

/-- A `switch` in a builder from which flow comes, and a later point of the pre-pass. -/
structure SwitchSetting (env : FlowEnv) (scope : Scope) (discriminant : Expr)
    (clauses : List Clause) (b : Builder) (nodes : List FlowNode)
    (refs : List (Span × FlowNodeId)) : Prop where
  ranked : b.Ranked
  reachable : b.cursor ≠ .unreachable
  within : Within (buildFlowSwitch (buildModes env scope discriminant) (fun pre =>
    buildClauses env scope pre (memberDiscriminant scope discriminant) (caseLabels env clauses)
      clauses none) (hasDefault clauses) b) nodes refs

namespace SwitchSetting

variable {discriminant : Expr} {clauses : List Clause} {b : Builder} {nodes : List FlowNode}
  {refs : List (Span × FlowNodeId)} (h : SwitchSetting env scope discriminant clauses b nodes refs)

include h

theorem grownValue : Grown b ((buildModes env scope discriminant).value b) :=
  (grownModes_build discriminant).value b h.ranked

theorem ready : ClauseReady ((buildModes env scope discriminant).value b).cursor none
    ((buildModes env scope discriminant).value b).pushSwitch :=
  ⟨h.grownValue.ranked.pushSwitch, h.grownValue.ranked.cursor, by simp⟩

theorem grownClauses : Grown ((buildModes env scope discriminant).value b).pushSwitch
    (buildClauses env scope ((buildModes env scope discriminant).value b).cursor
      (memberDiscriminant scope discriminant) (caseLabels env clauses) clauses none
      ((buildModes env scope discriminant).value b).pushSwitch) :=
  h.ready.grownAll env scope (memberDiscriminant scope discriminant) (caseLabels env clauses)
    clauses

theorem withinClauses : Within (buildClauses env scope
    ((buildModes env scope discriminant).value b).cursor
    (memberDiscriminant scope discriminant) (caseLabels env clauses) clauses none
    ((buildModes env scope discriminant).value b).pushSwitch) nodes refs := by
  have hjoined : Grown _ (buildFlowSwitch (buildModes env scope discriminant) (fun pre =>
      buildClauses env scope pre (memberDiscriminant scope discriminant)
        (caseLabels env clauses) clauses none) (hasDefault clauses) b) :=
    @grown_joinAt _ h.grownClauses.popSwitch.ranked _ (by
      intro a ha
      rcases mem_cons.mp ha with rfl | ha
      · exact h.grownClauses.ranked.cursor
      rcases mem_append.mp ha with ha | ha
      · exact h.grownClauses.ranked.topBreaks_lt ha
      · split at ha
        · cases ha
        · rw [mem_singleton.mp ha]
          exact h.grownValue.ranked.cursor.trans_le h.grownClauses.length_le)
  have hwithin := h.within.earlier hjoined
  exact ⟨hwithin.nodes, hwithin.refs⟩

/-- The discriminant and the tests of the clauses. -/
theorem follows_tests {outer inner : Scope} (hagree : Agree rel outer scope)
    {first tests : List Event} (hfirst : Evaluates env outer (.value discriminant) first)
    (htests : Writes (assignedTests inner clauses) tests) :
    Follows rel nodes refs b.cursor ((buildModes env scope discriminant).value b).cursor
      (first ++ tests) := by
  have hwithin := h.withinClauses.earlier h.grownClauses
  have hvalue := ((simModes_build hagree discriminant).value first hfirst b h.ranked
    h.reachable nodes refs ⟨hwithin.nodes, hwithin.refs⟩).follows
  exact hvalue.trans (.hidden hvalue.reachable htests)

end SwitchSetting

theorem simulated_switchMatch {inner : Option Scope} {discriminant : Expr}
    {skipped rest : List Clause} {clause : Clause} {first tests second : List Event}
    {outcome : Outcome} (labels : List Name)
    (hfirst : Evaluates env scope (.value discriminant) first)
    (htests : Writes (assignedTests (inner.getD scope) (skipped ++ clause :: rest)) tests)
    (ih : Simulated env rel (inner.getD scope) second outcome (.clauses (clause :: rest))) :
    Simulated env rel scope
      (first ++ (tests ++ (entryEvents env (memberDiscriminant scope discriminant)
        (caseLabels env (skipped ++ clause :: rest)) clause ++ second))) outcome.atBreakable
      (.stmt labels (.switch inner discriminant (skipped ++ clause :: rest))) := by
  refine simulated_stmt ?_
  intro scope' hagree htracked b hb hne nodes refs hwithin
  obtain ⟨⟨frame, hinner, hframe⟩, hclauses⟩ := htracked
  have hagree' : Agree rel (inner.getD scope) scope' := by
    rw [hinner, Option.getD_some]
    exact hagree.frame hframe
  rw [buildStmt] at hwithin ⊢
  have h : SwitchSetting env scope' discriminant (skipped ++ clause :: rest) b nodes refs :=
    ⟨hb, hne, hwithin⟩
  have hbefore := h.follows_tests hagree hfirst htests
  -- the clauses from the one that matches
  obtain ⟨fellThrough, b', hbuild, hgrown, hready⟩ := exists_afterSkipped env scope' _
    (memberDiscriminant scope' discriminant) (caseLabels env (skipped ++ clause :: rest)) skipped
    (clause :: rest) h.ready
  have hrun := (ih scope' hagree' hclauses.after _ _ _ fellThrough b' hready nodes refs
    (hbuild ▸ h.withinClauses)).2 clause rest rfl hbefore.reachable _
    (filter_entryEvents_agree hagree discriminant _ clause)
    (reference_not_mem_entryEvents _ _ _)
  rw [← hbuild] at hrun
  have hstart : Exits rel nodes refs ((buildModes env scope' discriminant).value b).pushSwitch _
      ((buildModes env scope' discriminant).value b).cursor _ outcome :=
    hrun.before hgrown (.refl hbefore.reachable)
  have hall := (exits_popSwitch h.grownClauses hwithin hstart).before h.grownValue hbefore
  rwa [append_assoc] at hall

theorem simulated_switchNone {inner : Option Scope} {discriminant : Expr} {clauses : List Clause}
    {first tests : List Event} (labels : List Name) (hdefault : hasDefault clauses = false)
    (hfirst : Evaluates env scope (.value discriminant) first)
    (htests : Writes (assignedTests (inner.getD scope) clauses) tests) :
    Simulated env rel scope (first ++ tests) .normal
      (.stmt labels (.switch inner discriminant clauses)) := by
  refine simulated_stmt ?_
  intro scope' hagree _ b hb hne nodes refs hwithin
  rw [buildStmt] at hwithin ⊢
  have h : SwitchSetting env scope' discriminant clauses b nodes refs := ⟨hb, hne, hwithin⟩
  have hbefore := h.follows_tests hagree hfirst htests
  have hmem : ((buildModes env scope' discriminant).value b).cursor ∈
      (if hasDefault clauses then []
        else [((buildModes env scope' discriminant).value b).cursor]) := by
    simp [hdefault]
  exact (hbefore.extend (follows_joinAt h.grownClauses.popSwitch.ranked
    (mem_cons_of_mem _ (mem_append_right _ hmem)) hbefore.reachable hwithin)).exits

/-- **Executions of statements are matched.**  Induction on the execution. -/
theorem Runs.simulated {task : RunTask} {events : List Event} {outcome : Outcome}
    (h : Runs env scope task events outcome) : Simulated env rel scope events outcome task := by
  induction h with
  | empty labels => exact simulated_stmt (fun _ _ _ => simRun_id)
  | «variable» labels isVar names => exact simulated_stmt (fun _ _ _ => simRun_id)
  | declaration labels isVar names h =>
    refine simulated_stmt ?_
    intro scope' hagree _
    exact ((simModes_build hagree _).value _ h).hidden (writes_declareEvents isVar names)
  | function labels name inner params body =>
    refine simulated_stmt ?_
    intro scope' _ _
    exact simRun_boundary _ (writes_nil [])
  | «class» labels name h =>
    refine simulated_stmt ?_
    intro scope' hagree _
    exact simRun_exprs hagree _ _ h
  | expression labels h =>
    refine simulated_stmt ?_
    intro scope' hagree _
    exact (simModes_build hagree _).value _ h
  | «return» labels h =>
    refine simulated_stmt ?_
    intro scope' hagree _
    exact simRun_exit (simRun_exprs hagree _ _ h)
  | throw labels h =>
    refine simulated_stmt ?_
    intro scope' hagree _
    exact simRun_exit ((simModes_build hagree _).value _ h)
  | @ite scope test consequent alternate result first second outcome labels h _ ih =>
    refine simulated_stmt ?_
    intro scope' hagree htracked
    have hbuild : buildStmt env scope' (.ite test consequent alternate) =
        buildFlowIf (buildModes env scope' test) (buildStmt env scope' consequent)
          (buildStmt env scope' alternate) := by
      funext b
      rw [buildStmt]
    rw [hbuild]
    refine simRun_buildFlowIf ((simModes_build hagree test).test result first h) ?_
      (grownModes_build test) (grown_stmt consequent)
      (grown_stmt alternate)
    intro b hb hne nodes refs hwithin
    cases result with
    | true =>
      exact ih scope' hagree htracked.1 b hb hne (fun _ => freshLabels_nil b) nodes refs hwithin
    | false =>
      exact ih scope' hagree htracked.2 b hb hne (fun _ => freshLabels_nil b) nodes refs hwithin
  | @block scope inner body events outcome labels _ ih =>
    refine simulated_stmt ?_
    intro scope' hagree htracked
    have hbuild : buildStmt env scope' (.block inner body) =
        buildStmts env (inner.getD scope') body := by
      funext b
      rw [buildStmt]
    rw [hbuild]
    refine ih (inner.getD scope') ?_ htracked
    cases inner with
    | none => exact hagree
    | some inner => exact .refl rel inner
  | @labeled scope body events outcome labels label houtcome _ ih =>
    intro scope' hagree htracked b hb hne hfresh nodes refs hwithin
    rw [buildStmt] at hwithin ⊢
    refine exits_buildFlowLabeled (grown_stmt body) hb label _ houtcome hwithin ?_
    refine ih scope' hagree htracked _ (hb.pushLabel label _) hne ?_ nodes refs
    intro hallows
    rw [hallows]
    exact freshLabels_pushLabel (hfresh hallows) label
  | «break» labels label =>
    intro scope' _ _ b _ hne _ nodes refs _
    rw [buildStmt]
    exact exits_buildFlowBreak hne label
  | «continue» labels label =>
    intro scope' _ _ b _ hne _ nodes refs hwithin
    rw [buildStmt] at hwithin ⊢
    exact exits_buildFlowContinue hne label hwithin
  | @«while» scope test body labels events outcome _ ih =>
    intro scope' hagree htracked b hb hne hfresh nodes refs hwithin
    rw [buildStmt] at hwithin ⊢
    have h : LoopSetting (buildModes env scope' test) (buildStmt env scope' body) b nodes refs :=
      ⟨grownModes_build test, grown_stmt body, hb, hne, hwithin⟩
    -- the loop is entered through its label
    exact (ih scope' hagree htracked b (hfresh rfl) nodes refs h).before
      (.refl hb) h.enter
  | @loopExit scope test body events labels htest =>
    intro scope' hagree _ b _ nodes refs h
    have hfollows := h.follows_test ((simModes_build hagree test).test false events htest)
    exact (hfollows.extend (h.leave (.inl rfl) hfollows.reachable)).exits
  | @loopPass scope test body labels first second third passed outcome htest _ hgoes _ ihbody ihloop =>
    intro scope' hagree hbody b hfresh nodes refs h
    have hfollows := h.follows_test ((simModes_build hagree test).test true first htest)
    -- one pass leads back to the label, and the rest of the loop goes on from there
    have hpass := ihbody scope' hagree hbody _ h.rankedBody hfollows.reachable
      (fun _ => freshLabels_nil _) nodes refs h.withinBody
    exact ((ihloop scope' hagree hbody b hfresh nodes refs h).before (.refl h.ranked)
      (h.pass hfresh hpass hgoes)).before (.refl h.ranked) hfollows
  | @loopLeave scope test body labels first second left htest _ hgoes ihbody =>
    intro scope' hagree hbody b hfresh nodes refs h
    have hfollows := h.follows_test ((simModes_build hagree test).test true first htest)
    have hleave := ihbody scope' hagree hbody _ h.rankedBody hfollows.reachable
      (fun _ => freshLabels_nil _) nodes refs h.withinBody
    exact (h.leaveBody hleave hgoes).before (.refl h.ranked) hfollows
  | switchMatch labels hfirst htests _ ih => exact simulated_switchMatch labels hfirst htests ih
  | switchNone labels hdefault hfirst htests =>
    exact simulated_switchNone labels hdefault hfirst htests
  | clausesNil => exact fun _ _ _ => simClauses_nil
  | @clausesNext scope clause rest first second outcome hfirst _ ihfirst ihrest =>
    intro scope' hagree htracked
    refine simClauses_cons ?_
    intro pre discriminant labels fellThrough b hready nodes refs hwithin hne
    have hterminates : clauseTerminates clause.consequent = false := by
      by_contra hterminates
      exact clauseTerminates_of_normal hfirst (Bool.of_not_eq_false hterminates) rfl
    -- a clause that ends normally falls through
    have hnext := hready.next env scope' discriminant labels clause
    rw [buildClauses_cons] at hwithin ⊢
    have hgrest := hnext.grownAll env scope' discriminant labels rest
    have henter := hready.enter env discriminant labels clause
    have hrun := ihfirst scope' hagree htracked.clause.1 _ henter hne nodes refs
      (hwithin.earlier hgrest)
    have hrest := (ihrest scope' hagree htracked.clause.2 pre discriminant labels _ _ hnext nodes
      refs hwithin).1 (by simp [fallThrough, hterminates, clauseEnd]) hrun.leaves.1
    exact hrest.before (grown_stmts clause.consequent _ henter) hrun.follows
  | @clausesStop scope clause rest events outcome _ houtcome ih =>
    intro scope' hagree htracked
    refine simClauses_cons ?_
    intro pre discriminant labels fellThrough b hready nodes refs hwithin hne
    have hnext := hready.next env scope' discriminant labels clause
    rw [buildClauses_cons] at hwithin ⊢
    have hgrest := hnext.grownAll env scope' discriminant labels rest
    have hrun := ih scope' hagree htracked.clause.1 _ (hready.enter env discriminant labels clause)
      hne nodes refs (hwithin.earlier hgrest)
    exact hrun.after hgrest houtcome
  | @unbuilt scope form inner names parts bodies events outcome labels hwrites houtcome =>
    refine simulated_stmt ?_
    intro scope' _ htracked
    -- the builder passes this statement over, so it must write and leave nothing
    have hsilent : SimRun rel id events .normal := simRun_skipped hwrites
    rcases houtcome with rfl | rfl | hjump
    · exact hsilent
    · exact fun b hb hne nodes refs hwithin =>
        ⟨trivial, (hsilent b hb hne nodes refs hwithin).references⟩
    · rw [TrackedStmt] at htracked
      rw [htracked] at hjump
      cases hjump
  | nil => exact fun _ _ _ => simRun_id
  | @cons scope stmt rest first second outcome _ _ ihfirst ihrest =>
    intro scope' hagree htracked
    have hfirst : SimRun rel (buildStmt env scope' stmt) first .normal :=
      fun b hb hne nodes refs hwithin => ihfirst scope' hagree htracked.1 b hb hne
        (fun _ => freshLabels_nil b) nodes refs hwithin
    have hbuild : buildStmts env scope' (stmt :: rest) =
        fun b => buildStmts env scope' rest (buildStmt env scope' stmt b) := by
      funext b
      rw [buildStmts]
    rw [hbuild]
    exact hfirst.andThen (ihrest scope' hagree htracked.2) (grown_stmt stmt)
      (grown_stmts rest)
  | @stop scope stmt rest events outcome _ houtcome ih =>
    intro scope' hagree htracked
    have hfirst : SimRun rel (buildStmt env scope' stmt) events outcome :=
      fun b hb hne nodes refs hwithin => ih scope' hagree htracked.1 b hb hne
        (fun _ => freshLabels_nil b) nodes refs hwithin
    have hbuild : buildStmts env scope' (stmt :: rest) =
        fun b => buildStmts env scope' rest (buildStmt env scope' stmt b) := by
      funext b
      rw [buildStmts]
    rw [hbuild]
    exact hfirst.leave houtcome (grown_stmt stmt) (grown_stmts rest)

end Statements

end Typokat.Check
