import CodeCompletion.Proofs.Syntax.Outline

/-!
# Which steps build a tree

Steps that traverse trees under an open node succeed exactly if the trees fit there, and then lay
them out behind the nodes that exist. Every list of steps closes too many nodes, leaves some open,
or traverses trees; so the steps that build a tree are the traversals of nested outlines.
-/

namespace CodeCompletion

open Outline

theorem bind_eq_ok_iff {ε α β : Type} {x : Except ε α} {f : α → Except ε β} {b : β} :
    (x >>= f) = .ok b ↔ ∃ a, x = .ok a ∧ f a = .ok b := by
  cases x with
  | error e =>
    constructor
    · intro h
      cases h
    · rintro ⟨a, h, _⟩
      cases h
  | ok a =>
    constructor
    · exact fun h => ⟨a, rfl, h⟩
    · rintro ⟨a', h, h'⟩
      cases h
      exact h'

namespace TreeDraft

/-! ### One node -/

def lastSpan? (nodes : Array SyntaxNode) (parent : SyntaxNode) : Option Span :=
  (parent.children.getLast?.bind (nodes[·]?)).map (·.span)

theorem checkChild_eq_ok_iff (nodes : Array SyntaxNode) (kind : SyntaxKind) (span : Span)
    (parent : SyntaxNode) (u : Unit) :
    checkChild nodes kind span parent = .ok u ↔
      parent.span.encloses span = true ∧ ∀ s ∈ lastSpan? nodes parent, s.stop ≤ span.start := by
  unfold checkChild lastSpan?
  cases parent.span.encloses span with
  | false => simp
  | true =>
    cases parent.children.getLast?.bind (nodes[·]?) with
    | none => simp
    | some last =>
      simp only [if_true, Option.map_some, Option.mem_def, Option.some.injEq, forall_eq', true_and]
      split <;> simp_all

/-- The draft with a new node behind the others, as the last child of `p`. -/
def link (b : TreeDraft) (p : Nat) (parent : SyntaxNode) (kind : SyntaxKind) (span : Span) :
    TreeDraft :=
  let linked := b.nodes.setIfInBounds p (addChild b.nodes.size parent)
  { b with nodes := linked.push ⟨kind, span, some p, []⟩ }

theorem append_eq_ok_iff (b b' : TreeDraft) (p : Nat) (rest : List Nat) (parent : SyntaxNode)
    (kind : SyntaxKind) (span : Span) (hopened : b.opened = p :: rest)
    (hparent : b.nodes[p]? = some parent) :
    b.append kind span = .ok b' ↔
      parent.span.encloses span = true ∧ (∀ s ∈ lastSpan? b.nodes parent, s.stop ≤ span.start) ∧
        b' = b.link p parent kind span := by
  have happend : b.append kind span =
      (checkChild b.nodes kind span parent >>= fun _ => .ok (b.link p parent kind span)) := by
    have hhead : b.opened.head? = some p := by rw [hopened, List.head?_cons]
    rw [append, hhead]
    dsimp only
    rw [hparent]
    rfl
  rw [happend, bind_eq_ok_iff]
  simp only [checkChild_eq_ok_iff, Except.ok.injEq]
  constructor
  · rintro ⟨_, ⟨hinside, hbehind⟩, rfl⟩
    exact ⟨hinside, hbehind, rfl⟩
  · rintro ⟨hinside, hbehind, rfl⟩
    exact ⟨(), ⟨hinside, hbehind⟩, rfl⟩

/-! ### Trees under an open node -/

/-- The draft with trees behind its nodes, as the last children of `p`. -/
def attach (b : TreeDraft) (p : Nat) (parent : SyntaxNode) (os : List Outline) : TreeDraft where
  nodes := (b.nodes.toList.set p
      { parent with children := parent.children ++ roots b.nodes.size os } ++
    layoutAll p b.nodes.size os).toArray
  opened := b.opened

theorem toList_nodes_attach (b : TreeDraft) (p : Nat) (parent : SyntaxNode) (os : List Outline) :
    (b.attach p parent os).nodes.toList =
      b.nodes.toList.set p { parent with children := parent.children ++ roots b.nodes.size os } ++
        layoutAll p b.nodes.size os := by
  rw [attach, List.toList_toArray]

theorem size_nodes_attach (b : TreeDraft) (p : Nat) (parent : SyntaxNode) (os : List Outline) :
    (b.attach p parent os).nodes.size = b.nodes.size + sizeAll os := by
  rw [← Array.length_toList, toList_nodes_attach, List.length_append, List.length_set,
    length_layoutAll, Array.length_toList]

theorem ext_toList {b b' : TreeDraft} (hnodes : b.nodes.toList = b'.nodes.toList)
    (hopened : b.opened = b'.opened) : b = b' := by
  obtain ⟨nodes, opened⟩ := b
  obtain ⟨nodes', opened'⟩ := b'
  cases Array.toList_inj.mp hnodes
  cases hopened
  rfl

theorem attach_nil (b : TreeDraft) (p : Nat) (parent : SyntaxNode)
    (hparent : b.nodes[p]? = some parent) : b.attach p parent [] = b := by
  refine ext_toList ?_ rfl
  obtain ⟨hp, rfl⟩ := Array.getElem?_eq_some_iff.mp hparent
  rw [toList_nodes_attach, layoutAll, roots, List.append_nil, List.append_nil]
  exact List.set_getElem_self _

theorem attach_cons (b : TreeDraft) (p : Nat) (parent : SyntaxNode) (o : Outline)
    (os : List Outline) (hp : p < b.nodes.size) :
    (b.attach p parent [o]).attach p
        { parent with children := parent.children ++ [b.nodes.size] } os =
      b.attach p parent (o :: os) := by
  refine ext_toList ?_ rfl
  have hlt : p < (b.nodes.toList.set p
      { parent with children := parent.children ++ roots b.nodes.size [o] }).length := by
    rw [List.length_set, Array.length_toList]
    exact hp
  rw [toList_nodes_attach, toList_nodes_attach, toList_nodes_attach, size_nodes_attach,
    List.set_append_left _ _ hlt, List.set_set, layoutAll, layoutAll, layoutAll, roots, sizeAll,
    sizeAll, List.append_nil, List.append_assoc, List.append_assoc]
  rfl

theorem attach_leaf (b : TreeDraft) (p : Nat) (parent : SyntaxNode) (kind : SyntaxKind)
    (span : Span) : b.attach p parent [.node kind span []] = b.link p parent kind span := by
  refine ext_toList ?_ rfl
  rw [toList_nodes_attach, link, Array.toList_push, Array.toList_setIfInBounds]
  rfl

/-! ### Running a traversal -/

theorem fits_singleton (outer : Span) (previous : Option Span) (kind : SyntaxKind) (span : Span)
    (children : List Outline) :
    Fits outer previous [.node kind span children] ↔
      outer.encloses span = true ∧ (∀ s ∈ previous, s.stop ≤ span.start) ∧
        Fits span none children := by
  simp only [Fits, Nested, Outline.span, and_true]

theorem step_enter_eq_ok_iff (b b' : TreeDraft) (kind : SyntaxKind) (span : Span) :
    b.step (.enter kind span) = .ok b' ↔
      ∃ next, b.append kind span = .ok next ∧
        b' = { next with opened := b.nodes.size :: b.opened } := by
  rw [step, bind_eq_ok_iff]
  simp only [Except.ok.injEq, eq_comm (b := b')]

theorem step_leave_eq_ok_iff (b b' : TreeDraft) :
    b.step .leave = .ok b' ↔ ∃ p, b.opened = p :: b'.opened ∧ b'.nodes = b.nodes := by
  obtain ⟨nodes, opened⟩ := b
  obtain ⟨nodes', opened'⟩ := b'
  cases opened with
  | nil => simp [step]
  | cons p rest => simp [step, and_comm, eq_comm]

theorem attach_node (b : TreeDraft) (p : Nat) (parent : SyntaxNode) (kind : SyntaxKind)
    (span : Span) (children : List Outline) :
    ((b.link p parent kind span).attach b.nodes.size ⟨kind, span, some p, []⟩ children).nodes =
      (b.attach p parent [.node kind span children]).nodes := by
  apply Array.toList_inj.mp
  have hlen : (b.nodes.toList.set p (addChild b.nodes.size parent)).length = b.nodes.size := by
    rw [List.length_set, Array.length_toList]
  have hsize : (b.link p parent kind span).nodes.size = b.nodes.size + 1 := by
    rw [link, Array.size_push, Array.size_setIfInBounds]
  rw [toList_nodes_attach, toList_nodes_attach, hsize, link, Array.toList_push,
    Array.toList_setIfInBounds, List.set_append_right _ _ (Nat.le_of_eq hlen), hlen, Nat.sub_self,
    layoutAll, layoutAll, layout, roots, roots, List.append_nil, List.append_assoc]
  rfl

theorem getElem?_nodes_link (b : TreeDraft) (p : Nat) (parent : SyntaxNode) (kind : SyntaxKind)
    (span : Span) :
    (b.link p parent kind span).nodes[b.nodes.size]? = some ⟨kind, span, some p, []⟩ := by
  have hsize : (b.nodes.setIfInBounds p (addChild b.nodes.size parent)).size = b.nodes.size :=
    Array.size_setIfInBounds
  have hlast : (b.link p parent kind span).nodes[
      (b.nodes.setIfInBounds p (addChild b.nodes.size parent)).size]? =
      some ⟨kind, span, some p, []⟩ := Array.getElem?_push_size
  rw [hsize] at hlast
  exact hlast

theorem getElem?_nodes_attach_root (b : TreeDraft) (p : Nat) (parent : SyntaxNode) (o : Outline)
    (os : List Outline) :
    ((b.attach p parent (o :: os)).nodes[b.nodes.size]?).map (·.span) = some o.span := by
  obtain ⟨kind, span, children⟩ := o
  have hlen (n : SyntaxNode) : (b.nodes.toList.set p n).length = b.nodes.size := by
    rw [List.length_set, Array.length_toList]
  rw [← Array.getElem?_toList, toList_nodes_attach,
    List.getElem?_append_right (Nat.le_of_eq (hlen _)), hlen, Nat.sub_self, layoutAll, layout]
  rfl

theorem getElem?_nodes_attach_parent (b : TreeDraft) (p : Nat) (parent : SyntaxNode)
    (os : List Outline) (hp : p < b.nodes.size) :
    (b.attach p parent os).nodes[p]? =
      some { parent with children := parent.children ++ roots b.nodes.size os } := by
  have hlt : p < b.nodes.toList.length := by rw [Array.length_toList]; exact hp
  rw [← Array.getElem?_toList, toList_nodes_attach, List.getElem?_append_left,
    List.getElem?_set_self hlt]
  rw [List.length_set]
  exact hlt

mutual

/-- Steps that traverse a tree under an open node succeed exactly if the tree fits there. -/
theorem run_traverses : ∀ (o : Outline) (steps : List BuildStep), Traverses o steps →
    ∀ (b b' : TreeDraft) (p : Nat) (rest : List Nat) (parent : SyntaxNode),
      b.opened = p :: rest → b.nodes[p]? = some parent →
      (steps.foldlM step b = .ok b' ↔
        Fits parent.span (lastSpan? b.nodes parent) [o] ∧ b' = b.attach p parent [o])
  | _, _, .leaf kind span, b, b', p, rest, parent, hopened, hparent => by
    rw [List.foldlM_cons]
    simp only [List.foldlM_nil, bind_pure, step,
      append_eq_ok_iff b b' p rest parent kind span hopened hparent]
    rw [fits_singleton, attach_leaf]
    simp only [Fits, and_true, and_assoc]
  | _, _, @Traverses.node kind span children inner h, b, b', p, rest, parent, hopened,
      hparent => by
    have happend (next : TreeDraft) :=
      append_eq_ok_iff b next p rest parent kind span hopened hparent
    have hinner (b₂ : TreeDraft) := run_traversesAll children inner h
      { b.link p parent kind span with opened := b.nodes.size :: b.opened } b₂ b.nodes.size b.opened
      _ rfl (getElem?_nodes_link b p parent kind span)
    rw [List.foldlM_cons, bind_eq_ok_iff, fits_singleton]
    simp only [step_enter_eq_ok_iff, List.foldlM_append, bind_eq_ok_iff, List.foldlM_cons,
      List.foldlM_nil, bind_pure, step_leave_eq_ok_iff]
    constructor
    · rintro ⟨_, ⟨next, hnext, rfl⟩, b₂, hrun, q, hclosed, hnodes⟩
      obtain ⟨hinside, hbehind, rfl⟩ := (happend next).mp hnext
      obtain ⟨hfits, rfl⟩ := (hinner b₂).mp hrun
      refine ⟨⟨hinside, hbehind, hfits⟩, ext_toList ?_ (List.tail_eq_of_cons_eq hclosed).symm⟩
      rw [hnodes, ← attach_node]
      rfl
    · rintro ⟨⟨hinside, hbehind, hfits⟩, rfl⟩
      refine ⟨_, ⟨_, (happend _).mpr ⟨hinside, hbehind, rfl⟩, rfl⟩, _, (hinner _).mpr ⟨hfits, rfl⟩,
        b.nodes.size, rfl, ?_⟩
      rw [← attach_node]
      rfl

theorem run_traversesAll : ∀ (os : List Outline) (steps : List BuildStep), TraversesAll os steps →
    ∀ (b b' : TreeDraft) (p : Nat) (rest : List Nat) (parent : SyntaxNode),
      b.opened = p :: rest → b.nodes[p]? = some parent →
      (steps.foldlM step b = .ok b' ↔
        Fits parent.span (lastSpan? b.nodes parent) os ∧ b' = b.attach p parent os)
  | _, _, .nil, b, b', p, rest, parent, hopened, hparent => by
    rw [List.foldlM_nil, attach_nil b p parent hparent]
    simp only [Fits, true_and, pure, Except.pure, Except.ok.injEq, eq_comm]
  | _, _, @TraversesAll.cons o os steps steps' h hs, b, b', p, rest, parent, hopened,
      hparent => by
    have hp : p < b.nodes.size := (Array.getElem?_eq_some_iff.mp hparent).1
    have hlater := run_traversesAll os steps' hs (b.attach p parent [o]) b' p rest _ hopened
      (getElem?_nodes_attach_parent b p parent [o] hp)
    have hlast : lastSpan? (b.attach p parent [o]).nodes
        { parent with children := parent.children ++ roots b.nodes.size [o] } = some o.span := by
      rw [lastSpan?, roots, roots, List.getLast?_concat]
      exact getElem?_nodes_attach_root b p parent o []
    rw [hlast] at hlater
    rw [List.foldlM_append, bind_eq_ok_iff]
    simp only [run_traverses o steps h b _ p rest parent hopened hparent]
    rw [← attach_cons b p parent o os hp]
    constructor
    · rintro ⟨b₁, ⟨hfits, rfl⟩, hrun⟩
      obtain ⟨hrest, rfl⟩ := hlater.mp hrun
      exact ⟨⟨hfits.1, hfits.2.1, hfits.2.2.1, hrest⟩, rfl⟩
    · rintro ⟨⟨hinside, hbehind, hnested, hrest⟩, rfl⟩
      exact ⟨_, ⟨⟨hinside, hbehind, hnested, trivial⟩, rfl⟩, hlater.mpr ⟨hrest, rfl⟩⟩

end

/-! ### The root -/

theorem append_of_closed (b b' : TreeDraft) (kind : SyntaxKind) (span : Span)
    (hopened : b.opened = []) :
    b.append kind span = .ok b' ↔ b.nodes = #[] ∧ b' = ⟨#[⟨kind, span, none, []⟩], []⟩ := by
  obtain ⟨nodes, opened⟩ := b
  cases hopened
  rw [append]
  simp only [List.head?_nil]
  by_cases hnodes : nodes = #[]
  · subst hnodes
    simp [eq_comm]
  · simp [hnodes]

/-- Steps that traverse a tree from the start succeed exactly if the tree is nested. -/
theorem run_root (o : Outline) (steps : List BuildStep) (h : Traverses o steps) (b' : TreeDraft) :
    steps.foldlM step start = .ok b' ↔ o.Nested ∧ b' = ⟨o.toTree.nodes, []⟩ := by
  cases h with
  | leaf kind span =>
    rw [List.foldlM_cons]
    simp only [List.foldlM_nil, bind_pure, step, append_of_closed start b' kind span rfl]
    simp only [start, true_and, Nested, Fits]
    rfl
  | @node kind span children inner h =>
    have hinner (b₂ : TreeDraft) := run_traversesAll children inner h
      ⟨#[⟨kind, span, none, []⟩], [0]⟩ b₂ 0 [] ⟨kind, span, none, []⟩ rfl rfl
    rw [List.foldlM_cons, bind_eq_ok_iff]
    simp only [step_enter_eq_ok_iff, List.foldlM_append, bind_eq_ok_iff, List.foldlM_cons,
      List.foldlM_nil, bind_pure, step_leave_eq_ok_iff, append_of_closed start _ kind span rfl]
    constructor
    · rintro ⟨_, ⟨_, ⟨_, rfl⟩, rfl⟩, b₂, hrun, q, hclosed, hnodes⟩
      obtain ⟨hfits, rfl⟩ := (hinner b₂).mp hrun
      refine ⟨hfits, ext_toList ?_ (List.tail_eq_of_cons_eq hclosed).symm⟩
      rw [hnodes]
      rfl
    · rintro ⟨hfits, rfl⟩
      exact ⟨_, ⟨_, ⟨rfl, rfl⟩, rfl⟩, _, (hinner _).mpr ⟨hfits, rfl⟩, 0, rfl, rfl⟩

theorem not_run_second_root (o : Outline) (steps : List BuildStep) (h : Traverses o steps)
    (b b' : TreeDraft) (hopened : b.opened = []) (hnodes : b.nodes ≠ #[]) :
    steps.foldlM step b ≠ .ok b' := by
  cases h with
  | leaf kind span =>
    rw [List.foldlM_cons]
    simp only [List.foldlM_nil, bind_pure, step]
    intro hrun
    exact hnodes ((append_of_closed b b' kind span hopened).mp hrun).1
  | node kind span h =>
    rw [List.foldlM_cons]
    intro hrun
    obtain ⟨_, hstep, _⟩ := bind_eq_ok_iff.mp hrun
    obtain ⟨next, happend, _⟩ := (step_enter_eq_ok_iff b _ kind span).mp hstep
    exact hnodes ((append_of_closed b next kind span hopened).mp happend).1

/-! ### What steps leave open -/

/-- The steps traverse trees, apart from a number of nodes that they leave open. -/
inductive LeavesOpen : Nat → List BuildStep → Prop where
  | nothing {os : List Outline} {steps : List BuildStep} (h : TraversesAll os steps) :
    LeavesOpen 0 steps
  | node {n : Nat} {os : List Outline} {steps rest : List BuildStep} (kind : SyntaxKind)
    (span : Span) (h : TraversesAll os steps) (hrest : LeavesOpen n rest) :
    LeavesOpen (n + 1) (steps ++ .enter kind span :: rest)

namespace LeavesOpen

variable {n : Nat} {steps : List BuildStep}

theorem leaf (h : LeavesOpen n steps) (kind : SyntaxKind) (span : Span) :
    LeavesOpen n (steps ++ [.leaf kind span]) := by
  induction h with
  | nothing h => exact .nothing (h.concat (.leaf kind span))
  | node kind' span' h _ ih =>
    rw [List.append_assoc]
    exact .node kind' span' h ih

theorem enter (h : LeavesOpen n steps) (kind : SyntaxKind) (span : Span) :
    LeavesOpen (n + 1) (steps ++ [.enter kind span]) := by
  induction h with
  | nothing h => exact .node kind span h (.nothing .nil)
  | node kind' span' h _ ih =>
    rw [List.append_assoc]
    exact .node kind' span' h ih

theorem leave (h : LeavesOpen (n + 1) steps) : LeavesOpen n (steps ++ [.leave]) := by
  generalize hm : n + 1 = m at h
  induction h generalizing n with
  | nothing => cases hm
  | node kind span h hrest ih =>
    cases hm
    rw [List.append_assoc]
    cases hrest with
    | nothing hinner => exact .nothing (h.concat (.node kind span hinner))
    | node _ _ _ _ => exact .node kind span h (ih rfl)

end LeavesOpen

theorem opened_append (b b' : TreeDraft) (kind : SyntaxKind) (span : Span)
    (h : b.append kind span = .ok b') : b'.opened = b.opened := by
  cases hopened : b.opened with
  | nil =>
    obtain ⟨_, rfl⟩ := (append_of_closed b b' kind span hopened).mp h
    rfl
  | cons p rest =>
    cases hparent : b.nodes[p]? with
    | none =>
      rw [append, hopened] at h
      simp [hparent] at h
    | some parent =>
      obtain ⟨_, _, rfl⟩ := (append_eq_ok_iff b b' p rest parent kind span hopened hparent).mp h
      exact hopened

theorem leavesOpen_step (b b' : TreeDraft) (before : List BuildStep) (s : BuildStep)
    (h : LeavesOpen b.opened.length before) (hstep : b.step s = .ok b') :
    LeavesOpen b'.opened.length (before ++ [s]) := by
  cases s with
  | enter kind span =>
    obtain ⟨next, happend, rfl⟩ := (step_enter_eq_ok_iff b b' kind span).mp hstep
    exact h.enter kind span
  | leaf kind span =>
    rw [opened_append b b' kind span hstep]
    exact h.leaf kind span
  | leave =>
    obtain ⟨p, hopened, _⟩ := (step_leave_eq_ok_iff b b').mp hstep
    rw [hopened] at h
    exact h.leave

theorem leavesOpen_run (steps before : List BuildStep) (b b' : TreeDraft)
    (h : LeavesOpen b.opened.length before) (hrun : steps.foldlM step b = .ok b') :
    LeavesOpen b'.opened.length (before ++ steps) := by
  induction steps generalizing before b with
  | nil =>
    cases hrun
    rw [List.append_nil]
    exact h
  | cons s steps ih =>
    rw [List.foldlM_cons] at hrun
    obtain ⟨b₁, hstep, hrun⟩ := bind_eq_ok_iff.mp hrun
    have hnext := ih (before ++ [s]) b₁ (leavesOpen_step b b₁ before s h hstep) hrun
    rw [List.append_assoc] at hnext
    exact hnext

end TreeDraft

/-! ### Whole trees -/

theorem build_eq_ok_iff_run (steps : List BuildStep) (t : SyntaxTree) :
    SyntaxTree.build steps = .ok t ↔
      steps.foldlM TreeDraft.step TreeDraft.start = .ok ⟨t.nodes, []⟩ := by
  unfold SyntaxTree.build
  rw [bind_eq_ok_iff]
  constructor
  · rintro ⟨b, hrun, hfinish⟩
    unfold TreeDraft.finish at hfinish
    split at hfinish
    · rename_i hclosed
      cases hfinish
      rw [hrun, ← List.isEmpty_iff.mp hclosed]
    · cases hfinish
  · intro hrun
    exact ⟨_, hrun, rfl⟩

/-- The steps that build a tree are none, or a traversal of a nested outline, and then the tree is
the numbering of that outline. -/
theorem build_eq_ok_iff (steps : List BuildStep) (t : SyntaxTree) :
    SyntaxTree.build steps = .ok t ↔
      (steps = [] ∧ t = .empty) ∨ ∃ o : Outline, o.Nested ∧ Traverses o steps ∧ t = o.toTree := by
  rw [build_eq_ok_iff_run]
  constructor
  · intro hrun
    obtain ⟨nodes⟩ := t
    have hopen := TreeDraft.leavesOpen_run steps [] TreeDraft.start _ (.nothing .nil) hrun
    rw [List.nil_append] at hopen
    cases hopen with
    | @nothing os _ h =>
      cases h with
      | nil =>
        cases hrun
        exact Or.inl ⟨rfl, rfl⟩
      | @cons o os first rest h hs =>
        right
        rw [List.foldlM_append] at hrun
        obtain ⟨b₁, hfirst, hrest⟩ := bind_eq_ok_iff.mp hrun
        obtain ⟨hnested, rfl⟩ := (TreeDraft.run_root o first h b₁).mp hfirst
        cases hs with
        | nil =>
          cases hrest
          rw [List.append_nil]
          exact ⟨o, hnested, h, rfl⟩
        | @cons o' os second rest' h' hs' =>
          -- A second root is refused at its first step.
          rw [List.foldlM_append] at hrest
          obtain ⟨b₂, hsecond, _⟩ := bind_eq_ok_iff.mp hrest
          refine absurd hsecond (TreeDraft.not_run_second_root o' second h' _ b₂ rfl ?_)
          obtain ⟨kind, span, children⟩ := o
          intro hempty
          cases Array.toList_inj.mpr hempty
  · rintro (⟨rfl, rfl⟩ | ⟨o, hnested, h, rfl⟩)
    · rfl
    · exact (TreeDraft.run_root o steps h _).mpr ⟨hnested, rfl⟩

end CodeCompletion
