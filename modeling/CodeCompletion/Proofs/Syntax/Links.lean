import CodeCompletion.Proofs.Syntax.Build
import Mathlib.Data.List.Chain

/-!
# Links of built trees

A new node gets a number that is greater than all others and is entered with its parent. So in
every tree that is built, parents come before their children, both sides of a link agree, and the
way up from any node ends at the root.
-/

namespace CodeCompletion

open Outline

/-- Parents and children of a tree agree. The first node is the root, and the children of a node
are numbered and placed in document order. -/
structure SyntaxTree.Linked (t : SyntaxTree) : Prop where
  root_iff : ∀ id < t.size, (t.parent? id = none ↔ id = 0)
  parent_lt : ∀ id p, t.parent? id = some p → p < id
  mem_children_iff : ∀ p c, c ∈ t.children p ↔ t.parent? c = some p
  increasing : ∀ p, (t.children p).Pairwise (· < ·)
  ordered : ∀ p, (t.children p).IsChain fun a b =>
    ∀ s ∈ t.span? a, ∀ s' ∈ t.span? b, s.stop ≤ s'.start

def BuildStep.node? : BuildStep → Option (SyntaxKind × Span)
  | .enter kind span | .leaf kind span => some (kind, span)
  | .leave => none

def TreeDraft.tree (b : TreeDraft) : SyntaxTree := ⟨b.nodes⟩

namespace SyntaxTree

theorem lt_size_of_parent? (t : SyntaxTree) (id p : Nat) (h : t.parent? id = some p) :
    id < t.size := by
  obtain ⟨node, hnode, _⟩ := Option.bind_eq_some_iff.mp h
  exact (Array.getElem?_eq_some_iff.mp hnode).1

/-! ### A new node -/

section Link

variable (b : TreeDraft) (p : Nat) (parent : SyntaxNode) (kind : SyntaxKind) (span : Span)
  (hparent : b.nodes[p]? = some parent)

include hparent

theorem node?_link (id : Nat) :
    (b.link p parent kind span).tree.node? id =
      if id = b.nodes.size then some ⟨kind, span, some p, []⟩
      else if id = p then some (TreeDraft.addChild b.nodes.size parent)
      else b.tree.node? id := by
  have hp : p < b.nodes.size := (Array.getElem?_eq_some_iff.mp hparent).1
  rw [node?, TreeDraft.tree, TreeDraft.link, Array.getElem?_push, Array.size_setIfInBounds,
    Array.getElem?_setIfInBounds]
  simp only [eq_comm (a := p), hp, if_true]
  split <;> rfl

theorem parent?_link (id : Nat) :
    (b.link p parent kind span).tree.parent? id =
      if id = b.nodes.size then some p else b.tree.parent? id := by
  have hold : b.tree.node? p = some parent := hparent
  rw [parent?, node?_link b p parent kind span hparent]
  split
  · rfl
  · split
    · rename_i hid
      rw [parent?, hid, hold]
      rfl
    · rfl

theorem span?_link (id : Nat) :
    (b.link p parent kind span).tree.span? id =
      if id = b.nodes.size then some span else b.tree.span? id := by
  have hold : b.tree.node? p = some parent := hparent
  rw [span?, node?_link b p parent kind span hparent]
  split
  · rfl
  · split
    · rename_i hid
      rw [span?, hid, hold]
      rfl
    · rfl

theorem children_link (id : Nat) :
    (b.link p parent kind span).tree.children id =
      if id = p then b.tree.children p ++ [b.nodes.size]
      else b.tree.children id := by
  have hold : b.tree.node? p = some parent := hparent
  have hp : p < b.nodes.size := (Array.getElem?_eq_some_iff.mp hparent).1
  have hnew : b.tree.node? b.nodes.size = none :=
    Array.getElem?_eq_none (Nat.le_refl _)
  rw [children, node?_link b p parent kind span hparent]
  by_cases hid : id = b.nodes.size
  · rw [if_pos hid, if_neg (by omega), children, hid, hnew]
    rfl
  · rw [if_neg hid]
    split
    · rw [children, hold]
      rfl
    · rfl

theorem ordered_link (h : b.tree.Linked)
    (hbehind : ∀ s ∈ TreeDraft.lastSpan? b.nodes parent, s.stop ≤ span.start) (q : Nat) :
    ((b.link p parent kind span).tree.children q).IsChain fun a c =>
      ∀ s ∈ (b.link p parent kind span).tree.span? a,
        ∀ s' ∈ (b.link p parent kind span).tree.span? c, s.stop ≤ s'.start := by
  have hspans := span?_link b p parent kind span hparent
  have hold (q c : Nat) (hc : c ∈ b.tree.children q) : c ≠ b.nodes.size :=
    Nat.ne_of_lt (lt_size_of_parent? b.tree c q ((h.mem_children_iff q c).mp hc))
  have hkept (q : Nat) : (b.tree.children q).IsChain fun a c =>
      ∀ s ∈ (b.link p parent kind span).tree.span? a,
        ∀ s' ∈ (b.link p parent kind span).tree.span? c, s.stop ≤ s'.start := by
    refine (h.ordered q).imp_of_mem_imp fun a c ha hc hac => ?_
    rw [hspans, hspans, if_neg (hold q a ha), if_neg (hold q c hc)]
    exact hac
  rw [children_link b p parent kind span hparent]
  split
  · rw [List.isChain_append]
    refine ⟨hkept p, List.isChain_singleton _, fun a ha c hc s hs s' hs' => ?_⟩
    cases hc
    rw [hspans, if_neg (hold p a (List.mem_of_mem_getLast? ha))] at hs
    rw [hspans, if_pos rfl] at hs'
    cases hs'
    -- The last child so far is the one that the new node was checked against.
    have hchildren : b.tree.children p = parent.children := by
      rw [children, node?, TreeDraft.tree, hparent]
      rfl
    refine hbehind s ?_
    rw [TreeDraft.lastSpan?, ← hchildren, ha]
    exact hs
  · exact hkept q

theorem linked_link (h : b.tree.Linked)
    (hbehind : ∀ s ∈ TreeDraft.lastSpan? b.nodes parent, s.stop ≤ span.start) :
    (b.link p parent kind span).tree.Linked := by
  have hp : p < b.nodes.size := (Array.getElem?_eq_some_iff.mp hparent).1
  have hsize : (b.link p parent kind span).tree.size = b.nodes.size + 1 := by
    rw [size, TreeDraft.tree, TreeDraft.link, Array.size_push, Array.size_setIfInBounds]
  have hparents := parent?_link b p parent kind span hparent
  have hchildren := children_link b p parent kind span hparent
  have hnone : b.tree.parent? b.nodes.size = none := by
    rw [parent?, node?, TreeDraft.tree, Array.getElem?_eq_none (Nat.le_refl _)]
    rfl
  refine ⟨?_, ?_, ?_, ?_, ?_⟩
  · intro id hid
    rw [hparents]
    split
    · simp only [reduceCtorEq, false_iff]
      omega
    · exact h.root_iff id (by rw [hsize] at hid; show id < b.nodes.size; omega)
  · intro id q hq
    rw [hparents] at hq
    split at hq
    · cases hq
      omega
    · exact h.parent_lt id q hq
  · intro q c
    rw [hchildren, hparents]
    have hmem := h.mem_children_iff q c
    grind
  · intro q
    rw [hchildren]
    split
    · rw [List.pairwise_append]
      refine ⟨h.increasing p, List.pairwise_singleton .., fun a ha c hc => ?_⟩
      rw [List.mem_singleton.mp hc]
      -- Nodes that are children already are older than the new one.
      exact lt_size_of_parent? b.tree a p ((h.mem_children_iff p a).mp ha)
    · exact h.increasing q
  · exact ordered_link b p parent kind span hparent h hbehind

end Link

/-! ### Runs -/

theorem linked_empty : SyntaxTree.empty.Linked where
  root_iff _ h := absurd h (Nat.not_lt_zero _)
  parent_lt _ _ h := nomatch h
  mem_children_iff p c := by simp [children, parent?, node?, empty]
  increasing p := by simp [children, node?, empty]
  ordered p := by simp [children, node?, empty]

theorem linked_root (kind : SyntaxKind) (span : Span) :
    (⟨#[⟨kind, span, none, []⟩]⟩ : SyntaxTree).Linked := by
  have hparent (id : Nat) : (⟨#[⟨kind, span, none, []⟩]⟩ : SyntaxTree).parent? id = none := by
    cases id with
    | zero => rfl
    | succ id => rfl
  have hchildren (id : Nat) : (⟨#[⟨kind, span, none, []⟩]⟩ : SyntaxTree).children id = [] := by
    cases id with
    | zero => rfl
    | succ id => rfl
  refine ⟨fun id hid => ?_, fun id p h => ?_, fun p c => ?_, fun p => ?_, fun p => ?_⟩
  · have hzero : id = 0 := Nat.lt_one_iff.mp hid
    exact ⟨fun _ => hzero, fun _ => hparent id⟩
  · rw [hparent] at h
    cases h
  · rw [hchildren, hparent]
    simp
  · rw [hchildren]
    exact List.Pairwise.nil
  · rw [hchildren]
    exact List.isChain_nil

theorem linked_append (b b' : TreeDraft) (kind : SyntaxKind) (span : Span) (h : b.tree.Linked)
    (happend : b.append kind span = .ok b') : b'.tree.Linked := by
  cases hopened : b.opened with
  | nil =>
    obtain ⟨_, rfl⟩ := (TreeDraft.append_of_closed b b' kind span hopened).mp happend
    exact linked_root kind span
  | cons p rest =>
    cases hparent : b.nodes[p]? with
    | none =>
      rw [TreeDraft.append, hopened] at happend
      simp [hparent] at happend
    | some parent =>
      obtain ⟨_, hbehind, rfl⟩ :=
        (TreeDraft.append_eq_ok_iff b b' p rest parent kind span hopened hparent).mp happend
      exact linked_link b p parent kind span hparent h hbehind

/-- Steps change a tree by appending nodes only, so what every new node preserves holds after a run.
-/
theorem run_preserves (P : SyntaxTree → Prop) (steps : List BuildStep)
    (happend : ∀ s ∈ steps, ∀ node ∈ s.node?, ∀ b b' : TreeDraft, P b.tree →
      b.append node.1 node.2 = .ok b' → P b'.tree)
    (b b' : TreeDraft) (h : P b.tree) (hrun : steps.foldlM TreeDraft.step b = .ok b') :
    P b'.tree := by
  induction steps generalizing b with
  | nil =>
    cases hrun
    exact h
  | cons s steps ih =>
    rw [List.foldlM_cons] at hrun
    obtain ⟨b₁, hstep, hrun⟩ := bind_eq_ok_iff.mp hrun
    refine ih (fun s hs => happend s (List.mem_cons_of_mem _ hs)) b₁ ?_ hrun
    have hnew := happend s (List.mem_cons_self ..)
    cases s with
    | enter kind span =>
      obtain ⟨next, hnext, rfl⟩ := (TreeDraft.step_enter_eq_ok_iff b b₁ kind span).mp hstep
      exact hnew (kind, span) rfl b next h hnext
    | leaf kind span => exact hnew (kind, span) rfl b b₁ h hstep
    | leave =>
      obtain ⟨_, _, hnodes⟩ := (TreeDraft.step_leave_eq_ok_iff b b₁).mp hstep
      rw [TreeDraft.tree, hnodes]
      exact h

theorem linked_build (steps : List BuildStep) (t : SyntaxTree) (h : build steps = .ok t) :
    t.Linked :=
  run_preserves Linked steps (fun _ _ node _ b b' => linked_append b b' node.1 node.2)
    TreeDraft.start _ linked_empty ((build_eq_ok_iff_run steps t).mp h)

/-! ### Ways up and down -/

namespace Linked

variable {t : SyntaxTree} (h : t.Linked)

include h

theorem ancestors_of_parent (id p : Nat) (hp : t.parent? id = some p) :
    t.ancestors id = id :: t.ancestors p := by
  rw [ancestors, hp]
  exact if_pos (h.parent_lt id p hp)

theorem ancestors_chain (id : Nat) (hid : id < t.size) :
    (t.ancestors id).head? = some id ∧
      (t.ancestors id).IsChain (fun a b => t.parent? a = some b) ∧
      (t.ancestors id).getLast? = some 0 := by
  induction id using Nat.strongRecOn with
  | _ id ih =>
    cases hp : t.parent? id with
    | none =>
      have hzero : id = 0 := (h.root_iff id hid).mp hp
      have hself : t.ancestors id = [id] := by rw [ancestors, hp]
      rw [hself, hzero]
      exact ⟨rfl, List.isChain_singleton _, rfl⟩
    | some p =>
      have hlt := h.parent_lt id p hp
      obtain ⟨hhead, hchain, hlast⟩ := ih p hlt (Nat.lt_trans hlt hid)
      rw [h.ancestors_of_parent id p hp]
      refine ⟨rfl, List.isChain_cons.mpr ⟨fun q hq => ?_, hchain⟩, ?_⟩
      · rw [hhead] at hq
        cases hq
        exact hp
      · rw [List.getLast?_cons, hlast]
        rfl

theorem bounds_of_mem_children (p c : Nat) (hc : c ∈ t.children p) : p < c ∧ c < t.size :=
  have hp := (h.mem_children_iff p c).mp hc
  ⟨h.parent_lt c p hp, t.lt_size_of_parent? c p hp⟩

theorem occurs_once (id : Nat) (hid : id < t.size) (hne : id ≠ 0) :
    ∃ p, t.parent? id = some p ∧ (t.children p).count id = 1 ∧
      ∀ q, id ∈ t.children q → q = p := by
  cases hp : t.parent? id with
  | none => exact absurd ((h.root_iff id hid).mp hp) hne
  | some p =>
    have hnodup : (t.children p).Nodup := (h.increasing p).imp Nat.ne_of_lt
    refine ⟨p, rfl, ?_, fun q hq => ?_⟩
    · rw [hnodup.count, if_pos ((h.mem_children_iff p id).mpr hp)]
    · have hq := (h.mem_children_iff q id).mp hq
      rw [hp] at hq
      exact (Option.some.inj hq).symm

end Linked

/-- Steps build a tree exactly if there are none, or if they traverse a nested outline in pre-order.
The tree is then that outline with its nodes numbered in the same order, and its links agree. -/
theorem builds_exactly_nested_traversals (steps : List BuildStep) :
    ((∃ t, build steps = .ok t) ↔ steps = [] ∨ ∃ o : Outline, Traverses o steps ∧ o.Nested) ∧
    ∀ t, build steps = .ok t →
      (steps = [] → t = .empty) ∧
      (∀ o : Outline, Traverses o steps → o.Nested ∧ t.nodes.toList = o.layout none 0) ∧
      (∀ id < t.size, (t.parent? id = none ↔ id = 0)) ∧
      (∀ id p, t.parent? id = some p → p < id ∧ id < t.size) ∧
      (∀ p, ∀ c ∈ t.children p, p < c ∧ c < t.size) ∧
      (∀ id < t.size, id ≠ 0 → ∃ p, t.parent? id = some p ∧ (t.children p).count id = 1 ∧
        ∀ q, id ∈ t.children q → q = p) ∧
      (∀ p, (t.children p).Pairwise (· < ·) ∧ (t.children p).IsChain fun a b =>
        ∀ s ∈ t.span? a, ∀ s' ∈ t.span? b, s.stop ≤ s'.start) ∧
      ∀ id < t.size, (t.ancestors id).head? = some id ∧
        (t.ancestors id).IsChain (fun a b => t.parent? a = some b) ∧
        (t.ancestors id).getLast? = some 0 := by
  constructor
  · simp only [build_eq_ok_iff]
    constructor
    · rintro ⟨t, ⟨hnone, _⟩ | ⟨o, hnested, h, _⟩⟩
      · exact Or.inl hnone
      · exact Or.inr ⟨o, h, hnested⟩
    · rintro (hnone | ⟨o, h, hnested⟩)
      · exact ⟨.empty, Or.inl ⟨hnone, rfl⟩⟩
      · exact ⟨o.toTree, Or.inr ⟨o, hnested, h, rfl⟩⟩
  · intro t ht
    have hlinked := linked_build steps t ht
    have hrun := (build_eq_ok_iff_run steps t).mp ht
    refine ⟨?_, ?_, hlinked.root_iff, ?_, hlinked.bounds_of_mem_children, hlinked.occurs_once,
      fun p => ⟨hlinked.increasing p, hlinked.ordered p⟩, hlinked.ancestors_chain⟩
    · rintro rfl
      cases ht
      rfl
    · intro o ho
      obtain ⟨hnested, hdraft⟩ := (TreeDraft.run_root o steps ho _).mp hrun
      exact ⟨hnested, congrArg (·.nodes.toList) hdraft⟩
    · exact fun id p hp => ⟨hlinked.parent_lt id p hp, t.lt_size_of_parent? id p hp⟩

def callOutline : Outline :=
  .node .sourceFile ⟨0, 10⟩ [.node .callExpression ⟨0, 10⟩
    [.node .propertyAccessExpression ⟨0, 7⟩
      [.node .identifier ⟨0, 3⟩ [], .node .identifier ⟨4, 7⟩ []],
     .node .numericLiteral ⟨8, 9⟩ []]]

/-- A traversal of it; the number is opened and closed, the names are leaves. -/
def callSteps : List BuildStep :=
  [.enter .sourceFile ⟨0, 10⟩, .enter .callExpression ⟨0, 10⟩,
   .enter .propertyAccessExpression ⟨0, 7⟩, .leaf .identifier ⟨0, 3⟩, .leaf .identifier ⟨4, 7⟩,
   .leave, .enter .numericLiteral ⟨8, 9⟩, .leave, .leave, .leave]

theorem builds_exactly_nested_traversals_of_call :
    Traverses callOutline callSteps ∧ callOutline.Nested ∧
    ∃ t, build callSteps = .ok t ∧ t.nodes.toList = callOutline.layout none 0 ∧
      (t.ancestors 4).getLast? = some 0 := by
  have htraverses : Traverses callOutline callSteps :=
    .node _ _ (.cons (.node _ _ (.cons (.node _ _ (.cons (.leaf _ _) (.cons (.leaf _ _) .nil)))
      (.cons (.node _ _ .nil) .nil))) .nil)
  have hnested : callOutline.Nested := by
    simp only [callOutline, Nested, Fits, Outline.span, Option.mem_def]
    decide
  obtain ⟨hbuilds, hbuilt⟩ := builds_exactly_nested_traversals callSteps
  obtain ⟨t, ht⟩ := hbuilds.mpr (Or.inr ⟨callOutline, htraverses, hnested⟩)
  obtain ⟨_, hlayout, _, _, _, _, _, hancestors⟩ := hbuilt t ht
  have hnodes := (hlayout callOutline htraverses).2
  have hsize : t.size = 6 := by
    rw [size, ← Array.length_toList, hnodes]
    rfl
  exact ⟨htraverses, hnested, t, ht, hnodes, (hancestors 4 (by omega)).2.2⟩

end SyntaxTree

end CodeCompletion
