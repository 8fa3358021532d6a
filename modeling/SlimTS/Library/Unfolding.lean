import Mathlib.Data.Finset.Card
import Mathlib.Data.List.Nodup
import Mathlib.Data.List.Pairwise
import Mathlib.Logic.Relation

/-!
# Unfolding a graph from a node

A recursion that visits the children of a node, keeping no record of where it has been, walks the
unfolding of the graph into a tree. Two questions about such a recursion are questions about the
graph. It ends iff no path from the node is arbitrarily long, which in a finite graph is to say that
no cycle can be reached. And it visits every node once iff no node that it reaches is a child twice,
be it of two nodes or of one.

The graph is given by the list of children of each node, in the order of the visits, and the
unfolding is cut off at a depth.
-/

namespace Unfolding

open Relation

variable {α : Type*} (children : α → List α)

/-- One node is a child of another. -/
def Child (a b : α) : Prop := b ∈ children a

/-- The graph can be followed from `a` for `n` steps. -/
def HasPath : ℕ → α → Prop
  | 0, _ => True
  | n + 1, a => ∃ b ∈ children a, HasPath n b

instance decidableHasPath : ∀ (n : ℕ) (a : α), Decidable (HasPath children n a)
  | 0, _ => isTrue trivial
  | n + 1, a =>
    have := decidableHasPath n
    inferInstanceAs (Decidable (∃ b ∈ children a, HasPath children n b))

/-- The nodes of the unfolding from `a` less than `n` steps away, in preorder. -/
def unfold : ℕ → α → List α
  | 0, _ => []
  | n + 1, a => a :: (children a).flatMap (unfold n)

/-- No cycle can be reached from `a`. -/
def Acyclic (a : α) : Prop :=
  ∀ b, ReflTransGen (Child children) a b → ¬TransGen (Child children) b b

/-- No node is a child twice, of the nodes reached from `a`. -/
structure Unshared (a : α) : Prop where
  /-- No two children of a node are the same. -/
  nodup : ∀ p, ReflTransGen (Child children) a p → (children p).Nodup
  /-- No two nodes have a child in common. -/
  parent_unique : ∀ p q c, ReflTransGen (Child children) a p →
    ReflTransGen (Child children) a q → c ∈ children p → c ∈ children q → p = q

variable {children} {a b c d x : α} {n : ℕ}

theorem not_hasPath_child (h : ¬HasPath children (n + 1) a) (hb : b ∈ children a) :
    ¬HasPath children n b :=
  fun hpath ↦ h ⟨b, hb, hpath⟩

theorem Acyclic.of_child (h : Acyclic children a) (hb : b ∈ children a) : Acyclic children b :=
  fun c hc ↦ h c (hc.head hb)

theorem Acyclic.not_reaches (h : Acyclic children a) (hb : b ∈ children a) :
    ¬ReflTransGen (Child children) b a :=
  fun hba ↦ h a .refl (TransGen.head' hb hba)

theorem Unshared.of_child (h : Unshared children a) (hb : b ∈ children a) :
    Unshared children b :=
  ⟨fun p hp ↦ h.nodup p (hp.head hb),
    fun p q c hp hq ↦ h.parent_unique p q c (hp.head hb) (hq.head hb)⟩

/-! ## Ending -/

/-- From a node that reaches a cycle, the graph can be followed for ever. -/
theorem hasPath_of_cycle (hab : ReflTransGen (Child children) a b)
    (hcycle : TransGen (Child children) b b) (n : ℕ) : HasPath children n a := by
  induction n generalizing a with
  | zero => trivial
  | succ n ih =>
    -- Some child of `a` reaches the cycle as well.
    rcases hab.cases_head with rfl | ⟨c, hac, hcb⟩
    · obtain ⟨c, hac, hca⟩ := TransGen.head'_iff.mp hcycle
      exact ⟨c, hac, ih hca⟩
    · exact ⟨c, hac, ih hcb⟩

theorem acyclic_of_not_hasPath (h : ¬HasPath children n a) : Acyclic children a :=
  fun _ hab hcycle ↦ h (hasPath_of_cycle hab hcycle n)

/-- Without cycles a path visits no node twice, so it has fewer steps than there are nodes. -/
theorem Acyclic.not_hasPath_card [DecidableEq α] (h : Acyclic children a) (nodes : Finset α)
    (hnodes : ∀ x, ReflTransGen (Child children) a x → x ∈ nodes) :
    ¬HasPath children nodes.card a := by
  induction hn : nodes.card generalizing a nodes with
  | zero =>
    rw [Finset.card_eq_zero] at hn
    exact absurd (hnodes a .refl) (by simp [hn])
  | succ n ih =>
    rintro ⟨b, hb, hpath⟩
    refine ih (h.of_child hb) (nodes.erase a) (fun x hx ↦ ?_) ?_ hpath
    · refine Finset.mem_erase.mpr ⟨?_, hnodes x (hx.head hb)⟩
      rintro rfl
      exact h.not_reaches hb hx
    · rw [Finset.card_erase_of_mem (hnodes a .refl), hn, Nat.add_sub_cancel]

/-- **When the recursion ends.** In a finite graph some depth is enough for the unfolding iff no
cycle can be reached. -/
theorem exists_not_hasPath_iff [DecidableEq α] (nodes : Finset α)
    (hnodes : ∀ x, ReflTransGen (Child children) a x → x ∈ nodes) :
    (∃ n, ¬HasPath children n a) ↔ Acyclic children a :=
  ⟨fun ⟨_, hn⟩ ↦ acyclic_of_not_hasPath hn, fun h ↦ ⟨_, h.not_hasPath_card nodes hnodes⟩⟩

/-! ## Visiting once -/

theorem mem_unfold (hn : ¬HasPath children n a) :
    x ∈ unfold children n a ↔ ReflTransGen (Child children) a x := by
  induction n generalizing a with
  | zero => exact absurd trivial hn
  | succ n ih =>
    rw [unfold, List.mem_cons, List.mem_flatMap, ReflTransGen.cases_head_iff, eq_comm (a := x)]
    refine or_congr_right (exists_congr fun c ↦ and_congr_right fun hc ↦ ?_)
    exact ih (not_hasPath_child hn hc)

/-- A node is not below itself. -/
theorem not_mem_unfold_children (hn : ¬HasPath children (n + 1) a) :
    a ∉ (children a).flatMap (unfold children n) := by
  intro hmem
  obtain ⟨c, hc, ha⟩ := List.mem_flatMap.mp hmem
  exact (acyclic_of_not_hasPath hn).not_reaches hc
    ((mem_unfold (not_hasPath_child hn hc)).mp ha)

/-- Where no node has two parents, two nodes that reach a third are one below the other. -/
theorem Unshared.comparable (h : Unshared children a)
    (hac : ReflTransGen (Child children) a c) (had : ReflTransGen (Child children) a d)
    (hcx : ReflTransGen (Child children) c x) (hdx : ReflTransGen (Child children) d x) :
    ReflTransGen (Child children) c d ∨ ReflTransGen (Child children) d c := by
  induction hcx with
  | refl => exact Or.inr hdx
  | @tail y x hcy hyx ih =>
    rcases hdx.cases_tail with rfl | ⟨z, hdz, hzx⟩
    · exact Or.inl (hcy.tail hyx)
    · -- The last steps of both paths are the same.
      obtain rfl := h.parent_unique y z x (hac.trans hcy) (had.trans hdz) hyx hzx
      exact ih hdz

/-- Different children of one node reach no node in common. -/
theorem Unshared.disjoint (h : Unshared children a) (hacyclic : Acyclic children a)
    (hc : c ∈ children a) (hd : d ∈ children a) (hne : c ≠ d)
    (hcx : ReflTransGen (Child children) c x) : ¬ReflTransGen (Child children) d x := by
  intro hdx
  -- A path from one child to the other would enter it from `a`, and close a cycle.
  have hbelow : ∀ c d, c ∈ children a → d ∈ children a → c ≠ d →
      ¬ReflTransGen (Child children) c d := by
    intro c d hc hd hne hcd
    rcases hcd.cases_tail with rfl | ⟨z, hcz, hzd⟩
    · exact hne rfl
    · obtain rfl := h.parent_unique z a d (hcz.head hc) .refl hzd hd
      exact hacyclic.not_reaches hc hcz
  rcases h.comparable (.single hc) (.single hd) hcx hdx with hcd | hdc
  · exact hbelow c d hc hd hne hcd
  · exact hbelow d c hd hc hne.symm hdc

theorem Unshared.nodup_unfold (h : Unshared children a) (hn : ¬HasPath children n a) :
    (unfold children n a).Nodup := by
  induction n generalizing a with
  | zero => exact List.nodup_nil
  | succ n ih =>
    have hchild : ∀ c ∈ children a, ¬HasPath children n c := fun c hc ↦ not_hasPath_child hn hc
    rw [unfold, List.nodup_cons, List.nodup_flatMap]
    refine ⟨not_mem_unfold_children hn, fun c hc ↦ ih (h.of_child hc) (hchild c hc), ?_⟩
    refine (h.nodup a .refl).pairwise_of_forall_ne fun c hc d hd hne x hx hx' ↦ ?_
    exact h.disjoint (acyclic_of_not_hasPath hn) hc hd hne ((mem_unfold (hchild c hc)).mp hx)
      ((mem_unfold (hchild d hd)).mp hx')

/-- Children whose unfoldings share a node are the same child. -/
theorem eq_of_nodup_unfold (h : (unfold children (n + 1) a).Nodup)
    (hn : ¬HasPath children (n + 1) a) (hc : c ∈ children a) (hd : d ∈ children a)
    (hcx : ReflTransGen (Child children) c x) (hdx : ReflTransGen (Child children) d x) :
    c = d := by
  rw [unfold, List.nodup_cons, List.nodup_flatMap] at h
  by_contra hne
  have : Std.Symm (Function.onFun List.Disjoint (unfold children n)) :=
    ⟨fun _ _ hdisj ↦ hdisj.symm⟩
  exact h.2.2.forall hc hd hne ((mem_unfold (not_hasPath_child hn hc)).mpr hcx)
    ((mem_unfold (not_hasPath_child hn hd)).mpr hdx)

/-- Every child has an unfolding of its own. -/
theorem nodup_children_of_nodup_unfold (h : (unfold children (n + 1) a).Nodup)
    (hn : ¬HasPath children (n + 1) a) : (children a).Nodup := by
  rw [unfold, List.nodup_cons, List.nodup_flatMap] at h
  refine h.2.2.imp_of_mem fun {c d} hc hd hdisj ↦ ?_
  rintro rfl
  have hmem := (mem_unfold (not_hasPath_child hn hc)).mpr .refl
  exact hdisj hmem hmem

theorem unshared_of_nodup_unfold (h : (unfold children n a).Nodup) (hn : ¬HasPath children n a) :
    Unshared children a := by
  induction n generalizing a with
  | zero => exact absurd trivial hn
  | succ n ih =>
    have hsame := fun c d x ↦ eq_of_nodup_unfold (c := c) (d := d) (x := x) h hn
    have hbelow : ∀ c ∈ children a, Unshared children c := fun c hc ↦
      ih ((List.nodup_flatMap.mp (List.nodup_cons.mp h).2).1 c hc) (not_hasPath_child hn hc)
    -- No child of `a` is a child of a node below `a`.
    have htop : ∀ c d q, c ∈ children a → d ∈ children a → ReflTransGen (Child children) d q →
        c ∉ children q := by
      intro c d q hc hd hdq hcq
      obtain rfl := hsame d c c hd hc (hdq.tail hcq) .refl
      exact acyclic_of_not_hasPath (not_hasPath_child hn hd) d .refl (TransGen.tail' hdq hcq)
    refine ⟨fun p hp ↦ ?_, fun p q c hp hq hcp hcq ↦ ?_⟩
    · rcases hp.cases_head with rfl | ⟨d, hd, hdp⟩
      · exact nodup_children_of_nodup_unfold h hn
      · exact (hbelow d hd).nodup p hdp
    · rcases hp.cases_head with rfl | ⟨d, hd, hdp⟩ <;>
        rcases hq.cases_head with rfl | ⟨e, he, heq⟩
      · rfl
      · exact absurd hcq (htop c e q hcp he heq)
      · exact absurd hcp (htop c d p hcq hd hdp)
      · obtain rfl := hsame d e c hd he (hdp.tail hcp) (heq.tail hcq)
        exact (hbelow d hd).parent_unique p q c hdp heq hcp hcq

/-- **What the recursion visits.** Where the unfolding is finite, it has every node once iff no node
is a child twice. -/
theorem nodup_unfold_iff (hn : ¬HasPath children n a) :
    (unfold children n a).Nodup ↔ Unshared children a :=
  ⟨fun h ↦ unshared_of_nodup_unfold h hn, fun h ↦ h.nodup_unfold hn⟩

end Unfolding
