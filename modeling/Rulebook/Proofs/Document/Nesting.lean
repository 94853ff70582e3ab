import Mathlib.Logic.Function.Iterate
import Rulebook.Proofs.Document.Conversion
import Rulebook.Proofs.Document.Json

/-!
How deep a document may be to be kept as JSON. Whatever its nodes hold, it is read back from its text
as long as no chain of nodes in it is longer than the nesting that a text may have; the text of a deeper
one says no less, but is refused.
-/

namespace Rulebook.Document

/-- Nodes each right below the one before it, from a document down. -/
inductive Chain : Document → List Document → Prop
  | root (document : Document) : Chain document [document]
  | left {document child : Document} {nodes : List Document} (below : child ∈ document.left)
      (inside : Chain child nodes) : Chain document (document :: nodes)
  | right {document child : Document} {nodes : List Document} (below : child ∈ document.right)
      (inside : Chain child nodes) : Chain document (document :: nodes)

theorem Chain.exists_nodeAt {document : Document} {nodes : List Document}
    (chain : document.Chain nodes) :
    ∃ depth node, document.NodeAt depth node ∧ nodes.length = depth + 1 := by
  induction chain with
  | root document => exact ⟨0, document, .root document, rfl⟩
  | left below _ ih =>
      obtain ⟨depth, node, isNode, length⟩ := ih
      exact ⟨depth + 1, node, .left below isNode, congrArg (· + 1) length⟩
  | right below _ ih =>
      obtain ⟨depth, node, isNode, length⟩ := ih
      exact ⟨depth + 1, node, .right below isNode, congrArg (· + 1) length⟩

theorem NodeAt.exists_chain {document node : Document} {depth : Nat}
    (isNode : document.NodeAt depth node) :
    ∃ nodes, document.Chain nodes ∧ nodes.length = depth + 1 := by
  induction isNode with
  | root document => exact ⟨[document], .root document, rfl⟩
  | left below _ ih =>
      obtain ⟨nodes, chain, length⟩ := ih
      exact ⟨_ :: nodes, .left below chain, congrArg (· + 1) length⟩
  | right below _ ih =>
      obtain ⟨nodes, chain, length⟩ := ih
      exact ⟨_ :: nodes, .right below chain, congrArg (· + 1) length⟩

theorem Chain.length_le_levels {document : Document} {nodes : List Document}
    (chain : document.Chain nodes) : nodes.length ≤ document.levels := by
  obtain ⟨depth, node, isNode, length⟩ := chain.exists_nodeAt
  rw [length]
  exact isNode.lt_levels

theorem exists_chain_levels (document : Document) :
    ∃ nodes, document.Chain nodes ∧ nodes.length = document.levels := by
  obtain ⟨depth, node, isNode, deepest⟩ := exists_nodeAt_levels document
  rw [deepest]
  exact isNode.exists_chain

theorem le_levels_iff {document : Document} {count : Nat} :
    count ≤ document.levels ↔ ∃ nodes, document.Chain nodes ∧ count ≤ nodes.length := by
  constructor
  · intro enough
    obtain ⟨nodes, chain, length⟩ := exists_chain_levels document
    exact ⟨nodes, chain, length ▸ enough⟩
  · rintro ⟨nodes, chain, enough⟩
    exact Nat.le_trans enough chain.length_le_levels

theorem ofJson?_levels_render (document : Document) :
    (Json.parse? document.render).bind (ofJson? document.levels) = some document := by
  rw [render, Json.parse?_render document.readable_toJson, Option.bind_some, ofJson?_toJson,
    if_pos (Nat.le_refl _)]

/-- Any document is read back from its text if and only if no chain of nodes in it has more than 127
nodes. -/
theorem parse?_render_of_chain (document : Document) :
    ((∀ nodes, document.Chain nodes → nodes.length ≤ 127) →
      parse? document.render = some document) ∧
    ((∃ nodes, document.Chain nodes ∧ 128 ≤ nodes.length) →
      parse? document.render = none ∧
        ∃ levels, (Json.parse? document.render).bind (ofJson? levels) = some document) := by
  rw [parse?_render, ← le_levels_iff]
  constructor
  · intro short
    obtain ⟨nodes, chain, length⟩ := exists_chain_levels document
    exact if_pos (length ▸ short nodes chain)
  · intro deep
    exact ⟨if_neg (Nat.not_le_of_lt deep), document.levels, ofJson?_levels_render document⟩

theorem parse?_render_of_chain_malformed :
    let nested (count : Nat) : Document :=
      (fun child => ⟨.condition, some "\"\\\u0001é", none, some child⟩)^[count] ⟨.term, none, none, none⟩
    ((∀ nodes, (nested 126).Chain nodes → nodes.length ≤ 127) ∧
      parse? (nested 126).render = some (nested 126)) ∧
    (∃ nodes, (nested 127).Chain nodes ∧ 128 ≤ nodes.length) ∧ parse? (nested 127).render = none := by
  intro nested
  have short : ∀ nodes, (nested 126).Chain nodes → nodes.length ≤ 127 := by
    intro nodes chain
    have levels : (nested 126).levels = 127 := by decide +kernel
    exact levels ▸ chain.length_le_levels
  have deep : ∃ nodes, (nested 127).Chain nodes ∧ 128 ≤ nodes.length := by
    have levels : 128 ≤ (nested 127).levels := by decide +kernel
    exact le_levels_iff.mp levels
  exact ⟨⟨short, (parse?_render_of_chain _).1 short⟩, deep, ((parse?_render_of_chain _).2 deep).1⟩

end Rulebook.Document
