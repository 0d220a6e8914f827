/-
  Peg.Proofs.Nodes

  The shape of grammars: the parsers directly below a node, and all nodes of a
  grammar. Conditions on grammars are conditions on all their nodes, which every
  parser below inherits.
-/
import Peg.Grammar.Basic

namespace Peg.Grammar

/-! ## Below a node -/

/-- The parsers that a node runs as they stand, and in any order that it likes. -/
def parts : Grammar → List Grammar
  | .terminal _ | .eps _ | .attr _ _ | .seq _ | .skipWith _ _ | .rule _ | .define _ _ _ => []
  | .alt p q | .diff p q | .list p q => [p, q]
  | .opt p | .ahead p | .notAhead p | .kleene p | .plus p | .times _ _ p | .seek p | .expect p
  | .action p _ | .raw p | .discard p | .flag p | .into _ p | .narrow _ _ p | .lexeme p
  | .noSkip p | .skip p | .noCase p | .bind _ _ p | .hide _ p | .group p | .sealed _ p => [p]

/-- The parsers directly below a node, skippers and bodies of rules included. -/
def children : Grammar → List Grammar
  | .seq ps => ps
  | .skipWith s p => [s, p]
  | .define _ _ body => [body]
  | g => g.parts

theorem children_of_parts {g q : Grammar} (h : q ∈ g.parts) : q ∈ g.children := by
  cases g <;> first | exact h | cases h

theorem size_pos (g : Grammar) : 0 < g.size := by
  cases g with
  | eps c =>
    cases c with
    | scripted id answers =>
      rw [size]
      exact Nat.add_pos_left Nat.one_pos _
    | _ => exact Nat.one_pos
  | _ => simp [size]

theorem size_le_sizes {q : Grammar} {ps : List Grammar} (h : q ∈ ps) : q.size ≤ sizes ps := by
  induction ps with
  | nil => cases h
  | cons p ps ih =>
    rw [sizes]
    obtain rfl | h := List.mem_cons.mp h
    · exact Nat.le_add_right _ _
    · exact Nat.le_trans (ih h) (Nat.le_add_left _ _)

theorem size_lt_of_child {g q : Grammar} (h : q ∈ g.children) : q.size < g.size := by
  cases g with
  | seq ps =>
    rw [size]
    exact Nat.lt_succ_of_le (size_le_sizes h)
  | terminal | eps | attr | rule => cases h
  | alt | diff | list | skipWith =>
    simp only [children, parts, List.mem_cons, List.not_mem_nil, or_false] at h
    obtain rfl | rfl := h <;> rw [size] <;> omega
  | _ =>
    obtain rfl := List.mem_singleton.mp h
    rw [size]
    exact Nat.lt_succ_self _

/-! ## All nodes -/

mutual

/-- The node itself, and every node further down. -/
def nodes : Grammar → List Grammar
  | .terminal t => [.terminal t]
  | .eps c => [.eps c]
  | .attr ty v => [.attr ty v]
  | .seq ps => .seq ps :: nodesOf ps
  | .alt p q => .alt p q :: (nodes p ++ nodes q)
  | .diff p q => .diff p q :: (nodes p ++ nodes q)
  | .list p d => .list p d :: (nodes p ++ nodes d)
  | .opt p => .opt p :: nodes p
  | .ahead p => .ahead p :: nodes p
  | .notAhead p => .notAhead p :: nodes p
  | .kleene p => .kleene p :: nodes p
  | .plus p => .plus p :: nodes p
  | .times min max p => .times min max p :: nodes p
  | .seek p => .seek p :: nodes p
  | .expect p => .expect p :: nodes p
  | .action p f => .action p f :: nodes p
  | .raw p => .raw p :: nodes p
  | .discard p => .discard p :: nodes p
  | .flag p => .flag p :: nodes p
  | .into ty p => .into ty p :: nodes p
  | .narrow ty f p => .narrow ty f p :: nodes p
  | .lexeme p => .lexeme p :: nodes p
  | .noSkip p => .noSkip p :: nodes p
  | .skip p => .skip p :: nodes p
  | .skipWith s p => .skipWith s p :: (nodes s ++ nodes p)
  | .noCase p => .noCase p :: nodes p
  | .bind key b p => .bind key b p :: nodes p
  | .hide key p => .hide key p :: nodes p
  | .rule r => [.rule r]
  | .define r force body => .define r force body :: nodes body
  | .group p => .group p :: nodes p
  | .sealed hasAction p => .sealed hasAction p :: nodes p

def nodesOf : List Grammar → List Grammar
  | [] => []
  | p :: ps => nodes p ++ nodesOf ps

end

theorem nodesOf_eq (ps : List Grammar) : nodesOf ps = ps.flatMap nodes := by
  induction ps with
  | nil => rfl
  | cons p ps ih => rw [nodesOf, ih, List.flatMap_cons]

/-- The nodes of a grammar are the grammar and the nodes of the parsers below it. -/
theorem nodes_eq (g : Grammar) : g.nodes = g :: g.children.flatMap nodes := by
  cases g <;> simp [nodes, children, parts, nodesOf_eq]

/-- Every node of the grammar is as `P` says. -/
def All (P : Grammar → Prop) (g : Grammar) : Prop := ∀ x ∈ g.nodes, P x

instance (P : Grammar → Prop) [DecidablePred P] (g : Grammar) : Decidable (g.All P) :=
  inferInstanceAs (Decidable (∀ x ∈ g.nodes, P x))

variable {P : Grammar → Prop} {g q : Grammar}

theorem All.self (h : g.All P) : P g := h g (by rw [nodes_eq]; exact List.mem_cons_self)

theorem All.mono {P' : Grammar → Prop} (h : g.All P) (hP : ∀ x, P x → P' x) : g.All P' :=
  fun x hx => hP x (h x hx)

theorem All.child (h : g.All P) (hq : q ∈ g.children) : q.All P := by
  intro x hx
  refine h x ?_
  rw [nodes_eq]
  exact List.mem_cons_of_mem _ (List.mem_flatMap.mpr ⟨q, hq, hx⟩)

end Peg.Grammar
