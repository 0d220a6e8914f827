/-
  Peg.Proofs.Renaming

  Grammars whose rules have other names. A name has no part in the type of an
  attribute or in whether a body has actions, so both survive a renaming, and a
  grammar without handles of rules is its own renaming.
-/
import Peg.Parse.Node
import Peg.Proofs.Nodes

namespace Peg

/-- The rule under another name. -/
def Rule.rename (f : String → String) (r : Rule) : Rule := { r with name := f r.name }

@[simp] theorem Rule.rename_id (r : Rule) : r.rename id = r := rfl

@[simp] theorem Rule.rename_name (f : String → String) (r : Rule) :
    (r.rename f).name = f r.name := rfl

@[simp] theorem Rule.rename_ty (f : String → String) (r : Rule) : (r.rename f).ty = r.ty := rfl

@[simp] theorem Rule.rename_forced (f : String → String) (r : Rule) :
    (r.rename f).forced = r.forced := rfl

@[simp] theorem Rule.rename_onSuccess (f : String → String) (r : Rule) :
    (r.rename f).onSuccess = r.onSuccess := rfl

@[simp] theorem Rule.rename_onError (f : String → String) (r : Rule) :
    (r.rename f).onError = r.onError := rfl

theorem Rule.rename_of_kept {f : String → String} {r : Rule} (h : f r.name = r.name) :
    r.rename f = r := by
  rw [rename, h]

namespace Grammar

mutual

/-- The grammar with the names of all rules replaced, those that it defines included. -/
def rename (f : String → String) : Grammar → Grammar
  | .terminal t => .terminal t
  | .eps c => .eps c
  | .attr ty v => .attr ty v
  | .seq ps => .seq (renameAll f ps)
  | .alt p q => .alt (rename f p) (rename f q)
  | .diff p q => .diff (rename f p) (rename f q)
  | .list p d => .list (rename f p) (rename f d)
  | .opt p => .opt (rename f p)
  | .ahead p => .ahead (rename f p)
  | .notAhead p => .notAhead (rename f p)
  | .kleene p => .kleene (rename f p)
  | .plus p => .plus (rename f p)
  | .times min max p => .times min max (rename f p)
  | .seek p => .seek (rename f p)
  | .expect p => .expect (rename f p)
  | .action p a => .action (rename f p) a
  | .raw p => .raw (rename f p)
  | .discard p => .discard (rename f p)
  | .flag p => .flag (rename f p)
  | .into ty p => .into ty (rename f p)
  | .narrow ty g p => .narrow ty g (rename f p)
  | .lexeme p => .lexeme (rename f p)
  | .noSkip p => .noSkip (rename f p)
  | .skip p => .skip (rename f p)
  | .skipWith s p => .skipWith (rename f s) (rename f p)
  | .noCase p => .noCase (rename f p)
  | .bind key b p => .bind key b (rename f p)
  | .hide key p => .hide key (rename f p)
  | .rule r => .rule (r.rename f)
  | .define r force body => .define (r.rename f) force (rename f body)
  | .group p => .group (rename f p)
  | .sealed hasAction p => .sealed hasAction (rename f p)

def renameAll (f : String → String) : List Grammar → List Grammar
  | [] => []
  | p :: ps => rename f p :: renameAll f ps

end

variable (f : String → String)

/-! ## What does not depend on names -/

mutual

@[simp] theorem rename_ty : ∀ g : Grammar, (rename f g).ty = g.ty
  | .terminal _ | .eps _ | .attr _ _ | .ahead _ | .notAhead _ | .raw _ | .discard _ | .flag _
  | .into _ _ | .narrow _ _ _ | .rule _ | .define _ _ _ | .sealed _ _ => by
    simp only [rename, ty, Rule.rename_ty]
  | .seq ps => by rw [rename, ty, ty, renameAll_tys ps]
  | .alt p q => by rw [rename, ty, ty, rename_ty p, rename_ty q]
  | .diff p _ | .list p _ | .opt p | .kleene p | .plus p | .times _ _ p | .seek p | .expect p
  | .action p _ | .lexeme p | .noSkip p | .skip p | .skipWith _ p | .noCase p | .bind _ _ p
  | .hide _ p | .group p => by simp only [rename, ty, rename_ty p]

theorem renameAll_tys : ∀ ps : List Grammar, tys (renameAll f ps) = tys ps
  | [] => rfl
  | p :: ps => by rw [renameAll, tys, tys, rename_ty p, renameAll_tys ps]

end

mutual

@[simp] theorem rename_hasAction : ∀ g : Grammar, (rename f g).hasAction = g.hasAction
  | .terminal _ | .eps _ | .attr _ _ | .ahead _ | .notAhead _ | .into _ _ | .rule _
  | .define _ _ _ | .group _ | .action _ _ | .sealed _ _ => by simp only [rename, hasAction]
  | .seq ps => by rw [rename, hasAction, hasAction, renameAll_anyAction ps]
  | .alt p q | .list p q => by
    simp only [rename, hasAction, rename_hasAction p, rename_hasAction q]
  | .diff p _ | .opt p | .kleene p | .plus p | .times _ _ p | .seek p | .expect p
  | .raw p | .discard p | .flag p | .narrow _ _ p | .lexeme p | .noSkip p | .skip p
  | .skipWith _ p | .noCase p | .bind _ _ p | .hide _ p => by
    simp only [rename, hasAction, rename_hasAction p]

theorem renameAll_anyAction : ∀ ps : List Grammar, anyAction (renameAll f ps) = anyAction ps
  | [] => rfl
  | p :: ps => by rw [renameAll, anyAction, anyAction, rename_hasAction p, renameAll_anyAction ps]

end

/-! ## Renamings that change nothing -/

/-- The node carries no rule that the renaming gives another name. -/
def Kept : Grammar → Prop
  | .rule r | .define r _ _ => f r.name = r.name
  | _ => True

variable {f}

mutual

/-- A grammar whose rules keep their names is its own renaming. -/
theorem rename_of_kept : ∀ g : Grammar, g.All (Kept f) → rename f g = g
  | .terminal _, _ | .eps _, _ | .attr _ _, _ => by rw [rename]
  | .seq ps, h => by
    rw [rename, renameAll_of_kept ps fun p hp => h.child hp]
  | .alt p q, h | .diff p q, h | .list p q, h | .skipWith p q, h => by
    rw [rename, rename_of_kept p (h.child (by simp [children, parts])),
      rename_of_kept q (h.child (by simp [children, parts]))]
  | .opt p, h | .ahead p, h | .notAhead p, h | .kleene p, h | .plus p, h | .times _ _ p, h
  | .seek p, h | .expect p, h | .action p _, h | .raw p, h | .discard p, h | .flag p, h
  | .into _ p, h | .narrow _ _ p, h | .lexeme p, h | .noSkip p, h | .skip p, h | .noCase p, h
  | .bind _ _ p, h | .hide _ p, h | .group p, h | .sealed _ p, h => by
    rw [rename, rename_of_kept p (h.child List.mem_cons_self)]
  | .rule r, h => by rw [rename, Rule.rename_of_kept h.self]
  | .define r _ body, h => by
    rw [rename, Rule.rename_of_kept h.self, rename_of_kept body (h.child List.mem_cons_self)]

theorem renameAll_of_kept : ∀ ps : List Grammar, (∀ p ∈ ps, p.All (Kept f)) → renameAll f ps = ps
  | [], _ => rfl
  | p :: ps, h => by
    rw [renameAll, rename_of_kept p (h p List.mem_cons_self),
      renameAll_of_kept ps fun q hq => h q (List.mem_cons_of_mem _ hq)]

end

@[simp] theorem rename_id (g : Grammar) : rename id g = g := by
  refine rename_of_kept g fun x _ => ?_
  cases x <;> first | rfl | trivial

end Grammar

/-! ## Definitions -/

/-- The second definition has the body of the first one with the names of all rules replaced, and
    the rule takes the same from both. -/
structure Definition.Renamed (f : String → String) (r : Rule) (d d' : Definition) : Prop where
  body : d'.body = d.body.rename f
  fill : ∀ ruleVar v, Node.fillRule (r.rename f) d' ruleVar v = Node.fillRule r d ruleVar v

/-- The flag of a definition matters only where actions fill the rule. -/
theorem Definition.Renamed.of_flags {f : String → String} {r : Rule} {force force' : Bool}
    (body : Grammar) (h : force' = force ∨ r.forced = true ∨ body.hasAction = false) :
    Definition.Renamed f r ⟨body, force⟩ ⟨body.rename f, force'⟩ := by
  refine ⟨rfl, fun ruleVar v => ?_⟩
  obtain h | h | h := h <;>
    simp only [Node.fillRule, Rule.rename_forced, Rule.rename_ty, Grammar.rename_ty,
      Grammar.rename_hasAction, h, Bool.or_true, Bool.true_or, Bool.not_false]

theorem Definition.Renamed.refl (r : Rule) (d : Definition) : Definition.Renamed id r d d :=
  ⟨(Grammar.rename_id d.body).symm, fun _ _ => rfl⟩

end Peg
