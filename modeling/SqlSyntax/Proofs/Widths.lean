import SqlSyntax.Proofs.Checks
import SqlSyntax.Proofs.Numbering

/-!
# Widths of queries

A set operation is checked on its own: its two operands are compared, and an operand that is a set
operation itself is measured by the leftmost query in it. Along a chain of set operations that is
enough, since each of them compares one more operand with the leftmost one (`Tree.Chain.checks`).

A violation is found in a tree by its rule, which tells what was checked, and its number, which
tells the node that it is reported at.
-/

namespace SqlSyntax

open SqlSyntax.Tree

variable {source : Source} {mode : Mode} {t u w c : Tree} {v : Violation}

/-! ## Widths -/

namespace Tree

variable {operands joins : List Tree}

/-- The number of columns of a query without set operations: the items of its select list, or the
values of its first row. -/
def width (t : Tree) : Nat :=
  let columns := t.child? (if t.kind = .selectStmt then .selectList else .valuesRow)
  (columns.map (·.children.length)).getD 0

/-- A star stands in the select list. -/
def Starred (t : Tree) : Prop :=
  ∃ list ∈ t.children, list.kind = .selectList ∧
    ∃ item ∈ list.children, item.kind = .wildcard ∨ item.kind = .qualifiedWildcard

instance (t : Tree) : Decidable t.Starred :=
  inferInstanceAs (Decidable (∃ list ∈ t.children, list.kind = .selectList ∧
    ∃ item ∈ list.children, item.kind = .wildcard ∨ item.kind = .qualifiedWildcard))

/-- A query is a chain of operands, joined by set operations from left to right. The queries under
a set operation are the two that it joins; the others of its children are clauses. -/
inductive Chain : Tree → List Tree → List Tree → Prop
  | operand {t : Tree} (core : t.kind.isCore) : Chain t [t] []
  | joined {t left right : Tree} {operands joins : List Tree} (kind : t.kind = .compoundSelect)
    (queries : t.children.filter (·.kind.isQuery) = [left, right])
    (chain : Chain left operands joins) (core : right.kind.isCore) :
    Chain t (operands ++ [right]) (joins ++ [t])

end Tree

namespace Fills

variable {p : Place} {ps : List Place} {ts : List Tree}

/-- What a place must hold stands somewhere. -/
theorem exists_mem (h : Fills ps ts) (hp : p ∈ ps) (hleast : 0 < p.least) :
    ∃ t ∈ ts, p.admits t := by
  induction h with
  | nil => cases hp
  | @cons q ps now later hnow _ ih =>
    rcases List.mem_cons.1 hp with rfl | hp
    · obtain ⟨t, now, rfl⟩ := List.exists_cons_of_length_pos (Nat.lt_of_lt_of_le hleast hnow.least)
      exact ⟨t, List.mem_append_left _ List.mem_cons_self, hnow.admits t List.mem_cons_self⟩
    · obtain ⟨t, ht, hadmits⟩ := ih hp
      exact ⟨t, List.mem_append_right now ht, hadmits⟩

/-- What no place admits is not found. -/
theorem filter_eq_nil {test : Tree → Bool} (h : Fills ps ts)
    (hps : ∀ p ∈ ps, ∀ t, p.admits t → test t = false) : ts.filter test = [] := by
  induction h with
  | nil => rfl
  | @cons q ps now later hnow _ ih =>
    obtain ⟨hq, hps⟩ := List.forall_mem_cons.1 hps
    rw [List.filter_append, ih hps, List.append_nil]
    exact List.filter_eq_nil_iff.2 fun t ht => by simp [hq t (hnow.admits t ht)]

theorem exists_append (h : Fills (p :: ps) ts) :
    ∃ now later, ts = now ++ later ∧ p.Holds now ∧ Fills ps later := by
  obtain _ | ⟨hnow, hlater⟩ := h
  exact ⟨_, _, rfl, hnow, hlater⟩

/-- What no other place admits stands alone in a place of one tree. -/
theorem filter_eq_singleton {qs : List Place} {test : Tree → Bool}
    (h : Fills (ps ++ p :: qs) ts) (hmost : p.most = some 1)
    (hothers : ∀ q ∈ ps ++ qs, ∀ t, q.admits t → test t = false) (hc : c ∈ ts.filter test) :
    ts.filter test = [c] := by
  induction ps generalizing ts with
  | nil =>
    obtain ⟨now, later, rfl, hnow, hlater⟩ := h.exists_append
    rw [List.filter_append, hlater.filter_eq_nil hothers, List.append_nil] at hc ⊢
    have hlength : (now.filter test).length ≤ 1 :=
      Nat.le_trans (List.length_filter_le test now) (hnow.most 1 hmost)
    obtain ⟨d, hd⟩ :=
      List.length_eq_one_iff.1 (Nat.le_antisymm hlength (List.length_pos_of_mem hc))
    rw [hd] at hc ⊢
    rw [List.eq_of_mem_singleton hc]
  | cons q ps ih =>
    obtain ⟨now, later, rfl, hnow, hlater⟩ := h.exists_append
    obtain ⟨hq, hothers⟩ := List.forall_mem_cons.1 hothers
    have hfirst : now.filter test = [] :=
      List.filter_eq_nil_iff.2 fun d hd => by simp [hq d (hnow.admits d hd)]
    rw [List.filter_append, hfirst, List.nil_append] at hc ⊢
    exact ih hlater hothers hc

/-- So the child of a kind is found that has a place for itself. -/
theorem child?_eq {qs : List Place} {kind : Kind} (h : Fills (ps ++ p :: qs) t.children)
    (hmost : p.most = some 1) (hothers : ∀ q ∈ ps ++ qs, ∀ d, q.admits d → d.kind ≠ kind)
    (hc : c ∈ t.children) (hkind : c.kind = kind) : t.child? kind = some c := by
  have hfilter := h.filter_eq_singleton hmost
    (fun q hq d hd => beq_eq_false_iff_ne.2 (hothers q hq d hd))
    (List.mem_filter.2 ⟨hc, beq_iff_eq.2 hkind⟩)
  rw [Tree.child?, ← List.head?_filter, hfilter, List.head?_cons]

/-- A place of one tree. -/
theorem exists_cons {admits : Tree → Bool} (h : Fills (.exactly 1 admits :: ps) ts) :
    ∃ t later, ts = t :: later ∧ admits t ∧ Fills ps later := by
  obtain ⟨now, later, rfl, hnow, hlater⟩ := h.exists_append
  obtain ⟨t, rfl⟩ := List.length_eq_one_iff.1 (Nat.le_antisymm (hnow.most 1 rfl) hnow.least)
  exact ⟨t, later, rfl, hnow.admits t (List.mem_singleton_self t), hlater⟩

end Fills

namespace Tree

theorem Obeys.fills_query (h : t.Obeys) (hquery : t.kind.isQuery) :
    Fills (.before :: (t.kind.middle ++ Place.behind)) t.children :=
  h.fills _ (Kind.places?_of_isQuery hquery _)

theorem isQuery_of_behind {p : Place} (hp : p ∈ Place.behind) (c : Tree) (h : p.admits c) :
    c.kind.isQuery = false := by
  simp only [Place.behind, List.mem_cons, List.not_mem_nil, or_false] at hp
  rcases hp with rfl | rfl | rfl <;> rw [beq_iff_eq.1 h] <;> rfl

/-- A set operation has the two queries that it joins. -/
theorem Obeys.queries (h : t.Obeys) (hkind : t.kind = .compoundSelect) : ∃ left right,
    t.children.filter (·.kind.isQuery) = [left, right] ∧ left.kind.isQuery ∧
      right.kind.isCore := by
  have hfills := h.fills_query (by rw [hkind]; rfl)
  rw [hkind] at hfills
  obtain ⟨clauses, later, hchildren, hwith, hfills⟩ := hfills.exists_append
  obtain ⟨left, later, rfl, hleft, hfills⟩ := hfills.exists_cons
  obtain ⟨right, later, rfl, hright, hfills⟩ := hfills.exists_cons
  have hclauses : clauses.filter (·.kind.isQuery) = [] :=
    List.filter_eq_nil_iff.2 fun c hc => by rw [beq_iff_eq.1 (hwith.admits c hc)]; nofun
  have hcore : right.kind.isQuery := by
    generalize right.kind = k at hright
    cases k <;> first | rfl | cases hright
  refine ⟨left, right, ?_, hleft, hright⟩
  rw [hchildren, List.filter_append, hclauses, List.nil_append, List.filter_cons, if_pos hleft,
    List.filter_cons, if_pos hcore, hfills.filter_eq_nil fun p hp => isQuery_of_behind hp]

/-- Each query is such a chain. -/
theorem exists_chain : ∀ {t : Tree}, t.Complete → t.kind.isQuery →
    ∃ operands joins, t.Chain operands joins
  | .node n cs, h, hquery => by
    by_cases hkind : n.kind = .compoundSelect
    · obtain ⟨left, right, hqueries, hleft, hright⟩ := h.root.queries hkind
      have hmem : left ∈ cs := List.mem_of_mem_filter (hqueries ▸ List.mem_cons_self)
      obtain ⟨operands, joins, hchain⟩ := exists_chain (h.children left hmem) hleft
      exact ⟨_, _, .joined hkind hqueries hchain hright⟩
    · refine ⟨_, _, .operand ?_⟩
      show n.kind.isCore
      have hquery : n.kind.isQuery := hquery
      generalize n.kind = k at hkind hquery
      cases k <;> first | rfl | exact absurd rfl hkind | cases hquery

end Tree

/-! ## What is found along a chain -/

namespace Validation

variable {operands joins : List Tree}

theorem firstArity?_eq (ts : List Tree) :
    firstArity? ts = (ts.filter (·.kind.isQuery)).head?.bind arity? := by
  induction ts with
  | nil => rfl
  | cons t ts ih =>
    rw [firstArity?, List.filter_cons]
    split
    · rfl
    · exact ih

/-- A set operation is as wide as its left operand. -/
theorem arity?_compound {left right : Tree} (hkind : t.kind = .compoundSelect)
    (hqueries : t.children.filter (·.kind.isQuery) = [left, right]) : arity? t = arity? left := by
  obtain ⟨n, cs⟩ := t
  have hkind : n.kind = .compoundSelect := hkind
  have hqueries : cs.filter (·.kind.isQuery) = [left, right] := hqueries
  rw [arity?]
  simp only [hkind, firstArity?_eq, hqueries]
  rfl

theorem exists_child? {kind : Kind} (h : ∃ c ∈ t.children, c.kind = kind) :
    ∃ c, t.child? kind = some c := by
  obtain ⟨c, hc, hkind⟩ := h
  exact Option.isSome_iff_exists.1 (List.find?_isSome.2 ⟨c, hc, beq_iff_eq.2 hkind⟩)

theorem arity?_select (hkind : t.kind = .selectStmt) : arity? t =
    (t.child? .selectList).bind fun list =>
      if list.children.any fun c => c.kind == .wildcard || c.kind == .qualifiedWildcard then none
      else some list.children.length := by
  obtain ⟨n, cs⟩ := t
  have hkind : n.kind = .selectStmt := hkind
  rw [arity?]
  simp only [hkind]
  rfl

theorem arity?_values (hkind : t.kind = .valuesStmt) :
    arity? t = (t.child? .valuesRow).map (·.children.length) := by
  obtain ⟨n, cs⟩ := t
  have hkind : n.kind = .valuesStmt := hkind
  rw [arity?]
  simp only [hkind]
  rfl

/-- Without a star the width of an operand is known. -/
theorem arity?_core (hobeys : t.Obeys) (hcore : t.kind.isCore) (hstar : ¬ t.Starred) :
    arity? t = some t.width := by
  have hcases : t.kind = .selectStmt ∨ t.kind = .valuesStmt := by
    simpa [Kind.isCore] using hcore
  rcases hcases with hkind | hkind
  · have hfills := hobeys.fills_query (by rw [hkind]; rfl)
    rw [hkind] at hfills
    obtain ⟨list, hlist, hadmits⟩ := hfills.exists_mem (p := .exactly 1 (·.kind == .selectList))
      (by simp [Kind.middle]) Nat.one_pos
    obtain ⟨columns, hcolumns⟩ := exists_child? ⟨list, hlist, beq_iff_eq.1 hadmits⟩
    have hunstarred : ¬ columns.children.any fun c =>
        c.kind == .wildcard || c.kind == .qualifiedWildcard := by
      intro h
      obtain ⟨item, hitem, hstarred⟩ := List.any_eq_true.1 h
      refine hstar ⟨columns, List.mem_of_find?_eq_some hcolumns, ?_, item, hitem, ?_⟩
      · simpa using List.find?_some hcolumns
      · simpa using hstarred
    rw [arity?_select hkind, width, hkind, if_pos rfl, hcolumns, Option.bind_some,
      if_neg hunstarred]
    rfl
  · have hfills := hobeys.fills_query (by rw [hkind]; rfl)
    rw [hkind] at hfills
    obtain ⟨row, hrow, hadmits⟩ := hfills.exists_mem (p := .atLeast 1 (·.kind == .valuesRow))
      (by simp [Kind.middle]) Nat.one_pos
    obtain ⟨first, hfirst⟩ := exists_child? ⟨row, hrow, beq_iff_eq.1 hadmits⟩
    rw [arity?_values hkind, width, hkind, if_neg nofun, hfirst]
    rfl

/-- A set operation is reported where its operands are known to differ. -/
theorem checkCompound_eq_nil {left right : Tree} {l r : Nat}
    (hqueries : t.children.filter (·.kind.isQuery) = [left, right]) (hleft : arity? left = some l)
    (hright : arity? right = some r) : checkCompound source t = [] ↔ l = r := by
  unfold checkCompound
  rw [hqueries]
  simp [hleft, hright]

end Validation

namespace Tree

open SqlSyntax.Validation

variable {operands joins : List Tree}

namespace Chain

theorem mem_joins (h : t.Chain operands joins) :
    ∀ j ∈ joins, j ∈ t.preorder ∧ j.kind = .compoundSelect := by
  induction h with
  | operand => exact nofun
  | @joined t left right operands joins kind queries _ _ ih =>
    have hleft : left ∈ t.children := List.mem_of_mem_filter (queries ▸ List.mem_cons_self)
    refine List.forall_mem_append.2 ⟨fun j hj => ?_, List.forall_mem_singleton.2
      ⟨t.mem_preorder_self, kind⟩⟩
    exact ⟨mem_preorder_of_children hleft (ih j hj).1, (ih j hj).2⟩

/-- The set operations of a chain are in order if and only if all operands are as wide as the chain
is measured, which is by the leftmost of them. -/
theorem checks (source : Source) (h : t.Chain operands joins) (hcomplete : t.Complete)
    (hstar : ∀ o ∈ operands, ¬ o.Starred) :
    ∃ n, arity? t = some n ∧ (∃ o ∈ operands, o.width = n) ∧
      ((∀ j ∈ joins, checkCompound source j = []) ↔ ∀ o ∈ operands, o.width = n) := by
  induction h with
  | @operand t core =>
    refine ⟨t.width, arity?_core hcomplete.root core (hstar t (List.mem_singleton_self t)),
      ⟨t, List.mem_singleton_self t, rfl⟩, ?_⟩
    exact iff_of_true nofun (List.forall_mem_singleton.2 rfl)
  | @joined t left right operands joins kind queries _ core ih =>
    have hleft : left ∈ t.children := List.mem_of_mem_filter (queries ▸ List.mem_cons_self)
    have hright : right ∈ t.children := List.mem_of_mem_filter
      (queries ▸ List.mem_cons_of_mem left (List.mem_singleton_self right))
    obtain ⟨hstars, hstarRight⟩ := List.forall_mem_append.1 hstar
    obtain ⟨n, hn, ⟨o, ho, howidth⟩, hchecks⟩ := ih (hcomplete.children left hleft) hstars
    have hcheck : checkCompound source t = [] ↔ n = right.width := checkCompound_eq_nil queries hn
      (arity?_core (hcomplete.children right hright).root core
        (hstarRight right (List.mem_singleton_self right)))
    refine ⟨n, (arity?_compound kind queries).trans hn, ⟨o, List.mem_append_left _ ho, howidth⟩, ?_⟩
    rw [List.forall_mem_append, List.forall_mem_append, List.forall_mem_singleton,
      List.forall_mem_singleton, hchecks, hcheck, eq_comm (a := n)]

end Chain

end Tree

namespace Validation

/-- A violation of the width of set operations is reported at one of them, where it is checked. -/
theorem exists_checkCompound (ht : t.ids.Nodup) (hu : u ∈ t.preorder)
    (hkind : u.kind = .compoundSelect) :
    (∃ v ∈ validateAll source mode t, v.breach.rule = .setOperationArity ∧ v.node = u.head.id) ↔
      checkCompound source u ≠ [] := by
  constructor
  · rintro ⟨v, hv, hrule, hnode⟩
    obtain ⟨w, hw, hv⟩ := mem_validateAll.1 hv
    have hrules := rule_mem_of_mem_check hv
    have hwkind : w.kind = .compoundSelect := by
      rw [hrule] at hrules
      generalize w.kind = k at hrules
      cases k <;> first | rfl | exact absurd hrules (by decide)
    rw [check, hwkind] at hv
    obtain rfl := eq_of_id ht hu hw (hnode.symm.trans (mem_checkCompound hv).2)
    exact List.ne_nil_of_mem hv
  · intro h
    obtain ⟨v, hv⟩ := List.exists_mem_of_ne_nil _ h
    refine ⟨v, mem_validateAll.2 ⟨u, hu, ?_⟩, (mem_checkCompound hv).1, (mem_checkCompound hv).2⟩
    rw [check, hkind]
    exact hv

end Validation

open SqlSyntax.Validation in
/-- Every query in a tree that a call makes is a chain of operands, also with other clauses. If no
operand has a star in its select list, then a set operation of the chain is reported for the widths
of its operands if and only if two operands of the chain are not equally wide. -/
theorem Session.Builds.chain_widths {s : Session} (h : s.Builds source t) (mode : Mode) {q : Tree}
    (hq : q ∈ t.preorder) (hquery : q.kind.isQuery) :
    (∃ operands joins, q.Chain operands joins) ∧
    ∀ operands joins, q.Chain operands joins → (∀ o ∈ operands, ¬ o.Starred) →
      ((∃ v ∈ validateAll source mode t, v.breach.rule = .setOperationArity ∧
          ∃ j ∈ joins, v.node = j.head.id) ↔
        ∃ a ∈ operands, ∃ b ∈ operands, a.width ≠ b.width) := by
  have hcomplete : q.Complete := fun u hu => h.complete u (mem_preorder_trans hu hq)
  refine ⟨exists_chain hcomplete hquery, fun operands joins hchain hstar => ?_⟩
  obtain ⟨n, -, ⟨o, ho, rfl⟩, hchecks⟩ := hchain.checks source hcomplete hstar
  have hreported : (∃ v ∈ validateAll source mode t, v.breach.rule = .setOperationArity ∧
      ∃ j ∈ joins, v.node = j.head.id) ↔ ∃ j ∈ joins, checkCompound source j ≠ [] := by
    constructor
    · rintro ⟨v, hv, hrule, j, hj, hnode⟩
      obtain ⟨hmem, hkind⟩ := hchain.mem_joins j hj
      exact ⟨j, hj, (exists_checkCompound h.nodup (mem_preorder_trans hmem hq) hkind).1
        ⟨v, hv, hrule, hnode⟩⟩
    · rintro ⟨j, hj, hcheck⟩
      obtain ⟨hmem, hkind⟩ := hchain.mem_joins j hj
      obtain ⟨v, hv, hrule, hnode⟩ : ∃ v ∈ validateAll source mode t,
          v.breach.rule = .setOperationArity ∧ v.node = j.head.id :=
        (exists_checkCompound h.nodup (mem_preorder_trans hmem hq) hkind).2 hcheck
      exact ⟨v, hv, hrule, j, hj, hnode⟩
  rw [hreported]
  constructor
  · rintro ⟨j, hj, hcheck⟩
    by_contra hsame
    push Not at hsame
    exact hcheck (hchecks.2 (fun a ha => hsame a ha o ho) j hj)
  · rintro ⟨a, ha, b, hb, hne⟩
    by_contra hnone
    push Not at hnone
    have hall := hchecks.1 hnone
    exact hne ((hall a ha).trans (hall b hb).symm)

open SqlSyntax.Validation in
/-- A row of two values and a select list with one item, with clauses before and behind them. -/
theorem Session.Builds.chain_widths_union :
    let text := "WITH a AS (SELECT *) VALUES (1, 2) UNION SELECT 3 ORDER BY 1 LIMIT 4"
    ∃ t operands joins, ({} : Session).Builds text.toList t ∧ t.Chain operands joins ∧
      operands.map width = [2, 1] ∧ ∃ v ∈ validateAll text.toList .production t,
        v.breach.rule = .setOperationArity ∧ ∃ j ∈ joins, v.node = j.head.id := by
  intro text
  have hfound : (Script.single.run (({} : Session).scope .one text.toList)
      (({} : Session).start (tokenize text.toList))).answer.toOption.map (fun t =>
        (t.kind, t.children.map fun c => (c.kind, c.width, decide c.Starred))) =
      some (.compoundSelect, [(.withClause, 0, false), (.valuesStmt, 2, false),
        (.selectStmt, 1, false), (.orderByClause, 0, false), (.limitClause, 0, false)]) := by
    decide +kernel
  rcases hrun : (Script.single.run (({} : Session).scope .one text.toList)
      (({} : Session).start (tokenize text.toList))).answer with f | t
  · rw [hrun] at hfound
    cases hfound
  rw [hrun] at hfound
  obtain ⟨hkind, hchildren⟩ := Prod.mk.inj (Option.some.inj hfound)
  obtain ⟨first, cs, hcs, hfirst, hchildren⟩ := List.map_eq_cons_iff.1 hchildren
  obtain ⟨left, cs, rfl, hleft, hchildren⟩ := List.map_eq_cons_iff.1 hchildren
  obtain ⟨right, cs, rfl, hright, hchildren⟩ := List.map_eq_cons_iff.1 hchildren
  obtain ⟨order, cs, rfl, horder, hchildren⟩ := List.map_eq_cons_iff.1 hchildren
  obtain ⟨limit, cs, rfl, hlimit, hchildren⟩ := List.map_eq_cons_iff.1 hchildren
  obtain rfl := List.map_eq_nil_iff.1 hchildren
  simp only [Prod.mk.injEq, decide_eq_false_iff_not] at hfirst hleft hright horder hlimit
  have hqueries : t.children.filter (·.kind.isQuery) = [left, right] := by
    simp [hcs, hfirst.1, hleft.1, hright.1, horder.1, hlimit.1, Kind.isQuery]
  have hchain : t.Chain ([left] ++ [right]) ([] ++ [t]) :=
    .joined hkind hqueries (.operand (by rw [hleft.1]; rfl)) (by rw [hright.1]; rfl)
  have hbuilds : ({} : Session).Builds text.toList t := .single hrun
  have hreported := (hbuilds.chain_widths .production t.mem_preorder_self
    (by rw [hkind]; rfl)).2 _ _ hchain (by simp [hleft.2.2, hright.2.2])
  exact ⟨t, _, _, hbuilds, hchain, by simp [hleft.2.1, hright.2.1],
    hreported.2 ⟨left, by simp, right, by simp, by simp [hleft.2.1, hright.2.1]⟩⟩

end SqlSyntax
