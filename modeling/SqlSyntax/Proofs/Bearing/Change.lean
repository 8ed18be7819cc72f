import SqlSyntax.Grammar.Change
import SqlSyntax.Proofs.Bearing.Query

/-!
# The parts of an insertion

Each part of an insertion is put behind those that were read before it, if it is there. Only a
`WITH` is put before all others, once they are there (`Tree.Inserts`).
-/

namespace SqlSyntax

open SqlSyntax.Parser SqlSyntax.Facts

variable {Γ : Facts Family} {σ : Family} {t c : Tree} {ps : List Place} {p : Place} {self : Nested}

set_option synthInstance.maxSize 1000

theorem Place.Holds.some_of_only {k : Kind} (h : Family.only k c.kind) :
    (Place.optional (·.kind == k)).Holds [c] := .some h

/-- An insertion whose parts fill these places. -/
structure Tree.Inserts (ps : List Place) (t : Tree) : Prop where
  kind : t.kind = .insertStmt
  parts : ∀ c ∈ t.children, c.Of .plain
  fills : Fills ps t.children

namespace Tree.Inserts

theorem mapHead (h : t.Inserts ps) {change : Node → Node} (hc : ∀ n, (change n).kind = n.kind) :
    (t.mapHead change).Inserts ps := by
  cases t
  exact ⟨(hc _).trans h.kind, h.parts, h.fills⟩

theorem append (h : t.Inserts ps) (hc : c.Of .plain) (hp : p.Holds [c]) :
    (t.append [c]).Inserts (ps ++ [p]) :=
  ⟨h.kind, List.forall_mem_append.2 ⟨h.parts, List.forall_mem_singleton.2 hc⟩,
    h.fills.append (.single hp)⟩

/-- The part is left out. -/
theorem skip (h : t.Inserts ps) (hp : p.least = 0) : t.Inserts (ps ++ [p]) :=
  ⟨h.kind, h.parts, List.append_nil t.children ▸
    h.fills.append (.empty (List.forall_mem_singleton.2 hp))⟩

theorem prepend (h : t.Inserts ps) (hc : c.Of .plain) (hp : p.Holds [c]) :
    (t.prepend c).Inserts (p :: ps) :=
  ⟨h.kind, List.forall_mem_cons.2 ⟨hc, h.parts⟩, .cons hp h.fills⟩

theorem skipFirst (h : t.Inserts ps) (hp : p.least = 0) : t.Inserts (p :: ps) :=
  ⟨h.kind, h.parts, List.nil_append t.children ▸ .cons (.nil hp) h.fills⟩

theorem of (h : t.Inserts Place.insertion) : t.Of (.only .insertStmt) := by
  refine ⟨beq_iff_eq.2 h.kind, ?_⟩
  cases t
  refine everywhere_node.2 ⟨⟨fun c hc => ?_, fun _ => h.fills⟩, fun c hc => (h.parts c hc).ordered⟩
  have hplain := (h.parts c hc).kind
  rw [h.kind]
  generalize c.kind = k at hplain ⊢
  cases k <;> first | rfl | cases hplain

end Tree.Inserts

open SqlSyntax.Tree

namespace Change

instance conflictAction_plants (start word : Token) :
    Plants Γ (conflictAction start word) (.only .conflictAction) := by
  unfold conflictAction
  infer_instance

instance orAction?_plants [Knows Γ t σ] [σ.Over (.only .conflictAction)] :
    Plants Γ (orAction? t) σ := by
  unfold orAction?
  exact .widen

instance insertTable_plants : Plants Γ insertTable (.only .tableRef) := by
  unfold insertTable
  exact .widen

instance assigned_plants : Plants Γ assigned (.only .assignment) := by
  unfold assigned
  exact .widen

instance target_plants : Plants Γ target (.only .tableRef) := by
  unfold target
  infer_instance

variable [self.Bears]

instance returning?_plants [Knows Γ t σ] [σ.Over (.only .returningClause)] :
    Plants Γ (returning? self t) σ := by
  unfold returning?
  exact .widen

instance assignment_plants : Plants Γ (assignment self) (.only .assignment) := by
  unfold assignment
  infer_instance

instance setClause_plants : Plants Γ (setClause self) (.only .setClause) := by
  unfold setClause
  infer_instance

instance update_plants : Plants Γ (update self) (.only .updateStmt) := by
  unfold update
  infer_instance

instance delete_plants : Plants Γ (delete self) (.only .deleteStmt) := by
  unfold delete
  infer_instance

/-! ## Insertions -/

theorem nodeAt_inserts (word : Token) : Answers (nodeAt .insertStmt word) (Inserts []) := by
  intro _ _ _ _ hrun
  cases hrun
  exact ⟨rfl, nofun, .nil⟩

theorem flag_inserts (h : t.Inserts ps) (f : Flag) : Answers (flag t f) (Inserts ps) :=
  (Answers.amend t _).weaken fun _ hu => hu ▸ h.mapHead fun _ => rfl

theorem attach_inserts (h : t.Inserts ps) (hc : c.Of σ) (hσ : σ.Sub .plain)
    (hp : ∀ c : Tree, σ c.kind → p.Holds [c]) : Answers (attach t c) (Inserts (ps ++ [p])) :=
  (Answers.attach_eq t c).weaken fun _ hu => hu ▸ h.append (hc.sub hσ) (hp c hc.kind)

/-- A part that is read is put behind the others. -/
theorem part_inserts (h : t.Inserts ps) {part : Parser Tree}
    (hpart : Plants ([] : Facts Family) part σ) (hσ : σ.Sub .plain)
    (hp : ∀ c : Tree, σ c.kind → p.Holds [c]) :
    Answers (do attach t (← part)) (Inserts (ps ++ [p])) :=
  (hpart.answers nofun).bind fun _ hc =>
    attach_inserts h (List.forall_mem_singleton.1 hc) hσ hp

theorem insertAction_inserts (h : t.Inserts ps) (word : Token) :
    Answers (insertAction t word)
      (Inserts (ps ++ [.optional (·.kind == .conflictAction)])) := by
  have hnone := h.skip (p := .optional (·.kind == .conflictAction)) rfl
  unfold insertAction
  split
  · exact flag_inserts hnone _
  unfold orAction?
  refine .skip fun o => ?_
  rcases o with _ | or
  · exact .pure hnone
  have haction (word : Token) :
      Plants ([] : Facts Family) (conflictAction or word) (.only .conflictAction) :=
    inferInstance
  refine .skip fun action => ((haction action).answers nofun).bind fun c hc => ?_
  have hc := List.forall_mem_singleton.1 hc
  refine (attach_inserts h hc inferInstance fun _ => .some_of_only).bind fun u hu => ?_
  unfold flagIf
  split
  · exact flag_inserts hu _
  · exact .pure hu

theorem insertColumns?_inserts (h : t.Inserts ps) :
    Answers (insertColumns? t) (Inserts (ps ++ [.optional (·.kind == .columnList)])) := by
  have hnone := h.skip (p := .optional (·.kind == .columnList)) rfl
  unfold insertColumns?
  refine .either (.skip fun o => ?_) (.pure hnone)
  split
  · exact .pure hnone
  · exact .pure hnone
  · exact .pure hnone
  · exact part_inserts h inferInstance inferInstance fun _ => .some_of_only

theorem insertSource_inserts (h : t.Inserts ps) :
    Answers (insertSource self t)
      (Inserts (ps ++ [.optional fun c => c.kind == .valuesClause || c.kind.isQuery])) := by
  have hrows : ∀ c : Tree, Family.only .valuesClause c.kind →
      (Place.optional fun c => c.kind == .valuesClause || c.kind.isQuery).Holds [c] :=
    fun _ hc => .some (Bool.or_eq_true_iff.2 (.inl hc))
  have hquery : ∀ c : Tree, Family.query c.kind →
      (Place.optional fun c => c.kind == .valuesClause || c.kind.isQuery).Holds [c] := by
    refine fun c hc => .some (Bool.or_eq_true_iff.2 (.inr ?_))
    generalize c.kind = k at hc
    cases k <;> first | rfl | cases hc
  unfold insertSource
  refine .skip fun o => ?_
  split
  · exact part_inserts h inferInstance inferInstance hrows
  · exact .skip fun _ => .skip fun _ => flag_inserts (h.skip rfl) _
  · exact part_inserts h inferInstance inferInstance hquery
  · exact part_inserts h inferInstance inferInstance hquery
  · have hself : Plants ([] : Facts Family) (within .subquery self.query) .query := inferInstance
    refine .skip fun _ => (hself.answers nofun).bind fun query hc => .skip fun _ => ?_
    exact attach_inserts h (List.forall_mem_singleton.1 hc) inferInstance hquery
  · exact .unexpected _

theorem returning?_inserts (h : t.Inserts ps) :
    Answers (returning? self t) (Inserts (ps ++ [.optional (·.kind == .returningClause)])) := by
  unfold returning?
  exact .either (part_inserts h inferInstance inferInstance fun _ => .some_of_only)
    (.pure (h.skip rfl))

theorem insert_inserts : Answers (insert self) (Inserts Place.insertion.tail) := by
  have htable : Plants ([] : Facts Family) insertTable (.only .tableRef) := inferInstance
  unfold insert
  refine .skip fun o => ?_
  rcases o with _ | word
  · exact .unexpected _
  refine (nodeAt_inserts word).bind fun statement h => ?_
  refine (insertAction_inserts h word).bind fun statement h => .skip fun _ => ?_
  refine (htable.answers nofun).bind fun table hc => ?_
  have hc := List.forall_mem_singleton.1 hc
  refine (attach_inserts h hc inferInstance fun _ => .some_of_only).bind fun statement h => ?_
  refine (insertColumns?_inserts h).bind fun statement h => ?_
  refine (insertSource_inserts h).bind fun statement h => ?_
  refine (returning?_inserts h).bind fun statement h => .skip fun _ => ?_
  exact (Answers.amend statement _).weaken fun _ hu => hu ▸ h.mapHead fun _ => rfl

instance insert_plants : Plants Γ (insert self) (.only .insertStmt) :=
  ⟨fun _ => insert_inserts.weaken fun _ h => List.forall_mem_singleton.2 (h.skipFirst rfl).of⟩

end Change

end SqlSyntax
