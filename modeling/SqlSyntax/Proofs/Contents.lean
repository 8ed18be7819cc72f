import SqlSyntax.Proofs.Contents.Statement
import SqlSyntax.Proofs.Session

/-!
# What expressions and queries are made of

The tree of a statement that is answered tells by its kinds what stands where: an operator has its
operands and no more, a call has no arguments beside a star, the clauses of a query stand in their
order behind a `WITH`, and only the first query of a set operation is one itself
(`Session.parse_obeys`). Each production fills the places of its node one after the other, so the
induction is on how deep the productions call one another.
-/

namespace SqlSyntax

open SqlSyntax.Parser SqlSyntax.Tree

/-- What holds of statements however deep the productions call one another holds of the only
statement. -/
theorem Script.single_of_statement {fact : Tree → Prop}
    (h : ∀ n, Answers (Nested.upTo n).statement fact) : Answers single fact := by
  unfold single
  refine .skip fun _ => .skip fun b => ?_
  cases b
  · refine .bind (.skip fun s => h _) fun root hroot => ?_
    refine .skip fun _ => .skip fun b => ?_
    cases b
    · exact .unexpected _
    · exact .pure hroot
  · exact .unexpected _

theorem Script.single_answers : Answers single Complete :=
  single_of_statement fun n => (Nested.upTo_fits n).statement

/-- Each node of a tree that a call answers with holds what its kind asks for, and its children
fill the places of its kind. -/
theorem Session.parse_obeys (s : Session) (source : Source) (t : Tree)
    (h : (s.parse source).1 = .ok t) : ∀ u ∈ t.preorder, u.Obeys := by
  obtain ⟨a, ha, hcheck⟩ := exists_of_finish h
  obtain rfl := checked_eq hcheck
  obtain ⟨s', hrun⟩ := exists_of_answer ha
  exact Script.single_answers hrun

/-- A call with a star, a sign, a join, a set operation and a limit with its offset. -/
theorem Session.parse_obeys_union :
    let text := "SELECT COUNT(*), - b FROM t JOIN u ON a = b UNION VALUES (1, 2) LIMIT 3, 4"
    ∃ t, (({} : Session).parse text.toList).1 = .ok t ∧ ∀ u ∈ t.preorder, u.Obeys := by
  intro text
  have hok : (({} : Session).parse text.toList).1.isOk := by
    decide +kernel
  rcases h : (({} : Session).parse text.toList).1 with f | t
  · rw [h] at hok
    cases hok
  · exact ⟨t, rfl, parse_obeys _ _ t h⟩

end SqlSyntax
