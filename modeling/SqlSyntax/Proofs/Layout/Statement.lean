import SqlSyntax.Grammar.Statement
import SqlSyntax.Proofs.Layout.Schema

/-!
# Statements over their tokens

A statement reaches from its first token to its last, but for a `WITH` in front of it. The
productions that occur inside one another lay out their trees at every depth, by induction on it.
-/

namespace SqlSyntax

open SqlSyntax.Parser

variable {c : Option Context} {w r v : List Token} {stage : Stage} {l : Label} {t : Tree}
  {x : Token} {kind : Kind}

theorem Parser.Yields.statement {p : Parser Tree} (hp : Yields p c (Tree.Whole kind c))
    (hk : Role.statement.admits kind = true) : Yields p c (Tree.Stands .statement c) :=
  fun r => (hp r).weaken fun _ _ _ _ h => h.stands hk

theorem Tree.Stands.statement (h : t.Stands .query c w) : t.Stands .statement c w where
  laid := h.laid
  admits := by
    have hk : t.kind.isQuery = true := h.admits
    simp [Role.admits, hk]
  context := h.context
  frames _ := h.frames rfl
  ended := h.ended

namespace Utility

theorem transactionMode?_lays (h : t.Rooted stage l w) :
    (transactionMode? t).Lays c w r fun t w _ => t.Rooted stage l w := by
  unfold transactionMode?
  refine .takeIf? (fun x _ _ hx => ?_) (.pure h)
  exact .stays (.setText (h.tokens (Quiet.of_keyword hx).stars) x) fun _ h => h

theorem begin_lays (hx : HasStars 0 [x]) :
    begin.Lays c [] (x :: r) fun t w _ => t.Whole .beginStmt c w := by
  unfold begin
  refine .advance (.stay (.opened (w := [x]) rfl hx) fun t h => ?_)
  split
  · refine .discard (.expectKeyword fun y _ _ hy => ?_)
    exact .finishes (h.after hy rfl) fun t h => h.whole rfl rfl
  · refine (transactionMode?_lays h).bind fun t _ _ _ h => ?_
    refine .discard (.call (consumeKeyword_laid _) fun _ u _ _ hu => ?_)
    exact .finishes (h.tokens hu.stars) fun t h => h.whole rfl rfl

theorem commit_lays (hx : HasStars 0 [x]) :
    commit.Lays c [] (x :: r) fun t w _ => t.Whole .commitStmt c w := by
  unfold commit
  refine .advance (.stay (.opened (w := [x]) rfl hx) fun t h => ?_)
  refine .discard (.call (consumeKeyword_laid _) fun _ u _ _ hu => ?_)
  exact .finishes (h.tokens hu.stars) fun t h => h.whole rfl rfl

theorem finishNamed_lays (h : t.Rooted stage l w) (what : String) :
    (finishNamed t what).Lays c w r fun t w _ => t.Finished l w := by
  unfold finishNamed
  refine .expectWord fun x _ _ hx => ?_
  refine .stay (.setText (h.tokens (Quiet.of_isName hx).stars) x) fun t h => ?_
  exact .finishes h fun _ h => h

theorem rollback_laid : Yields rollback c (Tree.Whole .rollbackStmt c) := by
  intro r
  unfold rollback
  refine .expectKeyword fun x _ _ hx => ?_
  refine .stay (.opened (w := [x]) rfl (.one hx rfl)) fun t h => ?_
  refine .discard (.call (consumeKeyword_laid _) fun _ u _ _ hu => ?_)
  have h := h.tokens hu.stars
  refine .consumeKeyword (fun y _ _ hy => ?_) (.finishes h fun t h => h.whole rfl rfl)
  refine .discard (.call (consumeKeyword_laid _) fun _ u _ _ hu => ?_)
  refine (finishNamed_lays ((h.after hy rfl).tokens hu.stars) _).weaken fun t _ _ _ h => ?_
  exact h.whole rfl rfl

theorem savepoint_laid : Yields savepoint c (Tree.Whole .savepointStmt c) := by
  intro r
  unfold savepoint
  refine .expectKeyword fun x _ _ hx => ?_
  refine .stay (.opened (w := [x]) rfl (.one hx rfl)) fun t h => ?_
  exact (finishNamed_lays h _).weaken fun t _ _ _ h => h.whole rfl rfl

theorem release_laid : Yields release c (Tree.Whole .releaseStmt c) := by
  intro r
  unfold release
  refine .expectKeyword fun x _ _ hx => ?_
  refine .stay (.opened (w := [x]) rfl (.one hx rfl)) fun t h => ?_
  refine .discard (.call (consumeKeyword_laid _) fun _ u _ _ hu => ?_)
  exact (finishNamed_lays (h.tokens hu.stars) _).weaken fun t _ _ _ h => h.whole rfl rfl

theorem queryPlan?_lays (h : t.Rooted stage l w) :
    (queryPlan? t).Lays c w r fun t w _ => t.Rooted stage l w := by
  unfold queryPlan?
  refine .consumeKeyword (fun x _ _ hx => .discard (.expectKeyword fun y _ _ hy => ?_)) (.pure h)
  exact .stays (.flag ((h.after hx rfl).after hy rfl) rfl) fun _ h => h

theorem seesName_peeks : Stays c seesName fun _ => True := .peek _

theorem detachDatabase_laid : Yields detachDatabase c (Tree.Whole .detachStmt c) := by
  intro r
  unfold detachDatabase
  refine .expectKeyword fun x _ _ hx => ?_
  refine .stay (.opened (w := [x]) rfl (.one hx rfl)) fun t h => ?_
  refine .discard (.call (consumeKeyword_laid _) fun _ u _ _ hu => ?_)
  exact (finishNamed_lays (h.tokens hu.stars) _).weaken fun t _ _ _ h => h.whole rfl rfl

theorem upkeep_laid (k : Keyword) (hk : kind = .reindexStmt ∨ kind = .analyzeStmt) :
    Yields (upkeep kind k) c (Tree.Whole kind c) := by
  have hkind : kind.isWildcard = false ∧
      ∀ start w, (⟨kind, c, start, false⟩ : Label).Takes w .plain c := by
    rcases hk with rfl | rfl <;> exact ⟨rfl, fun _ _ => rfl⟩
  intro r
  unfold upkeep
  refine .expectKeyword fun x _ _ hx => ?_
  refine .stay (.opened (w := [x]) rfl ((HasStars.one hx rfl).kind hkind.1)) fun t h => ?_
  refine .stay seesName_peeks fun b _ => ?_
  have hname := plainName_laid (c := c) .objectName rfl rfl
  refine (Lays.attachIf b h hname (hkind.2 _ _)).bind fun t _ _ _ h => ?_
  exact .finishes h fun t h => h.whole rfl rfl

section

variable {inner : Nested} (hinner : inner.Lays)
include hinner

theorem explain_laid : Yields (explain inner) c (Tree.Whole .explainStmt c) := by
  intro r
  unfold explain
  refine .expectKeyword fun x _ _ hx => ?_
  refine .stay (.opened (w := [x]) rfl (.one hx rfl)) fun t h => ?_
  refine (queryPlan?_lays h).bind fun t _ _ _ h => ?_
  refine .under h hinner.statement rfl fun t _ _ _ h => ?_
  exact .finishes h fun t h => h.whole rfl rfl

theorem setting_laid : Yields (setting inner) c (Tree.Whole .setStmt c) := by
  intro r
  unfold setting
  refine .expectKeyword fun x _ _ hx => ?_
  refine .stay (.opened (w := [x]) rfl (.one hx rfl)) fun t h => ?_
  refine (Lays.attachList h (Change.assignment_laid hinner) rfl fun _ => rfl).bind ?_
  intro t _ _ _ h
  exact .finishes h fun t h => h.whole rfl rfl

theorem pragmaValue_laid : Yields (pragmaValue inner) c (Tree.Stands .plain c) := by
  intro r
  unfold pragmaValue
  refine .takeIf? (fun x _ _ hx => ?_) (hinner.expression 0 _)
  have hquiet : Quiet [x] := by
    rcases Bool.or_eq_true_iff.1 hx with hx | hx
    · exact .one (eq_of_beq hx) rfl
    · exact .of_keyword (by rw [Option.any_true]; exact hx)
  exact .stays (.named (w := [x]) rfl hquiet.stars) fun t h => h.stands rfl rfl

theorem pragma_laid : Yields (pragma inner) c (Tree.Whole .pragmaStmt c) := by
  intro r
  unfold pragma
  refine .expectKeyword fun x _ _ hx => ?_
  refine .stay (.opened (w := [x]) rfl (.one hx rfl)) fun t h => ?_
  refine .under h (plainName_laid .objectName rfl rfl) rfl fun t _ _ _ h => ?_
  refine .consume (fun y _ _ hy => ?_) (.consume (fun y _ _ hy => ?_) ?_)
  · refine .under (h.after hy rfl) (pragmaValue_laid hinner) rfl fun t _ _ _ h => ?_
    exact .finishes h fun t h => h.whole rfl rfl
  · refine .call (pragmaValue_laid hinner) fun value v _ _ hvalue => ?_
    refine .discard (.expect fun z _ _ hz => ?_)
    refine .stay (.attach (h.after hy rfl) hvalue rfl) fun t h => ?_
    exact .finishes (h.after hz rfl) fun t h => h.whole rfl rfl
  · exact .finishes h fun t h => h.whole rfl rfl

theorem vacuum_laid : Yields (vacuum inner) c (Tree.Whole .vacuumStmt c) := by
  intro r
  unfold vacuum
  refine .expectKeyword fun x _ _ hx => ?_
  refine .stay (.opened (w := [x]) rfl (.one hx rfl)) fun t h => ?_
  refine .stay seesName_peeks fun b _ => ?_
  refine (Lays.attachIf b h (plainName_laid .objectName rfl rfl) rfl).bind fun t _ _ _ h => ?_
  refine .call (consumeKeyword_laid _) fun into u _ _ hu => ?_
  refine (Lays.attachIf into (h.tokens hu.stars) (hinner.expression 0) rfl).bind ?_
  exact fun t _ _ _ h => .finishes h fun t h => h.whole rfl rfl

theorem attachDatabase_laid : Yields (attachDatabase inner) c (Tree.Whole .attachStmt c) := by
  intro r
  unfold attachDatabase
  refine .expectKeyword fun x _ _ hx => ?_
  refine .stay (.opened (w := [x]) rfl (.one hx rfl)) fun t h => ?_
  refine .discard (.call (consumeKeyword_laid _) fun _ u _ _ hu => ?_)
  refine .under (h.tokens hu.stars) (hinner.expression 0) rfl fun t _ _ _ h => ?_
  refine .discard (.expectKeyword fun y _ _ hy => ?_)
  exact (finishNamed_lays (h.after hy rfl) _).weaken fun t _ _ _ h => h.whole rfl rfl

end

end Utility

namespace Statement

section

variable {inner : Nested} (hinner : inner.Lays)
include hinner

theorem afterWith_lays {clause : Tree} (hclause : clause.Whole .withClause c v) :
    (afterWith inner clause).Lays c v r fun t w _ => t.Stands .statement c w := by
  have hquery {r : List Token} : (Query.afterWith inner clause).Lays c v r fun t w _ =>
      t.Stands .statement c w :=
    (Query.afterWith_lays hinner hclause).weaken fun _ _ _ _ h => h.statement
  -- an insertion is known to begin with its keyword
  have hinsert {x : Token} {r : List Token} {k : Keyword} (hx : x.kind = .keyword k) :
      Lays c v (x :: r) (do prepend (← Change.insert inner) clause) fun t w _ =>
        t.Stands .statement c w := by
    refine .callFrom (List.append_nil v).symm (Change.insert_lays hinner (.one hx rfl)) ?_
    intro t w _ h
    exact .stays (.prepend _ _) fun t' ht => ht ▸ hclause.with h rfl rfl
  unfold afterWith
  rcases r with _ | ⟨x, r⟩
  · exact .currentKind hquery
  · refine .currentKind ?_
    simp only [List.getElem?_cons_zero, Option.map_some]
    split
    · next hx => exact hinsert (Option.some.inj hx)
    · next hx => exact hinsert (Option.some.inj hx)
    · refine .call (Change.update_laid hinner) fun t w _ _ h => ?_
      exact .stays (.prepend _ _) fun t' ht => ht ▸ hclause.with h rfl rfl
    · refine .call (Change.delete_laid hinner) fun t w _ _ h => ?_
      exact .stays (.prepend _ _) fun t' ht => ht ▸ hclause.with h rfl rfl
    · exact hquery

theorem extension_laid (x : Token) (k : Keyword) :
    Yields (extension inner x k) c (Tree.Stands .statement c) := by
  intro r
  unfold extension
  refine .ask fun scope => ?_
  split
  · split
    · exact (Utility.pragma_laid hinner).statement rfl r
    · exact (Utility.vacuum_laid hinner).statement rfl r
    · exact (Utility.attachDatabase_laid hinner).statement rfl r
    · exact Utility.detachDatabase_laid.statement rfl r
    · exact (Utility.upkeep_laid .REINDEX (.inl rfl)).statement rfl r
  · exact .throw _

theorem ofKeyword_lays {k : Keyword} (hx : x.kind = .keyword k) :
    (ofKeyword inner x k).Lays c [] (x :: r) fun t w _ => t.Stands .statement c w := by
  have hstars : HasStars 0 [x] := .one hx rfl
  have hquery : (query inner).Lays c [] (x :: r) fun t w _ => t.Stands .statement c w :=
    (query_laid hinner _).weaken fun _ _ _ _ h => h.statement
  have hwith : Lays c [] (x :: r) (do afterWith inner (← Query.withClause inner)) fun t w _ =>
      t.Stands .statement c w :=
    .call (Query.withClause_laid hinner) fun clause v _ _ h => afterWith_lays hinner h
  have hinsert : (Change.insert inner).Lays c [] (x :: r) fun t w _ => t.Stands .statement c w :=
    (Change.insert_lays hinner hstars).weaken fun _ _ _ _ h => h.stands rfl
  have hbegin : Utility.begin.Lays c [] (x :: r) fun t w _ => t.Stands .statement c w :=
    (Utility.begin_lays hstars).weaken fun _ _ _ _ h => h.stands rfl
  have hcommit : Utility.commit.Lays c [] (x :: r) fun t w _ => t.Stands .statement c w :=
    (Utility.commit_lays hstars).weaken fun _ _ _ _ h => h.stands rfl
  have hextension (k : Keyword) := extension_laid hinner (c := c) x k (x :: r)
  unfold ofKeyword
  split
  · exact hquery
  · exact hquery
  · exact hwith
  · exact hinsert
  · exact hinsert
  · exact (Change.update_laid hinner).statement rfl _
  · exact (Change.delete_laid hinner).statement rfl _
  · exact Schema.create_laid hinner _
  · exact Schema.drop_laid.statement rfl _
  · exact (Schema.alter_laid hinner).statement rfl _
  · exact Schema.truncate_laid.statement rfl _
  · exact hbegin
  · exact hbegin
  · exact hcommit
  · exact hcommit
  · exact Utility.rollback_laid.statement rfl _
  · exact Utility.savepoint_laid.statement rfl _
  · exact Utility.release_laid.statement rfl _
  · exact (Utility.explain_laid hinner).statement rfl _
  · exact (Utility.setting_laid hinner).statement rfl _
  · exact hextension _
  · exact hextension _
  · exact hextension _
  · exact hextension _
  · exact hextension _
  · exact (Utility.upkeep_laid .ANALYZE (.inr rfl)).statement rfl _
  · exact .unexpected _

end

end Statement

theorem statement_laid {inner : Nested} (hinner : inner.Lays) :
    Yields (statement inner) c (Tree.Stands .statement c) := by
  intro r
  unfold statement
  refine .deeper (.current (fun x r _ => ?_) fun _ => .unexpected _)
  dsimp only
  split
  · next k hk =>
    refine Statement.ofKeyword_lays hinner ?_
    unfold Token.keyword? at hk
    split at hk
    · next hx => rw [hx, Option.some.inj hk]
    · cases hk
  · exact .unexpected _

theorem Nested.upTo_lays (n : Nat) : (Nested.upTo n).Lays := by
  induction n with
  | zero => exact ⟨fun _ _ _ => .unexpected _, fun _ => .unexpected _, fun _ => .unexpected _,
      fun _ => .unexpected _⟩
  | succ n ih =>
    rw [Nested.upTo_succ]
    exact ⟨fun power _ => expression_laid ih power, query_laid ih, joinTree_laid ih,
      statement_laid ih⟩

end SqlSyntax
