import Mathlib.Data.List.Pairwise
import SqlSyntax.Proofs.Contents
import SqlSyntax.Proofs.Violations

/-!
# Numbers of nodes

Each node of a run has a number of its own (`Law.numbered`), whatever tokens the run is over. So
the number tells the node of a tree (`Tree.eq_of_id`) and also the node above it
(`Tree.eq_of_child_id`), and what a violation says of its node is enough to find the node. This
holds of every tree that a call makes, also of one that is not answered since it breaks a rule
(`Session.Builds`).
-/

namespace SqlSyntax

open SqlSyntax.Parser

variable {source : Source} {config : Config} {ahead : List Token → Prop} {pre : List Tree}
  {ts us : List Tree} {s : Progress} {t u w c d : Tree}

/-! ## Trees with different numbers -/

namespace Tree

theorem ids_mapHead {change : Node → Node} (h : (change t.head).id = t.head.id) :
    (t.mapHead change).ids = t.ids := by
  obtain ⟨n, cs⟩ := t
  rw [mapHead, ids_node, ids_node]
  exact congrArg (· :: _) h

theorem ids_append (t c : Tree) : (t.append [c]).ids = t.ids ++ c.ids := by
  rw [append, ids_node, ids_eq t, List.flatMap_append, List.flatMap_singleton, List.cons_append]

theorem ids_prepend (t c : Tree) : (t.prepend c).ids.Perm (c.ids ++ t.ids) := by
  rw [prepend, ids_node, ids_eq t, List.flatMap_cons]
  exact List.perm_middle.symm

/-- The subtrees are the root and the children of subtrees. -/
theorem perm_preorder (t : Tree) : (t :: t.preorder.flatMap children).Perm t.preorder := by
  obtain ⟨n, cs⟩ := t
  have hbelow : ((cs.flatMap fun c => [c] ++ c.preorder.flatMap children)).Perm
      (cs.flatMap preorder) :=
    List.Perm.flatMap_left cs fun c _ => perm_preorder c
  have hsplit := List.flatMap_append_perm cs (fun c => [c]) fun c => c.preorder.flatMap children
  rw [List.flatMap_singleton'] at hsplit
  rw [preorder_node, List.flatMap_cons, List.flatMap_assoc]
  exact (hsplit.trans hbelow).cons _

/-- The number tells the node. -/
theorem eq_of_id (h : t.ids.Nodup) (hu : u ∈ t.preorder) (hw : w ∈ t.preorder)
    (hid : u.head.id = w.head.id) : u = w :=
  List.inj_on_of_nodup_map h hu hw hid

/-- The number of a node tells the node above it. -/
theorem eq_of_child_id (h : t.ids.Nodup) (hu : u ∈ t.preorder) (hw : w ∈ t.preorder)
    (hc : c ∈ u.children) (hd : d ∈ w.children) (hid : c.head.id = d.head.id) : u = w := by
  have hnodup : (t.preorder.flatMap fun u => u.children.map (·.head.id)).Nodup := by
    have hperm : ((t :: t.preorder.flatMap children).map (·.head.id)).Nodup :=
      (t.perm_preorder.map _).nodup_iff.2 h
    rw [List.map_cons, List.map_flatMap] at hperm
    exact hperm.of_cons
  have hsymm : Std.Symm (Function.onFun List.Disjoint fun u : Tree =>
      u.children.map (·.head.id)) := ⟨fun _ _ h => List.disjoint_symm h⟩
  by_contra hne
  have hdisjoint := (List.nodup_flatMap.1 hnodup).2.forall hu hw hne
  exact hdisjoint (List.mem_map_of_mem hc) (hid ▸ List.mem_map_of_mem hd)

end Tree

/-! ## Runs -/

/-- The detached trees have nodes with different numbers, all smaller than the next one. -/
structure Progress.Numbers (ids : List Nat) (s : Progress) : Prop where
  nodup : ids.Nodup
  lt : ∀ i ∈ ids, i < s.nodes

namespace Progress.Numbers

variable {ids ids' : List Nat} {s s' : Progress}

theorem start (s : Progress) : s.Numbers [] := ⟨.nil, nofun⟩

theorem perm (h : s.Numbers ids) (hp : ids.Perm ids') : s.Numbers ids' :=
  ⟨hp.nodup_iff.1 h.nodup, fun i hi => h.lt i (hp.mem_iff.2 hi)⟩

theorem congr (h : s.Numbers ids) (hnodes : s'.nodes = s.nodes) : s'.Numbers ids :=
  ⟨h.nodup, fun i hi => hnodes ▸ h.lt i hi⟩

theorem cons (h : s.Numbers ids) (hnodes : s'.nodes = s.nodes + 1) :
    s'.Numbers (s.nodes :: ids) where
  nodup := List.nodup_cons.2 ⟨fun hmem => Nat.lt_irrefl _ (h.lt _ hmem), h.nodup⟩
  lt := by
    rw [hnodes]
    exact List.forall_mem_cons.2 ⟨Nat.lt_succ_self _, fun i hi => Nat.lt_succ_of_lt (h.lt i hi)⟩

end Progress.Numbers

namespace Law

/-- The detached trees have nodes with different numbers. -/
def numbered (source : Source) (config : Config) : Law :=
  ⟨source, config, fun ts s => s.Numbers (ts.flatMap Tree.ids), fun _ _ => True⟩

theorem numbered_perm (hp : ts.Perm us) (h : (numbered source config).Holds ts s) :
    (numbered source config).Holds us s :=
  Progress.Numbers.perm h (hp.flatMap_right _)

/-- An edit of the stored nodes has no part in the law. -/
theorem numbered_edit (ts : List Tree) (c : Command) :
    (numbered source config).Keeps ahead ts (edit c) (fun _ => ts) fun _ => ahead := by
  intro scope others s _ _ ha hs
  exact ⟨(s.rest_edited c).symm ▸ ha, Progress.Numbers.congr hs (s.nodes_edited c)⟩

/-- A tree is made of others by an edit and as a value, and has their nodes. -/
theorem numbered_make (c : Command) (h : (pre.flatMap Tree.ids).Perm t.ids) :
    (numbered source config).Keeps ahead pre (do edit c; return t) one fun u r =>
      u = t ∧ ahead r := by
  refine (numbered_edit pre c).bind fun _ _ others s _ _ ha hs => ⟨⟨rfl, ha⟩, ?_⟩
  have hs : s.Numbers ((pre ++ others).flatMap Tree.ids) := hs
  rw [List.flatMap_append] at hs
  exact hs.perm (h.append_right _)

theorem numbered_newNode (kind : Kind) (location : Location) (span : Span) :
    (numbered source config).Keeps ahead [] (newNode kind location span) one fun u r =>
      u.Fresh kind span.start ∧ ahead r := by
  intro scope others s hsource hconfig ha hs
  have hedit : (numbered source config).Keeps ahead []
      (edit (.alloc kind location span scope.context)) (fun _ => []) fun _ => ahead :=
    numbered_edit [] _
  obtain ⟨ha, hs⟩ := hedit scope others s hsource hconfig ha hs
  exact ⟨⟨.leaf kind _ scope.context location span, ha⟩, Progress.Numbers.cons hs rfl⟩

theorem numbered_nodeOver (kind : Kind) (first : Tree) :
    (numbered source config).Keeps ahead [first] (nodeOver kind first) (fun t => [first, t])
      fun u r => u.Fresh kind first.head.span.start ∧ ahead r := by
  refine (numbered_edit [first] _).bind fun _ => ?_
  have hnew : (numbered source config).Keeps ahead [first] _ _ _ :=
    (numbered_newNode kind first.head.location first.head.span).frame [first]
  exact hnew.relax numbered_perm (fun _ h => h) (.refl _) (fun t _ _ => .swap first t [])
    fun _ _ h => h

theorem numbered_amends {change : Node → Node} (hc : ∀ n, (change n).Alike n) :
    (numbered source config).Amends change :=
  ⟨hc, fun t => numbered_make _ (.of_eq (by
    rw [List.flatMap_singleton, Tree.ids_mapHead (hc t.head).id]))⟩

/-- The copy of a text is no node. -/
theorem numbered_copy (text : String) :
    (numbered source config).Keeps ahead [] (copy text) silent fun _ => ahead :=
  (numbered_edit [] _).bind fun _ _ _ _ _ _ ha hs => ⟨ha, Progress.Numbers.congr hs rfl⟩

theorem numbered_quotedText (quote : Char) (token : Token) :
    (numbered source config).Keeps ahead [] (quotedText quote token) silent fun _ => ahead := by
  intro scope others s hsource hconfig ha hs
  unfold quotedText
  generalize token.span.inner 1 = inner
  rw [read_run]
  rcases scope.source.slice? inner.start inner.stop with _ | body
  · exact ⟨trivial, [], hs⟩
  · by_cases hquote : body.contains quote
    · simp only [hquote, if_true]
      exact numbered_copy _ scope others s hsource hconfig ha hs
    · simp only [hquote]
      exact ⟨ha, hs⟩

theorem numbered_tokenText (token : Token) :
    (numbered source config).Keeps ahead [] (tokenText token) silent fun _ => ahead := by
  unfold tokenText
  split
  · exact numbered_quotedText _ token
  · split
    · exact .pure silent fun _ h => h
    · exact .pure silent fun _ h => h
    · exact numbered_quotedText _ token
  · exact .pure silent fun _ h => h
  · exact .pure silent fun _ h => h

theorem numbered_allows (source : Source) (config : Config) (inner : Nested) :
    (numbered source config).Allows (openTerms config inner) where
  config := rfl
  perm := numbered_perm
  known _ _ _ := trivial
  advanced _ hs := Progress.Numbers.congr hs rfl
  deepened hs := Progress.Numbers.congr hs rfl
  fairAt _ _ := trivial
  fairEnd _ := trivial
  nodeAt kind _ := numbered_newNode kind _ _
  nodeOver := numbered_nodeOver
  amend hc _ := numbered_make _ (.of_eq (by
    rw [List.flatMap_singleton, Tree.ids_mapHead (hc _).id]))
  attach child _ := numbered_make _ (by
    rw [List.flatMap_cons, List.flatMap_singleton, Tree.ids_append]
    exact List.perm_append_comm)
  prepend child _ := numbered_make _ (by
    rw [List.flatMap_cons, List.flatMap_singleton]
    exact (Tree.ids_prepend _ child).symm)
  inscribe _ hc hbase _ := .inscribe (fun _ _ => numbered_tokenText _) hbase fun texts =>
    numbered_amends (hc.alike texts)
  inscribeType hname hbase _ := .inscribeType hname hbase fun _ _ =>
    numbered_amends fun _ => ⟨rfl, rfl, rfl, rfl, rfl⟩

theorem numbered_serves (source : Source) (config : Config) :
    ∀ n, (numbered source config).Serves (fun _ _ _ => True) (Nested.upTo n) :=
  Allows.serves (numbered_allows source config) fun _ hinner power =>
    (expression_yields (fun _ => rfl) power).keeps (numbered_allows source config _) hinner

end Law

/-! ## Statements -/

namespace Script

theorem single_numbered : Answers single fun t => t.ids.Nodup := by
  intro scope s t s' hrun
  have hout := Law.single_keeps (Law.numbered_allows scope.source scope.config)
    (Law.numbered_serves scope.source scope.config) scope [] s rfl rfl trivial (.start s)
  rw [hrun] at hout
  have hnumbers : s'.Numbers ([t].flatMap Tree.ids) := hout.2
  rw [List.flatMap_singleton] at hnumbers
  exact hnumbers.nodup

theorem next?_numbered : Answers next? fun o => ∀ t ∈ o, t.ids.Nodup := by
  rintro scope s _ s' hrun t rfl
  have hout := Law.next?_keeps (Law.numbered_allows scope.source scope.config)
    (Law.numbered_serves scope.source scope.config) scope [] s rfl rfl trivial (.start s)
  rw [hrun] at hout
  have hnumbers : s'.Numbers ([t].flatMap Tree.ids) := hout.2
  rw [List.flatMap_singleton] at hnumbers
  exact hnumbers.nodup

/-- What holds of statements however deep the productions call one another holds of the next
statement. -/
theorem next?_of_statement {fact : Tree → Prop}
    (h : ∀ n, Answers (Nested.upTo n).statement fact) : Answers next? fun o => ∀ t ∈ o, fact t := by
  unfold next?
  refine .skip fun _ => .skip fun b => ?_
  cases b
  · refine .bind (.skip fun s => h _) fun root hroot => ?_
    have hfound : ∀ t ∈ some root, fact t := by
      rintro _ ⟨⟩
      exact hroot
    exact .either (.pure hfound) (.either (.pure hfound) (.unexpected _))
  · exact .pure nofun

theorem next?_answers : Answers next? fun o => ∀ t ∈ o, t.Complete :=
  next?_of_statement fun n => (Nested.upTo_fits n).statement

/-- What holds of each statement that is found holds of all. -/
theorem all_of_next? {fact : Tree → Prop} (h : Answers next? fun o => ∀ t ∈ o, fact t) :
    Answers all fun ts => ∀ t ∈ ts, fact t := by
  unfold all many
  refine .bind (?_ : Answers (iterate _ _) fun ts : List Tree => ∀ t ∈ ts, fact t) fun ts hts =>
    .pure fun t ht => hts t (List.mem_reverse.1 ht)
  refine .iterate (fun ts hts => h.bind fun o ho => .pure ?_) nofun
  rcases o with _ | t
  · exact nofun
  · rintro _ ⟨⟩
    exact List.forall_mem_cons.2 ⟨ho t rfl, hts⟩

theorem recoverFor_of_next? {fact : Tree → Prop} (h : Answers next? fun o => ∀ t ∈ o, fact t)
    (scope : Scope) (n : Nat) (p : Progress) : ∀ t ∈ (recoverFor scope n p).1, fact t := by
  induction n generalizing p with
  | zero => exact List.forall_mem_nil _
  | succ n ih =>
    rw [recoverFor]
    rcases hrun : next?.run scope p with ⟨f | _ | root, q⟩
    · exact ih _
    · exact List.forall_mem_nil _
    · obtain ⟨_, hnext⟩ := exists_of_answer (congrArg Run.answer hrun)
      exact List.forall_mem_cons.2 ⟨h hnext root rfl, ih q⟩

end Script

/-- A call of the session makes the tree for a statement, from any tokens or as one of a script,
whether or not it keeps the rules that are checked then. -/
inductive Session.Builds (s : Session) (source : Source) : Tree → Prop
  | single {tokens : List Token} {t : Tree}
    (h : (Script.single.run (s.scope .one source) (s.start tokens)).answer = .ok t) :
    s.Builds source t
  | all {ts : List Tree} {t : Tree}
    (h : (Script.all.run (s.scope .script source) (s.start (tokenize source))).answer = .ok ts)
    (ht : t ∈ ts) : s.Builds source t
  | recovered {t : Tree}
    (ht : t ∈ (Script.recover (s.scope .all source) (s.start (tokenize source))).1) :
    s.Builds source t

namespace Session.Builds

variable {s : Session}

theorem of_answers {fact : Tree → Prop} (h : s.Builds source t)
    (hsingle : Answers Script.single fact) (hnext : Answers Script.next? fun o => ∀ t ∈ o, fact t) :
    fact t := by
  cases h with
  | single h =>
    obtain ⟨_, hrun⟩ := exists_of_answer h
    exact hsingle hrun
  | all h ht =>
    obtain ⟨_, hrun⟩ := exists_of_answer h
    exact Script.all_of_next? hnext hrun t ht
  | recovered ht => exact Script.recoverFor_of_next? hnext (s.scope .all source) _ _ t ht

/-- What holds of statements however deep the productions call one another holds of each tree. -/
theorem of_statement {fact : Tree → Prop} (h : s.Builds source t)
    (hstatement : ∀ n, Answers (Nested.upTo n).statement fact) : fact t :=
  h.of_answers (Script.single_of_statement hstatement) (Script.next?_of_statement hstatement)

theorem of_parse (h : (s.parse source).1 = .ok t) : s.Builds source t := by
  obtain ⟨a, ha, hcheck⟩ := exists_of_finish h
  obtain rfl := checked_eq hcheck
  exact .single ha

theorem complete (h : s.Builds source t) : t.Complete :=
  h.of_answers Script.single_answers Script.next?_answers

theorem nodup (h : s.Builds source t) : t.ids.Nodup :=
  h.of_answers Script.single_numbered Script.next?_numbered

/-- What is seen in the answer of a run is seen in a tree that the call makes. -/
theorem exists_of_run {β : Type} {tokens : List Token} {see : Tree → β} {b : β}
    (h : (Script.single.run (s.scope .one source) (s.start tokens)).answer.toOption.map see =
      some b) :
    ∃ t, s.Builds source t ∧ see t = b := by
  rcases hrun : (Script.single.run (s.scope .one source) (s.start tokens)).answer with f | t
  · rw [hrun] at h
    cases h
  · rw [hrun] at h
    exact ⟨t, .single hrun, Option.some.inj h⟩

end Session.Builds

end SqlSyntax
