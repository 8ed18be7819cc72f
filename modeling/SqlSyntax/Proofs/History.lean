import SqlSyntax.Proofs.OneTree
import SqlSyntax.Proofs.Stores
import SqlSyntax.Proofs.Twins

/-!
# Calls that carry nothing over

A call starts with the storage that the calls before it left: emptied, in a new generation, but with
the chunks and blocks that they asked for. Nothing of a run depends on what is stored, so the call
answers as a fresh session would (`Parser.run_twin`). What it makes is stored where the numbers of
the nodes tell, whatever chunks there are, and a copy can be read wherever it lies
(`Progress.Stored`). So both sessions show the nodes of the answered trees alike, though the blocks
and the ranges of the copies differ, and the generations of the handles.
-/

namespace SqlSyntax

open SqlSyntax.Parser

/-! ## Entries in another generation -/

/-- The handle in another generation. -/
def SlotHandle.moved (g : UInt32) (h : SlotHandle) : SlotHandle := { h with generation := g }

/-- The links in another generation. -/
def Links.moved (g : UInt32) (l : Links) : Links where
  parent := l.parent.map (·.moved g)
  firstChild := l.firstChild.map (·.moved g)
  lastChild := l.lastChild.map (·.moved g)
  nextSibling := l.nextSibling.map (·.moved g)
  childCount := l.childCount

/-- The entry in another generation. -/
def Entry.moved (g : UInt32) (e : Entry) : Entry := { e with links := e.links.moved g }

namespace Tree

variable {g₀ g : UInt32}

theorem moved_head? (ts : List Tree) :
    (ts.head?.map (handle g₀)).map (·.moved g) = ts.head?.map (handle g) := by
  cases ts <;> rfl

theorem moved_getLast? (ts : List Tree) :
    (ts.getLast?.map (handle g₀)).map (·.moved g) = ts.getLast?.map (handle g) := by
  rw [Option.map_map]
  rfl

theorem moved_entry (parent next : Option SlotHandle) (t : Tree) :
    (t.entry g₀ parent next).moved g =
      t.entry g (parent.map (·.moved g)) (next.map (·.moved g)) := by
  simp only [entry, Entry.moved, Links.moved, moved_head?, moved_getLast?]

mutual
theorem map_moved_entriesUnder (parent next : Option SlotHandle) : ∀ t : Tree,
    (entriesUnder g₀ parent next t).map (Entry.moved g) =
      entriesUnder g (parent.map (·.moved g)) (next.map (·.moved g)) t
  | .node n cs => by
    rw [entriesUnder, entriesUnder, List.map_cons, moved_entry, map_moved_siblingEntries _ _ cs]
    rfl

theorem map_moved_siblingEntries (parent next : Option SlotHandle) : ∀ ts : List Tree,
    (siblingEntries g₀ parent next ts).map (Entry.moved g) =
      siblingEntries g (parent.map (·.moved g)) (next.map (·.moved g)) ts
  | [] => rfl
  | t :: ts => by
    rw [siblingEntries, siblingEntries, List.map_append, map_moved_entriesUnder _ _ t,
      map_moved_siblingEntries _ _ ts, Option.map_or, moved_head?]
end

/-- A tree has the same entries in all generations. -/
theorem map_moved_entries (g₀ g : UInt32) (t : Tree) :
    (t.entries g₀).map (Entry.moved g) = t.entries g :=
  map_moved_entriesUnder none none t

end Tree

variable {source : Source} {scope : Scope} {unit : Nat} {s s' p p' : Progress} {ts us : List Tree}
  {α : Type}

/-- The nodes of a tree are stored as the tree tells. -/
theorem Progress.Sound.stored (h : p.Sound source ts) {t : Tree} (ht : t ∈ ts) {e : Entry}
    (he : e ∈ t.entries 0) :
    p.forest.get? (p.forest.handle e.node.id) = some (e.moved p.forest.generation) := by
  have hmem : e.moved p.forest.generation ∈ ts.flatMap (Tree.entries p.forest.generation) := by
    refine List.mem_flatMap.2 ⟨t, ht, ?_⟩
    rw [← t.map_moved_entries 0]
    exact List.mem_map_of_mem he
  exact Forest.Stores.get? h.owns hmem

/-! ## What stores show -/

/-- What can be read of a node that a tree tells of, where a node takes so many bytes. -/
def Entry.seen (unit : Nat) (source : Source) (e : Entry) : Seen where
  kind := e.node.kind
  id := .ofNat e.node.id
  text := e.node.text.resolve source
  qualifier := e.node.qualifier.resolve source
  schema := e.node.schema.resolve source
  catalog := e.node.catalog.resolve source
  flags := e.node.flags
  dataType := e.node.dataType
  operator := e.node.operator
  context := e.node.context
  location := e.node.location
  span := e.node.span
  parent := e.links.parent.map fun h => SlotArena.place unit h.slot
  firstChild := e.links.firstChild.map fun h => SlotArena.place unit h.slot
  lastChild := e.links.lastChild.map fun h => SlotArena.place unit h.slot
  nextSibling := e.links.nextSibling.map fun h => SlotArena.place unit h.slot
  childCount := .ofNat e.links.childCount

theorem Entry.seen_moved (unit : Nat) (source : Source) (g : UInt32) (e : Entry) :
    (e.moved g).seen unit source = e.seen unit source := by
  unfold Entry.seen Entry.moved Links.moved
  simp only [Option.map_map]
  rfl

theorem StoredText.Is.resolve_eq {S : Frame} {t : StoredText} {text : Text}
    (ht : t.Is S.copies text) (source : Source) :
    t.resolve S.strings source = text.resolve source := by
  cases ht with
  | none => rfl
  | slice span => rfl
  | copied h => exact S.holds.text? h

theorem Frame.map_place {S : Frame} {a b : Option SlotHandle} (hab : Option.Rel S.Names a b) :
    b.map SlotHandle.place = a.map fun h => SlotArena.place S.unit h.slot := by
  cases hab with
  | none => rfl
  | some hname =>
    obtain ⟨i, rfl, rfl⟩ := hname
    rfl

theorem Frame.Shows.seen_eq {S : Frame} {n : StoredNode} {e : Entry} (h : S.Shows n e)
    (source : Source) : n.seen S.strings source = e.seen S.unit source := by
  obtain ⟨hnode, hlinks⟩ := h
  unfold StoredNode.seen Entry.seen
  rw [hnode.kind, hnode.id, hnode.text.resolve_eq, hnode.qualifier.resolve_eq,
    hnode.schema.resolve_eq, hnode.catalog.resolve_eq, hnode.flags, hnode.dataType, hnode.operator,
    hnode.context, hnode.location, hnode.span, Frame.map_place hlinks.parent,
    Frame.map_place hlinks.firstChild, Frame.map_place hlinks.lastChild,
    Frame.map_place hlinks.nextSibling, hlinks.childCount]

/-- What can be read at a place of the arena of nodes. -/
def Store.at? (s : Store) (source : Source) (place : Nat × Nat) : Option Seen :=
  s.look? source ⟨place.1, place.2, s.nodes.generation⟩

/-- The system had room for everything that the last run stored. -/
def Store.Granted (s : Store) : Prop := ∀ e, s.failed ≠ some (.storage e)

theorem Progress.Stored.backed_of_granted {texts : List Text} (h : p.Stored unit texts)
    (hsound : p.Sound source ts) (hgranted : p.store.Granted) : p.Backed unit texts :=
  (h.backed hsound.accepted).resolve_right fun ⟨⟨e, he⟩, _⟩ => hgranted e he

namespace Progress.Backed

variable {texts : List Text}

theorem size_nodes (h : p.Backed unit texts) : p.store.nodes.size = p.forest.entries.size := by
  obtain ⟨S, -, hs⟩ := h.represents
  exact hs.holds.size_eq

/-- The nodes of a tree can be read at the places of their numbers. -/
theorem at?_eq (h : p.Backed unit texts) (hsound : p.Sound source ts) {t : Tree} (ht : t ∈ ts)
    {e : Entry} (he : e ∈ t.entries 0) (source : Source) :
    p.store.at? source (SlotArena.place unit e.node.id) = some (e.seen unit source) := by
  obtain ⟨S, rfl, hs⟩ := h.represents
  have hname : S.Names (p.forest.handle e.node.id) (S.place e.node.id) :=
    ⟨e.node.id, by rw [Forest.handle, hs.generation], rfl⟩
  obtain ⟨n, hn, hshows⟩ := hs.get? hname (hsound.stored ht he)
  have hhandle : S.place e.node.id = ⟨(SlotArena.place S.unit e.node.id).1,
      (SlotArena.place S.unit e.node.id).2, p.store.nodes.generation⟩ := by rw [hs.tag]; rfl
  rw [Store.at?, Store.look?, ← hhandle, hn, Option.map_some, hs.strings, hshows.seen_eq,
    Entry.seen_moved]

end Progress.Backed

/-! ## Runs from twins -/

/-- Two points of runs count the same, and the nodes of some trees are stored at the same places,
where the same can be read of them. -/
structure Progress.Agree (unit : Nat) (trees : List Tree) (p p' : Progress) : Prop where
  nodes : p.store.nodes.size = p'.store.nodes.size
  deepest : p.deepest = p'.deepest
  bytes : p.store.strings.used = p'.store.strings.used
  seen : ∀ t ∈ trees, ∀ e ∈ t.entries 0, ∀ source,
    let place := SlotArena.place unit e.node.id
    p.store.at? source place = some (e.seen unit source) ∧
      p'.store.at? source place = some (e.seen unit source)

theorem Progress.Twin.agree (h : p.Twin 0 p') {trees : List Tree} {source' : Source}
    (hp : p.Sound source ts) (hp' : p'.Sound source' us) (hb : p.Backed unit [])
    (hb' : p'.Backed unit []) (hts : trees ⊆ ts) (hus : trees ⊆ us) : p.Agree unit trees p' where
  nodes := by rw [hb.size_nodes, hb'.size_nodes, hp.size_eq, hp'.size_eq, h.nodes]
  deepest := h.deepest
  bytes := by rw [hb.used, hb'.used, h.copied]
  seen t ht _ he source := ⟨hb.at?_eq hp (hts ht) he source, hb'.at?_eq hp' (hus ht) he source⟩

/-- The answers are the same and the points at the end are twins. -/
structure Run.Twin (r r' : Run α) : Prop where
  answer : r.answer = r'.answer
  progress : r.progress.Twin 0 r'.progress

theorem Parser.run_twin {p : Parser α} {fact : α → Prop} {post : α → List Tree}
    (hp : p.InStep 0 scope.config fact) (hs : s.Twin 0 s')
    (h : (p.run scope s).Sound scope.source post ts)
    (h' : (p.run scope s').Sound scope.source post us) :
    (p.run scope s).Twin (p.run scope s') := by
  obtain ⟨left, hleft⟩ := h.exists_left
  obtain ⟨left', hleft'⟩ := h'.exists_left
  have haccepted := hleft.accepted
  have haccepted' := hleft'.accepted
  have hfollows := hp scope s s' rfl hs
  unfold Parser.run at haccepted haccepted' ⊢
  rcases hrun : p scope s with ⟨a, r⟩ | ⟨f, r⟩
  · rw [hrun] at hfollows haccepted
    obtain ⟨r', hrun', hr⟩ := hfollows.2.2 (.inl rfl)
    rw [hrun'] at haccepted' ⊢
    have hnone : r.refused = none := by
      dsimp only at haccepted
      split at haccepted <;> exact haccepted
    have hnone' : r'.refused = none := by
      dsimp only at haccepted'
      split at haccepted' <;> exact haccepted'
    simp only [hnone, hnone']
    exact ⟨rfl, hr⟩
  · rw [hrun] at hfollows haccepted
    obtain ⟨r', hrun', hr⟩ := hfollows.2 (.inl rfl)
    rw [hrun'] at haccepted' ⊢
    have hnone : r.refused = none := haccepted
    have hnone' : r'.refused = none := haccepted'
    simp only [hnone, hnone']
    exact ⟨rfl, hr⟩

/-- What is found does not depend on the stored nodes. -/
theorem Script.recoverFor_twin (scope : Scope) : ∀ (n : Nat) {s s' : Progress}
    {ts us : List Tree},
    s.Twin 0 s' → s.Sound scope.source ts → s'.Sound scope.source us →
      (recoverFor scope n s).1 = (recoverFor scope n s').1 ∧
      (recoverFor scope n s).2.1 = (recoverFor scope n s').2.1 ∧
      (recoverFor scope n s).2.2.Twin 0 (recoverFor scope n s').2.2 := by
  intro n
  induction n with
  | zero => exact fun hs _ _ => ⟨rfl, rfl, hs⟩
  | succ n ih =>
    intro s s' ts us hs hsound hsound'
    have hnext := next?_sound scope hsound
    have hnext' := next?_sound scope hsound'
    obtain ⟨hanswer, hprogress⟩ := run_twin next?_inStep hs hnext hnext'
    rw [recoverFor, recoverFor]
    generalize next?.run scope s = r at hnext hanswer hprogress ⊢
    generalize next?.run scope s' = r' at hnext' hanswer hprogress ⊢
    obtain ⟨answer, p⟩ := r
    obtain ⟨answer', p'⟩ := r'
    obtain rfl : answer = answer' := hanswer
    rcases answer with f | _ | root
    · obtain ⟨-, left, hp⟩ := hnext
      obtain ⟨-, left', hp'⟩ := hnext'
      have hp : p.Sound scope.source (left ++ ts) := hp
      have hp' : p'.Sound scope.source (left' ++ us) := hp'
      dsimp only
      rw [synchronize_run hp.accepted, synchronize_run hp'.accepted]
      obtain ⟨hroots, hfailures, htwin⟩ :=
        ih (synchronized_twin hprogress) (sound_synchronized hp) (sound_synchronized hp')
      exact ⟨hroots, congrArg (f :: ·) hfailures, htwin⟩
    · exact ⟨rfl, rfl, hprogress⟩
    · have hp : p.Sound scope.source (root :: ts) := hnext
      have hp' : p'.Sound scope.source (root :: us) := hnext'
      obtain ⟨hroots, hfailures, htwin⟩ := ih hprogress hp hp'
      exact ⟨congrArg (root :: ·) hroots, hfailures, htwin⟩

theorem Script.recover_twin (scope : Scope) (h : s.Twin 0 s') (hs : s.Sound scope.source ts)
    (hs' : s'.Sound scope.source us) :
    (recover scope s).1 = (recover scope s').1 ∧
      (recover scope s).2.1 = (recover scope s').2.1 ∧
      (recover scope s).2.2.Twin 0 (recover scope s').2.2 := by
  unfold recover
  rw [h.length_eq]
  exact recoverFor_twin scope _ h hs hs'

/-! ## Calls -/

/-- What a session can be asked for. -/
inductive Call where
  | parse (source : Source)
  | parseScript (source : Source)
  | parseAll (source : Source)
  | parseTokens (source : Source) (tokens : List Token)
  | reset

/-- The tokens of the call are tokens of its source. -/
def Call.Consistent : Call → Prop
  | .parseTokens source tokens => ∀ t ∈ tokens, t.ReadFrom source
  | _ => True

/-- What a call answers with. -/
inductive Answer where
  | tree (answer : Except Failure Tree)
  | trees (answer : Except Failure (List Tree))
  | report (answer : Except Failure Report)
  | nothing

/-- The trees that are answered. -/
def Answer.found : Answer → List Tree
  | .tree (.ok t) => [t]
  | .trees (.ok ts) => ts
  | .report (.ok r) => r.statements
  | _ => []

namespace Session

/-- The answer of a call and the session after it. -/
def call (s : Session) : Call → Answer × Session
  | .parse source => (.tree (s.parse source).1, (s.parse source).2)
  | .parseScript source => (.trees (s.parseScript source).1, (s.parseScript source).2)
  | .parseAll source => (.report (s.parseAll source).1, (s.parseAll source).2)
  | .parseTokens source tokens =>
    (.tree (s.parseTokens source tokens).1, (s.parseTokens source tokens).2)
  | .reset => (.nothing, s.reset)

/-- The session after some calls. -/
def afterCalls (s : Session) (calls : List Call) : Session :=
  calls.foldl (fun s c => (s.call c).2) s

theorem config_call (s : Session) (c : Call) : (s.call c).2.config = s.config := by
  cases c <;> rfl

theorem stack_call (s : Session) (c : Call) : (s.call c).2.stack = s.stack := by
  cases c <;> rfl

theorem config_afterCalls (s : Session) (calls : List Call) :
    (s.afterCalls calls).config = s.config := by
  induction calls generalizing s with
  | nil => rfl
  | cons c calls ih => exact (ih _).trans (config_call s c)

theorem stack_afterCalls (s : Session) (calls : List Call) :
    (s.afterCalls calls).stack = s.stack := by
  induction calls generalizing s with
  | nil => rfl
  | cons c calls ih => exact (ih _).trans (stack_call s c)

/-! ### Storage from call to call -/

/-- A call that finds the arenas in order stores what it makes, whatever it is asked for. -/
theorem call_stored {s : Session} (h : s.last.store.Wellkept unit) (c : Call) :
    (s.call c).2.last.Stored unit [] := by
  cases c with
  | parse source => exact Script.single_stored _ (start_stored h _)
  | parseScript source => exact Script.all_stored _ (start_stored h _)
  | parseAll source =>
    have hstored := Script.recoverFor_stored (s.scope .all source)
      ((s.start (tokenize source)).rest.length + 1) (start_stored h (tokenize source))
    exact hstored
  | parseTokens source tokens => exact Script.single_stored _ (start_stored h _)
  | reset => exact start_stored h []

theorem afterCalls_wellkept {s : Session} (h : s.last.store.Wellkept unit) (calls : List Call) :
    (s.afterCalls calls).last.store.Wellkept unit := by
  induction calls generalizing s with
  | nil => exact h
  | cons c calls ih => exact ih (call_stored h c).wellkept

theorem new_wellkept (config : Config) (stack : Way → StackUse) (unit : Nat) (supply : Supply) :
    (new config stack unit supply).last.store.Wellkept unit :=
  ⟨⟨0, SlotArena.holds_zero rfl rfl⟩, rfl, .of_empty rfl rfl⟩

/-! ### Answers from call to call -/

theorem start_twin (s s' : Session) (tokens : List Token) :
    (s.start tokens).Twin 0 (s'.start tokens) := ⟨rfl, rfl, rfl, rfl, rfl, rfl, rfl⟩

theorem found_reportOf (source : Source) (mode : Mode) (roots : List Tree)
    (failures : List Failure) :
    (Answer.report (reportOf source mode roots failures)).found ⊆ roots := by
  unfold reportOf
  rcases errors _ with f | es
  · exact List.nil_subset _
  · exact (filterMap_checked_sublist source mode roots).subset

/-- Two calls answer alike, and come to sound twins where the trees that they answer with are
detached. -/
structure Parallel (x x' : Answer × Session) : Prop where
  answer : x.1 = x'.1
  twin : x.2.last.Twin 0 x'.2.last
  sound : ∃ source ts, x.2.last.Sound source ts ∧ x.1.found ⊆ ts
  sound' : ∃ source ts, x'.2.last.Sound source ts ∧ x.1.found ⊆ ts

/-- A call that runs a parser, checks the answer and finds trees among those that were made. -/
theorem finish_parallel {β : Type} {s s' : Session} {p : Parser α} {fact : α → Prop}
    {post : α → List Tree} {check : α → Except Failure β} (wrap : Except Failure β → Answer)
    {tokens : List Token} (hp : p.InStep 0 scope.config fact)
    (hrun : ∀ {s : Progress}, s.Sound scope.source [] →
      (p.run scope s).Sound scope.source post [])
    (hread : ∀ t ∈ tokens, t.ReadFrom scope.source)
    (hfound : ∀ a b, check a = .ok b → (wrap (.ok b)).found ⊆ post a)
    (herror : ∀ f, (wrap (.error f)).found = []) :
    Parallel (wrap (s.finish scope.source (p.run scope (s.start tokens)) check).1,
        (s.finish scope.source (p.run scope (s.start tokens)) check).2)
      (wrap (s'.finish scope.source (p.run scope (s'.start tokens)) check).1,
        (s'.finish scope.source (p.run scope (s'.start tokens)) check).2) := by
  have hstart : ∀ s : Session, (s.start tokens).Sound scope.source [] :=
    fun s => Progress.start_sound hread s.last.forest s.last.store.reset
  have hsound := hrun (hstart s)
  have hsound' := hrun (hstart s')
  obtain ⟨hanswer, hprogress⟩ := run_twin hp (start_twin s s' tokens) hsound hsound'
  generalize p.run scope (s.start tokens) = r at hsound hanswer hprogress ⊢
  generalize p.run scope (s'.start tokens) = r' at hsound' hanswer hprogress ⊢
  obtain ⟨answer, q⟩ := r
  obtain ⟨answer', q'⟩ := r'
  obtain rfl : answer = answer' := hanswer
  rcases answer with f | a
  · obtain ⟨-, left, hq⟩ := hsound
    obtain ⟨-, left', hq'⟩ := hsound'
    have hnone : ∀ ts, (wrap (s.finish scope.source ⟨.error f, q⟩ check).1).found ⊆ ts := by
      intro ts
      have hempty : (wrap (s.finish scope.source ⟨.error f, q⟩ check).1).found = [] := herror _
      rw [hempty]
      exact List.nil_subset ts
    exact ⟨rfl, hprogress, ⟨_, _, hq, hnone _⟩, ⟨_, _, hq', hnone _⟩⟩
  · have hsub : (wrap (s.finish scope.source ⟨.ok a, q⟩ check).1).found ⊆ post a ++ [] := by
      show (wrap (check a)).found ⊆ _
      rw [List.append_nil]
      rcases hcheck : check a with f | b
      · rw [herror]
        exact List.nil_subset _
      · exact hfound a b hcheck
    exact ⟨rfl, hprogress, ⟨_, _, hsound, hsub⟩, ⟨_, _, hsound', hsub⟩⟩

theorem parseTokens_parallel {s s' : Session} {tokens : List Token} (hconfig : s.config = s'.config)
    (hstack : s.stack = s'.stack) (hread : ∀ t ∈ tokens, t.ReadFrom source) :
    Parallel (s.call (.parseTokens source tokens)) (s'.call (.parseTokens source tokens)) := by
  have hscope : s.scope .one source = s'.scope .one source := by rw [scope, scope, hconfig, hstack]
  unfold call
  dsimp only
  unfold parseTokens
  rw [hconfig, hscope]
  refine finish_parallel .tree Script.single_inStep (Script.single_sound (s'.scope .one source))
    hread ?_ fun _ => rfl
  intro a b hb
  rw [checked_eq hb]
  exact List.Subset.refl _

theorem parseScript_parallel {s s' : Session} (source : Source) (hconfig : s.config = s'.config)
    (hstack : s.stack = s'.stack) :
    Parallel (s.call (.parseScript source)) (s'.call (.parseScript source)) := by
  have hscope : s.scope .script source = s'.scope .script source := by
    rw [scope, scope, hconfig, hstack]
  unfold call
  dsimp only
  unfold parseScript
  rw [hconfig, hscope]
  refine finish_parallel .trees Script.all_inStep (Script.all_sound (s'.scope .script source))
    (fun _ => readFrom_of_mem_tokenize) ?_ fun _ => rfl
  intro a b hb
  rw [mapM_checked_eq hb]
  exact List.Subset.refl _

theorem parseAll_parallel {s s' : Session} (source : Source) (hconfig : s.config = s'.config)
    (hstack : s.stack = s'.stack) :
    Parallel (s.call (.parseAll source)) (s'.call (.parseAll source)) := by
  have hscope : s.scope .all source = s'.scope .all source := by rw [scope, scope, hconfig, hstack]
  have hsound := s.start_sound source
  have hsound' := s'.start_sound source
  have htwin := start_twin s s' (tokenize source)
  obtain ⟨hroots, hfailures, hprogress⟩ :=
    Script.recover_twin (s'.scope .all source) htwin hsound hsound'
  obtain ⟨-, left, hleft⟩ := Script.recoverFor_sound (s'.scope .all source) _ hsound
  obtain ⟨-, left', hleft'⟩ := Script.recoverFor_sound (s'.scope .all source) _ hsound'
  have hcall : ∀ s : Session, s.call (.parseAll source) =
      (.report (s.parseAll source).1, (s.parseAll source).2) := fun _ => rfl
  rw [hcall, hcall, parseAll_eq, parseAll_eq, hconfig, hscope]
  refine ⟨by dsimp only; rw [hroots, hfailures], hprogress, ⟨_, _, hleft, ?_⟩, ⟨_, _, hleft', ?_⟩⟩
  · exact List.Subset.trans (found_reportOf _ _ _ _) (List.subset_append_left _ _)
  · refine List.Subset.trans (found_reportOf _ _ _ _) ?_
    rw [hroots]
    exact List.subset_append_left _ _

theorem call_parallel (s s' : Session) {call : Call} (hconfig : s.config = s'.config)
    (hstack : s.stack = s'.stack) (hcall : call.Consistent) :
    Parallel (s.call call) (s'.call call) := by
  cases call with
  | parse source => exact parseTokens_parallel hconfig hstack fun _ => readFrom_of_mem_tokenize
  | parseScript source => exact parseScript_parallel source hconfig hstack
  | parseAll source => exact parseAll_parallel source hconfig hstack
  | parseTokens source tokens => exact parseTokens_parallel hconfig hstack hcall
  | reset =>
    have hstart : ∀ s : Session, (s.start []).Sound [] [] := fun s =>
      Progress.start_sound (List.forall_mem_nil _) s.last.forest s.last.store.reset
    exact ⟨rfl, start_twin s s' [], ⟨_, _, hstart s, List.nil_subset _⟩,
      ⟨_, _, hstart s', List.nil_subset _⟩⟩

/-! ### Whole calls -/

/-- What a call leaves lies in the arenas as it was counted, whatever earlier calls left there. -/
theorem call_backed {s : Session} (h : s.last.store.Wellkept unit) {call : Call}
    (hcall : call.Consistent) (hgranted : (s.call call).2.last.store.Granted) :
    (s.call call).2.last.Backed unit [] := by
  obtain ⟨-, -, ⟨_, _, hsound, -⟩, -⟩ := call_parallel s s rfl rfl hcall
  exact (call_stored h call).backed_of_granted hsound hgranted

/-- Two calls answer alike and leave the same, where nodes take so many bytes. -/
def Alike (unit : Nat) (x x' : Answer × Session) : Prop :=
  x.1 = x'.1 ∧ x.2.last.Agree unit x.1.found x'.2.last

/-- Whatever a session was asked for before, it answers the next call as a fresh session of the same
configuration does, also where that fails. It counts as many nodes, levels and bytes of texts, and
what it answers with is stored at the same places with the same links, where the same texts can be
read. The blocks that the system hands out may lie elsewhere, but it has those that the last call of
each session asks for. -/
theorem call_ignores_history (config : Config) (stack : Way → StackUse) (unit : Nat)
    (supply supply' : Supply) (history : List Call) (call : Call) (hcall : call.Consistent)
    (hused : (((new config stack unit supply).afterCalls history).call call).2.last.store.Granted)
    (hfresh : ((new config stack unit supply').call call).2.last.store.Granted) :
    Alike unit (((new config stack unit supply).afterCalls history).call call)
      ((new config stack unit supply').call call) := by
  have hkept := afterCalls_wellkept (new_wellkept config stack unit supply) history
  have hkept' := new_wellkept config stack unit supply'
  obtain ⟨hanswer, htwin, ⟨_, _, hsound, hfound⟩, ⟨_, _, hsound', hfound'⟩⟩ :=
    call_parallel ((new config stack unit supply).afterCalls history)
      (new config stack unit supply') (config_afterCalls _ history) (stack_afterCalls _ history)
      hcall
  exact ⟨hanswer, htwin.agree hsound hsound' (call_backed hkept hcall hused)
    (call_backed hkept' hcall hfresh) hfound hfound'⟩

/-- A statement with a copied text is answered and stored alike after errors, a copy and a reset,
and where the blocks lie elsewhere. -/
theorem call_ignores_history_select :
    let call := Call.parseTokens "SELECT 'a''b'".toList (tokenize "SELECT 'a''b'".toList)
    let used := ((new {} (fun _ => .even) 224 .spaced).afterCalls
      [.parseAll "SELECT (; COMMIT".toList, .reset, .parse "SELECT 'it''s'".toList]).call call
    let fresh := (new {} (fun _ => .even) 224 fun _ => 0).call call
    call.Consistent ∧ used.2.last.store.Granted ∧ fresh.2.last.store.Granted ∧
      Alike 224 used fresh ∧ fresh.2.last.store.strings.used = 3 := by
  have hcall : (Call.parseTokens "SELECT 'a''b'".toList
      (tokenize "SELECT 'a''b'".toList)).Consistent := fun _ => readFrom_of_mem_tokenize
  have hgranted : ∀ {s : Store}, s.failed.isNone → s.Granted := fun h e he => by
    rw [he] at h
    cases h
  intro call used fresh
  have hused : used.2.last.store.Granted := hgranted (by decide +kernel)
  have hfresh : fresh.2.last.store.Granted := hgranted (by decide +kernel)
  exact ⟨hcall, hused, hfresh,
    call_ignores_history {} (fun _ => .even) 224 .spaced (fun _ => 0) _ _ hcall hused hfresh,
    by decide +kernel⟩

end Session

end SqlSyntax
