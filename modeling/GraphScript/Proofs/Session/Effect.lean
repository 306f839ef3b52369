import Mathlib.Data.List.TakeDrop
import GraphScript.Proofs.Graph.Operations
import GraphScript.Session.Run

/-!
# Effects of statements

A statement either fails and leaves the session as it was, or succeeds and makes one of
few changes to it. The changes are listed once, in `Graph.Change` for the current graph and
in `Session.Change` for the session; what all statements keep then needs one argument for
each kind of change, and not one for each verb. A change that fails is written back as well,
so that here each change has to leave what it refuses to change (`Leaves`).

* `Action.Yields`: an action fails without a trace, or ends in an answer and a session with
  a given property. Actions that only look at the session come first in every statement, so
  `Yields.bind` asks for that, and `Yields.finish` says that nothing can fail after a change.
* `Statement.carryOut_yields`: what a statement other than `Initialize` can do.
* `Session.dispatch_error_keeps`: a statement that fails has no effect at all.
-/

namespace GraphScript

/-- Some word of the statement stands for the id. -/
def Statement.Names (st : Statement) (env : Environment) (id : String) : Prop :=
  ∃ word ∈ st.words, env.resolve word = .ok id

/-- Some literal denotes the value, under some kind. -/
def Value.IsLiteral (v : Value) : Prop :=
  ∃ raw kind, v = Value.ofKind raw kind

/-- The changes that a statement makes to the current graph, where the ids that it names are
    given. -/
inductive Graph.Change (named : String → Prop) (g : Graph) : Graph → Prop
  | addNode {id value g'} (hid : named id) (hvalue : ∀ v ∈ value, v.IsLiteral)
      (h : g.addNode id value = (.ok (), g')) : Change named g g'
  | removeNode {id g' count} (h : g.removeNode id = (.ok count, g')) : Change named g g'
  | connect {source target weight g'} (hweight : ∀ w, weight = some w → w.isFinite = true)
      (h : g.connect source target weight = (.ok (), g')) : Change named g g'
  | removeEdges {source target g' count} (h : g.removeEdges source target = (.ok count, g')) :
      Change named g g'
  | isolate {id g' count} (h : g.isolate id = (.ok count, g')) : Change named g g'
  | setColor {id color g'} (h : g.setColor id color = (.ok (), g')) : Change named g g'
  | setBackground (name) : Change named g (g.setBackground name)
  | setDirected (directed) : Change named g { g with directed := directed }
  | setWeighted (weighted) : Change named g { g with weighted := weighted }
  | markTraversed (visited) : Change named g (g.markTraversed visited)
  | subdivide {source target id g'} (hid : named id) (h : g.subdivide source target id = (.ok (), g')) :
      Change named g g'
  | contract {a b g' merged} (ha : named a) (hb : named b) (h : g.contract a b = (.ok merged, g')) :
      Change named g g'
  | reset : Change named g g.reset

/-- The changes that a statement makes to a session. -/
inductive Session.Change (st : Statement) (s : Session) : Session → Prop
  /-- The statement was a question. -/
  | same : Change st s s
  | graph {g} (h : s.graph.Change (st.Names s.env) g) : Change st s (s.setGraph g)
  | create {name store} (hwords : ["Create", "GRAPH", name] <+: st.words)
      (h : s.store.create name = (.ok (), store)) : Change st s { s with store := store }
  | use {name graph store} (hwords : ["Use", "GRAPH", name] <+: st.words)
      (h : s.store.use name = (.ok graph, store)) : Change st s { s with store := store }
  | bind {name value} (hword : name ∈ st.words) (hname : name.toList.all Text.isNameChar = true)
      (hvalue : value.isFinite = true) : Change st s { s with env := s.env.set name value }

/-- Expressions have finite values. -/
theorem Environment.isFinite_of_evaluate {env : Environment} {syntaxReason : String → String}
    {source : String} {value : Float} (h : env.evaluate syntaxReason source = .ok value) :
    value.isFinite = true := by
  rw [Environment.evaluate] at h
  split at h
  · cases h
  · split at h
    · cases h
    · split at h
      · cases h
      · cases h
      · -- The last check is whether the value is finite.
        split at h
        · cases h
          assumption
        · cases h

/-! ### Actions that fail without a trace -/

namespace Action

variable {α β : Type} {a : Action α} {f : α → Action β} {s : Session}
  {P : α → Session → Prop} {Q : β → Session → Prop}

/-- The action fails and leaves the session as it was, or succeeds with a property of its
    answer and the new session. -/
def Yields (a : Action α) (s : Session) (P : α → Session → Prop) : Prop :=
  match a.run.run s with
  | (.ok x, s') => P x s'
  | (.error _, s') => s' = s

/-- The action does not change the session, and its answer has a property if it succeeds. -/
abbrev Reads (a : Action α) (s : Session) (P : α → Prop) : Prop :=
  Yields a s fun x s' => s' = s ∧ P x

theorem run_bind (a : Action α) (f : α → Action β) (s : Session) :
    (a >>= f).run.run s =
      match a.run.run s with
      | (.ok x, s') => (f x).run.run s'
      | (.error e, s') => (.error e, s') := by
  change (match a s with | (r, s') => (ExceptT.bindCont f r : StateM Session _) s') = _
  change _ = match a s with
      | (.ok x, s') => (f x).run.run s'
      | (.error e, s') => (.error e, s')
  rcases a s with ⟨_ | x, s'⟩ <;> rfl

theorem yields_iff : Yields a s P ↔
    (∃ x s', a.run.run s = (.ok x, s') ∧ P x s') ∨ ∃ e, a.run.run s = (.error e, s) := by
  rw [Yields]
  rcases a.run.run s with ⟨e | x, s'⟩
  · constructor
    · rintro rfl
      exact .inr ⟨e, rfl⟩
    · rintro (⟨_, _, h, _⟩ | ⟨_, h⟩)
      · cases h
      · cases h
        rfl
  · constructor
    · exact fun h => .inl ⟨x, s', rfl, h⟩
    · rintro (⟨_, _, h, hx⟩ | ⟨_, h⟩)
      · cases h
        exact hx
      · cases h

theorem Yields.pure {x : α} (h : P x s) : Yields (pure x) s P := h

theorem Yields.throw (e : Error) : Yields (throw e : Action α) s P := (rfl : s = s)

theorem Yields.modify {f : Session → Session} {P : Unit → Session → Prop} (h : P () (f s)) :
    Yields (modify f) s P := h

theorem Yields.mono {P' : α → Session → Prop} (ha : Yields a s P)
    (h : ∀ x s', P x s' → P' x s') : Yields a s P' := by
  rw [yields_iff] at ha ⊢
  obtain ⟨x, s', hrun, hx⟩ | hfails := ha
  · exact .inl ⟨x, s', hrun, h x s' hx⟩
  · exact .inr hfails

/-- What follows an action that only looks starts from the same session. -/
theorem Yields.bind {P : α → Prop} (ha : Reads a s P) (hf : ∀ x, P x → Yields (f x) s Q) :
    Yields (a >>= f) s Q := by
  rw [Yields, run_bind]
  obtain ⟨x, s', hrun, rfl, hx⟩ | ⟨e, hrun⟩ := yields_iff.1 ha
  · rw [hrun]
    exact hf x hx
  · rw [hrun]

/-- What follows an action that changes the session must not fail. -/
theorem Yields.finish (ha : Yields a s P)
    (hf : ∀ x s', P x s' → ∃ y, (f x).run.run s' = (.ok y, s') ∧ Q y s') :
    Yields (a >>= f) s Q := by
  rw [Yields, run_bind]
  obtain ⟨x, s', hrun, hx⟩ | ⟨e, hrun⟩ := yields_iff.1 ha
  · obtain ⟨y, hanswer, hy⟩ := hf x s' hx
    simpa only [hrun, hanswer] using hy
  · rw [hrun]

/-- An answer that is worked out after a change. -/
theorem Yields.answer {P : Session → Prop} {y : α → β} (ha : Yields a s fun _ => P) :
    Yields (a >>= fun x => Pure.pure (y x)) s fun _ => P :=
  ha.finish fun x _ hx => ⟨y x, rfl, hx⟩

theorem Reads.ofExcept (r : Except Error α) : Reads (ofExcept r) s fun x => r = .ok x := by
  cases r with
  | ok x => exact ⟨rfl, rfl⟩
  | error e => exact (rfl : s = s)

theorem Reads.get : Reads get s fun x => x = s := ⟨rfl, rfl⟩

theorem Reads.graph : Reads graph s fun g => g = s.graph := ⟨rfl, rfl⟩

theorem Reads.resolve (word : String) :
    Reads (resolve word) s fun id => s.env.resolve word = .ok id :=
  Reads.get.bind fun _ h => h ▸ Reads.ofExcept _

/-- Expressions have finite values. -/
theorem Reads.evaluate (source : String) :
    Reads (evaluate source) s fun value => value.isFinite = true := by
  refine Reads.get.bind fun session hsession => ?_
  exact (Reads.ofExcept (session.evaluate source)).mono fun value s' ⟨hs, hvalue⟩ =>
    ⟨hs, Environment.isFinite_of_evaluate hvalue⟩

theorem run_changeGraph (change : Graph → Except Error α × Graph) (s : Session) :
    (changeGraph change).run.run s = ((change s.graph).1, s.setGraph (change s.graph).2) := by
  change (ofExcept (change s.graph).1).run.run (s.setGraph (change s.graph).2) = _
  cases (change s.graph).1 <;> rfl

theorem run_changeStore (change : Store → Except Error α × Store) (s : Session) :
    (changeStore change).run.run s =
      ((change s.store).1, { s with store := (change s.store).2 }) := by
  change (ofExcept (change s.store).1).run.run { s with store := (change s.store).2 } = _
  cases (change s.store).1 <;> rfl

/-- The graph is written back in any case, so a failure leaves no trace if the change leaves none. -/
theorem Yields.changeGraph {change : Graph → Except Error α × Graph}
    (hleaves : Leaves s.graph (change s.graph)) :
    Yields (changeGraph change) s fun x s' =>
      ∃ g, change s.graph = (.ok x, g) ∧ s' = s.setGraph g := by
  rw [Yields, run_changeGraph]
  rcases hchange : change s.graph with ⟨e | x, g⟩
  · rw [hchange] at hleaves
    obtain rfl : g = s.graph := hleaves e rfl
    rfl
  · exact ⟨g, rfl, rfl⟩

theorem Yields.changeStore {change : Store → Except Error α × Store}
    (hleaves : Leaves s.store (change s.store)) :
    Yields (changeStore change) s fun x s' =>
      ∃ store, change s.store = (.ok x, store) ∧ s' = { s with store := store } := by
  rw [Yields, run_changeStore]
  rcases hchange : change s.store with ⟨e | x, store⟩
  · rw [hchange] at hleaves
    obtain rfl : store = s.store := hleaves e rfl
    rfl
  · exact ⟨store, rfl, rfl⟩

end Action

/-! ### Statements -/

namespace Statement

open GraphScript.Action

variable (st : Statement) {s : Session}

/-- The first three words, one by one. -/
theorem prefix_words {first second third : String} (hfirst : st.words.head? = some first)
    (hsecond : st.words[1]? = some second) (hthird : st.words[2]? = some third) :
    [first, second, third] <+: st.words := by
  rcases hwords : st.words with _ | ⟨a, _ | ⟨b, _ | ⟨c, rest⟩⟩⟩ <;> simp_all

theorem reads_word (family : String) (position : Nat) :
    Reads (st.word family position) s fun word => st.words[position]? = some word := by
  rw [word]
  split
  · exact Yields.pure ⟨rfl, ‹_›⟩
  · exact Yields.throw _

theorem reads_resolved (family : String) (position : Nat) :
    Reads (st.resolved family position) s fun id => st.Names s.env id := by
  refine (st.reads_word family position).bind fun word hword => ?_
  exact (Reads.resolve word).mono fun id s' ⟨hs, hid⟩ =>
    ⟨hs, word, List.mem_of_getElem? hword, hid⟩

/-- A word that stands for something is read as that. -/
theorem run_resolved {family : String} {position : Nat} {word id : String}
    (hword : st.words[position]? = some word) (hid : s.env.resolve word = .ok id) :
    (st.resolved family position).run.run s = (.ok id, s) := by
  have hread : st.word family position = pure word := by rw [Statement.word, hword]
  rw [resolved, hread, pure_bind]
  change (Action.ofExcept (s.env.resolve word)).run.run s = _
  rw [hid]
  rfl

theorem reads_expect (family : String) (position : Nat) (expected : String) :
    Reads (st.expect family position expected) s fun _ =>
      st.words[position]? = some expected := by
  refine (st.reads_word family position).bind fun word hword => ?_
  split
  · exact Yields.throw _
  · rename_i heq
    have hexpected : word = expected := by simpa using heq
    exact Yields.pure ⟨rfl, hexpected ▸ hword⟩

/-- A change of the current graph that is one of the listed ones. -/
theorem yields_changeGraph {α : Type} {change : Graph → Except Error α × Graph}
    (hleaves : Leaves s.graph (change s.graph))
    (h : ∀ x g, change s.graph = (.ok x, g) → s.graph.Change (st.Names s.env) g) :
    Yields (changeGraph change) s fun _ => s.Change st :=
  (Yields.changeGraph hleaves).mono fun x _ ⟨g, hg, hs⟩ => hs ▸ .graph (h x g hg)

/-- The words of a literal are those in front of `AS`. -/
theorem reads_splitKind (tokens : List String) :
    Reads (st.splitKind tokens) s fun answer => answer.1 = tokens.takeWhile (· != "AS") := by
  rw [splitKind, List.span_eq_takeWhile_dropWhile]
  split
  · rename_i heq
    exact Yields.pure ⟨rfl, (congrArg Prod.fst heq).symm⟩
  · exact Yields.throw _
  · rename_i heq
    split
    · exact Yields.pure ⟨rfl, (congrArg Prod.fst heq).symm⟩
    · exact Yields.throw _

theorem reads_nodeValue (tokens : List String) :
    Reads (st.nodeValue tokens) s fun value => value.IsLiteral := by
  refine (st.reads_splitKind tokens).bind fun (literal, kind) _ => ?_
  dsimp only
  split
  · exact Yields.throw _
  · exact (Reads.resolve _).bind fun raw _ => Yields.pure ⟨rfl, raw, kind, rfl⟩
  · exact Yields.pure ⟨rfl, _, kind, rfl⟩

theorem yields_createNode : Yields st.createNode s fun _ => s.Change st := by
  refine (st.reads_resolved _ _).bind fun id hid => ?_
  split
  · have hliteral : ∀ v ∈ (none : Option Value), v.IsLiteral := by simp
    exact (st.yields_changeGraph (Graph.leaves_addNode _ _ _) fun _ _ hg =>
      .addNode hid hliteral hg).answer
  · refine (st.reads_nodeValue _).bind fun value hvalue => ?_
    have hliteral : ∀ v ∈ some value, v.IsLiteral := by simpa using hvalue
    exact (st.yields_changeGraph (Graph.leaves_addNode _ _ _) fun _ _ hg =>
      .addNode hid hliteral hg).answer
  · exact Yields.throw _

theorem yields_create (hverb : st.words.head? = some "Create") :
    Yields st.create s fun _ => s.Change st := by
  refine (st.reads_word _ _).bind fun word hword => ?_
  split
  · refine (st.reads_word _ _).bind fun name hname => ?_
    have hwords := st.prefix_words hverb hword hname
    exact ((Yields.changeStore (Store.leaves_create _ _)).mono fun _ _ ⟨store, hstore, hs⟩ =>
      hs ▸ .create hwords hstore).answer
  · exact st.yields_createNode
  · exact Yields.throw _

theorem yields_use (hverb : st.words.head? = some "Use") :
    Yields st.use s fun _ => s.Change st := by
  refine (st.reads_expect _ _ _).bind fun _ hexpected => ?_
  refine (st.reads_word _ _).bind fun name hname => ?_
  have hwords := st.prefix_words hverb hexpected hname
  exact ((Yields.changeStore (Store.leaves_use _ _)).mono fun _ _ ⟨store, hstore, hs⟩ =>
    hs ▸ .use hwords hstore).answer

theorem yields_letVariable : Yields st.letVariable s fun _ => s.Change st := by
  refine (st.reads_word _ _).bind fun name hword => ?_
  dsimp only
  split
  · exact Yields.throw _
  · rename_i hname
    refine (st.reads_expect _ _ _).bind fun _ _ => ?_
    refine (st.reads_word _ _).bind fun _ _ => ?_
    refine (Reads.evaluate _).bind fun value hvalue => ?_
    have hmem := List.mem_of_getElem? hword
    exact (Yields.modify (.bind hmem (by simpa using hname) hvalue)).answer

theorem yields_set : Yields st.set s fun _ => s.Change st := by
  refine (st.reads_word _ _).bind fun word _ => ?_
  split
  · exact (Yields.modify (.graph (.setBackground _))).answer
  · exact (Yields.modify (.graph (.setDirected _))).answer
  · exact (Yields.modify (.graph (.setWeighted _))).answer
  · refine (st.reads_resolved _ _).bind fun id _ => ?_
    refine (st.reads_word _ _).bind fun color _ => ?_
    exact (st.yields_changeGraph (Graph.leaves_setColor _ _ _) fun _ _ hg => .setColor hg).answer
  · exact Yields.throw _

theorem reads_weight? (weighted : Bool) :
    Reads (st.weight? weighted) s fun weight => ∀ w, weight = some w → w.isFinite = true := by
  rw [weight?]
  split
  · refine (st.reads_word _ _).bind fun source _ => ?_
    refine (Reads.evaluate _).bind fun value hvalue => ?_
    exact Yields.pure ⟨rfl, fun w hw => by cases hw; exact hvalue⟩
  · exact Yields.pure ⟨rfl, fun w hw => by cases hw⟩

theorem yields_connect : Yields st.connect s fun _ => s.Change st := by
  refine (st.reads_word _ _).bind fun _ _ => ?_
  refine (st.reads_resolved _ _).bind fun source _ => ?_
  refine (st.reads_resolved _ _).bind fun target _ => ?_
  refine Reads.graph.bind fun g _ => ?_
  refine (st.reads_weight? _).bind fun weight hweight => ?_
  -- After the change only the answer is put together, which cannot fail.
  refine (st.yields_changeGraph (Graph.leaves_connect _ _ _ _) fun _ _ hg =>
    .connect hweight hg).finish fun _ s' hs' => ?_
  split
  · exact ⟨_, rfl, hs'⟩
  · exact ⟨_, rfl, hs'⟩

theorem yields_remove : Yields st.remove s fun _ => s.Change st := by
  refine (st.reads_word _ _).bind fun word _ => ?_
  split
  · refine (st.reads_resolved _ _).bind fun id _ => ?_
    exact (st.yields_changeGraph (Graph.leaves_removeNode _ _) fun _ _ hg => .removeNode hg).answer
  · refine (st.reads_word _ _).bind fun _ _ => ?_
    refine (st.reads_resolved _ _).bind fun source _ => ?_
    refine (st.reads_resolved _ _).bind fun target _ => ?_
    exact (st.yields_changeGraph (Graph.leaves_removeEdges _ _ _) fun _ _ hg =>
      .removeEdges hg).answer
  · exact Yields.throw _

theorem yields_isolate : Yields st.isolate s fun _ => s.Change st := by
  refine (st.reads_expect _ _ _).bind fun _ _ => ?_
  refine (st.reads_resolved _ _).bind fun id _ => ?_
  exact (st.yields_changeGraph (Graph.leaves_isolate _ _) fun _ _ hg => .isolate hg).answer

theorem yields_traverse : Yields st.traverse s fun _ => s.Change st := by
  refine (st.reads_resolved _ _).bind fun start _ => ?_
  refine Reads.graph.bind fun g _ => ?_
  dsimp only
  split
  · exact Yields.throw _
  · exact (Yields.modify (.graph (.markTraversed _))).answer

theorem yields_color : Yields st.color s fun _ => s.Change st := by
  refine (st.reads_expect _ _ _).bind fun _ _ => ?_
  exact Reads.graph.bind fun g _ => Yields.pure .same

theorem yields_subdivide : Yields st.subdivide s fun _ => s.Change st := by
  refine (st.reads_word _ _).bind fun _ _ => ?_
  refine (st.reads_resolved _ _).bind fun source _ => ?_
  refine (st.reads_resolved _ _).bind fun target _ => ?_
  refine (st.reads_resolved _ _).bind fun id hid => ?_
  exact (st.yields_changeGraph (Graph.leaves_subdivide _ _ _ _) fun _ _ hg =>
    .subdivide hid hg).answer

theorem yields_contract : Yields st.contract s fun _ => s.Change st := by
  refine (st.reads_resolved _ _).bind fun a ha => ?_
  refine (st.reads_resolved _ _).bind fun b hb => ?_
  exact (st.yields_changeGraph (Graph.leaves_contract _ _ _) fun _ _ hg =>
    .contract ha hb hg).answer

theorem yields_partition : Yields partition s fun _ => s.Change st :=
  Reads.graph.bind fun _ _ => Yields.pure .same

theorem yields_getDegree : Yields st.getDegree s fun _ => s.Change st := by
  refine (st.reads_resolved _ _).bind fun id _ => ?_
  refine Reads.graph.bind fun g _ => ?_
  dsimp only
  split
  · exact Yields.throw _
  · exact Yields.pure .same

theorem yields_getPath : Yields st.getPath s fun _ => s.Change st := by
  refine (st.reads_resolved _ _).bind fun start _ => ?_
  refine (st.reads_resolved _ _).bind fun target _ => ?_
  refine Reads.graph.bind fun g _ => ?_
  dsimp only
  split
  · exact Yields.throw _
  · exact Yields.pure .same

theorem yields_getAnswer : Yields st.getAnswer s fun _ => s.Change st := by
  refine (st.reads_word _ _).bind fun word _ => ?_
  split
  · exact st.yields_getDegree
  · exact Reads.graph.bind fun _ _ => Yields.pure .same
  · exact st.yields_getPath
  · exact Reads.graph.bind fun _ _ => Yields.pure .same
  · exact Reads.graph.bind fun _ _ => Yields.pure .same
  · exact Yields.throw _

theorem yields_reset : Yields reset s fun _ => s.Change st :=
  (Yields.modify (.graph .reset)).answer

/-- A statement other than `Initialize` fails and leaves the session as it was, or makes one
    of the listed changes. -/
theorem carryOut_yields (replay : Action String) (h : st.words.head? ≠ some "Initialize") :
    Yields (st.carryOut replay) s fun _ => s.Change st := by
  rw [carryOut]
  split
  · contradiction
  · exact st.yields_reset
  · exact st.yields_create ‹_›
  · exact st.yields_use ‹_›
  · exact st.yields_letVariable
  · exact st.yields_set
  · exact st.yields_connect
  · exact st.yields_remove
  · exact st.yields_isolate
  · exact st.yields_traverse
  · exact st.yields_color
  · exact st.yields_subdivide
  · exact st.yields_contract
  · exact st.yields_partition
  · exact st.yields_getAnswer
  · exact Yields.throw _

theorem carryOut_initialize (replay : Action String) (h : st.words.head? = some "Initialize") :
    st.carryOut replay = replay := by
  simp only [carryOut, h]

end Statement

/-! ### Failures -/

/-- Playing the example always succeeds: what fails in it is dropped with its summary. -/
theorem playExample_ok (replays depth : Nat) (s : Session) :
    ∃ message s', (playExample replays depth).run.run s = (.ok message, s') := by
  cases replays with
  | zero => exact ⟨_, _, rfl⟩
  | succ replays => exact ⟨_, _, rfl⟩

theorem playExample_message (replays depth : Nat) (s : Session) :
    ((playExample replays depth).run.run s).1 =
      .ok "Graph initialized with a default example." := by
  cases replays with
  | zero => rfl
  | succ replays => rfl

namespace Session

/-- A statement that fails leaves the whole session as it was: all graphs, the choice of
    the current one, the variables and the limits. -/
theorem dispatch_error_keeps (text : String) (depth : Nat) (s : Session) (e : Error)
    (h : ((dispatch text depth).run.run s).1 = .error e) :
    ((dispatch text depth).run.run s).2 = s := by
  rw [dispatch] at h ⊢
  by_cases hverb : (Statement.ofText text).words.head? = some "Initialize"
  · rw [Statement.carryOut_initialize _ _ hverb] at h
    obtain ⟨message, s', hrun⟩ := playExample_ok 1 depth s
    rw [hrun] at h
    cases h
  · obtain ⟨message, s', hrun, _⟩ | ⟨e', hrun⟩ := Action.yields_iff.1
      (Statement.carryOut_yields (s := s) _ (playExample 1 depth) hverb)
    · rw [hrun] at h
      cases h
    · rw [hrun]

/-- The last check of a statement fails: the new node of a subdivision exists already. -/
theorem dispatch_error_keeps_subdivide :
    let g : Graph := { Graph.empty "main" with
      nodes := [Node.new "a" none, Node.new "b" none]
      edges := [{ source := "a", target := "b", weight := 1.0 }] }
    let s : Session := (Session.new {}).setGraph g
    let outcome := (dispatch "Subdivide EDGE a b WITH a" 3).run.run s
    outcome.1 = .error (.duplicate .node "a") ∧ outcome.2 = s :=
  ⟨rfl, dispatch_error_keeps _ _ _ _ rfl⟩

end Session

end GraphScript
