import GraphScript.Proofs.Json.RoundTrip
import GraphScript.Record.Graph
import GraphScript.Record.Session

/-!
# Records read back

What is written as a record is read back from it (`records_read_back`), through the text of
the record: values, graphs, snapshots, summaries, limits, variables and errors.

Doubles are the only part of records that may be lost. One that is not finite is written as
`null`, and no reader of numbers takes that, so a record is read back exactly if its doubles
are finite (`Graph.ofJson?_toJson` and the like); and then there is the text of a double, which
is not always read as that double (`Json.ReadsBack`).
-/

namespace GraphScript

/-! ### Fields -/

namespace Json

theorem field?_nil (key : String) : field? [] key = none :=
  rfl

/-- Of repeated keys the last one counts. -/
theorem field?_cons (first : String) (j : Json) (fields : List (String × Json)) (key : String) :
    field? ((first, j) :: fields) key =
      (field? fields key).or (if first = key then some j else none) := by
  rw [field?, List.reverse_cons, List.find?_append, Option.map_or, ← field?, List.find?_singleton]
  by_cases h : first = key <;> simp [h]

/-- Items that are written and read one by one, of which some are not read back. -/
theorem mapM_map {α β : Type} {write : α → β} {read? : β → Option α} (ok : α → Bool)
    {l : List α} (h : ∀ a ∈ l, read? (write a) = if ok a then some a else none) :
    (l.map write).mapM read? = if l.all ok then some l else none := by
  induction l with
  | nil => rfl
  | cons a l ih =>
    obtain ⟨ha, hl⟩ := List.forall_mem_cons.1 h
    rw [List.map_cons, List.mapM_cons, ha, ih hl, List.all_cons]
    cases ok a <;> cases l.all ok <;> rfl

/-- Items that are written and read one by one, all of which are read back. -/
theorem mapM_map_of_mem {α β : Type} {write : α → β} {read? : β → Option α} {l : List α}
    (h : ∀ a ∈ l, read? (write a) = some a) : (l.map write).mapM read? = some l := by
  have hall : (l.all fun _ => true) = true := by simp
  rw [mapM_map (fun _ => true) h, if_pos hall]

@[simp]
theorem str?_str (s : String) : (Json.str s).str? = some s :=
  rfl

@[simp]
theorem bool?_bool (b : Bool) : (Json.bool b).bool? = some b :=
  rfl

@[simp]
theorem list?_strings (texts : List String) : list? str? (strings texts) = some texts :=
  mapM_map_of_mem fun s _ => str?_str s

/-- Numbers that are not finite are written as `null`, which is no number. -/
theorem float?_double (x : Float) : (double x).float? = if x.isFinite then some x else none := by
  rw [double]
  split <;> rfl

theorem nat?_nat {n : Nat} (h : n < UInt64.size) : (nat n).nat? = some n := by
  have hrange : 0 ≤ (n : Int) ∧ (n : Int) < UInt64.size := by omega
  rw [nat, nat?, if_pos hrange, Int.toNat_natCast]

@[simp]
theorem int64?_toInt (n : Int64) : (Json.int n.toInt).int64? = some n := by
  have hrange := And.intro n.minValue_le_toInt n.toInt_le
  rw [int64?, Decimal.int64?, if_pos hrange, Int64.ofInt_toInt]

@[simp]
theorem char?_singleton (c : Char) : (Json.str (String.singleton c)).char? = some c := by
  simp [char?]

/-! ### Readable fields -/

theorem readable_nat {n : Nat} (h : n < UInt64.size) : (nat n).Readable := by
  refine .int ⟨?_, by omega⟩
  have hmin : Int64.minValue.toInt ≤ 0 := by decide
  omega

theorem readable_int64 (n : Int64) : (Json.int n.toInt).Readable := by
  refine .int ⟨n.minValue_le_toInt, ?_⟩
  have hmax : Int64.maxValue.toInt < UInt64.size := by decide
  have := n.toInt_le
  omega

/-- Only the texts of finite numbers have to be read back. -/
theorem readable_double {x : Float} (h : x.isFinite = true → ReadsBack x) :
    (double x).Readable := by
  rw [double]
  split
  · exact .float (h ‹_›)
  · exact .null

theorem readable_map {α : Type} {write : α → Json} {l : List α}
    (h : ∀ a ∈ l, (write a).Readable) : (Json.arr (l.map write)).Readable := by
  refine .arr fun item hitem => ?_
  obtain ⟨a, ha, rfl⟩ := List.mem_map.1 hitem
  exact h a ha

end Json

open Json

/-- Whether doubles are all finite. -/
def allFinite (doubles : List Float) : Bool :=
  doubles.all Float.isFinite

/-- The finite ones of some doubles are read from their text. -/
def AllReadBack (doubles : List Float) : Prop :=
  ∀ x ∈ doubles, x.isFinite = true → ReadsBack x

instance (doubles : List Float) : Decidable (AllReadBack doubles) :=
  inferInstanceAs (Decidable (∀ x ∈ doubles, x.isFinite = true → ReadsBack x))

/-! ### Graphs -/

/-- The doubles of a payload. -/
def Payload.doubles : Payload → List Float
  | .double x => [x]
  | _ => []

/-- The doubles of a value. -/
def Value.doubles (v : Value) : List Float :=
  v.payload.doubles

/-- The doubles of a node. -/
def Node.doubles (n : Node) : List Float :=
  (n.value.map Value.doubles).getD []

/-- The doubles of a graph. -/
def Graph.doubles (g : Graph) : List Float :=
  g.nodes.flatMap Node.doubles ++ g.edges.map Edge.weight

/-- A payload is read back exactly if it is not a double that is not finite. -/
theorem Payload.ofJson?_toJson (place : Place) (p : Payload) :
    ofJson? place p.toJson = if allFinite p.doubles then some p else none := by
  cases p with
  | double x =>
    simp [toJson, ofJson?, required?, field?_cons, field?_nil, choice?, Payload.kind, Kind.name,
      ofKindName?, float?_double, allFinite, doubles]
  | _ =>
    simp [toJson, ofJson?, required?, field?_cons, field?_nil, choice?, Payload.kind, Kind.name,
      ofKindName?, allFinite, doubles]

/-- A value is read back exactly if its doubles are finite. -/
theorem Value.ofJson?_toJson (place : Place) (v : Value) :
    ofJson? place v.toJson = if allFinite v.doubles then some v else none := by
  rw [doubles]
  by_cases h : allFinite v.payload.doubles <;>
    simp [toJson, ofJson?, record?, required?, field?_cons, field?_nil, Payload.ofJson?_toJson, h]

/-- A node is read back exactly if its doubles are finite. -/
theorem Node.ofJson?_toJson (place : Place) (n : Node) :
    ofJson? place n.toJson = if allFinite n.doubles then some n else none := by
  have hvalue : optional? (Value.ofJson? place) ((n.value.map Value.toJson).getD .null) =
      if allFinite n.doubles then some n.value else none := by
    rw [doubles]
    cases n.value with
    | none => rfl
    | some v =>
      -- The record of a value is an object, so it is not taken for no value.
      have hread := Value.ofJson?_toJson place v
      rw [Value.toJson] at hread
      simp [optional?, Value.toJson, hread]
  by_cases h : allFinite n.doubles <;>
    simp [toJson, ofJson?, record?, required?, default?, field?_cons, field?_nil, hvalue, h]

/-- A weight that is not finite is lost, and the edge with it. -/
theorem Edge.ofJson?_toJson (e : Edge) :
    ofJson? e.toJson = if e.weight.isFinite then some e else none := by
  by_cases h : e.weight.isFinite <;>
    simp [toJson, ofJson?, record?, required?, field?_cons, field?_nil, float?_double, h]

/-- A graph is read back exactly if its doubles are finite, also from a record with more fields. -/
theorem Graph.ofFields?_of_toFields (place : Place) (g : Graph) {fields : List (String × Json)}
    (hfields : ∀ field ∈ g.toFields, field? fields field.1 = some field.2) :
    ofFields? place fields = if allFinite g.doubles then some g else none := by
  simp only [toFields, List.forall_mem_cons] at hfields
  obtain ⟨hname, hnodes, hedges, hdirected, hweighted, hbackground, -⟩ := hfields
  have hdoubles : allFinite g.doubles =
      ((g.nodes.all fun n => allFinite n.doubles) && g.edges.all fun e => e.weight.isFinite) := by
    rw [allFinite, doubles, List.all_append, List.all_flatMap, List.all_map]
    rfl
  have hnode : (g.nodes.map Node.toJson).mapM (Node.ofJson? place) =
      if g.nodes.all fun n => allFinite n.doubles then some g.nodes else none :=
    mapM_map _ fun n _ => Node.ofJson?_toJson place n
  have hedge : (g.edges.map Edge.toJson).mapM Edge.ofJson? =
      if g.edges.all fun e => e.weight.isFinite then some g.edges else none :=
    mapM_map _ fun e _ => Edge.ofJson?_toJson e
  simp only [ofFields?, required?, hname, hnodes, hedges, hdirected, hweighted, hbackground,
    Option.bind_some, str?_str, bool?_bool, list?, hnode, hedge, hdoubles]
  cases g.nodes.all fun n => allFinite n.doubles <;>
    cases g.edges.all fun e => e.weight.isFinite <;> rfl

/-- A graph is read back exactly if its doubles are finite. -/
theorem Graph.ofJson?_toJson (g : Graph) :
    ofJson? g.toJson = if allFinite g.doubles then some g else none := by
  change ofFields? .apart g.toFields = _
  refine ofFields?_of_toFields .apart g ?_
  simp [toFields, field?_cons, field?_nil]

/-- A snapshot is read back exactly if the doubles of its graph are finite. -/
theorem Snapshot.ofJson?_toJson (s : Snapshot) :
    ofJson? s.toJson = if allFinite s.graph.doubles then some s else none := by
  have hgraph : Graph.ofFields? .snapshot (s.graph.toFields ++ [("graphs", .strings s.graphs)]) =
      if allFinite s.graph.doubles then some s.graph else none := by
    refine Graph.ofFields?_of_toFields .snapshot s.graph ?_
    simp [Graph.toFields, field?_cons, field?_nil]
  have hgraphs : required? (s.graph.toFields ++ [("graphs", .strings s.graphs)]) "graphs"
      (list? str?) = some s.graphs := by
    simp [Graph.toFields, required?, field?_cons, field?_nil]
  simp only [toJson, ofJson?, hgraph, hgraphs]
  split <;> rfl

/-! The text of a record can be read if that of its finite doubles can. -/

theorem Payload.readable_toJson {p : Payload} (h : AllReadBack p.doubles) :
    p.toJson.Readable := by
  refine .obj ?_
  cases p with
  | int n => simp [Readable.str, readable_int64]
  | double x => simp [Readable.str, readable_double (h x List.mem_cons_self)]
  | bool b => simp [Readable.str, Readable.bool]
  | _ => simp [Readable.str]

theorem Value.readable_toJson {v : Value} (h : AllReadBack v.doubles) : v.toJson.Readable := by
  refine .obj ?_
  simp [Readable.str, Payload.readable_toJson h]

theorem Node.readable_toJson {n : Node} (h : AllReadBack n.doubles) : n.toJson.Readable := by
  have hvalue : ((n.value.map Value.toJson).getD .null).Readable := by
    rw [doubles] at h
    cases hv : n.value with
    | none => exact .null
    | some v =>
      rw [hv] at h
      exact Value.readable_toJson h
  refine .obj ?_
  simp [Readable.str, Readable.bool, hvalue]

theorem Edge.readable_toJson {e : Edge} (h : e.weight.isFinite = true → ReadsBack e.weight) :
    e.toJson.Readable := by
  refine .obj ?_
  simp [Readable.str, readable_double h]

theorem Graph.readable_toFields {g : Graph} (h : AllReadBack g.doubles) :
    ∀ field ∈ g.toFields, field.2.Readable := by
  have hnodes : (Json.arr (g.nodes.map Node.toJson)).Readable := by
    refine readable_map fun n hn => Node.readable_toJson fun x hx => h x ?_
    exact List.mem_append_left _ (List.mem_flatMap_of_mem hn hx)
  have hedges : (Json.arr (g.edges.map Edge.toJson)).Readable := by
    refine readable_map fun e he => Edge.readable_toJson (h e.weight ?_)
    exact List.mem_append_right _ (List.mem_map_of_mem he)
  simp [toFields, Readable.str, Readable.bool, hnodes, hedges]

theorem Graph.readable_toJson {g : Graph} (h : AllReadBack g.doubles) : g.toJson.Readable :=
  .obj (readable_toFields h)

theorem Snapshot.readable_toJson {s : Snapshot} (h : AllReadBack s.graph.doubles) :
    s.toJson.Readable := by
  have hgraphs : (strings s.graphs).Readable := readable_map fun name _ => .str name
  refine .obj fun field hfield => ?_
  rcases List.mem_append.1 hfield with hfield | hfield
  · exact Graph.readable_toFields h field hfield
  · obtain rfl := List.mem_singleton.1 hfield
    exact hgraphs

/-! ### Sessions -/

theorem Entity.ofJson?_name (kind : Entity) : ofJson? (.str kind.name) = some kind := by
  cases kind <;> rfl

theorem Error.ofJson?_toJson (e : Error) : ofJson? e.toJson = some e := by
  cases e <;>
    simp [toJson, ofJson?, thing?, message?, required?, field?_cons, field?_nil,
      Entity.ofJson?_name]

theorem Error.readable_toJson (e : Error) : e.toJson.Readable := by
  cases e <;>
  · refine .obj (List.forall_mem_singleton.2 (.obj ?_))
    simp [Readable.str]

/-! Records with counts are read for any JSON value that gives the count: with the bound of
64 bits in sight, the kernel would try to decide whether the count is below it. -/

theorem Diagnostic.ofJson?_obj {d : Diagnostic} {line : Json} (hline : line.nat? = some d.line) :
    ofJson? (.obj [("line", line), ("code", .str d.code), ("message", .str d.message)]) =
      some d := by
  simp [ofJson?, record?, required?, field?_cons, field?_nil, hline]

theorem Summary.ofJson?_obj {s : Summary} {success errors diagnostics : Json}
    (hsuccess : success.nat? = some s.success) (herrors : errors.nat? = some s.errors)
    (hdiagnostics : list? Diagnostic.ofJson? diagnostics = some s.diagnostics) :
    ofJson? (.obj [("success", success), ("errors", errors), ("last_message", .str s.lastMessage),
      ("diagnostics", diagnostics)]) = some s := by
  simp [ofJson?, record?, required?, field?_cons, field?_nil, hsuccess, herrors, hdiagnostics]

theorem Config.ofJson?_obj {c : Config} {limit depth : Json}
    (hlimit : limit.nat? = some c.whileIterationLimit)
    (hdepth : depth.nat? = some c.maxBlockDepth) :
    ofJson? (.obj [("while_iteration_limit", limit), ("max_block_depth", depth),
      ("default_graph", .str c.defaultGraph)]) = some c := by
  simp [ofJson?, partialRecord?, ofFields?, default?, field?_cons, field?_nil, hlimit, hdepth]

/-- The counts of a summary. -/
def Summary.counts (s : Summary) : List Nat :=
  s.success :: s.errors :: s.diagnostics.map Diagnostic.line

/-- The counts of limits. -/
def Config.counts (c : Config) : List Nat :=
  [c.whileIterationLimit, c.maxBlockDepth]

theorem Diagnostic.ofJson?_toJson {d : Diagnostic} (h : d.line < UInt64.size) :
    ofJson? d.toJson = some d :=
  ofJson?_obj (nat?_nat h)

theorem Diagnostic.readable_toJson {d : Diagnostic} (h : d.line < UInt64.size) :
    d.toJson.Readable := by
  refine .obj ?_
  simp [Readable.str, readable_nat h]

theorem Summary.ofJson?_toJson {s : Summary} (h : ∀ n ∈ s.counts, n < UInt64.size) :
    ofJson? s.toJson = some s := by
  simp only [counts, List.forall_mem_cons, List.forall_mem_map] at h
  obtain ⟨hsuccess, herrors, hlines⟩ := h
  refine ofJson?_obj (nat?_nat hsuccess) (nat?_nat herrors) ?_
  exact mapM_map_of_mem fun d hd => Diagnostic.ofJson?_toJson (hlines d hd)

theorem Summary.readable_toJson {s : Summary} (h : ∀ n ∈ s.counts, n < UInt64.size) :
    s.toJson.Readable := by
  simp only [counts, List.forall_mem_cons, List.forall_mem_map] at h
  obtain ⟨hsuccess, herrors, hlines⟩ := h
  have hdiagnostics : (Json.arr (s.diagnostics.map Diagnostic.toJson)).Readable :=
    readable_map fun d hd => Diagnostic.readable_toJson (hlines d hd)
  refine .obj ?_
  simp [Readable.str, readable_nat hsuccess, readable_nat herrors, hdiagnostics]

theorem Config.ofJson?_toJson {c : Config} (h : ∀ n ∈ c.counts, n < UInt64.size) :
    ofJson? c.toJson = some c := by
  simp only [counts, List.forall_mem_cons] at h
  exact ofJson?_obj (nat?_nat h.1) (nat?_nat h.2.1)

theorem Config.readable_toJson {c : Config} (h : ∀ n ∈ c.counts, n < UInt64.size) :
    c.toJson.Readable := by
  simp only [counts, List.forall_mem_cons] at h
  refine .obj ?_
  simp [Readable.str, readable_nat h.1, readable_nat h.2.1]

/-! ### Variables -/

namespace Environment

/-- The doubles of variables. -/
def doubles (env : Environment) : List Float :=
  env.bindings.map Prod.snd

/-- A binding that is above all others comes last. -/
theorem insertBinding_of_forall_lt {name : String} {value : Float} :
    ∀ {bindings : List (String × Float)}, (∀ b ∈ bindings, b.1 < name) →
      insertBinding name value bindings = bindings ++ [(name, value)]
  | [], _ => rfl
  | (other, old) :: rest, h => by
    obtain ⟨hother, hrest⟩ := List.forall_mem_cons.1 h
    have hne : name ≠ other := fun heq => String.lt_irrefl name (heq ▸ hother)
    rw [insertBinding, if_neg hne, if_neg (String.lt_asymm hother),
      insertBinding_of_forall_lt hrest, List.cons_append]

/-- Bindings in ascending order are added one behind the other. -/
theorem bindings_foldl_set {bindings : List (String × Float)} {env : Environment}
    (h : Ascending (env.bindings ++ bindings)) :
    (bindings.foldl (fun env (name, value) => env.set name value) env).bindings =
      env.bindings ++ bindings := by
  induction bindings generalizing env with
  | nil => rw [List.foldl_nil, List.append_nil]
  | cons b bindings ih =>
    have hbelow : ∀ other ∈ env.bindings, other.1 < b.1 := fun other hother =>
      (List.pairwise_append.1 h).2.2 other hother b List.mem_cons_self
    have hset : (env.set b.1 b.2).bindings = env.bindings ++ [b] :=
      insertBinding_of_forall_lt hbelow
    rw [List.foldl_cons, ih, hset, List.append_assoc, List.singleton_append]
    rwa [hset, List.append_assoc, List.singleton_append]

theorem ofList_bindings (env : Environment) : ofList env.bindings = env := by
  -- Variables are their bindings: the rest is a proof.
  have hbindings : (ofList env.bindings).bindings = env.bindings :=
    bindings_foldl_set env.ascending
  cases env
  cases hlist : ofList _
  simp_all

/-- Variables are read back exactly if their values are finite. -/
theorem ofJson?_toJson (env : Environment) :
    ofJson? env.toJson = if allFinite env.doubles then some env else none := by
  rw [toJson, ofJson?, mapM_map (fun b => b.2.isFinite) fun b _ => ?_, allFinite, doubles,
    List.all_map, Function.comp_def]
  · split
    · exact congrArg some env.ofList_bindings
    · rfl
  · change (double b.2).float?.map (fun value => (b.1, value)) =
      if b.2.isFinite then some b else none
    rw [float?_double]
    split <;> rfl

theorem readable_toJson {env : Environment} (h : AllReadBack env.doubles) :
    env.toJson.Readable := by
  refine .obj fun field hfield => ?_
  obtain ⟨b, hb, rfl⟩ := List.mem_map.1 hfield
  exact readable_double (h b.2 (List.mem_map_of_mem hb))

end Environment

/-! ### The text of a record -/

/-- A record is read back from its text as it is from its JSON. -/
theorem parse?_bind_ofJson? {α : Type} {j : Json} (h : j.Readable) (ofJson? : Json → Option α) :
    (parse? j.compact).bind ofJson? = ofJson? j := by
  rw [h.parse?_compact, Option.bind_some]

/-- What is written as a record is read back from the text of the record, whatever strings,
options and lists it holds: its doubles have to be finite and to be read back themselves, and
its counts have to be of 64 bits, which all counts of records are. -/
theorem records_read_back :
    (∀ v : Value, allFinite v.doubles → AllReadBack v.doubles →
      (parse? v.toJson.compact).bind (Value.ofJson? .apart) = some v) ∧
    (∀ g : Graph, allFinite g.doubles → AllReadBack g.doubles →
      (parse? g.toJson.compact).bind Graph.ofJson? = some g) ∧
    (∀ s : Snapshot, allFinite s.graph.doubles → AllReadBack s.graph.doubles →
      (parse? s.toJson.compact).bind Snapshot.ofJson? = some s) ∧
    (∀ s : Summary, (∀ n ∈ s.counts, n < UInt64.size) →
      (parse? s.toJson.compact).bind Summary.ofJson? = some s) ∧
    (∀ c : Config, (∀ n ∈ c.counts, n < UInt64.size) →
      (parse? c.toJson.compact).bind Config.ofJson? = some c) ∧
    (∀ env : Environment, allFinite env.doubles → AllReadBack env.doubles →
      (parse? env.toJson.compact).bind Environment.ofJson? = some env) ∧
    ∀ e : Error, (parse? e.toJson.compact).bind Error.ofJson? = some e := by
  refine ⟨fun v hv hread => ?_, fun g hg hread => ?_, fun s hs hread => ?_, fun s hs => ?_,
    fun c hc => ?_, fun env henv hread => ?_, fun e => ?_⟩
  · rw [parse?_bind_ofJson? (Value.readable_toJson hread), Value.ofJson?_toJson, if_pos hv]
  · rw [parse?_bind_ofJson? (Graph.readable_toJson hread), Graph.ofJson?_toJson, if_pos hg]
  · rw [parse?_bind_ofJson? (Snapshot.readable_toJson hread), Snapshot.ofJson?_toJson, if_pos hs]
  · rw [parse?_bind_ofJson? (Summary.readable_toJson hs), Summary.ofJson?_toJson hs]
  · rw [parse?_bind_ofJson? (Config.readable_toJson hc), Config.ofJson?_toJson hc]
  · rw [parse?_bind_ofJson? (Environment.readable_toJson hread), Environment.ofJson?_toJson,
      if_pos henv]
  · rw [parse?_bind_ofJson? e.readable_toJson, Error.ofJson?_toJson]

/-- A snapshot of texts with quotes, control characters and characters beyond 16 bits, and of
doubles with a fraction and with an exponent. -/
def motleySnapshot : Snapshot where
  graph := {
    name := "\"\\\x00"
    nodes := [.new "a\nb" (some ⟨"-2.5e-7", .double (-2.5e-7)⟩), .new "" (some ⟨"𝔾", .char '𝔾'⟩),
      .new "$c" none]
    edges := [⟨"a\nb", "$c", 0.1⟩]
    directed := true
    weighted := false
    background := "\t" }
  graphs := ["main", "\"\\\x00"]

theorem records_read_back_motley :
    (parse? (Value.toJson ⟨"-2.5e-7", .double (-2.5e-7)⟩).compact).bind (Value.ofJson? .apart) =
      some ⟨"-2.5e-7", .double (-2.5e-7)⟩ ∧
    (parse? motleySnapshot.graph.toJson.compact).bind Graph.ofJson? = some motleySnapshot.graph ∧
    (parse? motleySnapshot.toJson.compact).bind Snapshot.ofJson? = some motleySnapshot ∧
    (parse? (Summary.toJson ⟨1, 1, "", [⟨2, "malformed", "\x7d"⟩]⟩).compact).bind Summary.ofJson? =
      some ⟨1, 1, "", [⟨2, "malformed", "\x7d"⟩]⟩ ∧
    (parse? (Config.toJson {}).compact).bind Config.ofJson? = some {} ∧
    (parse? (Environment.ofList [("y", 3.0), ("x", 0.1)]).toJson.compact).bind
      Environment.ofJson? = some (.ofList [("y", 3.0), ("x", 0.1)]) := by
  obtain ⟨hvalue, hgraph, hsnapshot, hsummary, hconfig, hvariables, -⟩ := records_read_back
  exact ⟨hvalue _ (by decide +kernel) (by decide +kernel),
    hgraph _ (by decide +kernel) (by decide +kernel),
    hsnapshot _ (by decide +kernel) (by decide +kernel), hsummary _ (by decide),
    hconfig _ (by decide), hvariables _ (by decide +kernel) (by decide +kernel)⟩

end GraphScript
