import GraphScript.Proofs.Session.Effect

/-!
# Messages of statements

A statement that succeeds has something to say, whatever the session is (`Action.Speaks`). This is
told by how an action ends, so that of a sequence only the last action counts.
-/

namespace GraphScript

/-- Whenever the action succeeds, it has something to say. -/
def Action.Speaks (a : Action String) : Prop :=
  ∀ s message, (a.run.run s).1 = .ok message → message ≠ ""

namespace Action.Speaks

theorem pure {message : String} (h : message ≠ "") : Speaks (pure message) := by
  intro s message' heq
  cases heq
  exact h

/-- An action that fails need not speak. -/
theorem throw (error : Error) : Speaks (throw error) := by
  intro s message heq
  cases heq

/-- A sequence says what its last action says. -/
theorem bind {α : Type} {a : Action α} {f : α → Action String} (h : ∀ x, Speaks (f x)) :
    Speaks (a >>= f) := by
  intro s message heq
  rw [run_bind] at heq
  split at heq
  · exact h _ _ message heq
  · cases heq

end Action.Speaks

namespace Statement

open GraphScript.Action

variable (st : Statement)

/-- Here and below, messages name what they are about, so that none is empty. -/
theorem createNode_speaks : Speaks st.createNode := by
  refine .bind fun id => ?_
  split
  · exact .bind fun _ => .pure (by simp [toString])
  · exact .bind fun value => .bind fun _ => .pure (by simp [toString])
  · exact .throw _

theorem create_speaks : Speaks st.create := by
  refine .bind fun word => ?_
  split
  · exact .bind fun name => .bind fun _ => .pure (by simp [toString])
  · exact st.createNode_speaks
  · exact .throw _

theorem use_speaks : Speaks st.use :=
  .bind fun _ => .bind fun _ => .bind fun _ => .pure (by simp [toString])

theorem letVariable_speaks : Speaks st.letVariable := by
  refine .bind fun name => ?_
  dsimp only
  split
  · exact .throw _
  · exact .bind fun _ => .bind fun _ => .bind fun _ => .bind fun _ => .pure (by simp [toString])

/-- Each of the two settings of a flag has a message. -/
theorem set_speaks : Speaks st.set := by
  refine .bind fun word => ?_
  split
  · exact .bind fun _ => .pure (by simp [toString])
  · refine .bind fun _ => .pure ?_
    split <;> decide
  · refine .bind fun _ => .pure ?_
    split <;> decide
  · exact .bind fun _ => .bind fun _ => .bind fun _ => .pure (by simp [toString])
  · exact .throw _

theorem connect_speaks : Speaks st.connect := by
  refine .bind fun _ => .bind fun _ => .bind fun _ => .bind fun _ => .bind fun _ => .bind fun _ => ?_
  split
  · exact .pure (by simp [toString])
  · exact .pure (by simp [toString])

theorem remove_speaks : Speaks st.remove := by
  refine .bind fun word => ?_
  split
  · exact .bind fun _ => .bind fun _ => .pure (by simp [toString])
  · exact .bind fun _ => .bind fun _ => .bind fun _ => .bind fun _ => .pure (by simp [toString])
  · exact .throw _

theorem isolate_speaks : Speaks st.isolate :=
  .bind fun _ => .bind fun _ => .bind fun _ => .pure (by simp [toString])

theorem traverse_speaks : Speaks st.traverse := by
  refine .bind fun _ => .bind fun _ => ?_
  dsimp only
  split
  · exact .throw _
  · exact .bind fun _ => .pure (by simp [toString])

theorem color_speaks : Speaks st.color :=
  .bind fun _ => .bind fun _ => .pure (by simp [toString])

theorem subdivide_speaks : Speaks st.subdivide :=
  .bind fun _ => .bind fun _ => .bind fun _ => .bind fun _ => .bind fun _ =>
    .pure (by simp [toString])

theorem contract_speaks : Speaks st.contract :=
  .bind fun _ => .bind fun _ => .bind fun _ => .pure (by simp [toString])

theorem partition_speaks : Speaks partition :=
  .bind fun _ => .pure (by simp [toString])

theorem getDegree_speaks : Speaks st.getDegree := by
  refine .bind fun _ => .bind fun _ => ?_
  dsimp only
  split
  · exact .throw _
  · exact .pure (by simp [toString])

theorem getPath_speaks : Speaks st.getPath := by
  refine .bind fun _ => .bind fun _ => .bind fun _ => ?_
  dsimp only
  split
  · exact .throw _
  · exact .pure (by simp [toString])

/-- Also where there is nothing to list, the answer has a beginning. -/
theorem getAnswer_speaks : Speaks st.getAnswer := by
  refine .bind fun word => ?_
  split
  · exact st.getDegree_speaks
  · exact .bind fun _ => .pure (by simp [toString])
  · exact st.getPath_speaks
  · exact .bind fun _ => .pure (by simp [toString])
  · exact .bind fun _ => .pure (by simp [toString])
  · exact .throw _

theorem reset_speaks : Speaks reset :=
  .bind fun _ => .pure (by decide)

/-- No statement succeeds without a message. -/
theorem carryOut_speaks {replay : Action String} (hreplay : replay.Speaks) :
    Speaks (st.carryOut replay) := by
  rw [carryOut]
  split
  · exact hreplay
  · exact reset_speaks
  · exact st.create_speaks
  · exact st.use_speaks
  · exact st.letVariable_speaks
  · exact st.set_speaks
  · exact st.connect_speaks
  · exact st.remove_speaks
  · exact st.isolate_speaks
  · exact st.traverse_speaks
  · exact st.color_speaks
  · exact st.subdivide_speaks
  · exact st.contract_speaks
  · exact partition_speaks
  · exact st.getAnswer_speaks
  · exact .throw _

end Statement

/-- The messages of the example are dropped, but `Initialize` has one of its own. -/
theorem playExample_speaks (replays depth : Nat) : (playExample replays depth).Speaks := by
  intro s message heq
  rw [playExample_message] at heq
  cases heq
  decide

end GraphScript
