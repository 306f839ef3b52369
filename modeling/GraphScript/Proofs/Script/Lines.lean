import GraphScript.Proofs.Script.Origin

/-!
# Lines of scripts

Tokens and items carry the number of the line that they stand on. The tokens of a line carry its
number, and a line has tokens only if there is something on it that is not a comment
(`Token.IsCode`). The assembly makes up no numbers: an item stands on the line of the token that
it comes from (`Token.Makes.line_eq`). So however deep an item stands in a script, its line is one
of the text, and code (`Script.code_of_inside`).
-/

namespace GraphScript

open Text

namespace Token

/-- The line that a token stands on. -/
def line : Token → Nat
  | .statement line _ => line
  | .unterminated line => line
  | .opening line _ => line
  | .closing line => line

/-- The line is neither blank nor a comment. -/
structure IsCode (text : List Char) : Prop where
  notBlank : trim text ≠ []
  notComment : ¬IsComment text

instance (text : List Char) : Decidable (IsCode text) :=
  decidable_of_iff (trim text ≠ [] ∧ ¬IsComment text)
    ⟨fun h => ⟨h.1, h.2⟩, fun h => ⟨h.notBlank, h.notComment⟩⟩

variable {token : Token} {number : Nat}

theorem Makes.line_eq {ceiling : Nat} {item : Item} (h : token.Makes ceiling item) :
    item.line = token.line := by
  cases h <;> rfl

theorem line_of_mem_leftover {pending : List Char} (h : token ∈ leftover number pending) :
    token.line = number := by
  rw [leftover] at h
  split at h
  · exact absurd h List.not_mem_nil
  · rw [List.mem_singleton.1 h, line]

theorem line_of_mem_scanLine {quoted : Bool} {pending rest : List Char}
    (h : token ∈ scanLine number quoted pending rest) : token.line = number := by
  induction rest generalizing quoted pending with
  | nil =>
    rw [scanLine] at h
    exact line_of_mem_leftover h
  | cons c rest ih =>
    rw [scanLine] at h
    split at h
    · exact ih h
    · split at h
      · exact ih h
      · split at h
        · rcases List.mem_cons.1 h with rfl | h
          · rfl
          · exact ih h
        · split at h
          · rcases List.mem_cons.1 h with rfl | h
            · rfl
            · exact ih h
          · split at h
            · -- A closing brace comes behind what stands unfinished before it.
              rcases List.mem_append.1 h with h | h
              · exact line_of_mem_leftover h
              · rcases List.mem_cons.1 h with rfl | h
                · rfl
                · exact ih h
            · exact ih h

/-- Comments and blank lines have no tokens. -/
theorem of_mem_ofLine {text : List Char} (h : token ∈ ofLine number text) :
    token.line = number ∧ IsCode text := by
  have hcomment : ¬IsComment text := by
    intro hcomment
    rw [ofLine_comment hcomment] at h
    exact List.not_mem_nil h
  have hblank : trim text ≠ [] := by
    intro hblank
    rw [ofLine, hblank] at h
    exact List.not_mem_nil h
  rw [ofLine_eq_scanLine hcomment] at h
  exact ⟨line_of_mem_scanLine h, hblank, hcomment⟩

theorem of_mem_ofLines {first : Nat} {ls : List (List Char)} (h : token ∈ ofLines first ls) :
    ∃ i text, ls[i]? = some text ∧ IsCode text ∧ token.line = first + i := by
  induction ls generalizing first with
  | nil => exact absurd h List.not_mem_nil
  | cons text ls ih =>
    rw [ofLines] at h
    rcases List.mem_append.1 h with h | h
    · obtain ⟨hline, hcode⟩ := of_mem_ofLine h
      exact ⟨0, text, rfl, hcode, hline⟩
    · obtain ⟨i, text', htext', hcode, hline⟩ := ih h
      exact ⟨i + 1, text', htext', hcode, by omega⟩

end Token

namespace Script

/-- Every item of a script, at any depth, stands on a line of the text that is neither blank nor a
    comment. -/
theorem code_of_inside {source : String} {ceiling n : Nat} {item : Item}
    (h : Item.Inside (parse source ceiling).items n item) :
    1 ≤ item.line ∧ item.line ≤ (lines source.toList).length ∧
      ∃ text, (lines source.toList)[item.line - 1]? = some text ∧ Token.IsCode text := by
  obtain ⟨token, htoken, horigin⟩ := exists_token h.mem_partsOf
  have hline : item.line = token.line := by
    rcases horigin with hmakes | ⟨f, rfl, rfl⟩
    · exact hmakes.line_eq
    · rfl
  obtain ⟨i, text, htext, hcode, hnumber⟩ := Token.of_mem_ofLines htoken
  obtain ⟨hi, -⟩ := List.getElem?_eq_some_iff.1 htext
  refine ⟨by omega, by omega, text, ?_, hcode⟩
  rwa [hline, hnumber, Nat.add_sub_cancel_left]

end Script

end GraphScript
