import Mathlib.Data.List.Basic

/-!
# Folded lines

Lines that end in CR LF, where CR LF and a blank in the middle of a line are no
part of it. Lines without LF that do not begin with a blank are told apart again,
in characters as well as in octets.
-/

namespace Sinnlos.FoldedLines

def CRLF : List Char := ['\r', '\n']

/-- A line without the folds: CR LF and one blank. -/
def unfold : List Char → List Char
  | '\r' :: '\n' :: ' ' :: rest => unfold rest
  | '\r' :: '\n' :: '\t' :: rest => unfold rest
  | c :: rest => c :: unfold rest
  | [] => []

section

variable {α : Type} [DecidableEq α] (first second : α)

/-- The pieces between the places where two elements follow each other. -/
def splitPair : List α → List (List α)
  | [] => [[]]
  | [a] => [[a]]
  | a :: b :: rest =>
      if a = first ∧ b = second then [] :: splitPair rest
      else
        match splitPair (b :: rest) with
        | [] => [[a]]
        | piece :: pieces => (a :: piece) :: pieces

variable {first second} {piece : List α}

theorem splitPair_cons_of_ne {a : α} (h : ∀ b ∈ piece.head?, ¬(a = first ∧ b = second))
    {p : List α} {ps : List (List α)} (hpiece : splitPair first second piece = p :: ps) :
    splitPair first second (a :: piece) = (a :: p) :: ps := by
  cases piece with
  | nil =>
      cases hpiece
      rfl
  | cons b rest =>
      have hne := h b rfl
      rw [splitPair, if_neg hne, hpiece]

theorem splitPair_piece (h : second ∉ piece) : splitPair first second piece = [piece] := by
  induction piece with
  | nil => rfl
  | cons a piece ih =>
      rw [List.mem_cons, not_or] at h
      apply splitPair_cons_of_ne _ (ih h.2)
      intro b hb heq
      exact h.2 (heq.2 ▸ List.mem_of_mem_head? hb)

theorem splitPair_append (hne : first ≠ second) (h : second ∉ piece) (rest : List α) :
    splitPair first second (piece ++ first :: second :: rest) =
      piece :: splitPair first second rest := by
  induction piece with
  | nil => rw [List.nil_append, splitPair, if_pos ⟨rfl, rfl⟩]
  | cons a piece ih =>
      rw [List.mem_cons, not_or] at h
      rw [List.cons_append]
      apply splitPair_cons_of_ne _ (ih h.2)
      intro b hb heq
      cases piece with
      | nil =>
          cases hb
          exact hne heq.2
      | cons c piece =>
          cases hb
          exact h.2 (heq.2 ▸ List.mem_cons_self)

variable {pieces : List (List α)}

/-- Pieces that are each ended by the two elements. -/
theorem splitPair_ended (hne : first ≠ second) (h : ∀ piece ∈ pieces, second ∉ piece) :
    splitPair first second (pieces.flatMap fun piece => piece ++ [first, second]) =
      pieces ++ [[]] := by
  induction pieces with
  | nil => rfl
  | cons piece pieces ih =>
      rw [List.forall_mem_cons] at h
      rw [List.flatMap_cons, List.append_assoc]
      have hsplit := splitPair_append hne h.1
        (pieces.flatMap fun piece => piece ++ [first, second])
      rw [ih h.2] at hsplit
      exact hsplit

/-- Pieces with the two elements between them. -/
theorem splitPair_joined (hne : first ≠ second) (h : ∀ p ∈ piece :: pieces, second ∉ p) :
    splitPair first second (piece ++ pieces.flatMap fun piece => first :: second :: piece) =
      piece :: pieces := by
  induction pieces generalizing piece with
  | nil =>
      rw [List.flatMap_nil, List.append_nil]
      exact splitPair_piece (h piece List.mem_cons_self)
  | cons next pieces ih =>
      rw [List.forall_mem_cons] at h
      rw [List.flatMap_cons, List.cons_append, List.cons_append, splitPair_append hne h.1, ih h.2]

end

/-! ## Unfolding -/

variable {line rest : List Char} {c : Char}

/-- A character that begins no fold is kept. -/
theorem unfold_keep (hspace : ∀ tail, c = '\r' → rest ≠ '\n' :: ' ' :: tail)
    (htab : ∀ tail, c = '\r' → rest ≠ '\n' :: '\t' :: tail) :
    unfold (c :: rest) = c :: unfold rest := by
  rw [unfold]
  · exact hspace
  · exact htab

theorem unfold_cons (h : c ≠ '\r') (rest : List Char) : unfold (c :: rest) = c :: unfold rest := by
  apply unfold_keep
  · intro tail hc
    exact absurd hc h
  · intro tail hc
    exact absurd hc h

theorem unfold_cr (h : rest.head? ≠ some '\n') : unfold ('\r' :: rest) = '\r' :: unfold rest := by
  apply unfold_keep
  · rintro tail _ rfl
    exact h rfl
  · rintro tail _ rfl
    exact h rfl

theorem unfold_fold (rest : List Char) : unfold (CRLF ++ ' ' :: rest) = unfold rest := by
  rw [CRLF, List.cons_append, List.cons_append, List.nil_append, unfold]

/-- A line end is kept where no blank follows. -/
theorem unfold_end (hspace : rest.head? ≠ some ' ') (htab : rest.head? ≠ some '\t') :
    unfold (CRLF ++ rest) = CRLF ++ unfold rest := by
  have hend : unfold ('\r' :: '\n' :: rest) = '\r' :: unfold ('\n' :: rest) := by
    apply unfold_keep
    · rintro tail _ heq
      exact hspace (by rw [(List.cons.inj heq).2]; rfl)
    · rintro tail _ heq
      exact htab (by rw [(List.cons.inj heq).2]; rfl)
  rw [CRLF, List.cons_append, List.cons_append, List.nil_append, hend, unfold_cons (by decide),
    List.cons_append, List.cons_append, List.nil_append]

/-- Characters without LF stay as they are. -/
theorem unfold_append (h : '\n' ∉ line) (hrest : rest.head? ≠ some '\n') :
    unfold (line ++ rest) = line ++ unfold rest := by
  induction line with
  | nil => rfl
  | cons c line ih =>
      rw [List.mem_cons, not_or] at h
      rw [List.cons_append, List.cons_append]
      by_cases hc : c = '\r'
      · subst hc
        have hhead : (line ++ rest).head? ≠ some '\n' := by
          cases line with
          | nil => exact hrest
          | cons d line =>
              intro heq
              exact h.2 (Option.some.inj heq ▸ List.mem_cons_self)
        rw [unfold_cr hhead, ih h.2]
      · rw [unfold_cons hc, ih h.2]

end Sinnlos.FoldedLines
