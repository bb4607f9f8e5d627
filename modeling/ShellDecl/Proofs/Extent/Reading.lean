import ShellDecl.Proofs.Extent.Position

/-!
# Reading a source by lines and columns

A source is split into lines, and a stretch of it is read from a column of one line up to a column of another. A
column that its line does not have reads nothing. The stretch between two places of a reader is what was read between
them.
-/

set_option autoImplicit false

namespace ShellDecl

open Position

/-- Reads from `start` characters into the first line up to `stop` characters into the line that comes `n` lines
later. -/
def readLines? (start stop : Nat) : Nat → List (List Char) → Option (List Char)
  | _, [] => none
  | 0, line :: _ => if start ≤ stop ∧ stop ≤ line.length then some ((line.take stop).drop start) else none
  | n + 1, line :: lines =>
    if start ≤ line.length then (readLines? 0 stop n lines).map (line.drop start ++ '\n' :: ·) else none

/-- The text from position `p` up to position `q`. Lines and columns count from one. -/
def between? (source : List Char) (p q : Position) : Option (List Char) :=
  if 1 ≤ p.line ∧ p.line ≤ q.line ∧ 1 ≤ p.column ∧ 1 ≤ q.column then
    readLines? (p.column - 1) (q.column - 1) (q.line - p.line) ((source.splitOn '\n').drop (p.line - 1))
  else none

theorem drop_lines {b line : List Char} {lines : List (List Char)} (a : List Char)
    (hb : b.splitOn '\n' = line :: lines) :
    ((a ++ b).splitOn '\n').drop (a.count '\n') = (lastLine a ++ line) :: lines := by
  induction a using List.reverseRecOn generalizing b line lines with
  | nil => exact hb
  | append_singleton a c ih =>
    by_cases hc : c = '\n'
    · have hcb : (c :: b).splitOn '\n' = [] :: line :: lines := by
        rw [List.splitOn_cons_eq_if_modifyHead, hb]
        simp [hc]
      have hdrop := congrArg (List.drop 1) (ih hcb)
      rw [List.drop_drop] at hdrop
      simpa [lastLine_concat, hc] using hdrop
    · have hcb : (c :: b).splitOn '\n' = (c :: line) :: lines := by
        rw [List.splitOn_cons_eq_if_modifyHead, hb]
        simp [hc]
      simpa [lastLine_concat, hc] using ih hcb

theorem readLines?_of_not_mem {line : List Char} {lines : List (List Char)} {before text rest : List Char}
    (hbefore : '\n' ∉ before) (htext : '\n' ∉ text) (h : (text ++ rest).splitOn '\n' = line :: lines) :
    readLines? before.length (lastLine (before ++ text)).length (text.count '\n') ((before ++ line) :: lines) =
      some text := by
  obtain ⟨tail, more, hrest⟩ := List.exists_cons_of_ne_nil (List.splitOn_ne_nil '\n' rest)
  have hline := drop_lines text hrest
  rw [List.count_eq_zero_of_not_mem htext, lastLine_of_not_mem htext, List.drop_zero, h] at hline
  obtain ⟨rfl, rfl⟩ := List.cons.inj hline
  rw [List.count_eq_zero_of_not_mem htext, lastLine_of_not_mem (by simp [hbefore, htext])]
  simp [readLines?, ← List.append_assoc]

theorem readLines?_append {line : List Char} {lines : List (List Char)} (before text rest : List Char)
    (hbefore : '\n' ∉ before) (h : (text ++ rest).splitOn '\n' = line :: lines) :
    readLines? before.length (lastLine (before ++ text)).length (text.count '\n') ((before ++ line) :: lines) =
      some text := by
  by_cases htext : '\n' ∈ text
  · -- The stretch ends its first line, and what follows begins a line of its own.
    obtain ⟨head, tail, rfl, hhead⟩ := List.eq_append_cons_of_mem htext
    rw [List.append_assoc, List.cons_append, List.splitOn_append_cons_self_of_not_mem hhead] at h
    obtain ⟨rfl, rfl⟩ := List.cons.inj h
    obtain ⟨next, more, hnext⟩ := List.exists_cons_of_ne_nil (List.splitOn_ne_nil '\n' (tail ++ rest))
    have hread := readLines?_append [] tail rest List.not_mem_nil hnext
    have hcount : (head ++ '\n' :: tail).count '\n' = tail.count '\n' + 1 := by
      simp [List.count_append, List.count_eq_zero_of_not_mem hhead]
    have hlast : lastLine (before ++ (head ++ '\n' :: tail)) = lastLine tail := by
      rw [← List.append_assoc, lastLine_append_newline]
    rw [hcount, hlast, hnext, readLines?, if_pos (by simp)]
    simpa using hread
  · exact readLines?_of_not_mem hbefore htext h
termination_by text.length
decreasing_by
  subst_vars
  simp
  omega

/-- What was read between two places is what stands between them. -/
theorem between?_advance {source a text rest : List Char} (hsource : source = a ++ text ++ rest) :
    between? source (first.advance a) (first.advance (a ++ text)) = some text := by
  subst hsource
  obtain ⟨line, lines, h⟩ := List.exists_cons_of_ne_nil (List.splitOn_ne_nil '\n' (text ++ rest))
  have hdrop := drop_lines a h
  have hread := readLines?_append (lastLine a) text rest (not_mem_lastLine a) h
  rw [between?, first_advance, first_advance, if_pos (by simp), List.append_assoc]
  simp only [Nat.add_sub_cancel, hdrop, List.count_append]
  rw [← hread, lastLine_lastLine_append]
  congr 1
  omega

end ShellDecl
