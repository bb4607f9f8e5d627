import ShellDecl.Proofs.Path.Components

/-!
# Paths below a root

The path from a root is cut out of a text behind the components of the root. What is cut off at the ends are slashes and
dots that are no components, so that the root and what is left have the components of the path. A path that is not below
the root is shown as it is.
-/

set_option autoImplicit false

namespace ShellDecl.Path

def trimmed (text : List Char) : List Char :=
  (skipEmptyBack (skipEmpty text).reverse).reverse

theorem skipEmptyBack_suffix (text : List Char) : skipEmptyBack text <:+ text := by
  fun_induction skipEmptyBack text with
  | case1 rest ih => exact ih.trans (List.suffix_cons _ _)
  | case2 => exact List.nil_suffix
  | case3 rest ih => exact ih.trans ((List.suffix_cons _ _).trans (List.suffix_cons _ _))
  | case4 text h₁ h₂ h₃ => exact List.suffix_rfl

theorem inner_skipEmptyBack (text : List Char) : inner (skipEmptyBack text).reverse = inner text.reverse := by
  fun_induction skipEmptyBack text with
  | case1 rest ih =>
    have hend : inner (rest.reverse ++ ['/']) = inner rest.reverse := by
      rw [inner_slash, inner_nil, List.append_nil]
    rw [ih, List.reverse_cons, hend]
  | case2 => rfl
  | case3 rest ih =>
    have hend : inner (rest.reverse ++ ['/', '.']) = inner rest.reverse := by
      rw [inner_slash]
      exact List.append_nil _
    rw [ih, List.reverse_cons, List.reverse_cons, List.append_assoc]
    exact hend.symm
  | case4 text h₁ h₂ h₃ => rfl

theorem inner_trimmed (text : List Char) : inner (trimmed text) = inner text := by
  rw [trimmed, inner_skipEmptyBack, List.reverse_reverse, inner_skipEmpty]

theorem head?_skipEmpty (text : List Char) : (skipEmpty text).head? ≠ some '/' := by
  fun_induction skipEmpty text with
  | case1 rest ih => exact ih
  | case2 => simp
  | case3 rest ih => exact ih
  | case4 text h₁ h₂ h₃ =>
    intro hhead
    rcases List.head?_eq_some_iff.mp hhead with ⟨rest, rfl⟩
    exact h₁ rest rfl

/-- What is left of a text does not begin with a slash. -/
theorem not_isAbsolute_trimmed (text : List Char) : isAbsolute (String.ofList (trimmed text)) = false := by
  have hprefix : trimmed text <+: skipEmpty text := by
    rw [trimmed, ← List.reverse_suffix, List.reverse_reverse]
    exact skipEmptyBack_suffix _
  have hhead := head?_skipEmpty text
  rcases hprefix with ⟨more, hmore⟩
  rw [← hmore] at hhead
  cases htext : trimmed text with
  | nil => rfl
  | cons c rest =>
    rw [htext] at hhead
    simpa [isAbsolute] using hhead

/-- Components begin those of a text, and the others are left of it, or nothing of the text is behind them. -/
theorem behind?_cases (text : List Char) (cs : List Component) :
    (behind? false text cs = none ∧ ¬ cs <+: inner text) ∨
      ∃ rest, behind? false text cs = some (false, rest) ∧ inner text = cs ++ inner rest := by
  induction cs generalizing text with
  | nil => exact .inr ⟨text, rfl, rfl⟩
  | cons c cs ih =>
    rcases next?_cases text with ⟨hnext, hinner⟩ | ⟨c', rest, hnext, hinner, -⟩
    · left
      rw [behind?, hnext, hinner]
      exact ⟨rfl, by simp⟩
    · rw [behind?, hnext, hinner]
      by_cases hc : c' = c
      · rcases ih rest with ⟨hnone, hnot⟩ | ⟨behind, hsome, hrest⟩
        · left
          exact ⟨by simp [hc, hnone], by simp [hc, hnot]⟩
        · right
          exact ⟨behind, by simp [hc, hsome], by simp [hc, hrest]⟩
      · left
        exact ⟨by simp [hc], by simp [Ne.symm hc]⟩

variable {root path : String}

theorem exists_of_isAbsolute (h : isAbsolute path = true) : ∃ rest, path.toList = '/' :: rest :=
  List.head?_eq_some_iff.mp (eq_of_beq h)

theorem components_of_isAbsolute (h : isAbsolute path = true) : components path = .root :: inner path.toList := by
  rcases exists_of_isAbsolute h with ⟨rest, hrest⟩
  rw [components_eq, hrest]
  rfl

theorem below_eq (hroot : isAbsolute root = true) {text : List Char} (hpath : path.toList = '/' :: text) :
    below root path =
      match behind? false text (inner root.toList) with
      | none => path
      | some (_, rest) => String.ofList (trimmed rest) := by
  have hbehind : behind? true path.toList (components root) = behind? false text (inner root.toList) := by
    rw [components_of_isAbsolute hroot, hpath]
    rfl
  rw [below, hbehind]
  rcases behind?_cases text (inner root.toList) with ⟨hnone, -⟩ | ⟨rest, hsome, -⟩
  · rw [hnone]
  · rw [hsome]
    rfl

/-- A path that is not below a root stays as it is, and of any other what is behind the root is left. -/
theorem below_cases (hroot : isAbsolute root = true) (hpath : isAbsolute path = true) :
    (¬ components root <+: components path ∧ below root path = path) ∨
      ∃ rest, below root path = String.ofList (trimmed rest) ∧
        components path = components root ++ inner rest := by
  rcases exists_of_isAbsolute hpath with ⟨text, htext⟩
  have hcomponents : components path = .root :: inner text := by
    rw [components_of_isAbsolute hpath, htext, inner_cons_slash]
  rw [below_eq hroot htext, hcomponents, components_of_isAbsolute hroot]
  rcases behind?_cases text (inner root.toList) with ⟨hnone, hnot⟩ | ⟨rest, hsome, hrest⟩
  · left
    rw [hnone]
    exact ⟨by simpa using hnot, rfl⟩
  · right
    rw [hsome, hrest]
    exact ⟨rest, rfl, rfl⟩

/-- What is left of a path leads from the root to the place of the path. -/
theorem components_join_below (hroot : isAbsolute root = true) (hpath : isAbsolute path = true) :
    components (join root (below root path)) = components path := by
  rcases below_cases hroot hpath with ⟨-, heq⟩ | ⟨rest, heq, hcomponents⟩
  · rw [heq, join, if_pos hpath]
  · have hbase : root.toList ≠ [] := by
      rcases exists_of_isAbsolute hroot with ⟨text, htext⟩
      simp [htext]
    have hjoin := components_join_inner root (not_isAbsolute_trimmed rest) (fun h => absurd h hbase)
    rw [heq, hjoin, String.toList_ofList, inner_trimmed, hcomponents]

theorem not_isAbsolute_below_iff (hroot : isAbsolute root = true) (hpath : isAbsolute path = true) :
    isAbsolute (below root path) = false ↔ components root <+: components path := by
  rcases below_cases hroot hpath with ⟨hnot, heq⟩ | ⟨rest, heq, hcomponents⟩
  · rw [heq, hpath]
    exact iff_of_false (by simp) hnot
  · rw [heq, hcomponents]
    exact iff_of_true (not_isAbsolute_trimmed rest) (List.prefix_append _ _)

theorem below_eq_self (hroot : isAbsolute root = true) (hpath : isAbsolute path = true)
    (h : ¬ components root <+: components path) : below root path = path := by
  rcases below_cases hroot hpath with ⟨-, heq⟩ | ⟨rest, -, hcomponents⟩
  · exact heq
  · rw [hcomponents] at h
    exact absurd (List.prefix_append _ _) h

end ShellDecl.Path
