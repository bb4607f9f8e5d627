import Mathlib.Data.List.TakeWhile
import ShellDecl.Path

/-!
# Components of a path

Behind its front a path is a list of segments between slashes. Each segment is a component, unless it is empty or a
dot. So a name that is joined to a path is one component more.
-/

set_option autoImplicit false

namespace ShellDecl.Path

def ofSegment? (s : List Char) : Option Component :=
  if s = [] ∨ s = ['.'] then none else if s = ['.', '.'] then some .parent else some (.name s)

def front : List Char → List Component
  | [] => []
  | c :: rest => if c = '/' then [.root] else if c = '.' ∧ rest.head?.getD '/' = '/' then [.here] else []

/-- The components of a text behind the front of a path. -/
def inner (text : List Char) : List Component :=
  (text.splitOn '/').filterMap ofSegment?

theorem segment_cases (text : List Char) :
    ('/' ∉ text ∧ segment text = (text, [])) ∨
      ∃ s rest, text = s ++ '/' :: rest ∧ '/' ∉ s ∧ segment text = (s, rest) := by
  by_cases hslash : '/' ∈ text
  · obtain ⟨s, rest, rfl, hs⟩ := List.eq_append_cons_of_mem hslash
    have hother : ∀ c ∈ s, (c != '/') = true := by
      intro c hc
      simpa using fun h : c = '/' => hs (h ▸ hc)
    refine .inr ⟨s, rest, rfl, hs, ?_⟩
    simp [segment, List.takeWhile_append_of_pos hother, List.dropWhile_append_of_pos hother]
  · have hother : ∀ c ∈ text, (c != '/') = true := by
      intro c hc
      simpa using fun h : c = '/' => hslash (h ▸ hc)
    refine .inl ⟨hslash, ?_⟩
    have htake : text.takeWhile (· != '/') = text := List.takeWhile_eq_self_iff.mpr hother
    have hdrop : text.dropWhile (· != '/') = [] := List.dropWhile_eq_nil_iff.mpr hother
    rw [segment, htake, hdrop]
    rfl

theorem length_skipEmpty_le (text : List Char) : (skipEmpty text).length ≤ text.length := by
  fun_induction skipEmpty text <;> simp_all <;> omega

@[simp] theorem inner_nil : inner [] = [] := rfl

theorem inner_slash (text rest : List Char) : inner (text ++ '/' :: rest) = inner text ++ inner rest := by
  rw [inner, List.splitOn_append_cons_self, List.filterMap_append]
  rfl

@[simp] theorem inner_cons_slash (rest : List Char) : inner ('/' :: rest) = inner rest := inner_slash [] rest

theorem inner_of_not_mem {s : List Char} (hslash : '/' ∉ s) : inner s = (ofSegment? s).toList := by
  rw [inner, List.splitOn_eq_singleton hslash]
  cases hs : ofSegment? s <;> simp [hs]

theorem inner_skipEmpty (text : List Char) : inner (skipEmpty text) = inner text := by
  fun_induction skipEmpty text with
  | case1 rest ih => exact ih.trans (inner_cons_slash rest).symm
  | case2 => rfl
  | case3 rest ih => exact ih.trans (inner_slash ['.'] rest).symm
  | case4 text h₁ h₂ h₃ => rfl

theorem ofSegment?_of_skipEmpty {text s : List Char}
    (h : skipEmpty text = s ∨ ∃ rest, skipEmpty text = s ++ '/' :: rest) (hs : skipEmpty text ≠ []) :
    ofSegment? s = some (if s = ['.', '.'] then .parent else .name s) := by
  have hne : s ≠ [] ∧ s ≠ ['.'] := by
    fun_induction skipEmpty text with
    | case1 rest ih => exact ih h hs
    | case2 => exact absurd rfl hs
    | case3 rest ih => exact ih h hs
    | case4 text h₁ h₂ h₃ =>
      obtain rfl | ⟨rest, rfl⟩ := h
      · exact ⟨hs, h₂⟩
      · constructor
        · rintro rfl
          exact h₁ _ rfl
        · rintro rfl
          exact h₃ _ rfl
  rw [ofSegment?, if_neg (by simpa [not_or] using hne)]
  split <;> rfl

/-- Behind the front a text has no component left, or its first one is read and the others are left. -/
theorem next?_cases (text : List Char) :
    (next? false text = none ∧ inner text = []) ∨
      ∃ c rest, next? false text = some (c, rest) ∧ inner text = c :: inner rest ∧ rest.length < text.length := by
  have hle := length_skipEmpty_le text
  rw [← inner_skipEmpty]
  cases hskip : skipEmpty text with
  | nil => exact .inl ⟨by simp [next?, hskip], inner_nil⟩
  | cons c cs =>
    right
    have hne : skipEmpty text ≠ [] := by simp [hskip]
    have hnext : next? false text =
        some (if (segment (c :: cs)).1 = ['.', '.'] then .parent else .name (segment (c :: cs)).1,
          (segment (c :: cs)).2) := by
      simp [next?, hskip]
    rcases segment_cases (c :: cs) with ⟨hslash, hseg⟩ | ⟨s, rest, heq, hslash, hseg⟩
    · have hcomponent := ofSegment?_of_skipEmpty (.inl hskip) hne
      rw [hseg] at hnext
      refine ⟨_, [], hnext, ?_, ?_⟩
      · rw [inner_of_not_mem hslash, hcomponent]
        rfl
      · rw [hskip, List.length_cons] at hle
        exact Nat.lt_of_lt_of_le (Nat.succ_pos _) hle
    · have hcomponent := ofSegment?_of_skipEmpty (.inr ⟨rest, hskip.trans heq⟩) hne
      rw [hseg] at hnext
      refine ⟨_, rest, hnext, ?_, ?_⟩
      · rw [heq, inner_slash, inner_of_not_mem hslash, hcomponent]
        rfl
      · rw [hskip, heq, List.length_append, List.length_cons] at hle
        omega

theorem componentsFrom_eq (n : Nat) (text : List Char) (hn : text.length < n) :
    componentsFrom n false text = inner text := by
  induction n generalizing text with
  | zero => exact absurd hn (Nat.not_lt_zero _)
  | succ n ih =>
    rcases next?_cases text with ⟨hnext, hinner⟩ | ⟨c, rest, hnext, hinner, hlt⟩
    · rw [componentsFrom, hnext, hinner]
    · rw [componentsFrom, hnext, hinner]
      exact congrArg _ (ih rest (by omega))

/-- The components of a path are its front and its segments. -/
theorem components_eq (path : String) : components path = front path.toList ++ inner path.toList := by
  unfold components
  generalize path.toList = text
  have hbehind := componentsFrom_eq (text.length + 1) text (Nat.lt_succ_self _)
  -- Without a front a path is read as it is behind one.
  have hplain : front text = [] → next? true text = next? false text →
      componentsFrom (text.length + 1) true text = front text ++ inner text := by
    intro hfront hnext
    rw [hfront, List.nil_append, ← hbehind, componentsFrom, componentsFrom, hnext]
  by_cases hroot : ∃ rest, text = '/' :: rest
  · obtain ⟨rest, rfl⟩ := hroot
    simp [componentsFrom, next?, componentsFrom_eq, front]
  · by_cases hdot : text = ['.'] ∨ ∃ rest, text = '.' :: '/' :: rest
    · obtain rfl | ⟨rest, rfl⟩ := hdot
      · rfl
      · have hrest : inner ('.' :: '/' :: rest) = inner rest := inner_slash ['.'] rest
        simp [componentsFrom, next?, componentsFrom_eq, hrest, front]
    · rw [not_or] at hdot
      apply hplain
      · cases text with
        | nil => rfl
        | cons c rest =>
          have hc : c ≠ '/' := fun h => hroot ⟨rest, h ▸ rfl⟩
          rw [front, if_neg hc, if_neg]
          rintro ⟨rfl, hhead⟩
          cases rest with
          | nil => exact hdot.1 rfl
          | cons d rest => exact hdot.2 ⟨rest, by simpa using hhead⟩
      · simp only [next?]
        split <;> simp_all

theorem front_append {text : List Char} (hne : text ≠ []) (more : List Char)
    (h : text = ['.'] → more.head? = some '/') : front (text ++ more) = front text := by
  cases text with
  | nil => exact absurd rfl hne
  | cons c rest =>
    cases rest with
    | nil =>
      by_cases hdot : c = '.'
      · subst hdot
        simp [front, h rfl]
      · simp [front, hdot]
    | cons d rest => rfl

theorem toList_join (base : String) {name : String} (hrelative : isAbsolute name = false) :
    (base.toList = [] ∧ (join base name).toList = name.toList) ∨
      (∃ text, base.toList = text ++ ['/'] ∧ (join base name).toList = text ++ '/' :: name.toList) ∨
      (base.toList ≠ [] ∧ (join base name).toList = base.toList ++ '/' :: name.toList) := by
  rw [join, if_neg (by simp [hrelative])]
  by_cases hempty : base.toList = []
  · rw [if_pos (by simp_all)]
    exact .inl ⟨hempty, by simp [hempty]⟩
  · by_cases hlast : base.toList.getLast? = some '/'
    · obtain ⟨text, htext⟩ := List.getLast?_eq_some_iff.mp hlast
      rw [if_pos (by simp [hlast])]
      exact .inr (.inl ⟨text, htext, by simp [htext]⟩)
    · rw [if_neg (by simp_all)]
      exact .inr (.inr ⟨hempty, by simp⟩)

/-- What is joined to a path goes on with its components. -/
theorem components_join_inner (base : String) {more : String} (hrelative : isAbsolute more = false)
    (hfront : base.toList = [] → front more.toList = []) :
    components (join base more) = components base ++ inner more.toList := by
  rw [components_eq, components_eq base]
  rcases toList_join base hrelative with ⟨hbase, hjoin⟩ | ⟨text, hbase, hjoin⟩ | ⟨hbase, hjoin⟩
  · rw [hjoin, hbase, hfront hbase]
    rfl
  · have hdot : text ++ ['/'] ≠ ['.'] := by
      intro h
      simpa using congrArg List.getLast? h
    have hgo := front_append (by simp) more.toList (fun h => absurd h hdot)
    have hend : inner (text ++ ['/']) = inner text := (inner_slash text []).trans (List.append_nil _)
    rw [hjoin, hbase, inner_slash, hend, ← hgo]
    simp
  · rw [hjoin, inner_slash, front_append hbase _ (fun _ => rfl), List.append_assoc]

/-- A name that is joined to a path is its last component. -/
theorem components_join (base : String) {name : String} (hslash : '/' ∉ name.toList)
    (hname : ofSegment? name.toList = some (.name name.toList)) :
    components (join base name) = components base ++ [.name name.toList] := by
  have hfront : front name.toList = [] ∧ isAbsolute name = false := by
    cases htext : name.toList with
    | nil => simp [front, isAbsolute, htext]
    | cons c rest =>
      rw [htext] at hslash hname
      obtain ⟨hc, hrest⟩ := not_or.mp (List.mem_cons.not.mp hslash)
      refine ⟨?_, by simpa [isAbsolute, htext] using Ne.symm hc⟩
      rw [front, if_neg (Ne.symm hc), if_neg]
      rintro ⟨rfl, hhead⟩
      cases rest with
      | nil => simp [ofSegment?] at hname
      | cons d rest => exact hrest (by simpa using Or.inl hhead.symm)
  rw [components_join_inner base hfront.2 fun _ => hfront.1, inner_of_not_mem hslash, hname]
  rfl

theorem exists_segment {text : List Char} {c : Char} (hc : c ≠ '/') (h : c ∈ text) : ∃ s ∈ text.splitOn '/', c ∈ s := by
  induction text with
  | nil => cases h
  | cons d rest ih =>
    rw [List.splitOn_cons_eq_if_modifyHead]
    obtain ⟨s, more, hsplit⟩ := List.exists_cons_of_ne_nil (List.splitOn_ne_nil '/' rest)
    rw [hsplit] at ih ⊢
    obtain rfl | hrest := List.mem_cons.mp h
    · exact ⟨c :: s, by simp [hc], List.mem_cons_self⟩
    · obtain ⟨u, hu, hcu⟩ := ih hrest
      split
      · exact ⟨u, List.mem_cons_of_mem _ hu, hcu⟩
      · obtain rfl | hmore := List.mem_cons.mp hu
        · exact ⟨d :: u, by simp, List.mem_cons_of_mem _ hcu⟩
        · exact ⟨u, by simp [hmore], hcu⟩

theorem mem_of_mem_segment {text s : List Char} (hs : s ∈ text.splitOn '/') {c : Char} (h : c ∈ s) : c ∈ text := by
  induction text generalizing s with
  | nil =>
    obtain rfl := List.mem_singleton.mp hs
    exact h
  | cons d rest ih =>
    rw [List.splitOn_cons_eq_if_modifyHead] at hs
    obtain ⟨u, more, hsplit⟩ := List.exists_cons_of_ne_nil (List.splitOn_ne_nil '/' rest)
    rw [hsplit] at hs ih
    split at hs
    · obtain rfl | hs := List.mem_cons.mp hs
      · cases h
      · exact List.mem_cons_of_mem _ (ih hs h)
    · obtain rfl | hs := List.mem_cons.mp hs
      · obtain rfl | h := List.mem_cons.mp h
        · exact List.mem_cons_self
        · exact List.mem_cons_of_mem _ (ih List.mem_cons_self h)
      · exact List.mem_cons_of_mem _ (ih (List.mem_cons_of_mem _ hs) h)

theorem mem_of_mem_name {path : String} {s : List Char} (hs : .name s ∈ components path) {c : Char} (h : c ∈ s) :
    c ∈ path.toList := by
  rw [components_eq, List.mem_append, inner, List.mem_filterMap] at hs
  obtain hfront | ⟨u, hu, hname⟩ := hs
  · unfold front at hfront
    split at hfront
    · cases hfront
    · split at hfront
      · simp at hfront
      · split at hfront <;> simp at hfront
  · rw [ofSegment?] at hname
    split at hname
    · cases hname
    · split at hname
      · simp at hname
      · obtain rfl : u = s := by simpa using hname
        exact mem_of_mem_segment hu h

theorem exists_name_of_zero {path : String} (h : '\x00' ∈ path.toList) :
    ∃ s, Component.name s ∈ components path ∧ '\x00' ∈ s := by
  obtain ⟨s, hs, hzero⟩ := exists_segment (by decide) h
  refine ⟨s, ?_, hzero⟩
  rw [components_eq, List.mem_append, inner, List.mem_filterMap]
  refine .inr ⟨s, hs, ?_⟩
  have hother : s ≠ [] ∧ s ≠ ['.'] ∧ s ≠ ['.', '.'] := by
    refine ⟨?_, ?_, ?_⟩ <;>
      · rintro rfl
        revert hzero
        decide
  simp [ofSegment?, hother]

end ShellDecl.Path
