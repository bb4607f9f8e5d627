import ShellDecl.Lookup
import ShellDecl.Proofs.Declaration.Name
import ShellDecl.Proofs.Script.Walk

/-!
# The first node that ends a search

A walk that never skips is a search of the nodes in document order. So a lookup is settled by the first node that is
malformed or declares the symbol, and no node after that one matters.
-/

set_option autoImplicit false

namespace ShellDecl

/-- The one text of a query that declarations are compared with. -/
def Symbol.sought (query : Symbol) : String :=
  if query.kind = .var then query.displayName else query.extent.text

namespace Script

variable {α : Type}

def Action.stopped? : Action α → Option α
  | .stop result => some result
  | _ => none

theorem Visitor.upToStop_snd (v : Visitor α) (ts : List Script) :
    (v.upToStop ts).2 = ts.findSome? fun t => (v.visit t).stopped? := by
  induction ts with
  | nil => rfl
  | cons t ts ih =>
    rw [upToStop, List.findSome?_cons]
    cases v.visit t with
    | proceed => exact ih
    | skip => exact ih
    | stop result => rfl

theorem walk_eq_findSome? (v : Visitor α) (hv : ∀ t, v.visit t ≠ .skip) (t : Script) :
    walk v t = (preorder t).findSome? fun t => (v.visit t).stopped? := by
  have hskips : ∀ u, v.skips u = false := by
    intro u
    rw [Visitor.skips]
    split
    · exact absurd ‹_› (hv u)
    · rfl
  have hreached : v.reached t = t.preorder := v.keep_lineage_of_not_skips rfl fun u _ => hskips u
  rw [walk_eq_explore, explore_eq_reached, v.upToStop_snd, hreached]

/-- A function whose name is empty or does not occur in its text. -/
def IsMalformed : Script → Prop
  | .function e name _ => ¬ NamedIn e name
  | _ => False

/-- A function is matched by its name, against the text of the query. -/
def DeclaresFunction (query : Symbol) : Script → Prop
  | .function _ name _ => query.kind = .function ∧ name = query.extent.text
  | _ => False

/-- A variable is matched by its text, against the display name of the query. -/
def DeclaresVariable (query : Symbol) : Script → Prop
  | .variableName e => query.kind = .var ∧ e.text = query.displayName
  | _ => False

def Ends (query : Symbol) (t : Script) : Prop :=
  t.IsMalformed ∨ t.DeclaresFunction query ∨ t.DeclaresVariable query

instance : (t : Script) → Decidable t.IsMalformed
  | .function e name _ => inferInstanceAs (Decidable (¬ NamedIn e name))
  | .variableName _ => .isFalse id
  | .other _ _ _ => .isFalse id

instance (query : Symbol) : (t : Script) → Decidable (t.DeclaresFunction query)
  | .function _ _ _ => inferInstanceAs (Decidable (_ ∧ _))
  | .variableName _ => .isFalse id
  | .other _ _ _ => .isFalse id

instance (query : Symbol) : (t : Script) → Decidable (t.DeclaresVariable query)
  | .function _ _ _ => .isFalse id
  | .variableName _ => inferInstanceAs (Decidable (_ ∧ _))
  | .other _ _ _ => .isFalse id

instance (query : Symbol) (t : Script) : Decidable (t.Ends query) :=
  inferInstanceAs (Decidable (_ ∨ _))

theorem ends_congr {query other : Symbol} (hkind : query.kind = other.kind) (hsought : query.sought = other.sought)
    (t : Script) : t.Ends query ↔ t.Ends other := by
  cases t with
  | function e name body =>
    by_cases hk : other.kind = .function
    · have htext : query.extent.text = other.extent.text := by simpa [Symbol.sought, hkind, hk] using hsought
      simp [Ends, DeclaresFunction, DeclaresVariable, hkind, htext]
    · simp [Ends, DeclaresFunction, DeclaresVariable, hkind, hk]
  | variableName e =>
    by_cases hk : other.kind = .var
    · have htext : query.displayName = other.displayName := by simpa [Symbol.sought, hkind, hk] using hsought
      simp [Ends, DeclaresFunction, DeclaresVariable, hkind, htext]
    · simp [Ends, DeclaresFunction, DeclaresVariable, hkind, hk]
  | other e label children => simp [Ends, DeclaresFunction, DeclaresVariable]

def answer : Script → Except FinderError (Option Symbol)
  | .function e name body =>
    if NamedIn e name then
      (nameExtent (.function e name body) name).map fun found => some ⟨.function, found, ""⟩
    else .error (.nameNotInExtent name e)
  | .variableName e => .ok (some ⟨.var, e, ""⟩)
  | .other _ _ _ => .ok none

def search (query : Symbol) (nodes : List Script) : Except FinderError (Option Symbol) :=
  match nodes.find? (fun t => t.Ends query) with
  | some t => t.answer
  | none => .ok none

theorem search_of_first {query : Symbol} {before after : List Script} {t : Script}
    (hbefore : ∀ u ∈ before, ¬ u.Ends query) (ht : t.Ends query) :
    search query (before ++ t :: after) = t.answer := by
  have hnone : before.find? (fun t => t.Ends query) = none := by
    rw [List.find?_eq_none]
    intro u hu
    simpa using hbefore u hu
  rw [search, List.find?_append, hnone, List.find?_cons_of_pos (by simpa using ht)]
  rfl

theorem search_of_none {query : Symbol} {nodes : List Script} (h : ∀ t ∈ nodes, ¬ t.Ends query) :
    search query nodes = .ok none := by
  have hnone : nodes.find? (fun t => t.Ends query) = none := by
    rw [List.find?_eq_none]
    intro t ht
    simpa using h t ht
  rw [search, hnone]

theorem none_or_first (query : Symbol) (nodes : List Script) :
    (∀ t ∈ nodes, ¬ t.Ends query) ∨
      ∃ before t after, nodes = before ++ t :: after ∧ (∀ u ∈ before, ¬ u.Ends query) ∧ t.Ends query := by
  cases h : nodes.find? (fun t => t.Ends query) with
  | none =>
    left
    intro t ht
    simpa using List.find?_eq_none.mp h t ht
  | some t =>
    obtain ⟨ht, before, after, hsplit, hbefore⟩ := List.find?_eq_some_iff_append.mp h
    exact Or.inr ⟨before, t, after, hsplit, fun u hu => by simpa using hbefore u hu, by simpa using ht⟩

theorem answer_ne_none {query : Symbol} {t : Script} (h : t.Ends query) : t.answer ≠ .ok none := by
  cases t with
  | function e name body =>
    by_cases hn : NamedIn e name
    · obtain ⟨i, -, hok⟩ := nameExtent_of_namedIn (t := .function e name body) hn
      simp [answer, hn, hok, Except.map]
    · simp [answer, hn]
  | variableName e => simp [answer]
  | other e label children => simp [Ends, IsMalformed, DeclaresFunction, DeclaresVariable] at h

end Script

open Script

theorem finder_visit_ne_skip (query : Symbol) (t : Script) : (finder query).visit t ≠ .skip := by
  cases t with
  | function e name body =>
    simp only [Visitor.visit, finder]
    split
    · simp
    · split <;> simp
  | variableName e =>
    simp only [Visitor.visit, finder]
    split <;> simp
  | other e label children => simp [Visitor.visit, finder]

theorem finder_stopped? (query : Symbol) (t : Script) :
    ((finder query).visit t).stopped?.map (·.map some) = if t.Ends query then some t.answer else none := by
  cases t with
  | function e name body =>
    by_cases h : NamedIn e name
    · obtain ⟨i, -, hok⟩ := nameExtent_of_namedIn (t := .function e name body) h
      by_cases hm : query.kind = .function ∧ name = query.extent.text
      · have hends : Ends query (.function e name body) := Or.inr (Or.inl hm)
        simp [Visitor.visit, finder, hok, nameAt_text, hm.1, ← hm.2, hends, answer, h, Action.stopped?, Except.map]
      · have hends : ¬ Ends query (.function e name body) := by
          simp [Ends, IsMalformed, DeclaresFunction, DeclaresVariable, h]
          exact fun hk => fun hn => hm ⟨hk, hn⟩
        simp [Visitor.visit, finder, hok, nameAt_text, hm, hends, Action.stopped?]
    · have herr := nameExtent_of_not_namedIn (t := .function e name body) h
      have hends : Ends query (.function e name body) := Or.inl h
      simp [Visitor.visit, finder, herr, hends, answer, h, Action.stopped?, Except.map, Script.extent]
  | variableName e =>
    by_cases hm : query.kind = .var ∧ e.text = query.displayName
    · have hends : Ends query (.variableName e) := Or.inr (Or.inr hm)
      simp [Visitor.visit, finder, Script.extent, hm.1, hm.2, hends, answer, Action.stopped?, Except.map]
    · have hends : ¬ Ends query (.variableName e) := by
        simpa [Ends, IsMalformed, DeclaresFunction, DeclaresVariable] using hm
      simp [Visitor.visit, finder, Script.extent, hm, hends, Action.stopped?]
  | other e label children =>
    have hends : ¬ Ends query (.other e label children) := by
      simp [Ends, IsMalformed, DeclaresFunction, DeclaresVariable]
    simp [Visitor.visit, finder, hends, Action.stopped?]

theorem search_eq_findSome? (query : Symbol) (nodes : List Script) :
    search query nodes =
      (nodes.findSome? fun t => if t.Ends query then some t.answer else none).getD (.ok none) := by
  induction nodes with
  | nil => rfl
  | cons t nodes ih =>
    rw [List.findSome?_cons]
    by_cases h : t.Ends query
    · simp [search, h]
    · simpa [search, h] using ih

theorem findDeclaration_eq_search (root : Script) (query : Symbol) :
    findDeclaration root query = search query root.preorder := by
  have hwalk := walk_eq_findSome? (finder query) (finder_visit_ne_skip query) root
  have hfind : findDeclaration root query = ((root.walk (finder query)).map (·.map some)).getD (.ok none) := by
    rw [findDeclaration]
    cases root.walk (finder query) with
    | none => rfl
    | some result => cases result <;> rfl
  rw [hfind, hwalk, List.map_findSome?, search_eq_findSome?]
  simp only [Function.comp_def, finder_stopped?]

theorem findDeclaration_congr {query other : Symbol} (hkind : query.kind = other.kind)
    (hsought : query.sought = other.sought) (root : Script) :
    findDeclaration root query = findDeclaration root other := by
  simp only [findDeclaration_eq_search, search, ends_congr hkind hsought]

/-- What a node declares that ends a search is of the kind that is asked for, has the sought text and no name of its
own. -/
theorem Script.Ends.answer_eq_some {query found : Symbol} {t : Script} (ht : t.Ends query)
    (h : t.answer = .ok (some found)) :
    found.kind = query.kind ∧ found.extent.text = query.sought ∧ found.displayName = "" := by
  cases t with
  | function e name body =>
    by_cases hn : NamedIn e name
    · rcases nameExtent_of_namedIn (t := .function e name body) hn with ⟨i, -, hok⟩
      rw [answer, if_pos hn, hok] at h
      obtain rfl := Option.some.inj (Except.ok.inj h)
      rcases ht with hbad | ⟨hkind, hname⟩ | hvar
      · exact absurd hn hbad
      · refine ⟨hkind.symm, ?_, rfl⟩
        rw [nameAt_text, hname, Symbol.sought, if_neg (by simp [hkind])]
      · exact absurd hvar id
    · rw [answer, if_neg hn] at h
      cases h
  | variableName e =>
    obtain rfl := Option.some.inj (Except.ok.inj h)
    rcases ht with hbad | hfunction | ⟨hkind, htext⟩
    · exact absurd hbad id
    · exact absurd hfunction id
    · refine ⟨hkind.symm, ?_, rfl⟩
      rw [htext, Symbol.sought, if_pos hkind]
  | other e label children => cases h

/-- Whatever is found for a symbol is of its kind, has the sought text and no name of its own. -/
theorem findDeclaration_eq_some {root : Script} {query found : Symbol}
    (h : findDeclaration root query = .ok (some found)) :
    found.kind = query.kind ∧ found.extent.text = query.sought ∧ found.displayName = "" := by
  rw [findDeclaration_eq_search, search] at h
  split at h
  · rename_i t ht
    have hends : t.Ends query := by simpa using List.find?_some ht
    exact hends.answer_eq_some h
  · cases h

/-- A lookup is the search of all nodes in document order. The first node that is malformed or declares the symbol
gives the answer, whatever comes after it, and there is no answer exactly if there is no such node. -/
theorem findDeclaration_first_node (root : Script) (query : Symbol) :
    findDeclaration root query = search query root.preorder ∧
    (∀ before t after, root.preorder = before ++ t :: after → (∀ u ∈ before, ¬ u.Ends query) →
      (∀ e name body, t = .function e name body → (name = "" ∨ ¬ name.toList <:+: e.text.toList) →
        findDeclaration root query = .error (.nameNotInExtent name e)) ∧
      (∀ e name body, t = .function e name body → name ≠ "" → name.toList <:+: e.text.toList →
        query.kind = .function → name = query.extent.text →
        ∃ found, nameExtent t name = .ok found ∧ findDeclaration root query = .ok (some ⟨.function, found, ""⟩)) ∧
      (∀ e, t = .variableName e → query.kind = .var → e.text = query.displayName →
        findDeclaration root query = .ok (some ⟨.var, e, ""⟩))) ∧
    (findDeclaration root query = .ok none ↔ ∀ t ∈ root.preorder, ¬ t.Ends query) := by
  have hsearch := findDeclaration_eq_search root query
  refine ⟨hsearch, ?_, ?_⟩
  · intro before t after hsplit hbefore
    have hfirst : t.Ends query → findDeclaration root query = t.answer := by
      intro ht
      rw [hsearch, hsplit]
      exact search_of_first hbefore ht
    refine ⟨?_, ?_, ?_⟩
    · rintro e name body rfl hbad
      have hn : ¬ NamedIn e name := fun hn => hbad.elim hn.1 (· hn.2)
      rw [hfirst (Or.inl hn), answer, if_neg hn]
    · rintro e name body rfl hne hocc hk htext
      have hn : NamedIn e name := ⟨hne, hocc⟩
      obtain ⟨i, -, hok⟩ := nameExtent_of_namedIn (t := .function e name body) hn
      refine ⟨_, hok, ?_⟩
      rw [hfirst (Or.inr (Or.inl ⟨hk, htext⟩)), answer, if_pos hn, hok]
      rfl
    · rintro e rfl hk htext
      rw [hfirst (Or.inr (Or.inr ⟨hk, htext⟩)), answer]
  · constructor
    · intro hnone
      obtain h | ⟨before, t, after, hsplit, hbefore, ht⟩ := none_or_first query root.preorder
      · exact h
      · rw [hsearch, hsplit, search_of_first hbefore ht] at hnone
        exact absurd hnone (answer_ne_none ht)
    · intro h
      rw [hsearch, search_of_none h]

theorem Shell.Document.definitionAt_eq_ok {d : Document} {line column : Nat} {looked : Lookup}
    (h : d.definitionAt line column = .ok looked) :
    looked = ⟨none, none⟩ ∨
      ∃ query found, d.symbolAt? line column = some query ∧ d.declarationOf query = .ok found ∧
        looked = ⟨some query, found⟩ := by
  rw [definitionAt] at h
  split at h
  · exact .inl (Except.ok.inj h).symm
  · rename_i query hquery
    cases hfound : d.declarationOf query with
    | error e =>
      rw [hfound] at h
      cases h
    | ok found =>
      rw [hfound] at h
      exact .inr ⟨query, found, hquery, hfound, (Except.ok.inj h).symm⟩

end ShellDecl
