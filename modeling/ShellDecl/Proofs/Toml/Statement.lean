import ShellDecl.Proofs.Toml.Number
import ShellDecl.Proofs.Toml.Quoted
import ShellDecl.Toml.Document

/-!
# Lines of a file

A header or a pair on a line of its own is one statement, and empty lines are none. So the statements of a file are
read one line after the other.
-/

set_option autoImplicit false

namespace ShellDecl.Toml

/-! ## Values -/

/-- The texts that are read as a scalar, up to the end of their line. -/
structure Denotes (text : List Char) (v : Scalar) : Prop where
  read : ∀ rest, scalar? (text ++ '\n' :: rest) = some (v, '\n' :: rest)
  head : ∃ c more, text = c :: more ∧ c ≠ '[' ∧ c ≠ '\x7b' ∧ isInlineBlank c = false

theorem denotes_quote (s : List Char) : Denotes (quote s) (.string (String.ofList s)) := by
  have hhead : ∃ c more, quote s = c :: more ∧ (c = '"' ∨ c = '\x27') := by
    unfold quote
    dsimp only
    cases (Traits.of s).quoting with
    | basic => exact ⟨_, _, rfl, .inl rfl⟩
    | literal => exact ⟨_, _, rfl, .inr rfl⟩
    | basicLines => exact ⟨_, _, rfl, .inl rfl⟩
    | literalLines => exact ⟨_, _, rfl, .inr rfl⟩
  obtain ⟨c, more, hquote, hc⟩ := hhead
  constructor
  · intro rest
    have hread := Quoted.read_quote s (Quoted.ends_newline rest)
    rw [hquote, List.cons_append] at hread ⊢
    simp only [scalar?]
    rw [if_pos (by simpa using hc), hread]
    rfl
  · refine ⟨c, more, hquote, ?_⟩
    obtain rfl | rfl := hc <;> decide

theorem denotes_boolean (b : Bool) : Denotes (boolean b) (.boolean b) := by
  cases b with
  | false => exact ⟨fun _ => rfl, 'f', _, rfl, by decide⟩
  | true => exact ⟨fun _ => rfl, 't', _, rfl, by decide⟩

theorem denotes_number {n : Nat} (h : n < UInt32.size) : Denotes (toString n).toList (.integer n) := by
  obtain ⟨c, more, hc⟩ := List.exists_cons_of_ne_nil (Nat.toDigits_ne_nil (n := n) (b := 10))
  have hdigit : c.isDigit = true := Json.Numeral.nat_isDigit n c (by rw [hc]; exact List.mem_cons_self)
  have hne : ∀ m : Char, m.isDigit = false → c ≠ m := fun m hm => Number.ne_of_isDigit hdigit hm
  rw [← Json.Numeral.nat_digits] at hc
  constructor
  · intro rest
    have hread := Number.read_digits h rest
    rw [hc, List.cons_append] at hread ⊢
    simp only [scalar?]
    rw [if_neg (by simp [hne '"' rfl, hne '\x27' rfl])]
    split
    · rename_i heq
      exact absurd (List.cons.inj heq).1 (hne 't' rfl)
    · rename_i heq
      exact absurd (List.cons.inj heq).1 (hne 'f' rfl)
    · exact hread
  · refine ⟨c, more, hc, hne '[' rfl, hne '\x7b' rfl, ?_⟩
    simp [isInlineBlank, hne ' ' rfl, hne '\t' rfl]

theorem Denotes.value_eq {text : List Char} {v : Scalar} (h : Denotes text v) (rest : List Char) :
    ∃ span, value (text ++ '\n' :: rest) = some (.scalar span v, '\n' :: rest) := by
  obtain ⟨c, more, htext, hbracket, hbrace, -⟩ := h.head
  refine ⟨.between (text ++ '\n' :: rest) ('\n' :: rest), ?_⟩
  have hread := h.read rest
  rw [htext, List.cons_append] at hread ⊢
  rw [value, value?]
  · rw [hread]
    rfl
  · intro rest heq
    exact hbracket (List.cons.inj heq).1
  · intro rest heq
    exact hbrace (List.cons.inj heq).1

/-! ## Keys -/

def Bare (name : List Char) : Prop :=
  name ≠ [] ∧ ∀ c ∈ name, isBareKey c = true

theorem bare_of_all {name : List Char} (h : (!name.isEmpty && name.all isBareKey) = true) : Bare name := by
  obtain ⟨hne, hall⟩ := Bool.and_eq_true_iff.mp h
  exact ⟨by simpa using hne, List.all_eq_true.mp hall⟩

theorem ne_of_isBareKey {c m : Char} (hc : isBareKey c = true) (hm : isBareKey m = false) : c ≠ m := by
  rintro rfl
  rw [hm] at hc
  cases hc

theorem simpleKey?_bare {name : List Char} (h : Bare name) {c : Char} (hc : isBareKey c = false) (rest : List Char) :
    ∃ span, simpleKey? (name ++ c :: rest) = some (⟨String.ofList name, span⟩, c :: rest) := by
  refine ⟨.between (name ++ c :: rest) (c :: rest), ?_⟩
  have htake : (name ++ c :: rest).takeWhile isBareKey = name := by
    rw [List.takeWhile_append_of_pos h.2, List.takeWhile_cons_of_neg (by simp [hc]), List.append_nil]
  have hdrop : (name ++ c :: rest).drop name.length = c :: rest := List.drop_left
  obtain ⟨d, more, rfl⟩ := List.exists_cons_of_ne_nil h.1
  have hd := h.2 d List.mem_cons_self
  rw [List.cons_append] at htake hdrop ⊢
  simp only [simpleKey?]
  rw [if_neg, htake]
  · simp only [hdrop]
  · simp [ne_of_isBareKey hd (by decide : isBareKey '"' = false),
      ne_of_isBareKey hd (by decide : isBareKey '\x27' = false)]

theorem skipBlanks_cons {c : Char} (h : isInlineBlank c = false) (rest : List Char) :
    skipBlanks (c :: rest) = c :: rest := by
  rw [skipBlanks, List.dropWhile_cons, h, if_neg Bool.false_ne_true]

theorem skipBlanks_bare {name : List Char} (h : Bare name) (rest : List Char) :
    skipBlanks (name ++ rest) = name ++ rest := by
  obtain ⟨d, more, rfl⟩ := List.exists_cons_of_ne_nil h.1
  have hd := h.2 d List.mem_cons_self
  refine skipBlanks_cons ?_ (more ++ rest)
  simp [isInlineBlank, ne_of_isBareKey hd (by decide : isBareKey ' ' = false),
    ne_of_isBareKey hd (by decide : isBareKey '\t' = false)]

theorem key?_last {name : List Char} (h : Bare name) {c d : Char} (hc : isBareKey c = false) {rest more : List Char}
    (hskip : skipBlanks (c :: rest) = d :: more) (hdot : d ≠ '.') (n : Nat) :
    ∃ span, key? (n + 1) (name ++ c :: rest) = some ([], ⟨String.ofList name, span⟩, d :: more) := by
  obtain ⟨span, hkey⟩ := simpleKey?_bare h hc rest
  refine ⟨span, ?_⟩
  rw [key?, skipBlanks_bare h, hkey]
  simp only [Option.bind_eq_bind, Option.bind_some, hskip]
  split
  · rename_i heq
    exact absurd (List.cons.inj heq).1 hdot
  · rfl

theorem key?_dotted {name : List Char} (h : Bare name) {n : Nat} {text rest : List Char} {path : List Key} {k : Key}
    (hrest : key? n text = some (path, k, rest)) :
    ∃ span, key? (n + 1) (name ++ '.' :: text) = some (⟨String.ofList name, span⟩ :: path, k, rest) := by
  obtain ⟨span, hkey⟩ := simpleKey?_bare h (by decide : isBareKey '.' = false) text
  refine ⟨span, ?_⟩
  rw [key?, skipBlanks_bare h, hkey]
  simp only [Option.bind_eq_bind, Option.bind_some, skipBlanks_cons (by decide : isInlineBlank '.' = false), hrest]
  rfl

/-! ## Lines -/

theorem statement?_header {text rest : List Char} {path : List Key} {k : Key} (hhead : text.head? ≠ some '[')
    (hkey : key? maxDepth (text ++ ']' :: '\n' :: rest) = some (path, k, ']' :: '\n' :: rest)) :
    ∃ span, statement? ('[' :: (text ++ ']' :: '\n' :: rest)) = some (.header path k span, rest) := by
  refine ⟨.between ('[' :: (text ++ ']' :: '\n' :: rest)) ('\n' :: rest), ?_⟩
  rw [statement?]
  · rw [hkey]
    rfl
  · intro more heq
    cases text with
    | nil => exact absurd (List.cons.inj heq).1 (by decide)
    | cons c text => exact hhead (congrArg some (List.cons.inj heq).1)

theorem statement?_pair {name text : List Char} {v : Scalar} (hname : Bare name) (hvalue : Denotes text v)
    (rest : List Char) :
    ∃ keySpan span, statement? (name ++ ' ' :: '=' :: ' ' :: (text ++ '\n' :: rest)) =
      some (.pair ⟨[], ⟨String.ofList name, keySpan⟩, .scalar span v⟩, rest) := by
  obtain ⟨span, hread⟩ := hvalue.value_eq rest
  obtain ⟨c, more, htext, -, -, hblank⟩ := hvalue.head
  have hskip : skipBlanks (' ' :: '=' :: ' ' :: (text ++ '\n' :: rest)) = '=' :: ' ' :: (text ++ '\n' :: rest) := rfl
  have hskip' : skipBlanks (' ' :: (text ++ '\n' :: rest)) = text ++ '\n' :: rest := by
    rw [htext]
    exact skipBlanks_cons hblank (more ++ '\n' :: rest)
  obtain ⟨keySpan, hkey⟩ := key?_last hname (by decide) hskip (by decide) 78
  refine ⟨keySpan, span, ?_⟩
  obtain ⟨d, tail, rfl⟩ := List.exists_cons_of_ne_nil hname.1
  have hd := ne_of_isBareKey (hname.2 d List.mem_cons_self) (by decide : isBareKey '[' = false)
  rw [List.cons_append] at hkey ⊢
  rw [statement?]
  · rw [maxDepth, hkey]
    simp only [Option.bind_eq_bind, Option.bind_some, hskip', hread]
    rfl
  · intro more heq
    exact hd (List.cons.inj heq).1
  · intro more heq
    exact hd (List.cons.inj heq).1

/-- The statements of a text, which has no more lines than characters. -/
def Lines (text : List Char) (statements : List Statement) : Prop :=
  ∀ n, text.length < n → statements? n text = some statements

theorem Lines.nil : Lines [] [] := by
  intro n hn
  cases n with
  | zero => exact absurd hn (Nat.not_lt_zero _)
  | succ n => rfl

theorem Lines.empty {rest : List Char} {statements : List Statement} (h : Lines rest statements) :
    Lines ('\n' :: rest) statements := by
  intro n hn
  cases n with
  | zero => exact absurd hn (Nat.not_lt_zero _)
  | succ n => exact h n (Nat.lt_of_succ_lt_succ hn)

theorem Lines.cons {c : Char} {text rest : List Char} {s : Statement} {statements : List Statement}
    (hread : statement? (c :: text) = some (s, rest)) (hc : c ∉ [' ', '\t', '#', '\n', '\r'])
    (hlength : rest.length ≤ text.length) (h : Lines rest statements) : Lines (c :: text) (s :: statements) := by
  intro n hn
  simp only [List.mem_cons, List.not_mem_nil, or_false, not_or] at hc
  obtain ⟨hspace, htab, hhash, hnewline, hreturn⟩ := hc
  cases n with
  | zero => exact absurd hn (Nat.not_lt_zero _)
  | succ n =>
    rw [statements?, skipBlanks_cons (by simp [isInlineBlank, hspace, htab])]
    have hrest := h n (by rw [List.length_cons] at hn; omega)
    simp [hhash, hnewline, hreturn, hread, hrest]

theorem Lines.header {text rest : List Char} {path : List Key} {k : Key} {statements : List Statement}
    (hhead : text.head? ≠ some '[')
    (hkey : key? maxDepth (text ++ ']' :: '\n' :: rest) = some (path, k, ']' :: '\n' :: rest))
    (h : Lines rest statements) :
    ∃ span, Lines ('[' :: (text ++ ']' :: '\n' :: rest)) (.header path k span :: statements) := by
  obtain ⟨span, hread⟩ := statement?_header hhead hkey
  refine ⟨span, Lines.cons hread (by decide) ?_ h⟩
  simp only [List.length_append, List.length_cons]
  omega

theorem head?_bare {name : List Char} (h : Bare name) (rest : List Char) : (name ++ rest).head? ≠ some '[' := by
  obtain ⟨d, tail, rfl⟩ := List.exists_cons_of_ne_nil h.1
  simpa using ne_of_isBareKey (h.2 d List.mem_cons_self) (by decide : isBareKey '[' = false)

theorem Lines.outer {name rest : List Char} {statements : List Statement} (hname : Bare name)
    (h : Lines rest statements) :
    ∃ keySpan span, Lines ('[' :: (name ++ ']' :: '\n' :: rest))
      (.header [] ⟨String.ofList name, keySpan⟩ span :: statements) := by
  obtain ⟨keySpan, hkey⟩ := key?_last hname (by decide : isBareKey ']' = false) (skipBlanks_cons rfl ('\n' :: rest))
    (by decide) 78
  have hhead := head?_bare hname []
  rw [List.append_nil] at hhead
  exact ⟨keySpan, Lines.header hhead hkey h⟩

theorem Lines.inner {outer name rest : List Char} {statements : List Statement} (houter : Bare outer)
    (hname : Bare name) (h : Lines rest statements) :
    ∃ outerSpan keySpan span, Lines ('[' :: (outer ++ '.' :: (name ++ ']' :: '\n' :: rest)))
      (.header [⟨String.ofList outer, outerSpan⟩] ⟨String.ofList name, keySpan⟩ span :: statements) := by
  obtain ⟨keySpan, hkey⟩ := key?_last hname (by decide : isBareKey ']' = false) (skipBlanks_cons rfl ('\n' :: rest))
    (by decide) 77
  obtain ⟨outerSpan, hpath⟩ := key?_dotted houter hkey
  have hassoc : outer ++ '.' :: (name ++ ']' :: '\n' :: rest) = (outer ++ '.' :: name) ++ ']' :: '\n' :: rest := by
    simp
  rw [hassoc] at hpath ⊢
  exact ⟨outerSpan, keySpan, Lines.header (head?_bare houter _) hpath h⟩

theorem Lines.pair {name text rest : List Char} {v : Scalar} {statements : List Statement} (hname : Bare name)
    (hvalue : Denotes text v) (h : Lines rest statements) :
    ∃ keySpan span, Lines (name ++ ' ' :: '=' :: ' ' :: (text ++ '\n' :: rest))
      (.pair ⟨[], ⟨String.ofList name, keySpan⟩, .scalar span v⟩ :: statements) := by
  obtain ⟨keySpan, span, hread⟩ := statement?_pair hname hvalue rest
  obtain ⟨d, tail, rfl⟩ := List.exists_cons_of_ne_nil hname.1
  have hd := fun m hm => ne_of_isBareKey (m := m) (hname.2 d List.mem_cons_self) hm
  rw [List.cons_append] at hread ⊢
  refine ⟨keySpan, span, Lines.cons hread ?_ ?_ h⟩
  · simp [hd ' ' (by decide), hd '\t' (by decide), hd '#' (by decide), hd '\n' (by decide), hd '\r' (by decide)]
  · simp only [List.length_append, List.length_cons]
    omega

/-- A text of lines is read as their statements. -/
theorem Lines.readStatements {text : List Char} {statements : List Statement} (h : Lines text statements)
    (hmark : text.head? ≠ some '\ufeff') : readStatements text = some statements := by
  rw [Toml.readStatements, skipMark.eq_def]
  split
  · exact absurd rfl hmark
  · exact h _ (Nat.lt_succ_self _)

end ShellDecl.Toml
