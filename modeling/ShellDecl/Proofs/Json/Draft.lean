import ShellDecl.Json.Draft
import ShellDecl.Proofs.Json.Numeral
import ShellDecl.Proofs.Json.Quoted

/-!
# Reading a text that writes a value

A value is written in many ways: blanks may stand around each of its parts, and a character between quotes may be
escaped. `Writes` is the relation between values and their texts. Whatever text writes a value, the reader makes a
draft of it that holds the value, and stops in front of what follows.
-/

set_option autoImplicit false

namespace ShellDecl.Json

/-! ## Texts of a value -/

def Blank (text : List Char) : Prop :=
  ∀ c ∈ text, isBlank c

/-- A member of an object with its text, which is cut behind the colon. -/
structure WrittenMember where
  key : String
  head : List Char
  value : Json
  text : List Char

def WritesKey (key : String) (head : List Char) : Prop :=
  ∃ before text after, Blank before ∧ Quoted.Spells key.toList text ∧ Blank after ∧
    head = before ++ '"' :: (text ++ '"' :: (after ++ [':']))

def commas : List (List Char) → List Char
  | [] => []
  | text :: texts => text ++ texts.flatMap (',' :: ·)

/-- The texts that write a value. -/
inductive Writes : Json → List Char → Prop where
  | null : Writes .null ['n', 'u', 'l', 'l']
  | yes : Writes (.bool true) ['t', 'r', 'u', 'e']
  | no : Writes (.bool false) ['f', 'a', 'l', 's', 'e']
  | number (digits : String) (n : Number) (hlength : Numeral.length digits.toList = .ok digits.toList.length)
      (hvalue : Numeral.value digits.toList = .ok n) : Writes (.number digits) digits.toList
  | str (s : String) (text : List Char) (h : Quoted.Spells s.toList text) : Writes (.str s) ('"' :: (text ++ ['"']))
  | arr (parts : List (Json × List Char)) (left right : List Char) (hleft : Blank left) (hright : Blank right)
      (h : ∀ p ∈ parts, Writes p.1 p.2) :
      Writes (.arr (parts.map (·.1))) ('[' :: (left ++ (commas (parts.map (·.2)) ++ (right ++ [']']))))
  | obj (parts : List WrittenMember) (left right : List Char) (hleft : Blank left) (hright : Blank right)
      (hkeys : ∀ p ∈ parts, WritesKey p.key p.head) (h : ∀ p ∈ parts, Writes p.value p.text) :
      Writes (.obj (parts.map fun p => (p.key, p.value)))
        ('\x7b' :: (left ++ (commas (parts.map fun p => p.head ++ p.text) ++ (right ++ ['\x7d']))))
  | padded (w : Json) (before text after : List Char) (hbefore : Blank before) (h : Writes w text)
      (hafter : Blank after) : Writes w (before ++ (text ++ after))

/-! ## Drafts of a value -/

mutual

/-- The draft was read whole and is the value, wherever its parts stand. -/
def Draft.Holds : Draft → Json → Prop
  | .scalar _ .null _, .null => True
  | .scalar _ (.boolean a) _, .bool b => a = b
  | .scalar _ (.number n) _, .number digits => Numeral.value digits.toList = .ok n
  | .scalar _ (.text t) _, .str s => t = s
  | .list _ items, .arr vs => items.Hold vs
  | .object _ members, .obj ms => members.Hold ms
  | _, _ => False

def Items.Hold : Items → List Json → Prop
  | .nil _ .closed, [] => True
  | .cons d rest, v :: vs => d.Holds v ∧ rest.Hold vs
  | _, _ => False

def Members.Hold : Members → List (String × Json) → Prop
  | .nil _ .closed, [] => True
  | .cons _ key d rest, (k, v) :: ms => key.text = .ok k ∧ d.Holds v ∧ rest.Hold ms
  | _, _ => False

end

theorem not_holds_refused {start : Spot} {f : Fault} {v : Json} (h : (Draft.refused start f).Holds v) : False := by
  cases v <;> exact h

theorem not_holds_broken {start : Spot} {f g : Fault} {v : Json} (h : (Draft.broken start f g).Holds v) : False := by
  cases v <;> exact h

theorem holds_list {start : Spot} {items : Items} {v : Json} :
    (Draft.list start items).Holds v ↔ ∃ vs, v = .arr vs ∧ items.Hold vs := by
  cases v <;> simp [Draft.Holds]

theorem holds_object {start : Spot} {members : Members} {v : Json} :
    (Draft.object start members).Holds v ↔ ∃ ms, v = .obj ms ∧ members.Hold ms := by
  cases v <;> simp [Draft.Holds]

theorem exists_of_holds_arr {d : Draft} {vs : List Json} (h : d.Holds (.arr vs)) :
    ∃ start items, d = .list start items ∧ items.Hold vs := by
  cases d with
  | list start items => exact ⟨start, items, rfl, h⟩
  | scalar start value stop => cases value <;> exact h.elim
  | _ => exact h.elim

theorem exists_of_holds_obj {d : Draft} {ms : List (String × Json)} (h : d.Holds (.obj ms)) :
    ∃ start members, d = .object start members ∧ members.Hold ms := by
  cases d with
  | object start members => exact ⟨start, members, rfl, h⟩
  | scalar start value stop => cases value <;> exact h.elim
  | _ => exact h.elim

theorem holds_null {start : Spot} {stop : Mark} {v : Json} (h : (Draft.scalar start .null stop).Holds v) :
    v = .null := by
  cases v with
  | null => rfl
  | _ => exact h.elim

theorem exists_of_holds_null {d : Draft} (h : d.Holds .null) : ∃ start stop, d = .scalar start .null stop := by
  cases d with
  | scalar start value stop =>
    cases value with
    | null => exact ⟨start, stop, rfl⟩
    | _ => exact h.elim
  | _ => exact h.elim

theorem exists_of_holds_bool {d : Draft} {b : Bool} (h : d.Holds (.bool b)) :
    ∃ start stop, d = .scalar start (.boolean b) stop := by
  cases d with
  | scalar start value stop =>
    cases value with
    | boolean a =>
      obtain rfl : a = b := h
      exact ⟨start, stop, rfl⟩
    | _ => exact h.elim
  | _ => exact h.elim

theorem exists_of_holds_number {d : Draft} {digits : String} (h : d.Holds (.number digits)) :
    ∃ start n stop, d = .scalar start (.number n) stop ∧ Numeral.value digits.toList = .ok n := by
  cases d with
  | scalar start value stop =>
    cases value with
    | number n => exact ⟨start, n, stop, rfl, h⟩
    | _ => exact h.elim
  | _ => exact h.elim

theorem exists_of_holds_str {d : Draft} {s : String} (h : d.Holds (.str s)) :
    ∃ start stop, d = .scalar start (.text s) stop := by
  cases d with
  | scalar start value stop =>
    cases value with
    | text t =>
      obtain rfl : t = s := h
      exact ⟨start, stop, rfl⟩
    | _ => exact h.elim
  | _ => exact h.elim

theorem hold_nil {m : Mark} {e : Ending} {vs : List Json} : (Items.nil m e).Hold vs ↔ e = .closed ∧ vs = [] := by
  cases e <;> cases vs <;> simp [Items.Hold]

theorem hold_cons {d : Draft} {rest : Items} {vs : List Json} :
    (Items.cons d rest).Hold vs ↔ ∃ v ws, vs = v :: ws ∧ d.Holds v ∧ rest.Hold ws := by
  cases vs <;> simp [Items.Hold]

theorem hold_nil_members {m : Mark} {e : Ending} {ms : List (String × Json)} :
    (Members.nil m e).Hold ms ↔ e = .closed ∧ ms = [] := by
  cases e <;> cases ms <;> simp [Members.Hold]

theorem hold_cons_members {m : Mark} {key : Key} {d : Draft} {rest : Members} {ms : List (String × Json)} :
    (Members.cons m key d rest).Hold ms ↔
      ∃ k v ws, ms = (k, v) :: ws ∧ key.text = .ok k ∧ d.Holds v ∧ rest.Hold ws := by
  cases ms <;> simp [Members.Hold, Prod.ext_iff]

theorem exists_of_hold_items {items : Items} {v : Json} {vs : List Json} (h : items.Hold (v :: vs)) :
    ∃ d rest, items = .cons d rest ∧ d.Holds v ∧ rest.Hold vs := by
  cases items with
  | cons d rest => exact ⟨d, rest, rfl, h⟩
  | nil m e => cases e <;> exact h.elim

theorem exists_of_hold_cons {members : Members} {k : String} {v : Json} {ms : List (String × Json)}
    (h : members.Hold ((k, v) :: ms)) :
    ∃ m key d rest, members = .cons m key d rest ∧ key.text = .ok k ∧ d.Holds v ∧ rest.Hold ms := by
  cases members with
  | cons m key d rest => exact ⟨m, key, d, rest, rfl, h⟩
  | nil m e => cases e <;> exact h.elim
  | _ => exact h.elim

theorem exists_of_hold_nil {members : Members} (h : members.Hold []) : ∃ m, members = .nil m .closed := by
  cases members with
  | nil m e =>
    obtain ⟨rfl, -⟩ := hold_nil_members.mp h
    exact ⟨m, rfl⟩
  | _ => exact h.elim

theorem not_hold_noKey {m : Mark} {d : Draft} {ms : List (String × Json)} (h : (Members.noKey m d).Hold ms) :
    False := by
  cases ms <;> exact h

theorem not_hold_badKey {m : Mark} {f g : Fault} {ms : List (String × Json)} (h : (Members.badKey m f g).Hold ms) :
    False := by
  cases ms <;> exact h

theorem not_hold_noColon {m : Mark} {key : Key} {f : Fault} {ms : List (String × Json)}
    (h : (Members.noColon m key f).Hold ms) : False := by
  cases ms <;> exact h

/-! ## Blanks -/

theorem blank_nil : Blank [] := by
  intro c h
  simp at h

theorem Blank.append {a b : List Char} (ha : Blank a) (hb : Blank b) : Blank (a ++ b) := by
  intro c h
  exact (List.mem_append.mp h).elim (ha c) (hb c)

theorem skipBlanksFrom_blank {blank : List Char} (h : Blank blank) (m : Mark) (text : List Char) :
    skipBlanksFrom m (blank ++ text) = skipBlanksFrom (m.advance blank) text := by
  induction blank generalizing m with
  | nil => rfl
  | cons c blank ih =>
    rw [List.cons_append, skipBlanksFrom, if_pos (h c (by simp)), ih fun d hd => h d (by simp [hd])]
    rfl

theorem skipBlanks_blank {blank : List Char} (h : Blank blank) (m : Mark) (text : List Char) :
    (⟨m, blank ++ text⟩ : Cursor).skipBlanks = (⟨m.advance blank, text⟩ : Cursor).skipBlanks :=
  skipBlanksFrom_blank h m text

theorem skipBlanks_cons {c : Char} (h : isBlank c = false) (m : Mark) (text : List Char) :
    (⟨m, c :: text⟩ : Cursor).skipBlanks = ⟨m, c :: text⟩ := by
  simp [Cursor.skipBlanks, skipBlanksFrom, h]

theorem skipBlanks_idem (c : Cursor) : c.skipBlanks.skipBlanks = c.skipBlanks := by
  obtain ⟨m, text⟩ := c
  induction text generalizing m with
  | nil => rfl
  | cons x text ih =>
    by_cases hx : isBlank x
    · have hstep : (⟨m, x :: text⟩ : Cursor).skipBlanks = (⟨m.step x, text⟩ : Cursor).skipBlanks := by
        simp [Cursor.skipBlanks, skipBlanksFrom, hx]
      rw [hstep, ih]
    · rw [skipBlanks_cons (by simpa using hx), skipBlanks_cons (by simpa using hx)]

theorem readValue_skipBlanks (fuel : Nat) (c : Cursor) :
    readValue (fuel + 1) c.skipBlanks = readValue (fuel + 1) c := by
  rw [readValue, readValue, skipBlanks_idem]

theorem readValue_blank {blank : List Char} (h : Blank blank) (fuel : Nat) (m : Mark) (text : List Char) :
    readValue (fuel + 1) ⟨m, blank ++ text⟩ = readValue (fuel + 1) ⟨m.advance blank, text⟩ := by
  rw [← readValue_skipBlanks, skipBlanks_blank h, readValue_skipBlanks]

theorem stops_cons {c : Char} (h : isBlank c ∨ c = ',' ∨ c = ']' ∨ c = '\x7d') (rest : List Char) :
    Numeral.Stops (c :: rest) := by
  intro d hd
  obtain rfl : c = d := by simpa using hd
  obtain h | rfl | rfl | rfl := h
  · simp only [isBlank, Bool.or_eq_true, beq_iff_eq] at h
    obtain ((rfl | rfl) | rfl) | rfl := h <;> simp
  all_goals simp

theorem stops_blank {blank rest : List Char} (h : Blank blank) (hrest : Numeral.Stops rest) :
    Numeral.Stops (blank ++ rest) := by
  cases blank with
  | nil => exact hrest
  | cons c blank => exact stops_cons (.inl (h c (by simp))) _

theorem stops_tail (texts : List (List Char)) {right : List Char} (hright : Blank right) {close : Char}
    (hclose : close = ']' ∨ close = '\x7d') (rest : List Char) :
    Numeral.Stops (texts.flatMap (',' :: ·) ++ (right ++ close :: rest)) := by
  cases texts with
  | nil =>
    rw [List.flatMap_nil, List.nil_append]
    exact stops_blank hright (stops_cons (.inr (.inr hclose)) rest)
  | cons text texts => exact stops_cons (.inr (.inl rfl)) _

/-! ## The head of a text -/

def Begins (text : List Char) : Prop :=
  ∃ blank c more, Blank blank ∧ text = blank ++ c :: more ∧ isBlank c = false ∧ c ≠ ']'

theorem Begins.skipBlanks {text : List Char} (h : Begins text) (m : Mark) (rest : List Char) :
    ∃ m' c more, (⟨m, text ++ rest⟩ : Cursor).skipBlanks = ⟨m', c :: more⟩ ∧ c ≠ ']' := by
  obtain ⟨blank, c, more, hblank, rfl, hc, hend⟩ := h
  refine ⟨m.advance blank, c, more ++ rest, ?_, hend⟩
  rw [List.append_assoc, skipBlanks_blank hblank, List.cons_append, skipBlanks_cons hc]

theorem begins_cons {c : Char} (h : isBlank c = false) (hend : c ≠ ']') (more : List Char) : Begins (c :: more) :=
  ⟨[], c, more, blank_nil, rfl, h, hend⟩

theorem Numeral.head_of_length {text : List Char} {n : Nat} (h : Numeral.length text = .ok n) :
    ∃ c more, text = c :: more ∧ (c = '-' ∨ c.isDigit) := by
  cases text with
  | nil => simp [Numeral.length, wholeLength, digitsLength] at h
  | cons c more =>
    refine ⟨c, more, rfl, ?_⟩
    by_contra hc
    rw [not_or, Bool.not_eq_true] at hc
    have hz : c ≠ '0' := by
      rintro rfl
      simp at hc
    simp [Numeral.length, wholeLength, digitsLength, hc.1, hc.2, hz] at h

theorem Numeral.head_ne {c : Char} (h : c = '-' ∨ c.isDigit) :
    isBlank c = false ∧ c ≠ ']' ∧ c ≠ 'n' ∧ c ≠ 't' ∧ c ≠ 'f' := by
  obtain rfl | hdigit := h
  · decide
  · refine ⟨?_, ?_, ?_, ?_, ?_⟩
    · by_contra hblank
      simp only [isBlank, Bool.not_eq_false, Bool.or_eq_true, beq_iff_eq] at hblank
      obtain ((rfl | rfl) | rfl) | rfl := hblank <;> simp at hdigit
    all_goals rintro rfl; simp at hdigit

theorem Writes.begins {w : Json} {text : List Char} (h : Writes w text) : Begins text := by
  induction h with
  | null => exact begins_cons (by decide) (by decide) _
  | yes => exact begins_cons (by decide) (by decide) _
  | no => exact begins_cons (by decide) (by decide) _
  | number digits n hlength hvalue =>
    obtain ⟨c, more, hc, hhead⟩ := Numeral.head_of_length hlength
    rw [hc]
    exact begins_cons (Numeral.head_ne hhead).1 (Numeral.head_ne hhead).2.1 more
  | str s text h => exact begins_cons (by decide) (by decide) _
  | arr parts left right hleft hright h ih => exact begins_cons (by decide) (by decide) _
  | obj parts left right hleft hright hkeys h ih => exact begins_cons (by decide) (by decide) _
  | padded w before text after hbefore h hafter ih =>
    obtain ⟨blank, c, more, hblank, rfl, hc, hend⟩ := ih
    exact ⟨before ++ blank, c, more ++ after, hbefore.append hblank, by simp, hc, hend⟩

/-! ## Reading -/

/-- With enough fuel the reader makes a draft of the value from the text, whatever follows. -/
def Reads (w : Json) (text : List Char) : Prop :=
  ∀ fuel m rest, 2 * text.length < fuel → Numeral.Stops rest →
    ∃ d m' blank, Blank blank ∧ readValue fuel ⟨m, text ++ rest⟩ = (d, some ⟨m', blank ++ rest⟩) ∧ d.Holds w

theorem passWord_append (m : Mark) (word rest : List Char) :
    passWord m word (word ++ rest) = .ok ⟨m.advance word, rest⟩ := by
  induction word generalizing m with
  | nil => rfl
  | cons c word ih =>
    rw [List.cons_append, passWord, if_pos rfl, ih]
    rfl

theorem readWord_append (m : Mark) (c : Char) (word rest : List Char) (name : String) (value : Scalar)
    (h : name.toList = c :: word) :
    ∃ start m', readWord ⟨m, c :: (word ++ rest)⟩ name value = (.scalar start value m', some ⟨m', rest⟩) := by
  simp only [readWord, Cursor.advance, h, List.drop_succ_cons, List.drop_zero, passWord_append]
  exact ⟨_, _, rfl⟩

theorem quotedAt_append {s : String} {text : List Char} (h : Quoted.Spells s.toList text) (m : Mark)
    (rest : List Char) :
    ∃ m', quotedAt ⟨m, '"' :: (text ++ '"' :: rest)⟩ = .ok (.ok s, ⟨m', rest⟩) := by
  obtain ⟨m', hpass⟩ := h.pass (m.advance ['"']) rest
  refine ⟨m', ?_⟩
  simp [quotedAt, Cursor.advance, h.read, hpass, Except.map]

/-- A value takes a character, so there is fuel for it. -/
theorem reads_cons {w : Json} {c : Char} {more : List Char}
    (h : ∀ fuel m rest, 2 * more.length < fuel → Numeral.Stops rest →
      ∃ d m', readValue (fuel + 1) ⟨m, c :: (more ++ rest)⟩ = (d, some ⟨m', rest⟩) ∧ d.Holds w) :
    Reads w (c :: more) := by
  intro fuel m rest hfuel hrest
  obtain ⟨fuel, rfl⟩ : ∃ f, fuel = f + 1 := ⟨fuel - 1, by omega⟩
  rw [List.length_cons] at hfuel
  obtain ⟨d, m', hread, hd⟩ := h fuel m rest (by omega) hrest
  exact ⟨d, m', [], blank_nil, hread, hd⟩

theorem reads_null : Reads .null ['n', 'u', 'l', 'l'] := by
  apply reads_cons
  intro fuel m rest hfuel hrest
  obtain ⟨start, m', hword⟩ := readWord_append m 'n' ['u', 'l', 'l'] rest "null" .null rfl
  rw [readValue, skipBlanks_cons rfl]
  exact ⟨_, m', hword, trivial⟩

theorem reads_true : Reads (.bool true) ['t', 'r', 'u', 'e'] := by
  apply reads_cons
  intro fuel m rest hfuel hrest
  obtain ⟨start, m', hword⟩ := readWord_append m 't' ['r', 'u', 'e'] rest "true" (.boolean true) rfl
  rw [readValue, skipBlanks_cons rfl]
  exact ⟨_, m', hword, rfl⟩

theorem reads_false : Reads (.bool false) ['f', 'a', 'l', 's', 'e'] := by
  apply reads_cons
  intro fuel m rest hfuel hrest
  obtain ⟨start, m', hword⟩ := readWord_append m 'f' ['a', 'l', 's', 'e'] rest "false" (.boolean false) rfl
  rw [readValue, skipBlanks_cons rfl]
  exact ⟨_, m', hword, rfl⟩

theorem reads_number {digits : String} {n : Number}
    (hlength : Numeral.length digits.toList = .ok digits.toList.length)
    (hvalue : Numeral.value digits.toList = .ok n) : Reads (.number digits) digits.toList := by
  obtain ⟨c, more, hc, hhead⟩ := Numeral.head_of_length hlength
  obtain ⟨hblank, -, hn, ht, hf⟩ := Numeral.head_ne hhead
  rw [hc]
  apply reads_cons
  intro fuel m rest hfuel hrest
  have hlong := (Numeral.length_append hrest digits.toList).trans hlength
  have hnumber : ∃ start m', readNumber ⟨m, digits.toList ++ rest⟩ =
      (.scalar start (.number n) m', some ⟨m', rest⟩) := by
    simp only [readNumber, hlong, Cursor.advance, List.take_left, List.drop_left, hvalue]
    exact ⟨_, _, rfl⟩
  obtain ⟨start, m', h⟩ := hnumber
  rw [hc, List.cons_append] at h
  rw [readValue, skipBlanks_cons hblank]
  simp only [hn, ht, hf, if_false]
  rw [if_pos (by simpa using hhead)]
  exact ⟨_, m', h, hvalue⟩

theorem reads_str {s : String} {text : List Char} (h : Quoted.Spells s.toList text) :
    Reads (.str s) ('"' :: (text ++ ['"'])) := by
  apply reads_cons
  intro fuel m rest hfuel hrest
  obtain ⟨m', hquoted⟩ := quotedAt_append h m rest
  have hread : readQuoted ⟨m, '"' :: (text ++ '"' :: rest)⟩ =
      (.scalar ⟨m, some '"'⟩ (.text s) m', some ⟨m', rest⟩) := by
    rw [readQuoted, hquoted]
    rfl
  rw [List.append_assoc, List.singleton_append, readValue, skipBlanks_cons rfl]
  exact ⟨_, m', hread, rfl⟩

theorem Reads.followedBy {w : Json} {text : List Char} (h : Reads w text) (fuel : Nat) (m : Mark)
    {rest after : List Char} {ws : List Json} {more : Cursor → Read Items} (hfuel : 2 * text.length < fuel + 1)
    (hrest : Numeral.Stops rest)
    (hmore : ∀ m' blank, Blank blank →
      ∃ items m'', more ⟨m', blank ++ rest⟩ = (items, some ⟨m'', after⟩) ∧ items.Hold ws) :
    ∃ items m', Json.followedBy (readValue (fuel + 1) (⟨m, text ++ rest⟩ : Cursor).skipBlanks) more =
      (items, some ⟨m', after⟩) ∧ items.Hold (w :: ws) := by
  obtain ⟨d, m', blank, hblank, hread, hd⟩ := h (fuel + 1) m rest hfuel hrest
  obtain ⟨items, m'', hitems, hold⟩ := hmore m' blank hblank
  rw [readValue_skipBlanks, hread, Json.followedBy, hitems]
  exact ⟨_, m'', rfl, hd, hold⟩

theorem readItems_tail (parts : List (Json × List Char)) (hbegin : ∀ p ∈ parts, Begins p.2)
    (h : ∀ p ∈ parts, Reads p.1 p.2) {right : List Char} (hright : Blank right) (rest : List Char) (fuel : Nat)
    (m : Mark) (blank : List Char) (hblank : Blank blank)
    (hfuel : 2 * (parts.flatMap fun p => ',' :: p.2).length < fuel) :
    ∃ items m', readItems fuel false ⟨m, blank ++ ((parts.flatMap fun p => ',' :: p.2) ++ (right ++ ']' :: rest))⟩ =
      (items, some ⟨m', rest⟩) ∧ items.Hold (parts.map (·.1)) := by
  induction parts generalizing fuel m blank with
  | nil =>
    obtain ⟨fuel, rfl⟩ : ∃ f, fuel = f + 1 := ⟨fuel - 1, by omega⟩
    rw [readItems, skipBlanks_blank hblank, List.flatMap_nil, List.nil_append, skipBlanks_blank hright,
      skipBlanks_cons rfl]
    exact ⟨_, _, rfl, trivial⟩
  | cons p parts ih =>
    simp only [List.flatMap_cons, List.cons_append, List.length_cons, List.length_append] at hfuel
    obtain ⟨fuel, rfl⟩ : ∃ f, fuel = f + 2 := ⟨fuel - 2, by omega⟩
    -- The comma pays for this round of the list and for one step of the value.
    have hrest := stops_tail (parts.map fun p => p.2) hright (.inl rfl) rest
    rw [List.flatMap_map] at hrest
    obtain ⟨m', c, more, hc, hend⟩ := (hbegin p (by simp)).skipBlanks ((m.advance blank).advance [','])
      ((parts.flatMap fun p => ',' :: p.2) ++ (right ++ ']' :: rest))
    have hread := (h p (by simp)).followedBy fuel ((m.advance blank).advance [',']) (by omega) hrest
      fun m' blank hblank => ih (fun q hq => hbegin q (by simp [hq])) (fun q hq => h q (by simp [hq])) (fuel + 1) m'
        blank hblank (by omega)
    rw [readItems, skipBlanks_blank hblank, List.flatMap_cons, List.cons_append, List.cons_append,
      skipBlanks_cons rfl, List.append_assoc]
    simp only [Cursor.advance, List.take_succ_cons, List.take_zero, List.drop_succ_cons, List.drop_zero, hc]
    simp only [Char.reduceEq, if_false, if_true, hend, Bool.false_eq_true]
    rw [hc] at hread
    exact hread

theorem reads_arr (parts : List (Json × List Char)) {left right : List Char} (hleft : Blank left)
    (hright : Blank right) (hbegin : ∀ p ∈ parts, Begins p.2) (h : ∀ p ∈ parts, Reads p.1 p.2) :
    Reads (.arr (parts.map (·.1))) ('[' :: (left ++ (commas (parts.map (·.2)) ++ (right ++ [']'])))) := by
  apply reads_cons
  intro fuel m rest hfuel hrest
  -- The first item has no comma in front of it, the others are the tail.
  suffices hitems : ∃ items m',
      readItems fuel true ⟨m.advance ['['], left ++ (commas (parts.map (·.2)) ++ (right ++ ']' :: rest))⟩ =
        (items, some ⟨m', rest⟩) ∧ items.Hold (parts.map (·.1)) by
    obtain ⟨items, m', hread, hold⟩ := hitems
    refine ⟨.list ⟨m, some '['⟩ items, m', ?_, hold⟩
    rw [readValue, skipBlanks_cons rfl, List.append_assoc, List.append_assoc, List.append_assoc, List.singleton_append]
    simp only [Char.reduceEq, if_false, Char.reduceIsDigit, if_true, Cursor.advance, List.take_succ_cons,
      List.take_zero, List.drop_succ_cons, List.drop_zero, hread]
    rfl
  simp only [List.length_append] at hfuel
  cases parts with
  | nil =>
    obtain ⟨fuel, rfl⟩ : ∃ f, fuel = f + 1 := ⟨fuel - 1, by omega⟩
    rw [readItems, skipBlanks_blank hleft, List.map_nil, commas, List.nil_append, skipBlanks_blank hright,
      skipBlanks_cons rfl]
    exact ⟨_, _, rfl, trivial⟩
  | cons p parts =>
    simp only [List.map_cons, commas, List.length_append, List.length_singleton, List.flatMap_map] at hfuel
    obtain ⟨fuel, rfl⟩ : ∃ f, fuel = f + 2 := ⟨fuel - 2, by omega⟩
    have hstop := stops_tail (parts.map fun p => p.2) hright (.inl rfl) rest
    rw [List.flatMap_map] at hstop
    obtain ⟨m', c, more, hc, hend⟩ := (hbegin p (by simp)).skipBlanks ((m.advance ['[']).advance left)
      ((parts.flatMap fun p => ',' :: p.2) ++ (right ++ ']' :: rest))
    have hread := (h p (by simp)).followedBy fuel ((m.advance ['[']).advance left) (by omega) hstop
      fun m' blank hblank => readItems_tail parts (fun q hq => hbegin q (by simp [hq]))
        (fun q hq => h q (by simp [hq])) hright rest (fuel + 1) m' blank hblank (by omega)
    rw [readItems, skipBlanks_blank hleft, List.map_cons, commas, List.flatMap_map, List.append_assoc, hc]
    simp only [hend, if_false, if_true]
    rw [hc] at hread
    exact hread

theorem WritesKey.skipBlanks {key : String} {head : List Char} (h : WritesKey key head) (m : Mark)
    (rest : List Char) : ∃ m' more, (⟨m, head ++ rest⟩ : Cursor).skipBlanks = ⟨m', '"' :: more⟩ := by
  obtain ⟨before, quoted, behind, hbefore, -, -, rfl⟩ := h
  refine ⟨m.advance before, quoted ++ '"' :: (behind ++ [':']) ++ rest, ?_⟩
  rw [List.append_assoc, List.cons_append, skipBlanks_blank hbefore, skipBlanks_cons rfl]

theorem Reads.readMember {w : Json} {text : List Char} (h : Reads w text) {key : String} {head : List Char}
    (hkey : WritesKey key head) (fuel : Nat) (settled m : Mark) {rest after : List Char}
    {ms : List (String × Json)} {more : Cursor → Read Members} (hfuel : 2 * text.length < fuel + 1)
    (hrest : Numeral.Stops rest)
    (hmore : ∀ m' blank, Blank blank →
      ∃ members m'', more ⟨m', blank ++ rest⟩ = (members, some ⟨m'', after⟩) ∧ members.Hold ms) :
    ∃ members m', Json.readMember settled (⟨m, head ++ (text ++ rest)⟩ : Cursor).skipBlanks (readValue (fuel + 1)) more =
      (members, some ⟨m', after⟩) ∧ members.Hold ((key, w) :: ms) := by
  obtain ⟨before, quoted, behind, hbefore, hquoted, hbehind, rfl⟩ := hkey
  obtain ⟨e, he⟩ := quotedAt_append hquoted (m.advance before) (behind ++ ':' :: (text ++ rest))
  obtain ⟨d, m', blank, hblank, hread, hd⟩ := h (fuel + 1) ((e.advance behind).advance [':']) rest hfuel hrest
  obtain ⟨members, m'', hmembers, hold⟩ := hmore m' blank hblank
  have hstart : (⟨m, before ++ '"' :: (quoted ++ '"' :: (behind ++ [':'])) ++ (text ++ rest)⟩ : Cursor).skipBlanks =
      ⟨m.advance before, '"' :: (quoted ++ '"' :: (behind ++ ':' :: (text ++ rest)))⟩ := by
    simp only [List.append_assoc, List.cons_append, List.nil_append]
    rw [skipBlanks_blank hbefore, skipBlanks_cons rfl]
  have hcolon : (⟨e, behind ++ ':' :: (text ++ rest)⟩ : Cursor).skipBlanks =
      ⟨e.advance behind, ':' :: (text ++ rest)⟩ := by
    rw [skipBlanks_blank hbehind, skipBlanks_cons rfl]
  rw [hstart]
  simp only [Json.readMember, he, hcolon, List.head?_cons, if_true, Cursor.advance, List.take_succ_cons,
    List.take_zero, List.drop_succ_cons, List.drop_zero, hread, hmembers]
  exact ⟨_, m'', rfl, rfl, hd, hold⟩

theorem readMembers_tail (parts : List WrittenMember) (hkeys : ∀ p ∈ parts, WritesKey p.key p.head)
    (h : ∀ p ∈ parts, Reads p.value p.text) {right : List Char} (hright : Blank right) (rest : List Char) (fuel : Nat)
    (m : Mark) (blank : List Char) (hblank : Blank blank)
    (hfuel : 2 * (parts.flatMap fun p => ',' :: (p.head ++ p.text)).length < fuel) :
    ∃ members m', readMembers fuel false
        ⟨m, blank ++ ((parts.flatMap fun p => ',' :: (p.head ++ p.text)) ++ (right ++ '\x7d' :: rest))⟩ =
      (members, some ⟨m', rest⟩) ∧ members.Hold (parts.map fun p => (p.key, p.value)) := by
  induction parts generalizing fuel m blank with
  | nil =>
    obtain ⟨fuel, rfl⟩ : ∃ f, fuel = f + 1 := ⟨fuel - 1, by omega⟩
    rw [readMembers, skipBlanks_blank hblank, List.flatMap_nil, List.nil_append, skipBlanks_blank hright,
      skipBlanks_cons rfl]
    exact ⟨_, _, rfl, trivial⟩
  | cons p parts ih =>
    simp only [List.flatMap_cons, List.cons_append, List.length_cons, List.length_append] at hfuel
    obtain ⟨fuel, rfl⟩ : ∃ f, fuel = f + 2 := ⟨fuel - 2, by omega⟩
    have hrest := stops_tail (parts.map fun p => p.head ++ p.text) hright (.inr rfl) rest
    rw [List.flatMap_map] at hrest
    obtain ⟨m', more, hc⟩ := (hkeys p (by simp)).skipBlanks ((m.advance blank).advance [','])
      (p.text ++ ((parts.flatMap fun p => ',' :: (p.head ++ p.text)) ++ (right ++ '\x7d' :: rest)))
    have hread := (h p (by simp)).readMember (hkeys p (by simp)) fuel (m.advance blank)
      ((m.advance blank).advance [',']) (by omega) hrest
      fun m' blank hblank => ih (fun q hq => hkeys q (by simp [hq])) (fun q hq => h q (by simp [hq])) (fuel + 1) m'
        blank hblank (by omega)
    rw [readMembers, skipBlanks_blank hblank, List.flatMap_cons, List.cons_append, List.cons_append,
      skipBlanks_cons rfl, List.append_assoc, List.append_assoc]
    simp only [Cursor.advance, List.take_succ_cons, List.take_zero, List.drop_succ_cons, List.drop_zero, hc]
    simp only [Char.reduceEq, if_false, if_true, Bool.false_eq_true]
    rw [hc] at hread
    exact hread

theorem reads_obj (parts : List WrittenMember) {left right : List Char} (hleft : Blank left) (hright : Blank right)
    (hkeys : ∀ p ∈ parts, WritesKey p.key p.head) (h : ∀ p ∈ parts, Reads p.value p.text) :
    Reads (.obj (parts.map fun p => (p.key, p.value)))
      ('\x7b' :: (left ++ (commas (parts.map fun p => p.head ++ p.text) ++ (right ++ ['\x7d'])))) := by
  apply reads_cons
  intro fuel m rest hfuel hrest
  suffices hmembers : ∃ members m', readMembers fuel true
      ⟨m.advance ['\x7b'], left ++ (commas (parts.map fun p => p.head ++ p.text) ++ (right ++ '\x7d' :: rest))⟩ =
        (members, some ⟨m', rest⟩) ∧ members.Hold (parts.map fun p => (p.key, p.value)) by
    obtain ⟨members, m', hread, hold⟩ := hmembers
    refine ⟨.object ⟨m, some '\x7b'⟩ members, m', ?_, hold⟩
    rw [readValue, skipBlanks_cons rfl, List.append_assoc, List.append_assoc, List.append_assoc, List.singleton_append]
    simp only [Char.reduceEq, if_false, Char.reduceIsDigit, if_true, Cursor.advance, List.take_succ_cons,
      List.take_zero, List.drop_succ_cons, List.drop_zero, hread]
    rfl
  simp only [List.length_append] at hfuel
  cases parts with
  | nil =>
    obtain ⟨fuel, rfl⟩ : ∃ f, fuel = f + 1 := ⟨fuel - 1, by omega⟩
    rw [readMembers, skipBlanks_blank hleft, List.map_nil, commas, List.nil_append, skipBlanks_blank hright,
      skipBlanks_cons rfl]
    exact ⟨_, _, rfl, trivial⟩
  | cons p parts =>
    simp only [List.map_cons, commas, List.length_append, List.length_singleton, List.flatMap_map] at hfuel
    obtain ⟨fuel, rfl⟩ : ∃ f, fuel = f + 2 := ⟨fuel - 2, by omega⟩
    have hstop := stops_tail (parts.map fun p => p.head ++ p.text) hright (.inr rfl) rest
    rw [List.flatMap_map] at hstop
    obtain ⟨m', more, hc⟩ := (hkeys p (by simp)).skipBlanks ((m.advance ['\x7b']).advance left)
      (p.text ++ ((parts.flatMap fun p => ',' :: (p.head ++ p.text)) ++ (right ++ '\x7d' :: rest)))
    have hread := (h p (by simp)).readMember (hkeys p (by simp)) fuel m'
      ((m.advance ['\x7b']).advance left) (by omega) hstop
      fun m' blank hblank => readMembers_tail parts (fun q hq => hkeys q (by simp [hq]))
        (fun q hq => h q (by simp [hq])) hright rest (fuel + 1) m' blank hblank (by omega)
    rw [readMembers, skipBlanks_blank hleft, List.map_cons, commas, List.flatMap_map, List.append_assoc,
      List.append_assoc, hc]
    simp only [Char.reduceEq, if_false, if_true]
    rw [hc] at hread
    exact hread

theorem Reads.padded {w : Json} {text : List Char} (h : Reads w text) {before after : List Char}
    (hbefore : Blank before) (hafter : Blank after) : Reads w (before ++ (text ++ after)) := by
  intro fuel m rest hfuel hrest
  simp only [List.length_append] at hfuel
  obtain ⟨fuel, rfl⟩ : ∃ f, fuel = f + 1 := ⟨fuel - 1, by omega⟩
  obtain ⟨d, m', blank, hblank, hread, hd⟩ :=
    h (fuel + 1) (m.advance before) (after ++ rest) (by omega) (stops_blank hafter hrest)
  refine ⟨d, m', blank ++ after, hblank.append hafter, ?_, hd⟩
  rw [List.append_assoc, List.append_assoc, readValue_blank hbefore, hread, List.append_assoc]

/-- Whatever text writes a value, the reader finds the value in it. -/
theorem Writes.reads {w : Json} {text : List Char} (h : Writes w text) : Reads w text := by
  induction h with
  | null => exact reads_null
  | yes => exact reads_true
  | no => exact reads_false
  | number digits n hlength hvalue => exact reads_number hlength hvalue
  | str s text h => exact reads_str h
  | arr parts left right hleft hright h ih => exact reads_arr parts hleft hright (fun p hp => (h p hp).begins) ih
  | obj parts left right hleft hright hkeys h ih => exact reads_obj parts hleft hright hkeys ih
  | padded w before text after hbefore h hafter ih => exact ih.padded hbefore hafter

theorem Writes.ofText {w : Json} {text : String} (h : Writes w text.toList) :
    ∃ d m blank, Blank blank ∧ Draft.ofText text = (d, some ⟨m, blank⟩) ∧ d.Holds w := by
  obtain ⟨d, m, blank, hblank, hread, hd⟩ := h.reads (2 * text.toList.length + 2) .start [] (by omega) Numeral.stops_nil
  rw [List.append_nil, List.append_nil] at hread
  exact ⟨d, m, blank, hblank, hread, hd⟩

/-! ## Depth -/

mutual

/-- How deep lists and objects nest in a value. -/
def depth : Json → Nat
  | .arr vs => depthItems vs + 1
  | .obj ms => depthMembers ms + 1
  | _ => 0

def depthItems : List Json → Nat
  | [] => 0
  | v :: vs => max (depth v) (depthItems vs)

def depthMembers : List (String × Json) → Nat
  | [] => 0
  | (_, v) :: ms => max (depth v) (depthMembers ms)

end

mutual

/-- A value that nests no deeper than allowed is kept. -/
theorem Draft.kept?_of_le (d : Draft) {v : Json} (h : d.Holds v) {k : Nat} (hk : v.depth ≤ k) : d.kept? k = none := by
  cases d with
  | scalar start value stop => rfl
  | refused start fault => exact (not_holds_refused h).elim
  | broken start wanted passed => exact (not_holds_broken h).elim
  | list start items =>
    obtain ⟨vs, rfl, hold⟩ := holds_list.mp h
    obtain ⟨k, rfl⟩ : ∃ l, k = l + 1 := ⟨k - 1, by rw [depth] at hk; omega⟩
    exact Items.kept?_of_le items hold (Nat.le_of_succ_le_succ hk)
  | object start members =>
    obtain ⟨ms, rfl, hold⟩ := holds_object.mp h
    obtain ⟨k, rfl⟩ : ∃ l, k = l + 1 := ⟨k - 1, by rw [depth] at hk; omega⟩
    exact Members.kept?_of_le members hold (Nat.le_of_succ_le_succ hk)

theorem Items.kept?_of_le (items : Items) {vs : List Json} (h : items.Hold vs) {k : Nat} (hk : depthItems vs ≤ k) :
    items.kept? k = none := by
  cases items with
  | nil settled ending =>
    obtain ⟨rfl, rfl⟩ := hold_nil.mp h
    rfl
  | cons d rest =>
    obtain ⟨v, ws, rfl, hd, hrest⟩ := hold_cons.mp h
    rw [depthItems, Nat.max_le] at hk
    rw [Items.kept?, Draft.kept?_of_le d hd hk.1, Items.kept?_of_le rest hrest hk.2]
    rfl

theorem Members.kept?_of_le (members : Members) {ms : List (String × Json)} (h : members.Hold ms) {k : Nat}
    (hk : depthMembers ms ≤ k) : members.kept? k = none := by
  cases members with
  | nil settled ending =>
    obtain ⟨rfl, rfl⟩ := hold_nil_members.mp h
    rfl
  | cons settled key d rest =>
    obtain ⟨name, v, ws, rfl, hkey, hd, hrest⟩ := hold_cons_members.mp h
    rw [depthMembers, Nat.max_le] at hk
    rw [Members.kept?, Key.fault?, hkey, Draft.kept?_of_le d hd hk.1, Members.kept?_of_le rest hrest hk.2]
    rfl
  | noKey settled instead => exact (not_hold_noKey h).elim
  | badKey settled wanted passed => exact (not_hold_badKey h).elim
  | noColon settled key fault => exact (not_hold_noColon h).elim

end

theorem depth_of_scalar {start : Spot} {value : Scalar} {stop : Mark} {v : Json}
    (h : (Draft.scalar start value stop).Holds v) : v.depth = 0 := by
  cases v with
  | arr vs => cases value <;> exact h.elim
  | obj ms => cases value <;> exact h.elim
  | _ => rfl

mutual

theorem Draft.kept?_of_lt (d : Draft) {v : Json} (h : d.Holds v) {k : Nat} (hk : k < v.depth) :
    ∃ m, d.kept? k = some (.placed .tooDeep m) := by
  cases d with
  | scalar start value stop =>
    rw [depth_of_scalar h] at hk
    exact absurd hk (Nat.not_lt_zero k)
  | refused start fault => exact (not_holds_refused h).elim
  | broken start wanted passed => exact (not_holds_broken h).elim
  | list start items =>
    obtain ⟨vs, rfl, hold⟩ := holds_list.mp h
    cases k with
    | zero => exact ⟨_, rfl⟩
    | succ k => exact Items.kept?_of_lt items hold (Nat.lt_of_succ_lt_succ hk)
  | object start members =>
    obtain ⟨ms, rfl, hold⟩ := holds_object.mp h
    cases k with
    | zero => exact ⟨_, rfl⟩
    | succ k => exact Members.kept?_of_lt members hold (Nat.lt_of_succ_lt_succ hk)

theorem Items.kept?_of_lt (items : Items) {vs : List Json} (h : items.Hold vs) {k : Nat} (hk : k < depthItems vs) :
    ∃ m, items.kept? k = some (.placed .tooDeep m) := by
  cases items with
  | nil settled ending =>
    obtain ⟨rfl, rfl⟩ := hold_nil.mp h
    simp [depthItems] at hk
  | cons d rest =>
    obtain ⟨v, ws, rfl, hd, hrest⟩ := hold_cons.mp h
    rw [Items.kept?]
    by_cases hv : v.depth ≤ k
    · rw [Draft.kept?_of_le d hd hv]
      exact Items.kept?_of_lt rest hrest (by rw [depthItems] at hk; omega)
    · obtain ⟨m, hm⟩ := Draft.kept?_of_lt d hd (Nat.lt_of_not_le hv)
      exact ⟨m, by rw [hm]; rfl⟩

theorem Members.kept?_of_lt (members : Members) {ms : List (String × Json)} (h : members.Hold ms) {k : Nat}
    (hk : k < depthMembers ms) : ∃ m, members.kept? k = some (.placed .tooDeep m) := by
  cases members with
  | nil settled ending =>
    obtain ⟨rfl, rfl⟩ := hold_nil_members.mp h
    simp [depthMembers] at hk
  | cons settled key d rest =>
    obtain ⟨name, v, ws, rfl, hkey, hd, hrest⟩ := hold_cons_members.mp h
    rw [Members.kept?, Key.fault?, hkey]
    by_cases hv : v.depth ≤ k
    · rw [Draft.kept?_of_le d hd hv]
      exact Members.kept?_of_lt rest hrest (by rw [depthMembers] at hk; omega)
    · obtain ⟨m, hm⟩ := Draft.kept?_of_lt d hd (Nat.lt_of_not_le hv)
      exact ⟨m, by rw [hm]; rfl⟩
  | noKey settled instead => exact (not_hold_noKey h).elim
  | badKey settled wanted passed => exact (not_hold_badKey h).elim
  | noColon settled key fault => exact (not_hold_noColon h).elim

end

mutual

/-- A value that was read whole can be passed over, however deep it nests. -/
theorem Draft.passed?_of_holds (d : Draft) {v : Json} (h : d.Holds v) : d.passed? = none := by
  cases d with
  | scalar start value stop => rfl
  | refused start fault => rfl
  | broken start wanted passed => exact (not_holds_broken h).elim
  | list start items =>
    obtain ⟨vs, rfl, hold⟩ := holds_list.mp h
    exact Items.passed?_of_hold items hold
  | object start members =>
    obtain ⟨ms, rfl, hold⟩ := holds_object.mp h
    exact Members.passed?_of_hold members hold

theorem Items.passed?_of_hold (items : Items) {vs : List Json} (h : items.Hold vs) : items.passed? = none := by
  cases items with
  | nil settled ending =>
    obtain ⟨rfl, rfl⟩ := hold_nil.mp h
    rfl
  | cons d rest =>
    obtain ⟨v, ws, rfl, hd, hrest⟩ := hold_cons.mp h
    rw [Items.passed?, Draft.passed?_of_holds d hd, Items.passed?_of_hold rest hrest]
    rfl

theorem Members.passed?_of_hold (members : Members) {ms : List (String × Json)} (h : members.Hold ms) :
    members.passed? = none := by
  cases members with
  | nil settled ending =>
    obtain ⟨rfl, rfl⟩ := hold_nil_members.mp h
    rfl
  | cons settled key d rest =>
    obtain ⟨name, v, ws, rfl, hkey, hd, hrest⟩ := hold_cons_members.mp h
    rw [Members.passed?, Draft.passed?_of_holds d hd, Members.passed?_of_hold rest hrest]
    rfl
  | noKey settled instead => exact (not_hold_noKey h).elim
  | badKey settled wanted passed => exact (not_hold_badKey h).elim
  | noColon settled key fault => exact (not_hold_noColon h).elim

end

end ShellDecl.Json
