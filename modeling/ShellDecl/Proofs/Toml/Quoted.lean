import Mathlib.Tactic.SplitIfs
import ShellDecl.Toml.Text
import ShellDecl.Toml.Written

/-!
# Written texts are read back

A text that is quoted for a file is read back as it was, whichever of the four ways of quoting is chosen. Where quotes
may stand as they are, at most two of them stand in a row, so that three of them are the end. Further quotes that stand
right in front of the end belong to the text.
-/

set_option autoImplicit false

namespace ShellDecl.Toml

namespace Quoted

/-- What may follow a quoted text: anything but a further quote. -/
def Ends (rest : List Char) : Prop :=
  rest.head? ≠ some '"' ∧ rest.head? ≠ some '\x27'

theorem ends_newline (rest : List Char) : Ends ('\n' :: rest) := by
  constructor <;> simp

/-! ## Escapes -/

/-- Behind a backslash the text stands for the character, whatever follows. -/
def Escapes (c : Char) (e : List Char) : Prop :=
  ∀ rest, escape? (e ++ rest) = some (c, e.length) ∧ afterJoin? (e ++ rest) = none

theorem afterJoin?_eq_none {c : Char} (hblank : isInlineBlank c = false) (hn : c ≠ '\n') (hr : c ≠ '\r')
    (rest : List Char) : afterJoin? (c :: rest) = none := by
  have hnewline : afterNewline? (c :: rest) = none := by
    unfold afterNewline?
    split <;> simp_all
  rw [afterJoin?, List.dropWhile_cons, hblank, if_neg Bool.false_ne_true, hnewline]
  rfl

theorem escapes_letter {c e : Char} (h : ∀ rest, escape? (e :: rest) = some (c, 1)) (hblank : isInlineBlank e = false)
    (hn : e ≠ '\n') (hr : e ≠ '\r') : Escapes c [e] :=
  fun rest => ⟨h rest, afterJoin?_eq_none hblank hn hr rest⟩

theorem fourDigits_read : ∀ n < 128,
    (fourDigits n).length = 4 ∧ hexadecimal? (fourDigits n) = some n := by
  decide

theorem escapes_number {c : Char} (h : c.toNat < 128) : Escapes c ('u' :: fourDigits c.toNat) := by
  obtain ⟨hlength, hread⟩ := fourDigits_read c.toNat h
  intro rest
  refine ⟨?_, afterJoin?_eq_none rfl (by decide) (by decide) _⟩
  have htake : (fourDigits c.toNat ++ rest).take 4 = fourDigits c.toNat := by rw [← hlength, List.take_left]
  have hscalar : scalar? c.toNat = some c := by
    rw [scalar?, if_pos (.inl (by omega)), Char.ofNat_toNat]
  simp [escape?, htake, hlength, hread, hscalar]

theorem escaped_cons (lines : Bool) (allowed seen : Nat) (c : Char) (text : List Char) :
    (∃ e, Escapes c e ∧ escaped lines allowed seen (c :: text) = '\\' :: (e ++ escaped lines allowed 0 text)) ∨
      (c = '"' ∧ seen < allowed ∧ escaped lines allowed seen (c :: text) = c :: escaped lines allowed (seen + 1) text) ∨
      (c = '\n' ∧ lines = true ∧ escaped lines allowed seen (c :: text) = c :: escaped lines allowed 0 text) ∨
      (c ≠ '"' ∧ c ≠ '\\' ∧ isPlain c = true ∧
        escaped lines allowed seen (c :: text) = c :: escaped lines allowed 0 text) := by
  rw [escaped]
  by_cases hquote : c = '"'
  · subst hquote
    rw [if_pos rfl]
    by_cases hseen : seen < allowed
    · exact .inr (.inl ⟨rfl, hseen, if_pos hseen⟩)
    · exact .inl ⟨['"'], escapes_letter (fun _ => rfl) rfl (by decide) (by decide), if_neg hseen⟩
  rw [if_neg hquote]
  split_ifs with hback htab hnewline hlines hfeed hreturn hslash hcontrol
  · obtain rfl : c = Char.ofNat 8 := by rw [← hback, Char.ofNat_toNat]
    exact .inl ⟨['b'], escapes_letter (fun _ => rfl) rfl (by decide) (by decide), rfl⟩
  · subst htab
    exact .inl ⟨['t'], escapes_letter (fun _ => rfl) rfl (by decide) (by decide), rfl⟩
  · exact .inr (.inr (.inl ⟨hnewline, hlines, rfl⟩))
  · subst hnewline
    exact .inl ⟨['n'], escapes_letter (fun _ => rfl) rfl (by decide) (by decide), rfl⟩
  · obtain rfl : c = Char.ofNat 12 := by rw [← hfeed, Char.ofNat_toNat]
    exact .inl ⟨['f'], escapes_letter (fun _ => rfl) rfl (by decide) (by decide), rfl⟩
  · subst hreturn
    exact .inl ⟨['r'], escapes_letter (fun _ => rfl) rfl (by decide) (by decide), rfl⟩
  · subst hslash
    exact .inl ⟨['\\'], escapes_letter (fun _ => rfl) rfl (by decide) (by decide), rfl⟩
  · refine .inl ⟨'u' :: fourDigits c.toNat, escapes_number ?_, rfl⟩
    simp only [Bool.or_eq_true, decide_eq_true_eq, beq_iff_eq] at hcontrol
    omega
  · refine .inr (.inr (.inr ⟨hquote, hslash, ?_, rfl⟩))
    simp only [Bool.or_eq_true, decide_eq_true_eq, beq_iff_eq, not_or] at hcontrol
    simp only [isPlain, Bool.or_eq_true, Bool.and_eq_true, decide_eq_true_eq, bne_iff_ne]
    omega

/-! ## On one line -/

theorem basic_escaped (text rest : List Char) : basic (escaped false 0 0 text ++ '"' :: rest) = some (text, rest) := by
  induction text with
  | nil => simp [escaped, basic]
  | cons c text ih =>
    obtain ⟨e, he, heq⟩ | ⟨-, hseen, -⟩ | ⟨-, hlines, -⟩ | ⟨hquote, hslash, hplain, heq⟩ :=
      escaped_cons false 0 0 c text
    · obtain ⟨hescape, -⟩ := he (escaped false 0 0 text ++ '"' :: rest)
      rw [heq, List.cons_append, List.append_assoc, basic]
      simp [hescape, ih]
    · exact absurd hseen (Nat.not_lt_zero 0)
    · cases hlines
    · rw [heq, List.cons_append, basic]
      simp [hquote, hslash, hplain, ih]

theorem literal_append {text : List Char} (h : ∀ c ∈ text, c ≠ '\x27' ∧ isPlain c = true) (rest : List Char) :
    literal (text ++ '\x27' :: rest) = some (text, rest) := by
  induction text with
  | nil => simp [literal]
  | cons c text ih =>
    obtain ⟨hquote, hplain⟩ := h c List.mem_cons_self
    rw [List.cons_append, literal, ih fun d hd => h d (List.mem_cons_of_mem _ hd)]
    simp [hquote, hplain]

/-! ## On several lines -/

theorem run_cons_self (quote : Char) (text : List Char) : run quote (quote :: text) = run quote text + 1 := by
  simp [run]

theorem run_cons_of_ne {quote c : Char} (h : c ≠ quote) (text : List Char) : run quote (c :: text) = 0 := by
  simp [run, h]

theorem run_replicate_append (quote : Char) (n : Nat) (text : List Char) :
    run quote (List.replicate n quote ++ text) = n + run quote text := by
  induction n with
  | zero => simp
  | succ n ih =>
    rw [List.replicate_succ, List.cons_append, run_cons_self, ih]
    omega

theorem run_of_head?_ne {quote : Char} {rest : List Char} (h : rest.head? ≠ some quote) : run quote rest = 0 := by
  cases rest with
  | nil => rfl
  | cons c rest => exact run_cons_of_ne (by simpa using h) rest

/-- Quotes in front of the closing ones belong to the text. -/
theorem closing_run {quote : Char} {n : Nat} (hn : n ≤ 2) {rest : List Char} (hrest : rest.head? ≠ some quote) :
    let text := List.replicate n quote ++ quote :: quote :: quote :: rest
    3 ≤ run quote text ∧ kept quote text = n ∧ text.drop (n + 3) = rest := by
  have hrun : run quote (List.replicate n quote ++ quote :: quote :: quote :: rest) = n + 3 := by
    rw [run_replicate_append, run_cons_self, run_cons_self, run_cons_self, run_of_head?_ne hrest]
  refine ⟨by omega, by rw [kept, hrun]; omega, ?_⟩
  rw [List.drop_append, List.length_replicate, List.drop_eq_nil_of_le (by simp)]
  simp

theorem exists_cons_closing (quote : Char) (n : Nat) (rest : List Char) :
    ∃ more, List.replicate n quote ++ quote :: quote :: quote :: rest = quote :: more := by
  cases n with
  | zero => exact ⟨_, rfl⟩
  | succ n => exact ⟨_, rfl⟩

theorem basicLines_quotes {rest : List Char} (h : 3 ≤ run '"' ('"' :: rest)) :
    basicLines ('"' :: rest) =
      some (List.replicate (kept '"' ('"' :: rest)) '"', ('"' :: rest).drop (kept '"' ('"' :: rest) + 3)) := by
  rw [basicLines.eq_def]
  simp only [if_true, if_pos h]

theorem basicLines_quote {rest : List Char} (h : run '"' ('"' :: rest) < 3) :
    basicLines ('"' :: rest) = (basicLines rest).map fun (s, more) => ('"' :: s, more) := by
  rw [basicLines.eq_def]
  simp only [if_true, if_neg (Nat.not_le.mpr h)]

theorem basicLines_escape {c : Char} {e : List Char} (h : Escapes c e) (rest : List Char) :
    basicLines ('\\' :: (e ++ rest)) = (basicLines rest).map fun (s, more) => (c :: s, more) := by
  obtain ⟨hescape, hjoin⟩ := h rest
  rw [basicLines.eq_def]
  simp only [(by decide : '\\' ≠ '"'), if_false, if_true]
  split
  · rename_i more hsome
    rw [hjoin] at hsome
    cases hsome
  · rw [hescape]
    simp

theorem basicLines_plain {c : Char} (hquote : c ≠ '"') (hslash : c ≠ '\\') (hplain : c = '\n' ∨ isPlain c = true)
    (rest : List Char) : basicLines (c :: rest) = (basicLines rest).map fun (s, more) => (c :: s, more) := by
  have hreturn : c ≠ '\r' := by
    rintro rfl
    revert hplain
    decide
  rw [basicLines.eq_def]
  simp only [if_neg hquote, if_neg hslash, if_neg hreturn]
  rw [if_pos (by simpa using hplain)]

theorem basicLines_closing {n : Nat} (hn : n ≤ 2) {rest : List Char} (hrest : rest.head? ≠ some '"') :
    basicLines (List.replicate n '"' ++ '"' :: '"' :: '"' :: rest) = some (List.replicate n '"', rest) := by
  obtain ⟨hrun, hkept, hdrop⟩ := closing_run hn hrest
  obtain ⟨more, hmore⟩ := exists_cons_closing '"' n rest
  rw [hmore] at hrun hkept hdrop ⊢
  rw [basicLines_quotes hrun, hkept, hdrop]

/-- Where quotes are written as they are, either nothing else follows, or no three of them stand in a row. -/
theorem escaped_run {seen : Nat} (hseen : seen ≤ 2) (text : List Char) :
    (∃ n, n + seen ≤ 2 ∧ text = List.replicate n '"' ∧ escaped true 2 seen text = text) ∨
      ∀ more, run '"' (escaped true 2 seen text ++ more) + seen ≤ 2 := by
  induction text generalizing seen with
  | nil => exact .inl ⟨0, by omega, rfl, rfl⟩
  | cons c text ih =>
    obtain ⟨e, -, heq⟩ | ⟨rfl, hlt, heq⟩ | ⟨rfl, -, heq⟩ | ⟨hquote, -, -, heq⟩ := escaped_cons true 2 seen c text
    · refine .inr fun more => ?_
      rw [heq, List.cons_append, run_cons_of_ne (by decide)]
      omega
    · obtain ⟨n, hn, htext, hraw⟩ | hrun := ih (by omega : seen + 1 ≤ 2)
      · refine .inl ⟨n + 1, by omega, by rw [htext, List.replicate_succ], by rw [heq, hraw]⟩
      · refine .inr fun more => ?_
        have hmore := hrun more
        rw [heq, List.cons_append, run_cons_self]
        omega
    · refine .inr fun more => ?_
      rw [heq, List.cons_append, run_cons_of_ne (by decide)]
      omega
    · refine .inr fun more => ?_
      rw [heq, List.cons_append, run_cons_of_ne hquote]
      omega

theorem basicLines_escaped {seen : Nat} (hseen : seen ≤ 2) (text : List Char) {rest : List Char}
    (hrest : rest.head? ≠ some '"') :
    basicLines (escaped true 2 seen text ++ '"' :: '"' :: '"' :: rest) = some (text, rest) := by
  induction text generalizing seen with
  | nil => exact basicLines_closing (Nat.zero_le 2) hrest
  | cons c text ih =>
    obtain ⟨e, he, heq⟩ | ⟨rfl, hlt, heq⟩ | ⟨rfl, -, heq⟩ | ⟨hquote, hslash, hplain, heq⟩ :=
      escaped_cons true 2 seen c text
    · rw [heq, List.cons_append, List.append_assoc, basicLines_escape he, ih (Nat.zero_le 2)]
      rfl
    · obtain ⟨n, hn, htext, hraw⟩ | hrun := escaped_run hseen ('"' :: text)
      · rw [hraw, htext]
        exact basicLines_closing (by omega) hrest
      · have hmore := hrun ('"' :: '"' :: '"' :: rest)
        rw [heq, List.cons_append] at hmore ⊢
        rw [basicLines_quote (by omega), ih (by omega)]
        rfl
    · rw [heq, List.cons_append, basicLines_plain (by decide) (by decide) (.inl rfl), ih (Nat.zero_le 2)]
      rfl
    · rw [heq, List.cons_append, basicLines_plain hquote hslash (.inr hplain), ih (Nat.zero_le 2)]
      rfl

theorem literalLines_plain {c : Char} (hquote : c ≠ '\x27') (hplain : c = '\n' ∨ isPlain c = true)
    (rest : List Char) : literalLines (c :: rest) = (literalLines rest).map fun (s, more) => (c :: s, more) := by
  have hreturn : c ≠ '\r' := by
    rintro rfl
    revert hplain
    decide
  rw [literalLines.eq_def]
  simp only [if_neg hquote, if_neg hreturn]
  rw [if_pos (by simpa using hplain)]

theorem literalLines_quote {rest : List Char} (h : run '\x27' ('\x27' :: rest) < 3) :
    literalLines ('\x27' :: rest) = (literalLines rest).map fun (s, more) => ('\x27' :: s, more) := by
  rw [literalLines.eq_def]
  simp only [if_true, if_neg (Nat.not_le.mpr h)]

theorem literalLines_closing {n : Nat} (hn : n ≤ 2) {rest : List Char} (hrest : rest.head? ≠ some '\x27') :
    literalLines (List.replicate n '\x27' ++ '\x27' :: '\x27' :: '\x27' :: rest) =
      some (List.replicate n '\x27', rest) := by
  obtain ⟨hrun, hkept, hdrop⟩ := closing_run hn hrest
  obtain ⟨more, hmore⟩ := exists_cons_closing '\x27' n rest
  rw [hmore] at hrun hkept hdrop ⊢
  rw [literalLines.eq_def]
  simp only [if_true, if_pos hrun, hkept, hdrop]

theorem run_append (quote : Char) (text : List Char) :
    (∃ n, text = List.replicate n quote) ∨ ∀ more, run quote (text ++ more) = run quote text := by
  induction text with
  | nil => exact .inl ⟨0, rfl⟩
  | cons c text ih =>
    by_cases hc : c = quote
    · subst hc
      obtain ⟨n, htext⟩ | hrun := ih
      · exact .inl ⟨n + 1, by rw [htext, List.replicate_succ]⟩
      · refine .inr fun more => ?_
        rw [List.cons_append, run_cons_self, run_cons_self, hrun]
    · exact .inr fun more => by rw [List.cons_append, run_cons_of_ne hc, run_cons_of_ne hc]

theorem le_longestRun (quote : Char) (text : List Char) {current best : Nat} (h : current ≤ best) :
    best ≤ longestRun quote current best text ∧ current + run quote text ≤ longestRun quote current best text := by
  induction text generalizing current best with
  | nil => exact ⟨Nat.le_refl _, by simpa [run, longestRun] using h⟩
  | cons c text ih =>
    rw [longestRun]
    by_cases hc : c = quote
    · subst hc
      obtain ⟨hbest, hrun⟩ := ih (Nat.le_max_right best (current + 1))
      rw [if_pos rfl, run_cons_self]
      omega
    · obtain ⟨hbest, -⟩ := ih (Nat.zero_le best)
      rw [if_neg hc, run_cons_of_ne hc]
      omega

theorem longestRun_mono (quote : Char) (text : List Char) {current best current' best' : Nat} (hc : current ≤ current')
    (hb : best ≤ best') : longestRun quote current best text ≤ longestRun quote current' best' text := by
  induction text generalizing current best current' best' with
  | nil => exact hb
  | cons c text ih =>
    rw [longestRun, longestRun]
    split
    · exact ih (by omega) (by omega)
    · exact ih (Nat.le_refl 0) hb

theorem longestRun_tail_le (quote c : Char) (text : List Char) :
    longestRun quote 0 0 text ≤ longestRun quote 0 0 (c :: text) := by
  rw [longestRun]
  split
  · exact longestRun_mono quote text (Nat.zero_le _) (Nat.zero_le _)
  · exact Nat.le_refl _

theorem literalLines_append {text : List Char} (hplain : ∀ c ∈ text, c = '\n' ∨ isPlain c = true)
    (hruns : longestRun '\x27' 0 0 text ≤ 2) {rest : List Char} (hrest : rest.head? ≠ some '\x27') :
    literalLines (text ++ '\x27' :: '\x27' :: '\x27' :: rest) = some (text, rest) := by
  induction text with
  | nil => exact literalLines_closing (Nat.zero_le 2) hrest
  | cons c text ih =>
    have htail := longestRun_tail_le '\x27' c text
    have ih' := ih (fun d hd => hplain d (List.mem_cons_of_mem _ hd)) (by omega)
    by_cases hc : c = '\x27'
    · subst hc
      obtain ⟨-, hlongest⟩ := le_longestRun '\x27' ('\x27' :: text) (Nat.le_refl 0)
      obtain ⟨n, htext⟩ | hrun := run_append '\x27' ('\x27' :: text)
      · rw [htext] at hlongest hruns ⊢
        rw [← List.append_nil (List.replicate n '\x27'), run_replicate_append, List.append_nil] at hlongest
        exact literalLines_closing (by omega) hrest
      · have hmore := hrun ('\x27' :: '\x27' :: '\x27' :: rest)
        rw [List.cons_append] at hmore ⊢
        rw [literalLines_quote (by omega), ih']
        rfl
    · rw [List.cons_append, literalLines_plain hc (hplain c List.mem_cons_self), ih']
      rfl

/-! ## All ways of quoting -/

theorem not_mem_of_longestRun {quote : Char} {text : List Char} (h : longestRun quote 0 0 text = 0) :
    quote ∉ text := by
  induction text with
  | nil => exact List.not_mem_nil
  | cons c text ih =>
    have htail := longestRun_tail_le quote c text
    intro hmem
    obtain rfl | hmem := List.mem_cons.mp hmem
    · obtain ⟨-, hrun⟩ := le_longestRun quote (quote :: text) (Nat.le_refl 0)
      rw [run_cons_self] at hrun
      omega
    · exact ih (by omega) hmem

/-- Without controls a text is made of line breaks and of characters that may stand as they are. -/
theorem plain_of_control {text : List Char} (h : (Traits.of text).control = false) :
    ∀ c ∈ text, c = '\n' ∨ isPlain c = true := by
  intro c hc
  have hcontrol := List.any_eq_false.mp h c hc
  by_cases hn : c = '\n'
  · exact .inl hn
  · refine .inr ?_
    simp only [isPlain]
    grind

theorem skipNewline_cons {c : Char} (hn : c ≠ '\n') (hr : c ≠ '\r') (rest : List Char) :
    skipNewline (c :: rest) = c :: rest := by
  have hnone : afterNewline? (c :: rest) = none := by
    unfold afterNewline?
    split <;> simp_all
  rw [skipNewline, hnone]
  rfl

theorem ne_of_isPlain {c : Char} (h : isPlain c = true) : c ≠ '\n' ∧ c ≠ '\r' := by
  constructor <;>
    · rintro rfl
      revert h
      decide

/-- The line break that is written in front of a text with line breaks is the one that is dropped. -/
theorem skipNewline_first {text body : List Char}
    (h : '\n' ∉ text → ∃ c rest, body = c :: rest ∧ c ≠ '\n' ∧ c ≠ '\r') :
    skipNewline ((if (Traits.of text).newline then ['\n'] else []) ++ body) = body := by
  cases hnewline : (Traits.of text).newline with
  | true => rfl
  | false =>
    obtain ⟨c, rest, rfl, hn, hr⟩ := h (by simpa [Traits.of] using hnewline)
    exact skipNewline_cons hn hr rest

theorem line_of_read {q : Char} (hq : q = '"' ∨ q = '\x27') {body : List Char} (h : ∀ more, body ≠ q :: q :: more) :
    read (q :: body) = line (q :: body) := by
  unfold read
  split
  · rename_i rest heq
    obtain ⟨rfl, rfl⟩ := List.cons.inj heq
    exact absurd rfl (h rest)
  · rename_i rest heq
    obtain ⟨rfl, rfl⟩ := List.cons.inj heq
    exact absurd rfl (h rest)
  · rfl

theorem read_basic (text : List Char) {rest : List Char} (hrest : Ends rest) :
    read ('"' :: (escaped false 0 0 text ++ '"' :: rest)) = some (text, rest) := by
  have hbody : ∀ more, escaped false 0 0 text ++ '"' :: rest ≠ '"' :: '"' :: more := by
    intro more heq
    cases text with
    | nil => exact hrest.1 (by rw [(List.cons.inj heq).2]; rfl)
    | cons c text =>
      obtain ⟨e, -, hesc⟩ | ⟨-, hseen, -⟩ | ⟨-, hlines, -⟩ | ⟨hne, -, -, hesc⟩ := escaped_cons false 0 0 c text
      · rw [hesc] at heq
        exact absurd (List.cons.inj heq).1 (by decide)
      · exact absurd hseen (Nat.not_lt_zero 0)
      · cases hlines
      · rw [hesc] at heq
        exact hne (List.cons.inj heq).1
  rw [line_of_read (.inl rfl) hbody]
  exact basic_escaped text rest

theorem read_literal {text : List Char} (hquote : '\x27' ∉ text) (hplain : ∀ c ∈ text, isPlain c = true)
    {rest : List Char} (hrest : Ends rest) : read ('\x27' :: (text ++ '\x27' :: rest)) = some (text, rest) := by
  have hbody : ∀ more, text ++ '\x27' :: rest ≠ '\x27' :: '\x27' :: more := by
    intro more heq
    cases text with
    | nil => exact hrest.2 (by rw [(List.cons.inj heq).2]; rfl)
    | cons c text => exact hquote ((List.cons.inj heq).1 ▸ List.mem_cons_self)
  rw [line_of_read (.inr rfl) hbody]
  exact literal_append (fun c hc => ⟨fun h => hquote (h ▸ hc), hplain c hc⟩) rest

theorem read_basicLines (text : List Char) {rest : List Char} (hrest : Ends rest) :
    read ('"' :: '"' :: '"' :: ((if (Traits.of text).newline then ['\n'] else []) ++
      (escaped true 2 0 text ++ '"' :: '"' :: '"' :: rest))) = some (text, rest) := by
  have hbody : '\n' ∉ text → ∃ c more, escaped true 2 0 text ++ '"' :: '"' :: '"' :: rest = c :: more ∧
      c ≠ '\n' ∧ c ≠ '\r' := by
    intro hnewline
    cases text with
    | nil => exact ⟨'"', _, rfl, by decide, by decide⟩
    | cons c text =>
      obtain ⟨e, -, hesc⟩ | ⟨rfl, -, hesc⟩ | ⟨rfl, -, -⟩ | ⟨-, -, hplain, hesc⟩ := escaped_cons true 2 0 c text
      · exact ⟨'\\', _, by rw [hesc]; rfl, by decide, by decide⟩
      · exact ⟨'"', _, by rw [hesc]; rfl, by decide, by decide⟩
      · exact absurd List.mem_cons_self hnewline
      · exact ⟨c, _, by rw [hesc]; rfl, ne_of_isPlain hplain⟩
  rw [read, skipNewline_first hbody]
  exact basicLines_escaped (Nat.zero_le 2) text hrest.1

theorem read_literalLines {text : List Char} (hplain : ∀ c ∈ text, c = '\n' ∨ isPlain c = true)
    (hruns : longestRun '\x27' 0 0 text ≤ 2) {rest : List Char} (hrest : Ends rest) :
    read ('\x27' :: '\x27' :: '\x27' :: ((if (Traits.of text).newline then ['\n'] else []) ++
      (text ++ '\x27' :: '\x27' :: '\x27' :: rest))) = some (text, rest) := by
  have hbody : '\n' ∉ text → ∃ c more, text ++ '\x27' :: '\x27' :: '\x27' :: rest = c :: more ∧
      c ≠ '\n' ∧ c ≠ '\r' := by
    intro hnewline
    cases text with
    | nil => exact ⟨'\x27', _, rfl, by decide, by decide⟩
    | cons c text =>
      obtain rfl | hc := hplain c List.mem_cons_self
      · exact absurd List.mem_cons_self hnewline
      · exact ⟨c, _, rfl, ne_of_isPlain hc⟩
  rw [read, skipNewline_first hbody]
  exact literalLines_append hplain hruns hrest.2

/-- A quoted text is read back, and what follows it is left. -/
theorem read_quote (text : List Char) {rest : List Char} (hrest : Ends rest) :
    read (quote text ++ rest) = some (text, rest) := by
  cases hquoting : (Traits.of text).quoting with
  | basic => simpa [quote, hquoting] using read_basic text hrest
  | basicLines => simpa [quote, hquoting] using read_basicLines text hrest
  | literal =>
    have htraits : (Traits.of text).control = false ∧ (Traits.of text).singles = 0 ∧
        (Traits.of text).newline = false := by
      unfold Traits.quoting at hquoting
      grind
    obtain ⟨hcontrol, hsingles, hnewline⟩ := htraits
    have hplain : ∀ c ∈ text, isPlain c = true := by
      intro c hc
      obtain rfl | hc := plain_of_control hcontrol c hc
      · simp [Traits.of, hc] at hnewline
      · exact hc
    simpa [quote, hquoting] using read_literal (not_mem_of_longestRun hsingles) hplain hrest
  | literalLines =>
    have htraits : (Traits.of text).control = false ∧ (Traits.of text).singles ≤ 2 := by
      unfold Traits.quoting at hquoting
      grind
    simpa [quote, hquoting] using read_literalLines (plain_of_control htraits.1) htraits.2 hrest

end Quoted

end ShellDecl.Toml
