import Mathlib.Tactic.SplitIfs
import ShellDecl.Json.Text
import ShellDecl.Json.Value

/-!
# What stands between quotes

A character inside a quoted text is written as itself, as a letter behind a backslash, or as one or two units of
sixteen bits. However the characters of a text are written, it is read back, and the reader stops right behind the
closing quote.
-/

set_option autoImplicit false

namespace ShellDecl.Json.Quoted

/-- The ways to write a character between quotes. -/
inductive Stands : Char → List Char → Prop where
  | plain (c : Char) (hquote : c ≠ '"') (hslash : c ≠ '\\') (hcontrol : 32 ≤ c.toNat) : Stands c [c]
  | letter (e c : Char) (h : letter? e = some c) : Stands c ['\\', e]
  | unit (u : List Char) (n : Nat) (hlength : u.length = 4) (h : unit? u = some n)
      (hlead : isLeading n = false) (htrail : isTrailing n = false) : Stands (Char.ofNat n) ('\\' :: 'u' :: u)
  | pair (u v : List Char) (n k : Nat) (hu : u.length = 4) (hv : v.length = 4) (hn : unit? u = some n)
      (hk : unit? v = some k) (hlead : isLeading n) (htrail : isTrailing k) :
      Stands (Char.ofNat (0x10000 + (n - 0xd800) * 0x400 + (k - 0xdc00)))
        ('\\' :: 'u' :: u ++ '\\' :: 'u' :: v)

/-- A text between quotes, character by character. -/
inductive Spells : List Char → List Char → Prop where
  | nil : Spells [] []
  | cons {c : Char} {piece cs text : List Char} (h : Stands c piece) (more : Spells cs text) :
      Spells (c :: cs) (piece ++ text)

theorem unit?_append {u : List Char} (h : u.length = 4) (rest : List Char) : unit? (u ++ rest) = unit? u := by
  match u, h with
  | [a, b, c, d], _ => rfl

theorem drop_unit {u : List Char} (h : u.length = 4) (rest : List Char) : (u ++ rest).drop 4 = rest := by
  rw [← h, List.drop_left]

theorem letter?_ne_u {e c : Char} (h : letter? e = some c) : e ≠ 'u' := by
  rintro rfl
  simp [letter?] at h

theorem isTrailing_of_isLeading {n : Nat} (h : isLeading n) : isTrailing n = false := by
  simp only [isLeading, isTrailing, Bool.and_eq_true, decide_eq_true_eq] at h ⊢
  simp
  omega

theorem Stands.read {c : Char} {piece : List Char} (h : Stands c piece) (m : Mark) (rest : List Char) :
    ∃ m', Quoted.read m (piece ++ rest) = (Quoted.read m' rest).map (c :: ·) := by
  cases h with
  | plain c hquote hslash hcontrol =>
    refine ⟨m.step c, ?_⟩
    rw [List.singleton_append, Quoted.read.eq_def]
    simp only
    rw [if_neg hquote, if_neg hslash, if_neg (by omega)]
  | letter e c h =>
    refine ⟨m.plus 2, ?_⟩
    simp [Quoted.read, letter?_ne_u h, h]
  | unit u n hlength h hlead htrail =>
    refine ⟨m.plus 6, ?_⟩
    simp [Quoted.read, unit?_append hlength, h, hlead, htrail, drop_unit hlength]
  | pair u v n k hu hv hn hk hlead htrail =>
    refine ⟨m.plus 12, ?_⟩
    have hrest : ('\\' :: 'u' :: u ++ '\\' :: 'u' :: v) ++ rest =
        '\\' :: 'u' :: (u ++ ('\\' :: 'u' :: (v ++ rest))) := by simp
    have hsecond := drop_unit hu ('\\' :: 'u' :: (v ++ rest))
    have hthird : (u ++ '\\' :: 'u' :: (v ++ rest)).drop 10 = rest := by
      rw [show 10 = 4 + 6 by rfl, ← List.drop_drop, hsecond, List.drop_succ_cons, List.drop_succ_cons, drop_unit hv]
    rw [hrest, Quoted.read]
    simp [unit?_append hu, hn, isTrailing_of_isLeading hlead, hlead, trailing, hsecond, hthird, unit?_append hv, hk,
      htrail]

theorem Stands.pass {c : Char} {piece : List Char} (h : Stands c piece) (m : Mark) (rest : List Char) :
    ∃ m', Quoted.pass m (piece ++ rest) = Quoted.pass m' rest := by
  have hunit : ∀ (m : Mark) (u rest : List Char) (n : Nat), u.length = 4 → unit? u = some n →
      Quoted.pass m ('\\' :: 'u' :: (u ++ rest)) = Quoted.pass (m.plus 6) rest := by
    intro m u rest n hlength hu
    simp [Quoted.pass, unit?_append hlength, hu, drop_unit hlength]
  cases h with
  | plain c hquote hslash hcontrol =>
    refine ⟨m.step c, ?_⟩
    rw [List.singleton_append, Quoted.pass.eq_def]
    simp only
    rw [if_neg hquote, if_neg hslash, if_neg (by omega)]
  | letter e c h =>
    refine ⟨m.plus 2, ?_⟩
    simp [Quoted.pass, letter?_ne_u h, h]
  | unit u n hlength h hlead htrail => exact ⟨m.plus 6, hunit m u rest n hlength h⟩
  | pair u v n k hu hv hn hk hlead htrail =>
    refine ⟨(m.plus 6).plus 6, ?_⟩
    rw [← hunit (m.plus 6) v rest k hv hk, ← hunit m u _ n hu hn]
    simp

/-- The reader that needs the text finds it. -/
theorem Spells.read {cs text : List Char} (h : Spells cs text) (m : Mark) (rest : List Char) :
    Quoted.read m (text ++ '"' :: rest) = .ok cs := by
  induction h generalizing m with
  | nil =>
    rw [List.nil_append, Quoted.read.eq_def]
    rfl
  | @cons c piece cs text hc more ih =>
    obtain ⟨m', hm⟩ := hc.read m (text ++ '"' :: rest)
    rw [List.append_assoc, hm, ih]
    rfl

/-- Both readers stop behind the closing quote. -/
theorem Spells.pass {cs text : List Char} (h : Spells cs text) (m : Mark) (rest : List Char) :
    ∃ m', Quoted.pass m (text ++ '"' :: rest) = .ok ⟨m', rest⟩ := by
  induction h generalizing m with
  | nil =>
    refine ⟨m.plus 1, ?_⟩
    rw [List.nil_append, Quoted.pass.eq_def]
    rfl
  | @cons c piece cs text hc more ih =>
    obtain ⟨m', hm⟩ := hc.pass m (text ++ '"' :: rest)
    rw [List.append_assoc, hm]
    exact ih m'

/-! ## The written form -/

theorem unit?_control : ∀ n < 32, unit? ['0', '0', hexDigit (n / 16), hexDigit (n % 16)] = some n := by
  decide

theorem stands_escape (c : Char) : Stands c (escape c) := by
  unfold escape
  split_ifs with hquote hslash hn hr ht hb hf hcontrol
  · subst hquote; exact .letter _ _ rfl
  · subst hslash; exact .letter _ _ rfl
  · subst hn; exact .letter _ _ rfl
  · subst hr; exact .letter _ _ rfl
  · subst ht; exact .letter _ _ rfl
  · exact .letter _ _ (by rw [← Char.ofNat_toNat c, hb]; rfl)
  · exact .letter _ _ (by rw [← Char.ofNat_toNat c, hf]; rfl)
  · have hsmall : isLeading c.toNat = false ∧ isTrailing c.toNat = false := by
      simp only [isLeading, isTrailing]
      constructor <;> simp <;> omega
    have h := Stands.unit _ c.toNat rfl (unit?_control _ hcontrol) hsmall.1 hsmall.2
    rwa [Char.ofNat_toNat] at h
  · exact .plain c hquote hslash (by omega)

theorem spells_escape (cs : List Char) : Spells cs (cs.flatMap escape) := by
  induction cs with
  | nil => exact .nil
  | cons c cs ih => exact .cons (stands_escape c) ih

end ShellDecl.Json.Quoted
