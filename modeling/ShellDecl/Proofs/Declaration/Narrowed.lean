import Mathlib.Data.List.Infix
import ShellDecl.Proofs.Declaration.Name

/-!
# A name within its node

An extent is consistent if it stops where a reader stops who reads its text from its start. The place of a name stands
within a node that is consistent. The name is counted on one line there, so its place is consistent too exactly if it has
no line break.
-/

set_option autoImplicit false

namespace ShellDecl

namespace Extent

/-- The stop of an extent is the one that its start and its text lead to. -/
def IsConsistent (e : Extent) : Prop :=
  e = ofText e.start e.text

instance (e : Extent) : Decidable e.IsConsistent :=
  inferInstanceAs (Decidable (e = _))

structure Within (e outer : Extent) : Prop where
  start : outer.start.le e.start = true
  stop : e.stop.le outer.stop = true

/-- No place that is reached in reading an extent is beyond 32 bits. -/
def InWords (e : Extent) : Prop :=
  ∀ before ∈ e.text.toList.inits, (e.start.advance before).Fits

instance (e : Extent) : Decidable e.InWords :=
  inferInstanceAs (Decidable (∀ before ∈ e.text.toList.inits, _))

theorem InWords.fits {e : Extent} {before : List Char} (h : e.InWords) (hbefore : before <+: e.text.toList) :
    (e.start.advance before).Fits :=
  h before ((List.mem_inits _ _).mpr hbefore)

theorem IsConsistent.stop_eq {e : Extent} (h : e.IsConsistent) (hfits : e.InWords) :
    e.stop = e.start.advance e.text.toList := by
  have hstop : e.stop = (e.start.endOf e.text.toList).wrap := congrArg Extent.stop h
  rw [hstop, Position.endOf_eq_advance, Position.wrap_of_fits (hfits.fits List.prefix_rfl)]

end Extent

theorem wordAt_wrap_isConsistent_iff {p : Position} {name : String} (hp : p.Fits)
    (hend : (p.advance name.toList).Fits) : (wordAt p name).wrap.IsConsistent ↔ '\n' ∉ name.toList := by
  have hline := Position.onLine_eq_endOf_iff p name.toList
  rw [String.length_toList, Position.endOf_eq_advance] at hline
  rw [Extent.IsConsistent, Extent.ofText, Extent.wrap, wordAt_start, wordAt_text, Position.wrap_of_fits hp,
    Position.endOf_eq_advance, Position.wrap_of_fits hend]
  simp only [Extent.mk.injEq, true_and, and_true]
  constructor
  · intro hstop hbreak
    have hlt := Position.line_lt_advance p hbreak
    have hkept : p.line % UInt32.size = (p.advance name.toList).line := congrArg Position.line hstop
    rw [Nat.mod_eq_of_lt hp.1] at hkept
    omega
  · intro hbreak
    have hstop : (wordAt p name).stop = p.advance name.toList := hline.mpr hbreak
    rw [hstop, Position.wrap_of_fits hend]

theorem wordAt_wrap_within {e : Extent} {name : String} {before : List Char} (he : e.IsConsistent) (hfits : e.InWords)
    (hoccurs : before ++ name.toList <+: e.text.toList) : (wordAt (e.start.advance before) name).wrap.Within e := by
  have hbefore := hfits.fits ((List.prefix_append before name.toList).trans hoccurs)
  constructor
  · rw [Extent.wrap, wordAt_start, Position.wrap_of_fits hbefore]
    exact Position.le_advance e.start before
  · have hline := Position.onLine_le_advance (e.start.advance before) name.toList
    have hread := Position.advance_le_of_prefix e.start hoccurs
    rw [String.length_toList] at hline
    rw [Position.advance_append, ← he.stop_eq hfits] at hread
    exact Position.le_trans (Position.wrap_le _) (Position.le_trans hline hread)

/-- Where no number is beyond 32 bits, the place of a name stands within a node that is consistent, and it is consistent
itself exactly if the name has no line break. -/
theorem nameExtent_within {t : Script} {name : String} {found : Extent} (ht : t.extent.IsConsistent)
    (hfits : t.extent.InWords) (hfound : nameExtent t name = .ok found) :
    found.Within t.extent ∧ (found.IsConsistent ↔ '\n' ∉ name.toList) := by
  have hname : NamedIn t.extent name := by
    by_contra hnot
    rw [nameExtent_of_not_namedIn hnot] at hfound
    contradiction
  obtain ⟨hne, before, hbefore⟩ := namedIn_iff_beforeFirst.mp hname
  rw [nameExtent_of_beforeFirst hne hbefore] at hfound
  obtain rfl := Except.ok.inj hfound
  have hstart := hfits.fits ((List.prefix_append before name.toList).trans hbefore.occurs)
  have hend := hfits.fits hbefore.occurs
  rw [Position.advance_append] at hend
  exact ⟨wordAt_wrap_within ht hfits hbefore.occurs, wordAt_wrap_isConsistent_iff hstart hend⟩

def spread : Script :=
  .function (.ofText ⟨7, 3⟩ "function\n    Spread \x7b\n\x7d") "Spread" []

theorem nameExtent_within_spread :
    spread.extent.IsConsistent ∧ spread.extent.InWords ∧
    nameExtent spread "Spread" = .ok (.onLine 8 5 11 "Spread") ∧
    Extent.Within (.onLine 8 5 11 "Spread") spread.extent ∧
    (Extent.IsConsistent (.onLine 8 5 11 "Spread") ↔ '\n' ∉ "Spread".toList) := by
  have hconsistent : spread.extent.IsConsistent := by decide
  have hfits : spread.extent.InWords := by decide
  have hfound : nameExtent spread "Spread" = .ok (.onLine 8 5 11 "Spread") := by decide
  exact ⟨hconsistent, hfits, hfound, nameExtent_within hconsistent hfits hfound⟩

def broken : Script :=
  .function (.ofText ⟨1, 1⟩ "a\nb() \x7b :; \x7d") "a\nb" []

/-- The place of a name with a line break is not consistent. -/
theorem not_always_consistent :
    ¬ ∀ (e : Extent) (declared : String) (body : List Script) (name : String) (found : Extent), e.IsConsistent →
      nameExtent (.function e declared body) name = .ok found → found.IsConsistent ∧ found.Within e := by
  intro hall
  have hfound : nameExtent broken "a\nb" = .ok (.onLine 1 1 4 "a\nb") := by decide
  have hconsistent := (hall broken.extent "a\nb" [] "a\nb" _ (by decide) hfound).1
  exact absurd hconsistent (by decide)

end ShellDecl
