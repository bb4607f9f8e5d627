import ShellDecl.OsPath
import ShellDecl.Proofs.Path.Relative

/-!
# Paths that are shown

What stands between two slashes in the bytes of a text are the bytes of a text again. So where a path is the UTF-8 of a
text, what is left of it behind a root is shown without a loss, and its name still denotes its place. Of other paths, two
that differ can be shown by one name.
-/

set_option autoImplicit false

namespace ShellDecl.OsPath

open ShellDecl.Path

/-! ## Bytes and letters -/

theorem toUInt8_ofUInt8 (b : UInt8) : (Char.ofUInt8 b).toUInt8 = b := by
  change b.toUInt32.toUInt8 = b
  simp

theorem ofUInt8_toUInt8 {c : Char} (h : c.toNat < 256) : Char.ofUInt8 c.toUInt8 = c := by
  apply Char.ext
  rw [← UInt32.toNat_inj]
  change c.val.toUInt8.toUInt32.toNat = c.val.toNat
  rw [UInt8.toNat_toUInt32, UInt32.toNat_toUInt8]
  exact Nat.mod_eq_of_lt h

theorem ofLetters_letters (p : OsPath) : ofLetters p.letters = p := by
  rw [ofLetters, letters, String.toList_ofList, List.map_map]
  have hid : Char.toUInt8 ∘ Char.ofUInt8 = id := funext toUInt8_ofUInt8
  rw [hid, List.map_id]

theorem toNat_lt_of_mem_letters {p : OsPath} {c : Char} (h : c ∈ p.letters.toList) : c.toNat < 256 := by
  rw [letters, String.toList_ofList] at h
  obtain ⟨b, -, rfl⟩ := List.mem_map.mp h
  change b.toUInt32.toNat < 256
  rw [UInt8.toNat_toUInt32]
  exact b.toNat_lt

theorem letters_ofLetters {text : String} (h : ∀ c ∈ text.toList, c.toNat < 256) : (ofLetters text).letters = text := by
  have hid : text.toList.map (Char.ofUInt8 ∘ Char.toUInt8) = text.toList.map id :=
    List.map_congr_left fun c hc => ofUInt8_toUInt8 (h c hc)
  rw [letters, ofLetters, List.map_map, hid, List.map_id, String.ofList_toList]

theorem letters_join (base p : OsPath) : (base.join p).letters = Path.join base.letters p.letters := by
  refine letters_ofLetters fun c hc => ?_
  have hmem : c ∈ base.letters.toList ∨ c = '/' ∨ c ∈ p.letters.toList := by
    rw [Path.join] at hc
    split at hc
    · exact .inr (.inr hc)
    · split at hc
      · rw [String.toList_append, List.mem_append] at hc
        exact hc.imp_right .inr
      · rw [String.toList_append, String.toList_append, List.mem_append, List.mem_append] at hc
        rcases hc with (h | h) | h
        · exact .inl h
        · exact .inr (.inl (List.mem_singleton.mp h))
        · exact .inr (.inr h)
  rcases hmem with h | rfl | h
  · exact toNat_lt_of_mem_letters h
  · decide
  · exact toNat_lt_of_mem_letters h

/-! ## The bytes of a text -/

theorem exists_utf8EncodeChar (c : Char) : ∃ b rest, String.utf8EncodeChar c = b :: rest := by
  have hlength := String.length_utf8EncodeChar c
  have hpos := c.utf8Size_pos
  exact List.exists_cons_of_length_pos (by omega)

/-- What is read of the bytes of a text is the text. -/
theorem characters_utf8 (n : Nat) (text : List Char) (hn : (text.flatMap String.utf8EncodeChar).length ≤ n) :
    characters n (text.flatMap String.utf8EncodeChar) = text := by
  induction text generalizing n with
  | nil => cases n <;> rfl
  | cons c text ih =>
    obtain ⟨b, more, hc⟩ := exists_utf8EncodeChar c
    have hlength := String.length_utf8EncodeChar c
    have hpos := c.utf8Size_pos
    rw [List.flatMap_cons, List.length_append, hlength] at hn
    cases n with
    | zero => omega
    | succ n =>
      have hread : (String.utf8EncodeChar c ++ text.flatMap String.utf8EncodeChar).toByteArray.utf8DecodeChar? 0 = some c := by
        rw [List.toByteArray_append]
        exact ByteArray.utf8DecodeChar?_utf8EncodeChar_append
      have hdrop : (String.utf8EncodeChar c ++ text.flatMap String.utf8EncodeChar).drop c.utf8Size = text.flatMap String.utf8EncodeChar := by
        rw [← hlength, List.drop_left]
      rw [hc] at hread hdrop
      rw [List.flatMap_cons, hc, List.cons_append, characters, ← List.cons_append, hread]
      change c :: characters n _ = c :: text
      rw [hdrop, ih n (by omega)]

theorem display_ofText (text : String) : (ofText text).display = text := by
  rw [display, ofText, characters_utf8 _ _ (Nat.le_refl _), String.ofList_toList]

def spell (text : List Char) : List Char :=
  text.flatMap fun c => (String.utf8EncodeChar c).map Char.ofUInt8

theorem toList_letters_ofText (text : String) : (ofText text).letters.toList = spell text.toList := by
  rw [letters, ofText, String.toList_ofList, List.map_flatMap]
  rfl

theorem utf8EncodeChar_cases (c : Char) :
    (c.val.toNat ≤ 0x7f ∧ String.utf8EncodeChar c = [UInt8.ofNat c.val.toNat]) ∨
      ∀ b ∈ String.utf8EncodeChar c, 128 ≤ b.toNat := by
  by_cases h : c.val.toNat ≤ 0x7f
  · exact .inl ⟨h, by rw [String.utf8EncodeChar, if_pos h]⟩
  · right
    intro b hb
    rw [String.utf8EncodeChar, if_neg h] at hb
    split at hb
    · simp only [List.mem_cons, List.not_mem_nil, or_false] at hb
      rcases hb with rfl | rfl <;> rw [UInt8.toNat_ofNat'] <;> omega
    · split at hb
      · simp only [List.mem_cons, List.not_mem_nil, or_false] at hb
        rcases hb with rfl | rfl | rfl <;> rw [UInt8.toNat_ofNat'] <;> omega
      · simp only [List.mem_cons, List.not_mem_nil, or_false] at hb
        rcases hb with rfl | rfl | rfl | rfl <;> rw [UInt8.toNat_ofNat'] <;> omega

theorem letters_eq_of_mem {a c : Char} (ha : a.toNat < 128) (h : a ∈ (String.utf8EncodeChar c).map Char.ofUInt8) :
    (String.utf8EncodeChar c).map Char.ofUInt8 = [a] := by
  rcases utf8EncodeChar_cases c with ⟨-, hsingle⟩ | hlarge
  · rw [hsingle] at h ⊢
    rw [List.mem_singleton.mp h]
    rfl
  · obtain ⟨b, hb, rfl⟩ := List.mem_map.mp h
    have hbyte : b.toNat < 128 := ha
    have := hlarge b hb
    omega

/-- Where a slash or a dot stands in the letters of a text, it stands in the text. -/
theorem spell_split {a : Char} (ha : a.toNat < 128) {text x y : List Char} (h : spell text = x ++ a :: y) :
    ∃ before after, x = spell before ∧ y = spell after := by
  induction text generalizing x with
  | nil => simp [spell] at h
  | cons c text ih =>
    rw [spell, List.flatMap_cons] at h
    -- `a` stands behind the letters of the first character, or it is among them and then the only one.
    rcases List.append_eq_append_iff.mp h with ⟨more, hx, hrest⟩ | ⟨more, hc, hrest⟩
    · obtain ⟨before, after, rfl, hy⟩ := ih hrest
      exact ⟨c :: before, after, hx, hy⟩
    · cases more with
      | nil =>
        obtain ⟨-, after, -, hy⟩ := ih (x := []) hrest.symm
        refine ⟨[c], after, ?_, hy⟩
        rw [spell, List.flatMap_singleton, hc, List.append_nil]
      | cons d more =>
        obtain ⟨rfl, hy⟩ := List.cons.inj hrest
        have hsingle := letters_eq_of_mem ha (c := c) (by simp [hc])
        rw [hsingle] at hc
        obtain ⟨rfl, rfl⟩ : x = [] ∧ more = [] := by simpa [List.singleton_eq_append_iff] using hc
        exact ⟨[], text, rfl, hy⟩

/-! ## What is left of a text -/

def Spelled (letters : List Char) : Prop :=
  ∃ text, letters = spell text

theorem Spelled.split {x y : List Char} (h : Spelled (x ++ '/' :: y)) : Spelled x ∧ Spelled y := by
  obtain ⟨text, htext⟩ := h
  obtain ⟨before, after, hx, hy⟩ := spell_split (by decide) htext.symm
  exact ⟨⟨before, hx⟩, after, hy⟩

theorem Spelled.nil : Spelled [] := ⟨[], rfl⟩

theorem Spelled.skipEmpty {text : List Char} (h : Spelled text) : Spelled (skipEmpty text) := by
  fun_induction Path.skipEmpty text with
  | case1 rest ih => exact ih (Spelled.split (x := []) h).2
  | case2 => exact .nil
  | case3 rest ih => exact ih (Spelled.split (x := ['.']) h).2
  | case4 text h₁ h₂ h₃ => exact h

theorem Spelled.skipEmptyBack {text : List Char} (h : Spelled text.reverse) : Spelled (skipEmptyBack text).reverse := by
  fun_induction Path.skipEmptyBack text with
  | case1 rest ih =>
    rw [List.reverse_cons] at h
    exact ih h.split.1
  | case2 => exact .nil
  | case3 rest ih =>
    rw [List.reverse_cons, List.reverse_cons, List.append_assoc] at h
    exact ih (Spelled.split (y := ['.']) h).1
  | case4 text h₁ h₂ h₃ => exact h

theorem Spelled.trimmed {text : List Char} (h : Spelled text) : Spelled (trimmed text) := by
  rw [Path.trimmed]
  apply Spelled.skipEmptyBack
  rw [List.reverse_reverse]
  exact h.skipEmpty

theorem Spelled.segment {text : List Char} (h : Spelled text) : Spelled (segment text).2 := by
  rcases segment_cases text with ⟨-, hseg⟩ | ⟨s, rest, rfl, -, hseg⟩
  · rw [hseg]
    exact .nil
  · rw [hseg]
    exact h.split.2

theorem Spelled.next? {text rest : List Char} {c : Component} (h : Spelled text)
    (hnext : next? false text = some (c, rest)) : Spelled rest := by
  have hskip := h.skipEmpty
  simp only [Path.next?, Bool.false_eq_true, if_false] at hnext
  split at hnext
  · contradiction
  · cases hnext
    exact hskip.segment

theorem Spelled.behind? {text rest : List Char} {front : Bool} {cs : List Component} (h : Spelled text)
    (hbehind : behind? false text cs = some (front, rest)) : Spelled rest := by
  induction cs generalizing text with
  | nil =>
    cases hbehind
    exact h
  | cons c cs ih =>
    rw [Path.behind?] at hbehind
    cases hnext : Path.next? false text with
    | none => simp [hnext] at hbehind
    | some found =>
      rw [hnext] at hbehind
      simp only [Option.ite_none_right_eq_some] at hbehind
      exact ih (h.next? hnext) hbehind.2

/-- What is left of a text behind a root is a text. -/
theorem spelled_below {root path : String} (hroot : Path.isAbsolute root = true) (hpath : Path.isAbsolute path = true)
    (h : Spelled path.toList) : Spelled (Path.below root path).toList := by
  obtain ⟨text, htext⟩ := exists_of_isAbsolute hpath
  rw [below_eq hroot htext]
  split
  · exact h
  · rename_i hbehind
    rw [htext] at h
    rw [String.toList_ofList]
    exact ((Spelled.split (x := []) h).2.behind? hbehind).trimmed

/-- What is shown of a text is what is left of it behind the root, and nothing is lost. -/
theorem letters_ofText_shown {root : OsPath} {text : String} (hroot : root.isAbsolute = true)
    (htext : (ofText text).isAbsolute = true) :
    (ofText (root.shown (ofText text))).letters = Path.below root.letters (ofText text).letters := by
  obtain ⟨name, hname⟩ := spelled_below hroot htext ⟨text.toList, toList_letters_ofText text⟩
  have hletters : Path.below root.letters (ofText text).letters = (ofText (String.ofList name)).letters := by
    rw [← String.toList_inj, hname, toList_letters_ofText, String.toList_ofList]
  rw [shown, below, hletters, ofLetters_letters, display_ofText]

theorem letters_injective : Function.Injective letters :=
  Function.LeftInverse.injective ofLetters_letters

theorem components_join_shown {root : OsPath} {text : String} (hroot : root.isAbsolute = true)
    (htext : (ofText text).isAbsolute = true) :
    (root.join (ofText (root.shown (ofText text)))).components = (ofText text).components := by
  rw [components, letters_join, letters_ofText_shown hroot htext]
  exact components_join_below hroot htext

/-- A path that is a text still denotes its place where it is shown from a root: joined to the root its name has the
components of the path, the name is relative exactly if the components of the root begin those of the path, and any
other path is shown as it is. So paths with different components are never shown by one name. -/
theorem shown_denotes {root : OsPath} {text : String} (hroot : root.isAbsolute = true)
    (htext : (ofText text).isAbsolute = true) :
    (root.join (ofText (root.shown (ofText text)))).components = (ofText text).components ∧
      ((ofText (root.shown (ofText text))).isAbsolute = false ↔ root.components <+: (ofText text).components) ∧
      (¬ root.components <+: (ofText text).components → root.shown (ofText text) = text) ∧
      ∀ other : String, (ofText other).isAbsolute = true → (ofText other).components ≠ (ofText text).components →
        root.shown (ofText other) ≠ root.shown (ofText text) := by
  have hletters := letters_ofText_shown hroot htext
  refine ⟨components_join_shown hroot htext, ?_, ?_, ?_⟩
  · rw [isAbsolute, hletters]
    exact not_isAbsolute_below_iff hroot htext
  · intro hnot
    rw [below_eq_self hroot htext hnot] at hletters
    rw [← display_ofText (root.shown (ofText text)), letters_injective hletters, display_ofText]
  · intro other hother hne hsame
    apply hne
    rw [← components_join_shown hroot hother, hsame, components_join_shown hroot htext]

/-- A path with slashes and dots in it is below `/project`, and a path below `/project2` is not. -/
theorem shown_denotes_project :
    (ofText "/project").isAbsolute = true ∧ (ofText "/project//bin/./é.sh/.").isAbsolute = true ∧
      (ofText "/project").shown (ofText "/project//bin/./é.sh/.") = "bin/./é.sh" ∧
      ((ofText "/project").join (ofText "bin/./é.sh")).components = (ofText "/project//bin/./é.sh/.").components ∧
      (ofText "/project").components <+: (ofText "/project//bin/./é.sh/.").components ∧
      ¬ (ofText "/project").components <+: (ofText "/project2/a.sh").components ∧
      (ofText "/project").shown (ofText "/project2/a.sh") = "/project2/a.sh" ∧
      (ofText "/project").shown (ofText "/project//bin/./é.sh/.") ≠ (ofText "/project").shown (ofText "/project2/a.sh") := by
  have hroot : (ofText "/project").isAbsolute = true := by decide
  have hinside : (ofText "/project//bin/./é.sh/.").isAbsolute = true := by decide
  have houtside : (ofText "/project2/a.sh").isAbsolute = true := by decide
  have hshown : (ofText "/project").shown (ofText "/project//bin/./é.sh/.") = "bin/./é.sh" := by decide +kernel
  have hnot : ¬ (ofText "/project").components <+: (ofText "/project2/a.sh").components := by decide +kernel
  have hne : (ofText "/project//bin/./é.sh/.").components ≠ (ofText "/project2/a.sh").components := by decide +kernel
  rcases shown_denotes hroot hinside with ⟨hjoin, hrelative, -⟩
  rcases shown_denotes hroot houtside with ⟨-, -, hsame, hapart⟩
  rw [hshown] at hjoin hrelative
  exact ⟨hroot, hinside, hshown, hjoin, hrelative.mp (by decide), hnot, hsame hnot, hapart _ hinside hne⟩

/-- Two paths below `/r` that differ in a byte that belongs to no character are shown by one name. -/
theorem not_always_denotes :
    ¬ ∀ root path other : OsPath, root.isAbsolute = true → path.isAbsolute = true → other.isAbsolute = true →
      (root.join (ofText (root.shown path))).components = path.components ∧
        (other.components ≠ path.components → root.shown other ≠ root.shown path) := by
  intro hall
  have hapart := (hall (ofText "/r") ⟨(ofText "/r/a").bytes ++ [0xff]⟩ ⟨(ofText "/r/a").bytes ++ [0xfe]⟩ (by decide)
    (by decide) (by decide)).2 (by decide +kernel)
  exact hapart (by decide +kernel)

end ShellDecl.OsPath

