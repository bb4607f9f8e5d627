import ShellDecl.Proofs.Json.RoundTrip

/-!
# Reading any spelling

Decoding does not depend on how the objects of a value are spelled: in which order their members stand, under which
name a field goes, what else is there, and whether a default is written. What it does depend on is how deep the node
of a tree nests. A field that is given twice is not resolved to one of its values.
-/

set_option autoImplicit false

namespace ShellDecl

open Json

theorem Json.Object.value_of_has {slots : List Slot} {w v : Json} (h : Object slots w) {k : String}
    (hv : w.Has k v) {e : Slot} (he : e ∈ slots) (hk : k ∈ e.names) : e.value v := by
  obtain ⟨ms, rfl, hms⟩ := h
  obtain ⟨ms', hms', hmem⟩ := hv
  obtain rfl := Json.obj.inj hms'
  have hgiven : (k, v) ∈ given e.names ms := mem_given.mpr ⟨hmem, hk⟩
  obtain ⟨k', v', heq, hvalue⟩ | ⟨-, heq⟩ := hms e he
  · rw [heq, List.mem_singleton] at hgiven
    obtain ⟨-, rfl⟩ := Prod.mk.inj hgiven
    exact hvalue
  · rw [heq] at hgiven
    cases hgiven

theorem Script.Spelled.node_obj {t : Script} {w v : Json} (h : t.Spelled w) (hv : w.Has "node" v) :
    ∃ ms, v = .obj ms := by
  cases t <;>
    · rw [Script.Spelled] at h
      obtain ⟨ms, rfl, -⟩ := h.value_of_has hv (List.mem_cons_of_mem _ List.mem_cons_self) (List.mem_singleton_self _)
      exact ⟨ms, rfl⟩

theorem Script.exists_node (t : Script) : ∃ v, t.toJson.Has "node" v ∧ t.toJson.depth = v.depth + 1 := by
  obtain ⟨tag, ms, -, hjson⟩ := t.toJson_eq
  rw [hjson]
  refine ⟨_, ⟨_, rfl, List.mem_cons_of_mem _ List.mem_cons_self⟩, ?_⟩
  simp [depth, depthMembers, depth_extent]

/-- Every text of every spelling of a value is decoded to the value, a tree as long as its node stays within the limit
of levels; beyond it the tree is refused. No text that gives a field twice is decoded. -/
theorem decode_spelled :
    (∀ (t : Script) (w : Json) (text : String), t.Fits → t.Spelled w → Writes w text.toList →
        ((∀ v, w.Has "node" v → v.depth < maxDepth) → Decoder.ofText Script.decode text = .ok t) ∧
          ((∃ v, w.Has "node" v ∧ maxDepth ≤ v.depth) → ∃ f, Decoder.ofText Script.decode text = .error f)) ∧
      (∀ (s : Symbol) (w : Json) (text : String), s.extent.Fits → s.Spelled w → Writes w text.toList →
        Decoder.ofText Symbol.decode text = .ok s) ∧
      (∀ (n : SettingsNotice) (w : Json) (text : String), n.Spelled w → Writes w text.toList →
        Decoder.ofText (SettingsNotice.decode format) text = .ok n) ∧
      ∀ (w : Json) (text : String), Writes w text.toList →
        (Script.Doubled w → ∃ f, Decoder.ofText Script.decode text = .error f) ∧
          (Symbol.Doubled w → ∃ f, Decoder.ofText Symbol.decode text = .error f) ∧
          (SettingsNotice.Doubled w → ∃ f, Decoder.ofText (SettingsNotice.decode format) text = .error f) := by
  have hroom : ∀ n ≤ maxDepth, (Mode.direct maxDepth).HasRoom n := fun n hn => hn
  refine ⟨?_, ?_, ?_, ?_⟩
  · intro t w text ht hw htext
    constructor
    · intro hdepth
      exact (Script.decodes ht hw hdepth).ofText htext
    · rintro ⟨v, hv, hdepth⟩
      obtain ⟨ms, rfl⟩ := hw.node_obj hv
      exact exists_error_ofText (fun d hd => Script.not_decode_of_deep hv hdepth hd) htext
  · intro s w text hs hw htext
    exact (Symbol.decodes hs hw (hroom 2 (by decide))).ofText htext
  · intro n w text hw htext
    exact (SettingsNotice.decodes hw (hroom 3 (by decide))).ofText htext
  · intro w text htext
    refine ⟨?_, ?_, ?_⟩
    · intro h
      exact exists_error_ofText (Script.refuses_doubled h maxDepth _) htext
    · intro h
      exact exists_error_ofText (Symbol.refuses_doubled h _) htext
    · intro h
      exact exists_error_ofText (SettingsNotice.refuses_doubled h _) htext

def Extent.turned : Json :=
  .obj [("text", .str "x"), ("end_column", .nat 2), ("end_line", .nat 1), ("start_column", .nat 1),
    ("start_line", .nat 1)]

theorem Extent.turned_spelled : letter.Spelled turned :=
  Object.perm letter.toJson_spelled (List.reverse_perm _).symm

theorem Extent.turned_readable : Readable turned := by
  have hlt : ∀ n < 3, Readable (.nat n) := fun n hn => readable_nat (Nat.lt_trans hn (by decide))
  refine .obj _ ?_
  simp only [List.forall_mem_cons]
  exact ⟨.str _, hlt 2 (by decide), hlt 1 (by decide), hlt 1 (by decide), hlt 1 (by decide), by simp⟩

def Symbol.turned : Json :=
  .obj [("extent", Extent.turned), ("kind", .str "variable")]

theorem Symbol.turned_spelled : Spelled ⟨.var, .letter, ""⟩ turned := by
  have h := Object.perm (Symbol.toJson_spelled ⟨.var, .letter, ""⟩) (List.reverse_perm _).symm
  have hshort := h.leaveOut (by simp)
  exact hshort.respell Extent.turned (by simp [Extent.turned_spelled])

theorem Symbol.turned_readable : Readable turned :=
  .obj _ (List.forall_mem_cons.mpr ⟨Extent.turned_readable, List.forall_mem_singleton.mpr (.str _)⟩)

def SettingsNotice.turned : Json :=
  .obj [("powershell", .obj [("added", .null), ("scriptAnalysis", .obj [("enable", .bool false)])])]

theorem SettingsNotice.turned_spelled : Spelled ⟨some ⟨⟨some false, none⟩⟩⟩ turned := by
  have hanalysis : AnalysisSettings.Spelled ⟨some false, none⟩ (.obj [("enable", .bool false)]) := by
    have h := Object.perm (AnalysisSettings.toJson_spelled ⟨some false, none⟩) (List.reverse_perm _).symm
    have hshort := h.leaveOut (by simp)
    exact hshort.rename "enable" (by simp)
  have hserver : ServerSettings.Spelled ⟨⟨some false, none⟩⟩
      (.obj [("added", .null), ("scriptAnalysis", .obj [("enable", .bool false)])]) := by
    have h := Object.respell (ServerSettings.toJson_spelled ⟨⟨some false, none⟩⟩) _ (by simpa using fun _ => hanalysis)
    have hlong := h.rename "scriptAnalysis" (by simp)
    exact hlong.insert "added" .null (by simp)
  have h := Object.respell (SettingsNotice.toJson_spelled ⟨some ⟨⟨some false, none⟩⟩⟩) _
    (by simpa [OrNull] using fun _ => hserver)
  exact h.rename "powershell" (by simp)

theorem SettingsNotice.turned_readable : Readable turned := by
  refine .obj _ (List.forall_mem_singleton.mpr (.obj _ ?_))
  simp only [List.forall_mem_cons]
  exact ⟨.null, .obj _ (List.forall_mem_singleton.mpr (.bool false)), by simp⟩

def Script.turned : Json :=
  .obj [("node", .obj [("label", .null), ("added", .arr [.bool true]), ("type", .str "other")]),
    ("extent", Extent.turned)]

theorem Script.turned_spelled : Spelled (.other .letter none []) turned := by
  rw [Spelled]
  refine ⟨_, rfl, ?_⟩
  simp [Slot.Spelled, given, Extent.turned_spelled, Object, Json.optional]
  rintro k v (⟨rfl, -⟩ | ⟨rfl, -⟩ | ⟨rfl, -⟩) <;> decide

theorem Script.turned_readable : Readable turned := by
  refine .obj _ (List.forall_mem_cons.mpr ⟨.obj _ ?_, List.forall_mem_singleton.mpr Extent.turned_readable⟩)
  simp only [List.forall_mem_cons]
  exact ⟨.null, .arr _ (List.forall_mem_singleton.mpr (.bool true)), .str _, by simp⟩

theorem decode_spelled_turned :
    Decoder.ofText Script.decode Script.turned.compact = .ok (.other .letter none []) ∧
      (∃ f, Decoder.ofText Script.decode (Script.nested 42).toJson.compact = .error f) ∧
      Decoder.ofText Symbol.decode Symbol.turned.compact = .ok ⟨.var, .letter, ""⟩ ∧
      Decoder.ofText (SettingsNotice.decode format) SettingsNotice.turned.compact =
        .ok ⟨some ⟨⟨some false, none⟩⟩⟩ ∧
      ∃ f, Decoder.ofText (SettingsNotice.decode format)
        (Json.obj [("Powershell", .null), ("powershell", .null)]).compact = .error f := by
  obtain ⟨htree, hsymbol, hnotice, hdoubled⟩ := decode_spelled
  refine ⟨?_, ?_, ?_, ?_, ?_⟩
  · have hfits : Script.Fits (.other .letter none []) := by
      intro u hu
      obtain rfl := List.mem_singleton.mp hu
      exact Extent.letter_fits
    refine (htree _ _ _ hfits Script.turned_spelled Script.turned_readable.writes_compact).1 ?_
    rintro v ⟨ms, hms, hmem⟩
    obtain rfl := Json.obj.inj hms
    exact Nat.lt_trans (depth_lt_obj hmem) (by decide)
  · have hfits := Script.nested_fits 42
    have hwrites := ((Script.nested 42).toJson_readable hfits).writes_compact
    refine (htree (.nested 42) _ _ hfits (Script.nested 42).toJson_spelled hwrites).2 ?_
    obtain ⟨v, hv, hdepth⟩ := (Script.nested 42).exists_node
    rw [Script.nested_depth] at hdepth
    refine ⟨v, hv, ?_⟩
    show 127 ≤ v.depth
    omega
  · exact hsymbol _ _ _ Extent.letter_fits Symbol.turned_spelled Symbol.turned_readable.writes_compact
  · exact hnotice _ _ _ SettingsNotice.turned_spelled SettingsNotice.turned_readable.writes_compact
  · have hreadable : Readable (.obj [("Powershell", .null), ("powershell", .null)]) := by
      refine .obj _ ?_
      simp only [List.forall_mem_cons]
      exact ⟨.null, .null, by simp⟩
    exact (hdoubled _ _ hreadable.writes_compact).2.2 (.inl ⟨_, rfl, by decide⟩)

/-- A tree can nest too deep to be read from any of its spellings, its own written form included. -/
theorem not_every_spelling_decodes :
    ¬∀ (t : Script) (w : Json) (text : String), t.Fits → t.Spelled w → Writes w text.toList →
      Decoder.ofText Script.decode text = .ok t := by
  intro h
  have hfits := Script.nested_fits 42
  have hwrites := ((Script.nested 42).toJson_readable hfits).writes_compact
  have hok := h (.nested 42) _ _ hfits (Script.nested 42).toJson_spelled hwrites
  obtain ⟨d, hd, heq⟩ := @exists_draft _ Script.decode _ _ hwrites
  have hdeep : maxDepth < (Script.nested 42).toJson.depth := by
    rw [Script.nested_depth]
    decide
  obtain ⟨m, hm⟩ := Script.decode_tooDeep hfits hdeep hd
  rw [heq, hm] at hok
  cases hok

end ShellDecl
