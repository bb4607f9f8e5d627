import ShellDecl.Proofs.Json.Doubled
import ShellDecl.Proofs.Json.Written

/-!
# Reading back what was written

Decoding undoes encoding for every type of the model, in both printed forms, and for any other spelling of a value as
well. Only trees can nest deeper than the reader goes; these are refused, and never read as another tree.
-/

set_option autoImplicit false

namespace ShellDecl

open Json

namespace Json

variable {α : Type} {decode : Decoder α} {w : Json} {text : String}

/-- Decoding a text that writes a value is decoding a draft that holds it. -/
theorem exists_draft (h : Writes w text.toList) :
    ∃ d : Draft, d.Holds w ∧ Decoder.ofText decode text = decode ⟨.direct maxDepth, d⟩ := by
  obtain ⟨d, m, blank, hblank, hread, hd⟩ := h.ofText
  refine ⟨d, hd, ?_⟩
  have hskip := skipBlanks_blank hblank m []
  rw [List.append_nil] at hskip
  rw [Decoder.ofText, hread]
  cases hdecode : decode ⟨.direct maxDepth, d⟩ with
  | error f => simp only [hdecode]
  | ok a =>
    simp only [hdecode, hskip]
    rfl

theorem Decodes.ofText {a : α} (h : Decodes decode (.direct maxDepth) w a) (htext : Writes w text.toList) :
    Decoder.ofText decode text = .ok a := by
  obtain ⟨d, hd, heq⟩ := exists_draft htext
  rw [heq, h d hd]

theorem exists_error_ofText (h : ∀ d : Draft, d.Holds w → ∀ a, decode ⟨.direct maxDepth, d⟩ ≠ .ok a)
    (htext : Writes w text.toList) : ∃ f, Decoder.ofText decode text = .error f := by
  obtain ⟨d, hd, heq⟩ := exists_draft htext
  rw [heq]
  cases hdecode : decode ⟨.direct maxDepth, d⟩ with
  | error f => exact ⟨f, rfl⟩
  | ok a => exact absurd hdecode (h d hd a)

def printed (w : Json) : List String :=
  [w.compact, w.pretty]

theorem Readable.writes_printed (h : Readable w) : ∀ text ∈ printed w, Writes w text.toList := by
  intro text htext
  simp only [printed, List.mem_cons, List.not_mem_nil, or_false] at htext
  obtain rfl | rfl := htext
  · exact h.writes_compact
  · exact h.writes_pretty

end Json

/-! ## Written forms can be read -/

theorem Extent.Fits.readable {e : Extent} (h : e.Fits) : Readable e.toJson := by
  obtain ⟨h₁, h₂, h₃, h₄⟩ := h
  have hlt : ∀ n < UInt32.size, Readable (.nat n) := fun n hn => readable_nat (Nat.lt_trans hn (by decide))
  refine .obj _ ?_
  simp only [List.forall_mem_cons]
  exact ⟨hlt _ h₁, hlt _ h₂, hlt _ h₃, hlt _ h₄, .str _, by simp⟩

theorem Symbol.readable {s : Symbol} (h : s.extent.Fits) : Readable s.toJson := by
  refine .obj _ ?_
  simp only [List.forall_mem_cons]
  exact ⟨.str _, h.readable, .str _, by simp⟩

namespace Script

mutual

theorem toJson_readable (t : Script) (h : t.Fits) : Readable t.toJson := by
  cases t with
  | function e name body =>
    have hbody := toJsonAll_readable body fun c hc => h.child hc
    rw [toJson]
    refine .obj _ (List.forall_mem_cons.mpr ⟨h.extent.readable, ?_⟩)
    refine List.forall_mem_singleton.mpr (.obj _ ?_)
    simp only [List.forall_mem_cons]
    exact ⟨.str _, .str _, .arr _ hbody, by simp⟩
  | variableName e =>
    rw [toJson]
    refine .obj _ (List.forall_mem_cons.mpr ⟨h.extent.readable, ?_⟩)
    exact List.forall_mem_singleton.mpr (.obj _ (List.forall_mem_singleton.mpr (.str _)))
  | other e label children =>
    have hchildren := toJsonAll_readable children fun c hc => h.child hc
    cases label with
    | none =>
      rw [toJson]
      refine .obj _ (List.forall_mem_cons.mpr ⟨h.extent.readable, ?_⟩)
      refine List.forall_mem_singleton.mpr (.obj _ ?_)
      simp only [List.forall_mem_cons]
      exact ⟨.str _, .arr _ hchildren, by simp⟩
    | some label =>
      rw [toJson]
      refine .obj _ (List.forall_mem_cons.mpr ⟨h.extent.readable, ?_⟩)
      refine List.forall_mem_singleton.mpr (.obj _ ?_)
      simp only [List.forall_mem_cons]
      exact ⟨.str _, .str _, .arr _ hchildren, by simp⟩

theorem toJsonAll_readable (ts : List Script) (h : ∀ t ∈ ts, t.Fits) : ∀ v ∈ toJsonAll ts, Readable v := by
  cases ts with
  | nil => simp [toJsonAll]
  | cons t ts =>
    rw [toJsonAll, List.forall_mem_cons]
    exact ⟨toJson_readable t (h t (by simp)), toJsonAll_readable ts fun u hu => h u (by simp [hu])⟩

end

end Script

theorem AnalysisSettings.readable (s : AnalysisSettings) : Readable s.toJson := by
  obtain ⟨enabled, path⟩ := s
  refine .obj _ ?_
  simp only [List.forall_mem_cons]
  refine ⟨?_, ?_, by simp⟩
  · cases enabled <;> constructor
  · cases path <;> constructor

theorem ServerSettings.readable (s : ServerSettings) : Readable s.toJson :=
  .obj _ (List.forall_mem_singleton.mpr s.analysis.readable)

theorem SettingsNotice.readable (n : SettingsNotice) : Readable n.toJson := by
  obtain ⟨server⟩ := n
  refine .obj _ (List.forall_mem_singleton.mpr ?_)
  cases server with
  | none => exact .null
  | some s => exact s.readable

theorem Config.readable (c : Config) : Readable c.toJson := by
  have hsize : c.parser.maxFileSizeMb.toNat < UInt64.size := Nat.lt_trans c.parser.maxFileSizeMb.toNat_lt (by decide)
  refine .obj _ ?_
  simp only [List.forall_mem_cons]
  exact ⟨.obj _ (List.forall_mem_singleton.mpr (readable_nat hsize)),
    .obj _ (List.forall_mem_singleton.mpr (.str _)), c.settings.readable, by simp⟩

/-! ## The round trip -/

/-- Decoding either printed form of a value gives the value again. A tree that nests deeper than the reader goes is
refused, and for no other reason. -/
theorem decode_printed :
    (∀ e : Extent, e.Fits → ∀ text ∈ printed e.toJson, Decoder.ofText Extent.decode text = .ok e) ∧
      (∀ s : Symbol, s.extent.Fits → ∀ text ∈ printed s.toJson, Decoder.ofText Symbol.decode text = .ok s) ∧
      (∀ t : Script, t.Fits → ∀ text ∈ printed t.toJson,
        (t.toJson.depth ≤ maxDepth → Decoder.ofText Script.decode text = .ok t) ∧
          (maxDepth < t.toJson.depth → ∃ f, Decoder.ofText Script.decode text = .error f ∧ f.cause = .tooDeep)) ∧
      (∀ s : AnalysisSettings, ∀ text ∈ printed s.toJson,
        Decoder.ofText (AnalysisSettings.decode format) text = .ok s) ∧
      (∀ s : ServerSettings, ∀ text ∈ printed s.toJson, Decoder.ofText (ServerSettings.decode format) text = .ok s) ∧
      (∀ n : SettingsNotice, ∀ text ∈ printed n.toJson, Decoder.ofText (SettingsNotice.decode format) text = .ok n) ∧
      ∀ c : Config, ∀ text ∈ printed c.toJson, Decoder.ofText (Config.decode format) text = .ok c := by
  have hroom : ∀ n ≤ maxDepth, (Mode.direct maxDepth).HasRoom n := fun n hn => hn
  refine ⟨?_, ?_, ?_, ?_, ?_, ?_, ?_⟩
  · intro e he text htext
    exact (Extent.decodes he e.toJson_spelled (hroom 1 (by decide))).ofText (he.readable.writes_printed text htext)
  · intro s hs text htext
    exact (Symbol.decodes hs s.toJson_spelled (hroom 2 (by decide))).ofText
      ((Symbol.readable hs).writes_printed text htext)
  · intro t ht text htext
    have hwrites := (t.toJson_readable ht).writes_printed text htext
    constructor
    · intro hdepth
      refine (Script.decodes ht t.toJson_spelled fun v hv => ?_).ofText hwrites
      obtain ⟨ms, hms, hmem⟩ := hv
      have hlt := depth_lt_obj hmem
      rw [← hms] at hlt
      exact Nat.lt_of_lt_of_le hlt hdepth
    · intro hdepth
      obtain ⟨d, hd, heq⟩ := @exists_draft _ Script.decode _ _ hwrites
      obtain ⟨m, hm⟩ := Script.decode_tooDeep ht hdepth hd
      exact ⟨_, heq.trans hm, rfl⟩
  · intro s text htext
    exact (AnalysisSettings.decodes s.toJson_spelled (hroom 1 (by decide))).ofText (s.readable.writes_printed text htext)
  · intro s text htext
    exact (ServerSettings.decodes s.toJson_spelled (hroom 2 (by decide))).ofText (s.readable.writes_printed text htext)
  · intro n text htext
    exact (SettingsNotice.decodes n.toJson_spelled (hroom 3 (by decide))).ofText (n.readable.writes_printed text htext)
  · intro c text htext
    exact (Config.decodes c.toJson_spelled (hroom 3 (by decide))).ofText (c.readable.writes_printed text htext)

def Extent.letter : Extent :=
  ⟨⟨1, 1⟩, ⟨1, 2⟩, "x"⟩

theorem Extent.letter_fits : letter.Fits := by
  decide

def Script.nested : Nat → Script
  | 0 => .variableName .letter
  | n + 1 => .other .letter none [nested n]

theorem Script.nested_fits (n : Nat) : (nested n).Fits := by
  induction n with
  | zero =>
    intro u hu
    obtain rfl := List.mem_singleton.mp hu
    exact Extent.letter_fits
  | succ n ih =>
    intro u hu
    rw [nested, preorder, preorderAll, preorderAll, List.append_nil, List.mem_cons] at hu
    obtain rfl | hu := hu
    · exact Extent.letter_fits
    · exact ih u hu

theorem Script.nested_depth (n : Nat) : (nested n).toJson.depth = 3 * n + 2 := by
  induction n with
  | zero => simp [nested, toJson, depth, depthMembers, depth_extent]
  | succ n ih =>
    simp [nested, toJson, toJsonAll, depth, depthMembers, depthItems, depth_extent, ih]
    omega

theorem decode_printed_nested :
    (∀ text ∈ printed (Extent.toJson ⟨⟨1, 1⟩, ⟨4294967295, 2⟩, "\"x\n"⟩),
        Decoder.ofText Extent.decode text = .ok ⟨⟨1, 1⟩, ⟨4294967295, 2⟩, "\"x\n"⟩) ∧
      Decoder.ofText Symbol.decode (Symbol.toJson ⟨.var, .letter, ""⟩).pretty =
        .ok ⟨.var, .letter, ""⟩ ∧
      Decoder.ofText Script.decode (Script.nested 41).toJson.pretty = .ok (Script.nested 41) ∧
      ∃ f, Decoder.ofText Script.decode (Script.nested 42).toJson.compact = .error f ∧ f.cause = .tooDeep := by
  obtain ⟨hextent, hsymbol, htree, -⟩ := decode_printed
  refine ⟨?_, ?_, ?_, ?_⟩
  · exact hextent _ (by decide)
  · exact hsymbol _ Extent.letter_fits _ (by simp [printed])
  · have h := htree (.nested 41) (Script.nested_fits 41) _ (List.mem_cons_of_mem _ List.mem_cons_self)
    exact h.1 (by rw [Script.nested_depth]; decide)
  · have h := htree (.nested 42) (Script.nested_fits 42) _ List.mem_cons_self
    exact h.2 (by rw [Script.nested_depth]; decide)

end ShellDecl
