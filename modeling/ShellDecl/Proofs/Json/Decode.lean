import ShellDecl.Json.Decode
import ShellDecl.Proofs.Json.Gather
import ShellDecl.Settings.Shape

/-!
# Decoding any spelling

Each spelling of a value is decoded to that value. Extents, symbols and settings nest only a few levels deep, and what
else their objects hold is passed over at any depth. A tree node is kept as a whole before its tag is known, so the
value of its key `node` must stay within the limit of levels; below that everything is decoded from kept values.
-/

set_option autoImplicit false

namespace ShellDecl

open Json

namespace Json

variable {α β : Type} {mode : Mode}

/-! ## Plain values and lists -/

theorem decodes_word {n : Nat} (h : n < UInt32.size) : Decodes Decoder.word mode (.nat n) n := by
  intro d hd
  obtain ⟨start, m, stop, rfl, hm⟩ := exists_of_holds_number hd
  rw [Numeral.value_nat (Nat.lt_trans h (by decide))] at hm
  obtain rfl := Except.ok.inj hm
  simp only [Decoder.word, if_pos h]

theorem decodes_string (s : String) : Decodes Decoder.string mode (.str s) s := by
  intro d hd
  obtain ⟨start, stop, rfl⟩ := exists_of_holds_str hd
  rfl

theorem decodes_boolean (b : Bool) : Decodes Decoder.boolean mode (.bool b) b := by
  intro d hd
  obtain ⟨start, stop, rfl⟩ := exists_of_holds_bool hd
  rfl

theorem decodes_none (decode : Decoder β) : Decodes (Decoder.optional decode) mode .null none := by
  intro d hd
  obtain ⟨start, stop, rfl⟩ := exists_of_holds_null hd
  rfl

theorem decodes_some {decode : Decoder β} {w : Json} {b : β} (h : Decodes decode mode w b) (hw : w ≠ .null) :
    Decodes (Decoder.optional decode) mode w (some b) := by
  intro d hd
  have hb := h d hd
  unfold Decoder.optional
  split
  · rename_i start stop heq
    simp only at heq
    subst heq
    exact absurd (holds_null hd) hw
  · rw [hb]
    rfl

theorem decodes_optional {decode : Decoder β} {write : β → Json} (hwrite : ∀ b, Decodes decode mode (write b) b)
    (hnull : ∀ b, write b ≠ .null) (o : Option β) :
    Decodes (Decoder.optional decode) mode (Json.optional write o) o := by
  cases o with
  | none => exact decodes_none decode
  | some b => exact decodes_some (hwrite b) (hnull b)

theorem decodes_items {decode : Draft → Except Fault β} {vs : List Json} {bs : List β}
    (h : List.Forall₂ (fun v b => ∀ d : Draft, d.Holds v → decode d = .ok b) vs bs) (items : Items)
    (hold : items.Hold vs) : Decoder.items decode items = .ok bs := by
  induction h generalizing items with
  | nil =>
    cases items with
    | nil settled ending =>
      obtain ⟨rfl, -⟩ := hold_nil.mp hold
      rfl
    | cons d rest => exact hold.elim
  | cons hv more ih =>
    obtain ⟨d, rest, rfl, hd, hrest⟩ := exists_of_hold_items hold
    rw [Decoder.items, hv d hd, ih rest hrest]
    rfl

theorem decodes_list {decode : Decoder β} (hroom : mode.HasRoom 1) {vs : List Json} {bs : List β}
    (h : List.Forall₂ (Decodes decode mode.inner) vs bs) : Decodes (Decoder.list decode) mode (.arr vs) bs := by
  intro d hd
  obtain ⟨start, items, rfl, hold⟩ := exists_of_holds_arr hd
  simp only [Decoder.list, Mode.enter_of_hasRoom hroom start]
  exact decodes_items h items hold

end Json

/-! ## Extents and symbols -/

/-- The numbers of an extent have a place in 32 bits. -/
def Extent.Fits (e : Extent) : Prop :=
  e.start.line < UInt32.size ∧ e.start.column < UInt32.size ∧ e.stop.line < UInt32.size ∧ e.stop.column < UInt32.size

instance (e : Extent) : Decidable e.Fits :=
  inferInstanceAs (Decidable (_ ∧ _ ∧ _ ∧ _))

namespace Extent

theorem columns :
    Gather.Column shape ["start_line"] Gathered.startLine Decoder.word ∧
      Gather.Column shape ["start_column"] Gathered.startColumn Decoder.word ∧
      Gather.Column shape ["end_line"] Gathered.stopLine Decoder.word ∧
      Gather.Column shape ["end_column"] Gathered.stopColumn Decoder.word ∧
      Gather.Column shape ["text"] Gathered.text Decoder.string := by
  refine ⟨?_, ?_, ?_, ?_, ?_⟩ <;>
    · constructor
      · simp [shape, Field.required]
      · simp [shape, Field.required]
        exact ⟨_, fun src x => rfl, by simp⟩
      · simp [shape, Field.required, Gather.map_eq_ok]

theorem lawful : Gather.Lawful shape where
  column := by
    obtain ⟨c₁, c₂, c₃, c₄, c₅⟩ := columns
    simp only [shape, List.forall_mem_cons]
    exact ⟨⟨_, _, _, c₁⟩, ⟨_, _, _, c₂⟩, ⟨_, _, _, c₃⟩, ⟨_, _, _, c₄⟩, ⟨_, _, _, c₅⟩, by simp⟩
  apart := by simp [shape, Field.required]
  fresh := by simp [shape, Field.required]

theorem decodes {e : Extent} (he : e.Fits) {w : Json} (hw : e.Spelled w) {mode : Mode} (hroom : mode.HasRoom 1) :
    Decodes decode mode w e := by
  refine Gather.record_decodes lawful hroom hw rfl ?_
  intro ms _ hslots
  simp only [List.forall_mem_cons] at hslots ⊢
  obtain ⟨h₁, h₂, h₃, h₄, h₅, -⟩ := hslots
  obtain ⟨c₁, c₂, c₃, c₄, c₅⟩ := columns
  obtain ⟨f₁, f₂, f₃, f₄⟩ := he
  have s₁ := c₁.stored lawful h₁ mode.inner fun _ v _ hv => hv ▸ decodes_word f₁
  have s₂ := c₂.stored lawful h₂ mode.inner fun _ v _ hv => hv ▸ decodes_word f₂
  have s₃ := c₃.stored lawful h₃ mode.inner fun _ v _ hv => hv ▸ decodes_word f₃
  have s₄ := c₄.stored lawful h₄ mode.inner fun _ v _ hv => hv ▸ decodes_word f₄
  have s₅ := c₅.stored lawful h₅ mode.inner fun _ v _ hv => hv ▸ decodes_string e.text
  refine ⟨⟨s₁.supplied, s₂.supplied, s₃.supplied, s₄.supplied, s₅.supplied, by simp⟩, ?_⟩
  intro y hrun
  simp only [shape, s₁.get_eq id hrun, s₂.get_eq id hrun, s₃.get_eq id hrun, s₄.get_eq id hrun, s₅.get_eq id hrun]
  rfl

end Extent

theorem SymbolKind.decodes (k : SymbolKind) {mode : Mode} : Decodes SymbolKind.decode mode (.str k.name) k := by
  intro d hd
  obtain ⟨start, stop, rfl⟩ := exists_of_holds_str hd
  cases k <;> rfl

namespace Symbol

theorem columns :
    Gather.Column shape ["kind"] Gathered.kind SymbolKind.decode ∧
      Gather.Column shape ["extent"] Gathered.extent Extent.decode ∧
      Gather.Column shape ["display_name"] Gathered.displayName Decoder.string := by
  refine ⟨?_, ?_, ?_⟩ <;>
    · constructor
      · simp [shape, Field.required, Field.defaulted]
      · simp [shape, Field.required, Field.defaulted]
        exact ⟨_, fun src x => rfl, by simp⟩
      · simp [shape, Field.required, Field.defaulted, Gather.map_eq_ok]

theorem lawful : Gather.Lawful shape where
  column := by
    obtain ⟨c₁, c₂, c₃⟩ := columns
    simp only [shape, List.forall_mem_cons]
    exact ⟨⟨_, _, _, c₁⟩, ⟨_, _, _, c₂⟩, ⟨_, _, _, c₃⟩, by simp⟩
  apart := by simp [shape, Field.required, Field.defaulted]
  fresh := by simp [shape, Field.required, Field.defaulted]

theorem decodes {s : Symbol} (hs : s.extent.Fits) {w : Json} (hw : s.Spelled w) {mode : Mode}
    (hroom : mode.HasRoom 2) : Decodes decode mode w s := by
  refine Gather.record_decodes lawful (hroom.mono (by decide)) hw rfl ?_
  intro ms _ hslots
  simp only [List.forall_mem_cons] at hslots ⊢
  obtain ⟨h₁, h₂, h₃, -⟩ := hslots
  obtain ⟨c₁, c₂, c₃⟩ := columns
  have s₁ := c₁.stored lawful h₁ mode.inner fun _ v _ hv => hv ▸ s.kind.decodes
  have s₂ := c₂.stored lawful h₂ mode.inner fun _ v _ hv => Extent.decodes hs hv hroom.inner
  have s₃ := c₃.stored lawful h₃ mode.inner fun _ v _ hv => hv ▸ decodes_string s.displayName
  refine ⟨⟨s₁.supplied, s₂.supplied, s₃.supplied, by simp⟩, ?_⟩
  intro y hrun
  simp only [shape, s₁.get_eq id hrun, s₂.get_eq id hrun, s₃.getD_eq id hrun]
  rfl

end Symbol

/-! ## Settings and configurations -/

namespace AnalysisSettings

theorem columns :
    Gather.Column (shape format) ["enabled", "enable"] Gathered.enabled (Decoder.optional Decoder.boolean) ∧
      Gather.Column (shape format) ["settingsPath"] Gathered.settingsPath (Decoder.optional Decoder.string) := by
  refine ⟨?_, ?_⟩ <;>
    · constructor
      · simp [shape, Field.defaulted]
      · simp [shape, Field.defaulted]
        exact ⟨_, fun src x => rfl, by simp⟩
      · simp [shape, Field.defaulted, Gather.map_eq_ok]

theorem lawful : Gather.Lawful (shape format) where
  column := by
    obtain ⟨c₁, c₂⟩ := columns
    simp only [shape, List.forall_mem_cons]
    exact ⟨⟨_, _, _, c₁⟩, ⟨_, _, _, c₂⟩, by simp⟩
  apart := by simp [shape, Field.defaulted]
  fresh := by simp [shape, Field.defaulted]

theorem decodes {s : AnalysisSettings} {w : Json} (hw : s.Spelled w) {mode : Mode} (hroom : mode.HasRoom 1) :
    Decodes (decode format) mode w s := by
  refine Gather.record_decodes lawful hroom hw rfl ?_
  intro ms _ hslots
  simp only [List.forall_mem_cons] at hslots ⊢
  obtain ⟨h₁, h₂, -⟩ := hslots
  obtain ⟨c₁, c₂⟩ := columns
  have s₁ := c₁.stored lawful h₁ mode.inner fun _ v _ hv => hv ▸ decodes_optional decodes_boolean (by simp) s.enabled
  have s₂ := c₂.stored lawful h₂ mode.inner fun _ v _ hv =>
    hv ▸ decodes_optional decodes_string (by simp) s.settingsPath
  refine ⟨⟨s₁.supplied, s₂.supplied, by simp⟩, ?_⟩
  intro y hrun
  simp only [shape, s₁.getD_eq id hrun, s₂.getD_eq id hrun]

end AnalysisSettings

namespace ServerSettings

theorem column :
    Gather.Column (shape format) ["analysis", "scriptAnalysis"] Gathered.analysis (AnalysisSettings.decode format) :=
  .single rfl fun _ _ => rfl

theorem lawful : Gather.Lawful (shape format) :=
  .single rfl (fun _ _ => rfl) rfl

theorem decodes {s : ServerSettings} {w : Json} (hw : s.Spelled w) {mode : Mode} (hroom : mode.HasRoom 2) :
    Decodes (decode format) mode w s := by
  refine Gather.record_decodes lawful (hroom.mono (by decide)) hw rfl ?_
  intro ms _ hslots
  simp only [List.forall_mem_cons] at hslots ⊢
  obtain ⟨h₁, -⟩ := hslots
  have s₁ := column.stored lawful h₁ mode.inner fun _ v _ hv => AnalysisSettings.decodes hv hroom.inner
  refine ⟨⟨s₁.supplied, by simp⟩, ?_⟩
  intro y hrun
  simp only [shape, s₁.getD_eq id hrun]

end ServerSettings

namespace SettingsNotice

theorem column :
    Gather.Column (shape format) ["Powershell", "powershell"] Gathered.server
      (Decoder.optional (ServerSettings.decode format)) :=
  .single rfl fun _ _ => rfl

theorem lawful : Gather.Lawful (shape format) :=
  .single rfl (fun _ _ => rfl) rfl

theorem decodes {n : SettingsNotice} {w : Json} (hw : n.Spelled w) {mode : Mode} (hroom : mode.HasRoom 3) :
    Decodes (decode format) mode w n := by
  refine Gather.record_decodes lawful (hroom.mono (by decide)) hw rfl ?_
  intro ms _ hslots
  simp only [List.forall_mem_cons] at hslots ⊢
  obtain ⟨h₁, -⟩ := hslots
  have hvalue : ∀ v, OrNull ServerSettings.Spelled n.server v →
      Decodes (Decoder.optional (ServerSettings.decode format)) mode.inner v n.server := by
    intro v hv
    cases hn : n.server with
    | none =>
      rw [hn] at hv
      exact hv ▸ decodes_none _
    | some s =>
      rw [hn] at hv
      refine decodes_some (ServerSettings.decodes hv hroom.inner) ?_
      rintro rfl
      obtain ⟨ms, hms, -⟩ := hv
      cases hms
  have s₁ := column.stored lawful h₁ mode.inner fun _ v _ hv => hvalue v hv
  refine ⟨⟨s₁.supplied, by simp⟩, ?_⟩
  intro y hrun
  simp only [shape, s₁.getD_eq id hrun]

end SettingsNotice

namespace ParserConfig

theorem column : Gather.Column (shape format) ["max_file_size_mb"] Gathered.maxFileSizeMb Decoder.word :=
  .single rfl fun _ _ => rfl

theorem lawful : Gather.Lawful (shape format) :=
  .single rfl (fun _ _ => rfl) rfl

theorem decodes {c : ParserConfig} {w : Json} (hw : c.Spelled w) {mode : Mode} (hroom : mode.HasRoom 1) :
    Decodes (decode format) mode w c := by
  refine Gather.record_decodes lawful hroom hw rfl ?_
  intro ms _ hslots
  simp only [List.forall_mem_cons] at hslots ⊢
  obtain ⟨h₁, -⟩ := hslots
  have s₁ := column.stored lawful h₁ mode.inner fun _ v _ hv => hv ▸ decodes_word c.maxFileSizeMb.toNat_lt
  refine ⟨⟨s₁.supplied, by simp⟩, ?_⟩
  intro y hrun
  obtain hy | ⟨rfl, hy⟩ := s₁.found y hrun
  · simp only [shape, hy, Nat.toUInt32_eq, UInt32.ofNat_toNat]
  · simp only [shape, hy]

end ParserConfig

namespace OutputConfig

theorem column : Gather.Column (shape Json.format) ["format"] Gathered.format Decoder.string :=
  .single rfl fun _ _ => rfl

theorem lawful : Gather.Lawful (shape Json.format) :=
  .single rfl (fun _ _ => rfl) rfl

theorem decodes {c : OutputConfig} {w : Json} (hw : c.Spelled w) {mode : Mode} (hroom : mode.HasRoom 1) :
    Decodes (decode Json.format) mode w c := by
  refine Gather.record_decodes lawful hroom hw rfl ?_
  intro ms _ hslots
  simp only [List.forall_mem_cons] at hslots ⊢
  obtain ⟨h₁, -⟩ := hslots
  have s₁ := column.stored lawful h₁ mode.inner fun _ v _ hv => hv ▸ decodes_string c.format
  refine ⟨⟨s₁.supplied, by simp⟩, ?_⟩
  intro y hrun
  obtain hy | ⟨rfl, hy⟩ := s₁.found y hrun <;> simp only [shape, hy]

end OutputConfig

namespace Config

theorem columns :
    Gather.Column (shape format) ["parser"] Gathered.parser (ParserConfig.decode format) ∧
      Gather.Column (shape format) ["output"] Gathered.output (OutputConfig.decode format) ∧
      Gather.Column (shape format) ["settings"] Gathered.settings (ServerSettings.decode format) := by
  refine ⟨?_, ?_, ?_⟩ <;>
    · constructor
      · simp [shape, fields, Field.defaulted]
      · simp [shape, fields, Field.defaulted]
        exact ⟨_, fun src x => rfl, by simp⟩
      · simp [shape, fields, Field.defaulted, Gather.map_eq_ok]

theorem lawful : Gather.Lawful (shape format) where
  column := by
    obtain ⟨c₁, c₂, c₃⟩ := columns
    simp only [shape, fields, List.forall_mem_cons]
    exact ⟨⟨_, _, _, c₁⟩, ⟨_, _, _, c₂⟩, ⟨_, _, _, c₃⟩, by simp⟩
  apart := by simp [shape, fields, Field.defaulted]
  fresh := by simp [shape, fields, Field.defaulted]

theorem decodes {c : Config} {w : Json} (hw : c.Spelled w) {mode : Mode} (hroom : mode.HasRoom 3) :
    Decodes (decode format) mode w c := by
  refine Gather.record_decodes lawful (hroom.mono (by decide)) hw rfl ?_
  intro ms _ hslots
  simp only [List.forall_mem_cons] at hslots ⊢
  obtain ⟨h₁, h₂, h₃, -⟩ := hslots
  obtain ⟨c₁, c₂, c₃⟩ := columns
  have hinner : mode.inner.HasRoom 1 := hroom.inner.mono (by decide)
  have s₁ := c₁.stored lawful h₁ mode.inner fun _ v _ hv => ParserConfig.decodes hv hinner
  have s₂ := c₂.stored lawful h₂ mode.inner fun _ v _ hv => OutputConfig.decodes hv hinner
  have s₃ := c₃.stored lawful h₃ mode.inner fun _ v _ hv => ServerSettings.decodes hv hroom.inner
  refine ⟨⟨s₁.supplied, s₂.supplied, s₃.supplied, by simp⟩, ?_⟩
  intro y hrun
  simp only [shape, s₁.getD_eq id hrun, s₂.getD_eq id hrun, s₃.getD_eq id hrun]

end Config

end ShellDecl
