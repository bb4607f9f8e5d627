import Mathlib.Data.List.Forall2
import Mathlib.Data.List.Perm.Basic
import ShellDecl.Json.Encode

/-!
# Spellings of a value

A value of the model can be written as more than one object. The members may stand in any order, a field may go by any
of its names, a field that holds its default may be left out, and members with other keys may stand anywhere. So an
object spells a record when each field is given once, or not at all where it may be left out, whatever else is there.
The written form is one of the spellings.
-/

set_option autoImplicit false

namespace ShellDecl

namespace Json

def given (names : List String) (ms : List (String × Json)) : List (String × Json) :=
  ms.filter fun m => names.contains m.1

/-- A field as it may be spelled: its names, what its value may be, and whether it may be left out. -/
structure Slot where
  names : List String
  value : Json → Prop
  omissible : Prop

def Slot.Spelled (e : Slot) (ms : List (String × Json)) : Prop :=
  (∃ k w, given e.names ms = [(k, w)] ∧ e.value w) ∨ (e.omissible ∧ given e.names ms = [])

/-- The objects that spell all the fields. -/
def Object (slots : List Slot) (w : Json) : Prop :=
  ∃ ms, w = .obj ms ∧ ∀ e ∈ slots, e.Spelled ms

def Listed (ps : List (Json → Prop)) (w : Json) : Prop :=
  ∃ vs, w = .arr vs ∧ List.Forall₂ (fun p v => p v) ps vs

def OrNull {α : Type} (spelled : α → Json → Prop) : Option α → Json → Prop
  | some a => spelled a
  | none => (· = .null)

/-- The objects that give a field more than once. -/
def Twice (names : List String) (w : Json) : Prop :=
  ∃ ms, w = .obj ms ∧ 2 ≤ (given names ms).length

/-- A record gives the value `v` to a field, under one of its names or by its place in a list. -/
def Gives (names : List String) (index : Nat) (w v : Json) : Prop :=
  (∃ ms k, w = .obj ms ∧ (k, v) ∈ given names ms) ∨ ∃ vs, w = .arr vs ∧ vs[index]? = some v

theorem mem_given {names : List String} {ms : List (String × Json)} {m : String × Json} :
    m ∈ given names ms ↔ m ∈ ms ∧ m.1 ∈ names := by
  simp [given]

theorem given_cons_of_mem {names : List String} {k : String} (h : k ∈ names) (w : Json) (ms : List (String × Json)) :
    given names ((k, w) :: ms) = (k, w) :: given names ms := by
  simp [given, h]

theorem given_cons_of_not_mem {names : List String} {k : String} (h : k ∉ names) (w : Json)
    (ms : List (String × Json)) : given names ((k, w) :: ms) = given names ms := by
  simp [given, h]

/-! ## What may be changed in an object -/

theorem Slot.Spelled.perm {e : Slot} {ms ms' : List (String × Json)} (h : e.Spelled ms) (hperm : ms.Perm ms') :
    e.Spelled ms' := by
  have hgiven : (given e.names ms).Perm (given e.names ms') := hperm.filter _
  obtain ⟨k, w, hms, hw⟩ | ⟨ho, hms⟩ := h
  · rw [hms] at hgiven
    exact .inl ⟨k, w, (List.singleton_perm.mp hgiven).symm, hw⟩
  · rw [hms] at hgiven
    exact .inr ⟨ho, List.nil_perm.mp hgiven⟩

theorem Slot.spelled_cons_of_not_mem {e : Slot} {k : String} (hk : k ∉ e.names) (w : Json)
    (ms : List (String × Json)) : e.Spelled ((k, w) :: ms) ↔ e.Spelled ms := by
  rw [Slot.Spelled, Slot.Spelled, given_cons_of_not_mem hk]

theorem Slot.spelled_cons_of_mem {e : Slot} {k : String} (hk : k ∈ e.names) (w : Json)
    (ms : List (String × Json)) : e.Spelled ((k, w) :: ms) ↔ e.value w ∧ given e.names ms = [] := by
  rw [Slot.Spelled, given_cons_of_mem hk]
  constructor
  · rintro (⟨k', w', hms, hw⟩ | ⟨-, hms⟩)
    · obtain ⟨hm, hrest⟩ := List.cons.inj hms
      obtain ⟨-, rfl⟩ := Prod.mk.inj hm
      exact ⟨hw, hrest⟩
    · cases hms
  · rintro ⟨hw, hrest⟩
    exact .inl ⟨k, w, by rw [hrest], hw⟩

variable {slots : List Slot} {ms : List (String × Json)} {k : String} {w : Json}

theorem object_obj : Object slots (.obj ms) ↔ ∀ e ∈ slots, e.Spelled ms := by
  simp [Object]

/-- The order of the members does not matter. -/
theorem Object.perm (h : Object slots (.obj ms)) {ms' : List (String × Json)} (hperm : ms.Perm ms') :
    Object slots (.obj ms') := by
  rw [object_obj] at h ⊢
  intro e he
  exact (h e he).perm hperm

/-- A member whose key is no name of a field may be there, with any value. -/
theorem Object.insert (h : Object slots (.obj ms)) (k : String) (w : Json) (hk : ∀ e ∈ slots, k ∉ e.names) :
    Object slots (.obj ((k, w) :: ms)) := by
  rw [object_obj] at h ⊢
  intro e he
  exact (Slot.spelled_cons_of_not_mem (hk e he) w ms).mpr (h e he)

/-- A name of a field may stand for another. -/
theorem Object.rename (h : Object slots (.obj ((k, w) :: ms))) (k' : String)
    (hk : ∀ e ∈ slots, k ∈ e.names ↔ k' ∈ e.names) : Object slots (.obj ((k', w) :: ms)) := by
  rw [object_obj] at h ⊢
  intro e he
  by_cases hmem : k ∈ e.names
  · exact (Slot.spelled_cons_of_mem ((hk e he).mp hmem) w ms).mpr ((Slot.spelled_cons_of_mem hmem w ms).mp (h e he))
  · have hmem' : k' ∉ e.names := fun hmem' => hmem ((hk e he).mpr hmem')
    exact (Slot.spelled_cons_of_not_mem hmem' w ms).mpr ((Slot.spelled_cons_of_not_mem hmem w ms).mp (h e he))

/-- A field may be left out where its slot says so. -/
theorem Object.leaveOut (h : Object slots (.obj ((k, w) :: ms))) (ho : ∀ e ∈ slots, k ∈ e.names → e.omissible) :
    Object slots (.obj ms) := by
  rw [object_obj] at h ⊢
  intro e he
  by_cases hmem : k ∈ e.names
  · exact .inr ⟨ho e he hmem, ((Slot.spelled_cons_of_mem hmem w ms).mp (h e he)).2⟩
  · exact (Slot.spelled_cons_of_not_mem hmem w ms).mp (h e he)

theorem Object.respell (h : Object slots (.obj ((k, w) :: ms))) (w' : Json)
    (hw : ∀ e ∈ slots, k ∈ e.names → e.value w → e.value w') : Object slots (.obj ((k, w') :: ms)) := by
  rw [object_obj] at h ⊢
  intro e he
  by_cases hmem : k ∈ e.names
  · obtain ⟨hv, hrest⟩ := (Slot.spelled_cons_of_mem hmem w ms).mp (h e he)
    exact (Slot.spelled_cons_of_mem hmem w' ms).mpr ⟨hw e he hmem hv, hrest⟩
  · exact (Slot.spelled_cons_of_not_mem hmem w' ms).mpr ((Slot.spelled_cons_of_not_mem hmem w ms).mp (h e he))

end Json

open Json

/-! ## Spellings of the model's values -/

def Extent.Spelled (e : Extent) : Json → Prop :=
  Object [
    ⟨["start_line"], (· = .nat e.start.line), False⟩,
    ⟨["start_column"], (· = .nat e.start.column), False⟩,
    ⟨["end_line"], (· = .nat e.stop.line), False⟩,
    ⟨["end_column"], (· = .nat e.stop.column), False⟩,
    ⟨["text"], (· = .str e.text), False⟩]

def Symbol.Spelled (s : Symbol) : Json → Prop :=
  Object [
    ⟨["kind"], (· = .str s.kind.name), False⟩,
    ⟨["extent"], s.extent.Spelled, False⟩,
    ⟨["display_name"], (· = .str s.displayName), s.displayName = ""⟩]

namespace Script

mutual

/-- An absent label may also be written as null. -/
def Spelled : Script → Json → Prop
  | .function e name body =>
    Object [
      ⟨["extent"], e.Spelled, False⟩,
      ⟨["node"], Object [
        ⟨["type"], (· = .str "function_definition"), False⟩,
        ⟨["name"], (· = .str name), False⟩,
        ⟨["body"], Listed (spelledAll body), False⟩], False⟩]
  | .variableName e =>
    Object [
      ⟨["extent"], e.Spelled, False⟩,
      ⟨["node"], Object [⟨["type"], (· = .str "variable_expression"), False⟩], False⟩]
  | .other e label children =>
    Object [
      ⟨["extent"], e.Spelled, False⟩,
      ⟨["node"], Object [
        ⟨["type"], (· = .str "other"), False⟩,
        ⟨["label"], (· = Json.optional .str label), label = none⟩,
        ⟨["children"], Listed (spelledAll children), children = []⟩], False⟩]

def spelledAll : List Script → List (Json → Prop)
  | [] => []
  | t :: ts => Spelled t :: spelledAll ts

end

end Script

def AnalysisSettings.Spelled (s : AnalysisSettings) : Json → Prop :=
  Object [
    ⟨["enabled", "enable"], (· = Json.optional .bool s.enabled), s.enabled = none⟩,
    ⟨["settingsPath"], (· = Json.optional .str s.settingsPath), s.settingsPath = none⟩]

def ServerSettings.Spelled (s : ServerSettings) : Json → Prop :=
  Object [⟨["analysis", "scriptAnalysis"], s.analysis.Spelled, s.analysis = {}⟩]

def SettingsNotice.Spelled (n : SettingsNotice) : Json → Prop :=
  Object [⟨["Powershell", "powershell"], OrNull ServerSettings.Spelled n.server, n.server = none⟩]

def ParserConfig.Spelled (c : ParserConfig) : Json → Prop :=
  Object [⟨["max_file_size_mb"], (· = .nat c.maxFileSizeMb.toNat), c = {}⟩]

def OutputConfig.Spelled (c : OutputConfig) : Json → Prop :=
  Object [⟨["format"], (· = .str c.format), c = {}⟩]

def Config.Spelled (c : Config) : Json → Prop :=
  Object [
    ⟨["parser"], c.parser.Spelled, c.parser = {}⟩,
    ⟨["output"], c.output.Spelled, c.output = {}⟩,
    ⟨["settings"], c.settings.Spelled, c.settings = {}⟩]

/-! ## Written forms -/

theorem Extent.toJson_spelled (e : Extent) : e.Spelled e.toJson := by
  refine ⟨_, rfl, ?_⟩
  simp [Slot.Spelled, given]

theorem Symbol.toJson_spelled (s : Symbol) : s.Spelled s.toJson := by
  refine ⟨_, rfl, ?_⟩
  simp [Slot.Spelled, given, s.extent.toJson_spelled]

theorem AnalysisSettings.toJson_spelled (s : AnalysisSettings) : s.Spelled s.toJson := by
  refine ⟨_, rfl, ?_⟩
  simp [Slot.Spelled, given]

theorem ServerSettings.toJson_spelled (s : ServerSettings) : s.Spelled s.toJson := by
  refine ⟨_, rfl, ?_⟩
  simp [Slot.Spelled, given, s.analysis.toJson_spelled]

theorem SettingsNotice.toJson_spelled (n : SettingsNotice) : n.Spelled n.toJson := by
  refine ⟨_, rfl, ?_⟩
  obtain ⟨server⟩ := n
  cases server with
  | none => simp [Slot.Spelled, given, Json.optional, OrNull]
  | some s => simp [Slot.Spelled, given, Json.optional, OrNull, s.toJson_spelled]

theorem ParserConfig.toJson_spelled (c : ParserConfig) : c.Spelled c.toJson := by
  refine ⟨_, rfl, ?_⟩
  simp [Slot.Spelled, given]

theorem OutputConfig.toJson_spelled (c : OutputConfig) : c.Spelled c.toJson := by
  refine ⟨_, rfl, ?_⟩
  simp [Slot.Spelled, given]

theorem Config.toJson_spelled (c : Config) : c.Spelled c.toJson := by
  refine ⟨_, rfl, ?_⟩
  simp [Slot.Spelled, given, c.parser.toJson_spelled, c.output.toJson_spelled, c.settings.toJson_spelled]

namespace Script

mutual

theorem toJson_spelled (t : Script) : t.Spelled t.toJson := by
  cases t with
  | function e name body =>
    have hbody : Listed (spelledAll body) (.arr (toJsonAll body)) := ⟨_, rfl, toJsonAll_spelled body⟩
    rw [Spelled, toJson]
    refine ⟨_, rfl, ?_⟩
    simp [Slot.Spelled, given, e.toJson_spelled, Object, hbody]
  | variableName e =>
    rw [Spelled, toJson]
    refine ⟨_, rfl, ?_⟩
    simp [Slot.Spelled, given, e.toJson_spelled, Object]
  | other e label children =>
    have hchildren : Listed (spelledAll children) (.arr (toJsonAll children)) := ⟨_, rfl, toJsonAll_spelled children⟩
    cases label with
    | none =>
      rw [Spelled, toJson]
      refine ⟨_, rfl, ?_⟩
      simp [Slot.Spelled, given, e.toJson_spelled, Object, hchildren]
      rintro k w (⟨rfl, -⟩ | ⟨rfl, -⟩) <;> decide
    | some label =>
      rw [Spelled, toJson]
      refine ⟨_, rfl, ?_⟩
      simp [Slot.Spelled, given, e.toJson_spelled, Object, hchildren, Json.optional]

theorem toJsonAll_spelled (ts : List Script) : List.Forall₂ (fun p v => p v) (spelledAll ts) (toJsonAll ts) := by
  cases ts with
  | nil => exact .nil
  | cons t ts => exact .cons (toJson_spelled t) (toJsonAll_spelled ts)

end

end Script

end ShellDecl
